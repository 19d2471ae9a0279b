import PpoOS.Exec.Verify.Segments
import PpoOS.Mm.Verify.Spaces

/-!
# Data frames

The frames that programs reach are in use, are no tables, and are mapped once
(`DataFrames`).  With the forest of tables this is an invariant of everything
that makes, loads and takes down address spaces (`Sound`): each lemma here is
one such change.
-/

namespace PpoOS

open ByteMem FaultState

/-- A leaf that a program may reach: in the lower half, or accessible from user mode. -/
def Reachable (q : List Idx) (e : U64) : Prop :=
  (∀ i ∈ q.head?, i.toNat < 256) ∨ entryUser e = true

/-- The entry `e` is a leaf of root `r` that a program may reach. -/
structure DataLeaf (D : Ownership) (k : Kernel) (r : Nat) (q : List Idx) (i : Idx) (e : U64) :
    Prop where
  owned : D r q
  level : q.length = 3
  entry : lookup k.mem r q i = some e
  reach : Reachable q e

/-- The frames that programs reach are in use, are no tables, and are mapped once. -/
structure DataFrames (D : Ownership) (k : Kernel) : Prop where
  used : ∀ r q i e, DataLeaf D k r q i e → k.pmm.used (entryFrame e) = true
  data : ∀ r q i e, DataLeaf D k r q i e → ¬IsTable D k (entryFrame e)
  once : ∀ r q i e r' q' i' e', DataLeaf D k r q i e → DataLeaf D k r' q' i' e' →
    entryFrame e = entryFrame e' → r = r' ∧ q = q' ∧ i = i'

/-- The tables and the data frames of the owned trees are as they should be. -/
structure Sound (D : Ownership) (k : Kernel) : Prop where
  forest : Forest D k
  frames : DataFrames D k

section

variable {D D' : Ownership} {T : U64 → Prop} {own : Idx → Nat} {V : U64 → Prop} {c o d r : Nat}
  {k k' k₁ : Kernel} {js : List PageJob} {j : PageJob} {b : Bool} {va : U64} {rs : List Nat}

/-- No leaf has changed, and frames in use stayed in use. -/
theorem DataFrames.keep (h : DataFrames D k) (he : Evolves D k k')
    (hleaves : ∀ r q i, D r q → q.length = 3 → lookup k'.mem r q i = lookup k.mem r q i) :
    DataFrames D k' := by
  have hback : ∀ r q i e, DataLeaf D k' r q i e → DataLeaf D k r q i e := fun r q i e hl =>
    ⟨hl.owned, hl.level, (hleaves r q i hl.owned hl.level).symm.trans hl.entry, hl.reach⟩
  refine ⟨fun r q i e hl => he.used _ (h.used r q i e (hback r q i e hl)), ?_, ?_⟩
  · intro r q i e hl
    have hl' := hback r q i e hl
    exact (he.keep_data (h.used r q i e hl') (h.data r q i e hl')).1
  · intro r q i e r' q' i' e' hl hl'
    exact h.once r q i e r' q' i' e' (hback r q i e hl) (hback r' q' i' e' hl')

theorem Sound.stalls (h : Sound D k) (hs : Stalls D k k') : Sound D k' :=
  ⟨hs.forest, h.frames.keep hs.toEvolves hs.leaves⟩

/-- A fresh frame was mapped. -/
theorem Sound.loads (h : Sound D k) (hl : Loads D T o j k k' d)
    (hplain : j.flags.extractLsb' 12 40 = 0#40) : Sound D k' := by
  have hframe : entryFrame (frameAddr d ||| j.flags) = d :=
    entryFrame_or (Nat.lt_trans hl.frame.lt (by omega)) hplain
  -- a leaf is the new one, or was there before
  have hcases : ∀ r q i e, DataLeaf D k' r q i e →
      (r = o ∧ q = tablePath j.va ∧ i = leafIdx j.va ∧ entryFrame e = d) ∨
        DataLeaf D k r q i e := by
    intro r q i e hleaf
    by_cases hnew : r = o ∧ q = tablePath j.va ∧ i = leafIdx j.va
    · obtain ⟨rfl, rfl, rfl⟩ := hnew
      have he := hl.leaf.symm.trans hleaf.entry
      obtain ⟨-, rfl⟩ := entryLeaf_eq_some.mp he
      exact Or.inl ⟨rfl, rfl, rfl, hframe⟩
    · exact Or.inr ⟨hleaf.owned, hleaf.level,
        (hl.others r q i hleaf.owned hleaf.level hnew).symm.trans hleaf.entry, hleaf.reach⟩
  have hold : ∀ r q i e, DataLeaf D k r q i e → entryFrame e ≠ d := by
    intro r q i e hleaf hd
    have hu := h.frames.used r q i e hleaf
    rw [hd, hl.frame.2.2] at hu
    cases hu
  refine ⟨hl.forest, ⟨?_, ?_, ?_⟩⟩
  · intro r q i e hleaf
    rcases hcases r q i e hleaf with ⟨-, -, -, hd⟩ | hleaf'
    · rw [hd]
      exact hl.taken
    · exact hl.used _ (h.frames.used r q i e hleaf')
  · intro r q i e hleaf
    rcases hcases r q i e hleaf with ⟨-, -, -, hd⟩ | hleaf'
    · rw [hd]
      exact hl.data
    · exact (hl.toEvolves.keep_data (h.frames.used r q i e hleaf')
        (h.frames.data r q i e hleaf')).1
  · intro r q i e r' q' i' e' hleaf hleaf' heq
    rcases hcases r q i e hleaf with ⟨hr, hq, hi, hd⟩ | hleaf
    · rcases hcases r' q' i' e' hleaf' with ⟨hr', hq', hi', -⟩ | hleaf'
      · exact ⟨hr.trans hr'.symm, hq.trans hq'.symm, hi.trans hi'.symm⟩
      · exact absurd (heq.symm.trans hd) (hold r' q' i' e' hleaf')
    · rcases hcases r' q' i' e' hleaf' with ⟨-, -, -, hd⟩ | hleaf'
      · exact absurd (heq.trans hd) (hold r q i e hleaf)
      · exact h.frames.once r q i e r' q' i' e' hleaf hleaf' heq

theorem Sound.log (h : Sound D k) (rs : List U64) : Sound D (k.log rs) :=
  ⟨h.forest.log rs, h.frames.keep ((Evolves.refl h.forest).log rs) fun _ _ _ _ _ => rfl⟩

theorem Sound.loaded (h : Sound D k) (hl : Loaded D T own k js k')
    (hplain : ∀ j ∈ js, j.flags.extractLsb' 12 40 = 0#40) : Sound D k' := by
  induction hl with
  | nil => exact h
  | log _ _ ih => exact (ih hplain).log _
  | @page js j _ _ _ _ hload ih =>
    exact (ih fun j' hj' => hplain j' (by simp [hj'])).loads hload (hplain j (by simp))

theorem Sound.outcome (h : Sound D k) (hl : LoadOutcome D T own k js b k')
    (hplain : ∀ j ∈ js, j.flags.extractLsb' 12 40 = 0#40) : Sound D k' := by
  cases hl with
  | all hl => exact h.loaded hl hplain
  | stalled hl hs =>
    have hdone := h.loaded hl fun j hj => hplain j (by simp [hj])
    exact hdone.stalls hs.toStalls

/-- Bytes outside the tables may change. -/
theorem Sound.write (h : Sound D k) {m : Mem}
    (hm : ∀ b, IsTable D k (frameOf b) → m b = k.mem b) : Sound D (k.setMem m) := by
  have hforest : Forest D (k.setMem m) := h.forest.agree hm fun f hf => (h.forest.live f hf).2
  have htab : ∀ f, IsTable D (k.setMem m) f ↔ IsTable D k f := fun f => h.forest.isTable_agree hm
  have hback : ∀ r q i e, DataLeaf D (k.setMem m) r q i e → DataLeaf D k r q i e :=
    fun r q i e hl => ⟨hl.owned, hl.level,
      (h.forest.lookup_agree hm hl.owned (Nat.le_of_eq hl.level) i).symm.trans hl.entry, hl.reach⟩
  refine ⟨hforest, ⟨?_, ?_, ?_⟩⟩
  · exact fun r q i e hl => h.frames.used r q i e (hback r q i e hl)
  · exact fun r q i e hl hc => h.frames.data r q i e (hback r q i e hl) ((htab _).mp hc)
  · exact fun r q i e r' q' i' e' hl hl' =>
      h.frames.once r q i e r' q' i' e' (hback r q i e hl) (hback r' q' i' e' hl')

/-- The other variables of the kernel do not matter. -/
theorem Sound.congr (h : Sound D k) (hm : k'.mem = k.mem) (hp : k'.pmm = k.pmm) : Sound D k' := by
  cases k
  cases k'
  cases hm
  cases hp
  exact ⟨⟨h.forest.closed, h.forest.separated, h.forest.live, h.forest.plain⟩,
    ⟨fun r q i e hl => h.frames.used r q i e ⟨hl.owned, hl.level, hl.entry, hl.reach⟩,
      fun r q i e hl => h.frames.data r q i e ⟨hl.owned, hl.level, hl.entry, hl.reach⟩,
      fun r q i e r' q' i' e' hl hl' => h.frames.once r q i e r' q' i' e'
        ⟨hl.owned, hl.level, hl.entry, hl.reach⟩ ⟨hl'.owned, hl'.level, hl'.entry, hl'.reach⟩⟩⟩

/-- A new root joins, with nothing below it yet. -/
theorem Sound.create (h : Sound D k) (hc : Creates k k' c) (hclosed : Radix.PrefixClosed D')
    (hD' : ∀ r q, D' r q → D r q ∨ r = c)
    (hempty : ∀ i q, D' c (i :: q) → entryPresent (tableAt k'.mem c i) = false) : Sound D' k' := by
  have hforest := h.forest.create hc hclosed hD' hempty
  have hback : ∀ r q i e, DataLeaf D' k' r q i e → DataLeaf D k r q i e := by
    intro r q i e hl
    rcases hD' r q hl.owned with hd | hr
    · exact ⟨hd, hl.level, (h.forest.lookup_agree (hc.tables h.forest) hd (Nat.le_of_eq hl.level)
        i).symm.trans hl.entry, hl.reach⟩
    · have hlen := hl.level
      have hentry := hl.entry
      have howned := hl.owned
      subst hr
      cases q with
      | nil => cases hlen
      | cons j q =>
        have hchild : entryChild (tableAt k'.mem r j) = none :=
          entryChild_eq_none.mpr (hempty j q howned)
        simp [lookup, Radix.lookup, Radix.walk, hchild] at hentry
  have hfresh : ∀ r q i e, DataLeaf D k r q i e → entryFrame e ≠ c := by
    intro r q i e hl hec
    have hu := h.frames.used r q i e hl
    rw [hec, hc.free.2.2] at hu
    cases hu
  refine ⟨hforest, ⟨?_, ?_, ?_⟩⟩
  · intro r q i e hl
    rw [hc.used, h.frames.used r q i e (hback r q i e hl), Bool.or_true]
  · intro r q i e hl htab
    have hl' := hback r q i e hl
    rcases hc.isTable h.forest hD' hempty htab with ht | ht
    · exact h.frames.data r q i e hl' ht
    · exact hfresh r q i e hl' ht
  · exact fun r q i e r' q' i' e' hl hl' =>
      h.frames.once r q i e r' q' i' e' (hback r q i e hl) (hback r' q' i' e' hl')

/-- Part of the trees. -/
theorem Forest.restrict (h : Forest D k) (hclosed : Radix.PrefixClosed D')
    (hsub : ∀ r q, D' r q → D r q) : Forest D' k where
  closed := hclosed
  separated := fun r q r' q' f hq hq' => h.separated (hsub r q hq) (hsub r' q' hq')
  live := by
    rintro f ⟨r, q, hq, hl, hw⟩
    exact h.live f ⟨r, q, hsub r q hq, hl, hw⟩
  plain := fun r q i f hq => h.plain r q i f (hsub r _ hq)

theorem Sound.restrict (h : Sound D k) (hclosed : Radix.PrefixClosed D')
    (hsub : ∀ r q, D' r q → D r q) : Sound D' k := by
  have htab : ∀ f, IsTable D' k f → IsTable D k f := by
    rintro f ⟨r, q, hq, hl, hw⟩
    exact ⟨r, q, hsub r q hq, hl, hw⟩
  have hleaf : ∀ r q i e, DataLeaf D' k r q i e → DataLeaf D k r q i e :=
    fun r q i e hl => ⟨hsub r q hl.owned, hl.level, hl.entry, hl.reach⟩
  refine ⟨h.forest.restrict hclosed hsub, ⟨?_, ?_, ?_⟩⟩
  · exact fun r q i e hl => h.frames.used r q i e (hleaf r q i e hl)
  · exact fun r q i e hl hc => h.frames.data r q i e (hleaf r q i e hl) (htab _ hc)
  · exact fun r q i e r' q' i' e' hl hl' =>
      h.frames.once r q i e r' q' i' e' (hleaf r q i e hl) (hleaf r' q' i' e' hl')

/-! ## Frames of tables -/

/-- The frames of the tables are marked used. -/
def TablesUsed (D : Ownership) (k : Kernel) : Prop := ∀ f, IsTable D k f → k.pmm.used f = true

theorem TablesUsed.evolves (h : TablesUsed D' k) (hsub : ∀ r q, D' r q → D r q)
    (he : Evolves D k k') : TablesUsed D' k' := by
  rintro f ⟨r, q, hq, hl, hw⟩
  rcases he.fresh r q f (hsub r q hq) hl hw with hw' | ⟨-, hu⟩
  · exact he.used f (h f ⟨r, q, hq, hl, hw'⟩)
  · exact hu

theorem TablesUsed.create (h : TablesUsed D k) (hf : Forest D k) (hc : Creates k k' c)
    (hD' : ∀ r q, D' r q → D r q ∨ r = c)
    (hempty : ∀ i q, D' c (i :: q) → entryPresent (tableAt k'.mem c i) = false) :
    TablesUsed D' k' := by
  intro f hft
  rw [hc.used]
  rcases hc.isTable hf hD' hempty hft with ht | rfl
  · rw [h f ht, Bool.or_true]
  · rw [decide_eq_true rfl, Bool.true_or]

/-! ## Giving a page back -/

theorem frameOf_leafAddress (e va : U64) : frameOf (leafAddress (some e) va) = e.toNat / 4096 := by
  have hoff : va.toNat % 4096 < 4096 := Nat.mod_lt _ (by omega)
  have hpage : (e &&& pageMask).toNat = 4096 * (e.toNat / 4096) := by
    rw [and_pageMask_toNat, Nat.mul_comm]
  rw [leafAddress, frameOf, BitVec.toNat_or, hpage, and_not_pageMask_toNat,
    ← frame_add_eq_or hoff]
  omega

/-- Freeing the address of a leaf frees the frame of the leaf, or nothing. -/
theorem pmmFreeFrame_leafAddress {p : Pmm} {e : U64} {g : Nat} (hg : g ≠ entryFrame e) :
    (pmmFreeFrame (leafAddress (some e) va) p).used g = p.used g := by
  by_cases hfg : g = frameOf (leafAddress (some e) va)
  · have hlt := p.maxBits_le
    have hframe := frameOf_leafAddress e va
    rw [entryFrame_eq] at hg
    -- the frame is beyond the bitmap, for the address has more bits than an entry
    have hbig : ¬g < p.maxBits := by omega
    have hnot : ¬((leafAddress (some e) va).toNat % 4096 = 0 ∧
        g = (leafAddress (some e) va).toNat / 4096 ∧ g < p.maxBits) := fun hc => hbig hc.2.2
    rw [pmmFreeFrame_used, decide_eq_false hnot, Bool.not_false, Bool.true_and]
  · exact pmmFreeFrame_other hfg

/-- Data frames of root `o` were given back and their leaves cleared; the tables are as before. -/
structure Frees (D : Ownership) (o : Nat) (k k' : Kernel) : Prop where
  sound : Sound D k'
  walks : ∀ r q, D r q → q.length ≤ 3 → walk k'.mem r q = walk k.mem r q
  used : ∀ f, IsTable D k f → k'.pmm.used f = k.pmm.used f
  rest : k' = { k with mem := k'.mem, pmm := k'.pmm }
  roots : ∀ r i, D r [] → entryPresent (tableAt k.mem r i) = true ∨ ¬D r [i] →
    tableAt k'.mem r i = tableAt k.mem r i
  leaves : ∀ r q i, D r q → q.length = 3 → r ≠ o → lookup k'.mem r q i = lookup k.mem r q i

theorem Frees.refl (h : Sound D k) : Frees D o k k :=
  ⟨h, fun _ _ _ _ => rfl, fun _ _ => rfl, rfl, fun _ _ _ _ => rfl, fun _ _ _ _ _ _ => rfl⟩

theorem Frees.trans (h : Frees D o k k₁) (h' : Frees D o k₁ k') : Frees D o k k' := by
  refine ⟨h'.sound, fun r q hq hl => (h'.walks r q hq hl).trans (h.walks r q hq hl), ?_, ?_, ?_,
    fun r q i hq hl hr => (h'.leaves r q i hq hl hr).trans (h.leaves r q i hq hl hr)⟩
  · rintro f ⟨r, q, hq, hl, hw⟩
    rw [h'.used f ⟨r, q, hq, hl, (h.walks r q hq hl).trans hw⟩, h.used f ⟨r, q, hq, hl, hw⟩]
  · rw [h'.rest, h.rest]
  · intro r i hr hp
    have hri := h.roots r i hr hp
    rw [h'.roots r i hr (by rw [hri]; exact hp), hri]

theorem TablesUsed.frees (h : TablesUsed D' k) (hsub : ∀ r q, D' r q → D r q) (hf : Frees D o k k') :
    TablesUsed D' k' := by
  rintro f ⟨r, q, hq, hl, hw⟩
  have hw' := (hf.walks r q (hsub r q hq) hl).symm.trans hw
  rw [hf.used f ⟨r, q, hsub r q hq, hl, hw'⟩, h f ⟨r, q, hq, hl, hw'⟩]

/-- One page of the clean-up: its frame, if it has one, is freed and its leaf cleared. -/
theorem execFreeStackPage_spec (h : Sound D k) (hw : Owns D k r va o) (hva : UserHalf va) :
    ∃ k', (execFreeStackPage (frameAddr r) va).run k = some ((), k') ∧ Frees D o k k' := by
  have hget := vmmGetPhysicalAddress_spec h.forest hw
  rw [execFreeStackPage, run_bind_eq hget]
  by_cases h0 : leafAddress (translate k.mem o va) va = 0#64
  · rw [if_neg (not_not.mpr h0)]
    exact ⟨k, rfl, Frees.refl h⟩
  · rw [if_pos h0]
    cases ht : translate k.mem o va with
    | none =>
      rw [ht] at h0
      exact absurd rfl h0
    | some e =>
      have hreach : Reachable (tablePath va) e := by
        refine Or.inl fun i hi => ?_
        cases hi
        exact hva
      have hleaf : DataLeaf D k o (tablePath va) (leafIdx va) e := ⟨hw.path, rfl, ht, hreach⟩
      have hdata := h.frames.data _ _ _ _ hleaf
      have hkeep : ∀ f, f ≠ entryFrame e →
          (pmmFreeFrame (leafAddress (some e) va) k.pmm).used f = k.pmm.used f :=
        fun f hf => pmmFreeFrame_leafAddress hf
      have htabu : ∀ f, IsTable D k f →
          (pmmFreeFrame (leafAddress (some e) va) k.pmm).used f = k.pmm.used f :=
        fun f hf => hkeep f fun hc => hdata (hc ▸ hf)
      -- after the frame was freed
      have hforest₁ : Forest D (k.setPmm (pmmFreeFrame (leafAddress (some e) va) k.pmm)) := by
        refine h.forest.agree (fun _ _ => rfl) fun f hf hfree => (h.forest.live f hf).2 ?_
        obtain ⟨hlow, hmax, hbit⟩ := hfree
        rw [Kernel.setPmm_pmm, pmmFreeFrame_maxBits] at hmax
        rw [Kernel.setPmm_pmm, htabu f hf] at hbit
        exact ⟨hlow, hmax, hbit⟩
      have hw₁ : Owns D (k.setPmm (pmmFreeFrame (leafAddress (some e) va) k.pmm)) r va o :=
        ⟨hw.path, hw.root, hw.same⟩
      obtain ⟨k₂, hunmap, hu⟩ := vmmUnmapPage_spec hforest₁ hw₁
      have hback : ∀ r' q i e', DataLeaf D k₂ r' q i e' →
          ¬(r' = o ∧ q = tablePath va ∧ i = leafIdx va) ∧ DataLeaf D k r' q i e' := by
        intro r' q i e' hl
        by_cases hnew : r' = o ∧ q = tablePath va ∧ i = leafIdx va
        · obtain ⟨rfl, rfl, rfl⟩ := hnew
          have hc := hu.leaf.symm.trans hl.entry
          cases hc
        · exact ⟨hnew, hl.owned, hl.level,
            (hu.others r' q i hl.owned hl.level hnew).symm.trans hl.entry, hl.reach⟩
      have htab : ∀ f, IsTable D k₂ f ↔ IsTable D k f := by
        intro f
        constructor
        · rintro ⟨r', q, hq, hl, hwk⟩
          exact ⟨r', q, hq, hl, (hu.walks r' q hq hl).symm.trans hwk⟩
        · rintro ⟨r', q, hq, hl, hwk⟩
          exact ⟨r', q, hq, hl, (hu.walks r' q hq hl).trans hwk⟩
      have hpmm : k₂.pmm = pmmFreeFrame (leafAddress (some e) va) k.pmm := hu.pmm
      refine ⟨k₂, (run_bind_eq (pmmFree_run _ k)).trans hunmap, ⟨hu.forest, ⟨?_, ?_, ?_⟩⟩, hu.walks, ?_,
        ?_, hu.roots, fun r' q i hq hl hr => hu.others r' q i hq hl fun hc => hr hc.1⟩
      · intro r' q i e' hl
        obtain ⟨hne, hl'⟩ := hback r' q i e' hl
        have hfe : entryFrame e' ≠ entryFrame e :=
          fun hc => hne (h.frames.once _ _ _ _ _ _ _ _ hl' hleaf hc)
        rw [hpmm, hkeep _ hfe]
        exact h.frames.used _ _ _ _ hl'
      · intro r' q i e' hl hc
        exact h.frames.data _ _ _ _ (hback r' q i e' hl).2 ((htab _).mp hc)
      · intro r' q i e' r'' q' i' e'' hl hl'
        exact h.frames.once _ _ _ _ _ _ _ _ (hback r' q i e' hl).2 (hback r'' q' i' e'' hl').2
      · intro f hf
        rw [hpmm, htabu f hf]
      · have hrest := hu.rest
        have hreads := hu.reads
        rw [hrest, hreads]
        rfl

/-- The clean-up loop. -/
theorem execFreeStackPages_spec {vas : List U64} (hvas : ∀ va ∈ vas, UserHalf va)
    (hr : ∀ va, UserHalf va → D r (tablePath va)) : ∀ {k}, Sound D k →
      ∃ k', (vas.forM fun va => execFreeStackPage (frameAddr r) va).run k = some ((), k') ∧
        Frees D r k k' := by
  induction vas with
  | nil => exact fun h => ⟨_, rfl, Frees.refl h⟩
  | cons va vas ih =>
    intro k h
    have hva := hvas va (by simp)
    obtain ⟨k₁, hrun, hfree⟩ := execFreeStackPage_spec h (Owns.self h.forest (hr va hva)) hva
    obtain ⟨k₂, hrest, hfrees⟩ := ih (fun va' hva' => hvas va' (by simp [hva'])) hfree.sound
    exact ⟨k₂, (run_bind_eq hrun).trans hrest, hfree.trans hfrees⟩

/-- The stack pages lie below 2 GiB. -/
theorem stackVaddrs_lt {va : U64} (h : va ∈ stackVaddrs) :
    0x7FFF8000 ≤ va.toNat ∧ va.toNat < 0x80000000 ∧ va.toNat % 4096 = 0 := by
  obtain ⟨i, hi, rfl⟩ := List.mem_map.mp h
  have hi8 := List.mem_range.mp hi
  have hbottom : userStackBottomVaddr.toNat = 0x7FFF8000 := by decide
  have h4096 : pageSize.toNat = 4096 := by decide
  have h8 : userStackPages = 8 := rfl
  rw [BitVec.toNat_add, BitVec.toNat_mul, BitVec.toNat_ofNat, hbottom, h4096]
  omega

theorem stackVaddrs_user : ∀ va ∈ stackVaddrs, UserHalf va := by
  intro va hva
  have hlt := (stackVaddrs_lt hva).2.1
  exact userHalf_of_lt (by omega)

/-- **The clean-up** after a program has come back. -/
theorem execCleanup_spec {u : UserEntry} (h : Sound D k) (hu : u.userPml4 = frameAddr r)
    (hr : ∀ va, UserHalf va → D r (tablePath va)) :
    ∃ k', (execCleanup u).run k = some ((), k') ∧ Frees D r { k with cr3 := u.kernelPml4 } k' := by
  have h₁ : Sound D { k with cr3 := u.kernelPml4 } := h.congr rfl rfl
  obtain ⟨k', hrun, hf⟩ := execFreeStackPages_spec stackVaddrs_user hr h₁
  refine ⟨k', ?_, hf⟩
  rw [execCleanup, hu]
  exact hrun

end

end PpoOS
