import PpoOS.Mm.Verify.Tables

/-!
# Growing the page tables

`Evolves D k k'` is what the loading code may do to a kernel state: it takes
frames that were free and writes to them and to the tables, and to nothing else.
`Grows D k k'` is the part of it that links fresh empty tables: it also leaves
every leaf as it was.  The main result is `vmmDescend_spec`: walking down a path
and allocating what is missing grows the tables by exactly the prefixes of the
path, or fails because fewer frames are free than are missing.
-/

namespace PpoOS

open ByteMem FaultState

/-- The present upper entries are accessible from user mode. -/
def UserTables (D : Ownership) (k : Kernel) : Prop :=
  ∀ r q i f, D r (q ++ [i]) → q.length < 3 → walk k.mem r q = some f →
    entryPresent (tableAt k.mem f i) = true → entryUser (tableAt k.mem f i) = true

/-- What loading may do to the kernel state. -/
structure Evolves (D : Ownership) (k k' : Kernel) : Prop where
  forest : Forest D k'
  tables : ∀ r q f, D r q → q.length ≤ 3 → walk k.mem r q = some f → walk k'.mem r q = some f
  fresh : ∀ r q f, D r q → q.length ≤ 3 → walk k'.mem r q = some f →
    walk k.mem r q = some f ∨ (k.pmm.Free f ∧ k'.pmm.used f = true)
  used : ∀ f, k.pmm.used f = true → k'.pmm.used f = true
  maxBits : k'.pmm.maxBits = k.pmm.maxBits
  memory : ∀ b, ¬k.pmm.Free (frameOf b) → ¬IsTable D k (frameOf b) → k'.mem b = k.mem b
  roots : ∀ r i, D r [] → entryPresent (tableAt k.mem r i) = true ∨ ¬D r [i] →
    tableAt k'.mem r i = tableAt k.mem r i
  users : ∀ D' : Ownership, (∀ r q, D' r q → D r q) → UserTables D' k → UserTables D' k'
  rest : k' = { k with mem := k'.mem, pmm := k'.pmm, reads := k'.reads }

namespace Evolves

variable {D : Ownership} {k k' k'' : Kernel}

theorem refl (h : Forest D k) : Evolves D k k where
  forest := h
  tables := fun _ _ _ _ _ hw => hw
  fresh := fun _ _ _ _ _ hw => Or.inl hw
  used := fun _ hu => hu
  maxBits := rfl
  memory := fun _ _ _ => rfl
  roots := fun _ _ _ _ => rfl
  users := fun _ _ hu => hu
  rest := rfl

/-- What is free afterwards was free before. -/
theorem free (h : Evolves D k k') {f : Nat} (hf : k'.pmm.Free f) : k.pmm.Free f := by
  obtain ⟨hlow, hmax, hbit⟩ := hf
  refine ⟨hlow, by rw [← h.maxBits]; exact hmax, ?_⟩
  cases hu : k.pmm.used f with
  | false => rfl
  | true =>
    rw [h.used f hu] at hbit
    cases hbit

/-- A table afterwards was a table or a free frame before. -/
theorem isTable (h : Evolves D k k') {f : Nat} (hf : IsTable D k' f) :
    IsTable D k f ∨ (k.pmm.Free f ∧ k'.pmm.used f = true) := by
  obtain ⟨r, q, hD, hl, hw⟩ := hf
  rcases h.fresh r q f hD hl hw with hw' | hfree
  · exact Or.inl ⟨r, q, hD, hl, hw'⟩
  · exact Or.inr hfree

theorem trans (h : Evolves D k k') (h' : Evolves D k' k'') : Evolves D k k'' where
  forest := h'.forest
  tables := fun r q f hD hl hw => h'.tables r q f hD hl (h.tables r q f hD hl hw)
  fresh := by
    intro r q f hD hl hw
    rcases h'.fresh r q f hD hl hw with hw' | ⟨hfree, hu⟩
    · rcases h.fresh r q f hD hl hw' with hw'' | ⟨hfree, hu⟩
      · exact Or.inl hw''
      · exact Or.inr ⟨hfree, h'.used f hu⟩
    · exact Or.inr ⟨h.free hfree, hu⟩
  used := fun f hu => h'.used f (h.used f hu)
  maxBits := h'.maxBits.trans h.maxBits
  memory := by
    intro b hfree htab
    have htab' : ¬IsTable D k' (frameOf b) := by
      intro hc
      rcases h.isTable hc with hc' | ⟨hc', -⟩
      · exact htab hc'
      · exact hfree hc'
    rw [h'.memory b (fun hc => hfree (h.free hc)) htab', h.memory b hfree htab]
  roots := by
    intro r i hD hp
    have hr := h.roots r i hD hp
    rw [h'.roots r i hD (by rw [hr]; exact hp), hr]
  users := fun D' hsub hu => h'.users D' hsub (h.users D' hsub hu)
  rest := by
    rw [h'.rest, h.rest]

end Evolves

/-- Growing: loading that touches no leaf. -/
structure Grows (D : Ownership) (k k' : Kernel) : Prop extends Evolves D k k' where
  leaves : ∀ r q i, D r q → q.length = 3 → lookup k'.mem r q i = lookup k.mem r q i
  idle : ∀ b, k'.pmm.Free (frameOf b) → k'.mem b = k.mem b
  reads : k'.reads = k.reads

namespace Grows

variable {D : Ownership} {k k' k'' : Kernel}

theorem refl (h : Forest D k) : Grows D k k := 
  ⟨Evolves.refl h, fun _ _ _ _ _ => rfl, fun _ _ => rfl, rfl⟩

theorem trans (h : Grows D k k') (h' : Grows D k' k'') : Grows D k k'' :=
  ⟨h.toEvolves.trans h'.toEvolves,
    fun r q i hD hl => (h'.leaves r q i hD hl).trans (h.leaves r q i hD hl),
    fun b hb => (h'.idle b hb).trans (h.idle b (h'.toEvolves.free hb)),
    h'.reads.trans h.reads⟩

end Grows

/-! ## Linking one table -/

section Link

variable {D : Ownership} {k : Kernel} {r t : Nat} {p : List Idx} {j : Idx}

/-- The memory after a fresh frame was zeroed and linked. -/
def linkMem (m : Mem) (t : Nat) (j : Idx) (c : Nat) : Mem :=
  store64 (fill m (frameAddr c) 4096 0#8) (entryAddr t j) (tableEntryOf (frameAddr c))

theorem tableAt_linkMem (m : Mem) {c g : Nat} (ht : t < frameBound) (hc : c < frameBound)
    (hg : g < frameBound) (i : Idx) :
    tableAt (linkMem m t j c) g i =
      if g = t ∧ i = j then tableEntryOf (frameAddr c) else if g = c then 0#64 else tableAt m g i := by
  rw [linkMem, tableAt_store64 _ ht hg, tableAt_fill _ hc hg]

theorem linkMem_outside (m : Mem) {c : Nat} {b : U64} (ht : t < frameBound) (hc : c < frameBound)
    (hbt : frameOf b ≠ t) (hbc : frameOf b ≠ c) : linkMem m t j c b = m b := by
  have hj := j.isLt
  have ha : (entryAddr t j).toNat = t * 4096 + 8 * j.toNat := by
    unfold frameBound at ht
    exact entryAddr_toNat (by omega)
  have hc' : (frameAddr c).toNat = c * 4096 + 0 := by
    unfold frameBound at hc
    rw [frameAddr_toNat (by omega), Nat.add_zero]
  rw [linkMem, store64, blit_frame_outside _ ht ha (by omega) hbt, fill,
    blit_frame_outside _ hc hc' (by omega) hbc]

/-- The link is a link of the radix forest. -/
theorem link_of_alloc (h : Forest D k) (hD : D r (p ++ [j])) (hp : p.length < 3)
    (ht : walk k.mem r p = some t) (ha : entryPresent (tableAt k.mem t j) = false) {c : Nat}
    (hc : k.pmm.Free c) :
    Radix.Link entryChild entryLeaf (tableAt k.mem) (tableAt (linkMem k.mem t j c)) D 3 r p t j c := by
  have htab : IsTable D k t := ⟨r, p, h.closed hD, by omega, ht⟩
  obtain ⟨htb, htf⟩ := h.live t htab
  have hcb : c < frameBound := Nat.lt_trans hc.lt (by unfold frameBound; omega)
  have hct : c ≠ t := fun hct => htf (hct ▸ hc)
  have hcf : c < 2 ^ 40 := Nat.lt_trans hc.lt (by omega)
  refine ⟨hD, ht, hp, entryChild_eq_none.mpr ha, fun ho => (h.live c ho).2 hc, ?_, ?_, ?_, ?_⟩
  · rw [tableAt_linkMem _ htb hcb htb, if_pos ⟨rfl, rfl⟩,
      entryChild_of_present (entryPresent_tableEntryOf _), entryFrame_tableEntryOf hcf]
  · intro i
    rw [tableAt_linkMem _ htb hcb hcb, if_neg (fun hc => hct hc.1), if_pos rfl, entryChild_zero]
  · intro i
    rw [tableAt_linkMem _ htb hcb hcb, if_neg (fun hc => hct hc.1), if_pos rfl, entryLeaf_zero]
  · intro f i hf hne
    obtain ⟨hfb, hff⟩ := h.live f hf
    have hfc : f ≠ c := fun hfc => hff (hfc ▸ hc)
    rw [tableAt_linkMem _ htb hcb hfb, if_neg hne, if_neg hfc]

/-- Allocating, zeroing and linking a table grows the tables. -/
theorem grows_link (h : Forest D k) (hD : D r (p ++ [j])) (hp : p.length < 3)
    (ht : walk k.mem r p = some t) (ha : entryPresent (tableAt k.mem t j) = false) {c : Nat}
    (hc : k.pmm.Free c) {pm : Pmm} (hmax : pm.maxBits = k.pmm.maxBits)
    (hused : ∀ g, pm.used g = (decide (g = c) || k.pmm.used g)) :
    Grows D k ((k.setPmm pm).setMem (linkMem k.mem t j c)) := by
  have hlink := link_of_alloc h hD hp ht ha hc
  have htab : IsTable D k t := ⟨r, p, h.closed hD, by omega, ht⟩
  obtain ⟨htb, htf⟩ := h.live t htab
  have hcb : c < frameBound := Nat.lt_trans hc.lt (by unfold frameBound; omega)
  have hcu : pm.used c = true := by simp [hused]
  have hback : ∀ r' q f, D r' q → q.length ≤ 3 → walk (linkMem k.mem t j c) r' q = some f →
      walk k.mem r' q = some f ∨ f = c := by
    intro r' q f hq hl hw
    rcases Radix.walk_link_some h.closed h.separated hlink hq (by omega) hw with hw' | ⟨-, -, hfc⟩
    · exact Or.inl hw'
    · exact Or.inr hfc
  have hlive : ∀ f, IsTable D ((k.setPmm pm).setMem (linkMem k.mem t j c)) f →
      f < frameBound ∧ ¬pm.Free f := by
    intro f hf
    obtain ⟨r', q, hq, hl, hw⟩ := hf
    rw [Pmm.free_of_marked hmax hused]
    rcases hback r' q f hq hl hw with hw' | hfc
    · obtain ⟨hfb, hff⟩ := h.live f ⟨r', q, hq, hl, hw'⟩
      exact ⟨hfb, fun hc => hff hc.2⟩
    · exact ⟨hfc ▸ hcb, fun hne => hne.1 hfc⟩
  refine ⟨⟨⟨h.closed, Radix.separated_link h.closed h.separated hlink, hlive, ?_⟩, ?_, ?_, ?_,
    hmax, ?_, ?_, ?_, rfl⟩, ?_, ?_, rfl⟩
  · intro r' q i f hq hl hw hpres
    have hq' : D r' q := h.closed hq
    have hfb := (hlive f ⟨r', q, hq', by omega, hw⟩).1
    simp only [Kernel.setMem_mem, tableAt_linkMem _ htb hcb hfb] at hw hpres ⊢
    split
    · have hc' := hc.lt
      rw [tableEntryOf_toNat (by omega)]
      omega
    · next hne =>
      rw [if_neg hne] at hpres
      split
      · next hfc => simp [hfc] at hpres
      · next hfc =>
        rw [if_neg hfc] at hpres
        rcases hback r' q f hq' (by omega) hw with hw' | hfc'
        · exact h.plain r' q i f hq hl hw' hpres
        · exact absurd hfc' hfc
  · intro r' q f hq hl hw
    exact Radix.walk_link_mono h.closed h.separated hlink hq (by omega) hw
  · intro r' q f hq hl hw
    rcases hback r' q f hq hl hw with hw' | hfc
    · exact Or.inl hw'
    · rw [hfc]
      exact Or.inr ⟨hc, hcu⟩
  · intro f hu
    simp [hused, hu]
  · intro b hbf hbt
    have hbt' : frameOf b ≠ t := fun hb => hbt (hb ▸ htab)
    have hbc : frameOf b ≠ c := fun hb => hbf (hb ▸ hc)
    exact linkMem_outside _ htb hcb hbt' hbc
  · intro r' i hr hpres
    obtain ⟨hrb, hrf⟩ := h.live r' ⟨r', [], hr, Nat.zero_le _, rfl⟩
    have hrc : r' ≠ c := fun hrc => hrf (hrc ▸ hc)
    have hne : ¬(r' = t ∧ i = j) := by
      intro hrt
      obtain ⟨hrr, hpn⟩ := h.separated hr (h.closed hD) (by simp) (by omega) rfl (hrt.1 ▸ ht)
      rcases hpres with hpres | hnot
      · rw [hrt.1, hrt.2, ha] at hpres
        cases hpres
      · rw [← hpn, ← hrr, ← hrt.2] at hD
        exact hnot hD
    rw [Kernel.setMem_mem, tableAt_linkMem _ htb hcb hrb, if_neg hne, if_neg hrc]
  · intro D' hsub hu r' q i f hq hl hw hpres
    have hq' : D r' q := h.closed (hsub r' _ hq)
    have hfb := (hlive f ⟨r', q, hq', by omega, hw⟩).1
    simp only [Kernel.setMem_mem, tableAt_linkMem _ htb hcb hfb] at hw hpres ⊢
    split
    · exact entryUser_tableEntryOf _
    · next hne =>
      rw [if_neg hne] at hpres
      split
      · next hfc => simp [hfc] at hpres
      · next hfc =>
        rw [if_neg hfc] at hpres
        rcases hback r' q f hq' (by omega) hw with hw' | hfc'
        · exact hu r' q i f hq hl hw' hpres
        · exact absurd hfc' hfc
  · intro r' q i hq hl
    exact Radix.lookup_link h.closed h.separated hlink hq hl i
  · intro b hb
    rw [Kernel.setMem_pmm, Kernel.setPmm_pmm, Pmm.free_of_marked hmax hused] at hb
    exact linkMem_outside _ htb hcb (fun hbt => htf (hbt ▸ hb.2)) hb.1

theorem walk_link_self (h : Forest D k) (hD : D r (p ++ [j])) (hp : p.length < 3)
    (ht : walk k.mem r p = some t) (ha : entryPresent (tableAt k.mem t j) = false) {c : Nat}
    (hc : k.pmm.Free c) : walk (linkMem k.mem t j c) r (p ++ [j]) = some c := by
  have hlink := link_of_alloc h hD hp ht ha hc
  have hlen : (p ++ [j]).length ≤ 3 + 1 := by
    rw [List.length_append, List.length_singleton]
    omega
  rcases Radix.walk_link h.closed h.separated hlink hD hlen with ⟨-, -, hw⟩ | ⟨hne, -⟩
  · exact hw
  · exact absurd ⟨rfl, rfl⟩ hne

/-- The new path, and no other owned one, is reached afterwards and was not before. -/
theorem walk_link_isSome (h : Forest D k) (hD : D r (p ++ [j])) (hp : p.length < 3)
    (ht : walk k.mem r p = some t) (ha : entryPresent (tableAt k.mem t j) = false) {c : Nat}
    (hc : k.pmm.Free c) {r' : Nat} {q : List Idx} (hq : D r' q) (hl : q.length ≤ 3) :
    (walk (linkMem k.mem t j c) r' q).isSome = true ↔
      (walk k.mem r' q).isSome = true ∨ (r' = r ∧ q = p ++ [j]) := by
  have hlink := link_of_alloc h hD hp ht ha hc
  rcases Radix.walk_link h.closed h.separated hlink hq (by omega) with ⟨hr, hqe, hw⟩ | ⟨hne, hw⟩
  · rw [walk, hw]
    exact ⟨fun _ => Or.inr ⟨hr, hqe⟩, fun _ => rfl⟩
  · rw [walk, hw]
    exact ⟨Or.inl, fun hor => hor.resolve_right hne⟩

end Link

/-- One upper level of `vmm_map_page`: the table is there, or a frame is free and becomes it, or
no frame is free. -/
theorem vmmNextTable_cases {D : Ownership} {k : Kernel} {r t : Nat} {p : List Idx} {j : Idx}
    (h : Forest D k) (hD : D r (p ++ [j])) (hp : p.length < 3) (ht : walk k.mem r p = some t) :
    (∃ g, walk k.mem r (p ++ [j]) = some g ∧
      (vmmNextTable (entryAddr t j)).run k = some (some (frameAddr g), k)) ∨
    (entryPresent (tableAt k.mem t j) = false ∧ ∃ c pm, k.pmm.Free c ∧
      pm.maxBits = k.pmm.maxBits ∧ (∀ g, pm.used g = (decide (g = c) || k.pmm.used g)) ∧
      (vmmNextTable (entryAddr t j)).run k =
        some (some (frameAddr c), (k.setPmm pm).setMem (linkMem k.mem t j c))) ∨
    (entryPresent (tableAt k.mem t j) = false ∧ (∀ f, ¬k.pmm.Free f) ∧
      (vmmNextTable (entryAddr t j)).run k = some (none, k)) := by
  obtain ⟨htb, htf⟩ := h.live t ⟨r, p, h.closed hD, by omega, ht⟩
  have hread : (readEntry (entryAddr t j)).run k = some (tableAt k.mem t j, k) :=
    readEntry_run k (entryAddr_inDirectMap htb j)
  cases hpres : entryPresent (tableAt k.mem t j) with
  | true =>
    have hplain := h.plain r p j t hD hp ht hpres
    have hbit : ¬tableAt k.mem t j &&& ptePresent = 0#64 := (and_ptePresent _).mpr hpres
    refine Or.inl ⟨entryFrame (tableAt k.mem t j), ?_, ?_⟩
    · rw [walk_concat_of ht]
      exact entryChild_of_present hpres
    · rw [vmmNextTable, run_bind_eq hread, if_neg hbit, physToVirt, and_pageMask_plain hplain]
      rfl
  | false =>
    have hbit := and_ptePresent_eq_zero.mpr hpres
    rcases pmmAllocFrame_cases k.pmm with ⟨c, pm, hc, halloc, hmax, hused⟩ | ⟨hnone, halloc⟩
    · have hcb : c < frameBound := Nat.lt_trans hc.lt (by unfold frameBound; omega)
      have hc0 : frameAddr c ≠ 0#64 := frameAddr_ne_zero (Nat.lt_trans hc.lt (by omega)) hc.pos
      have hrun : pmmAlloc.run k = some (frameAddr c, k.setPmm pm) := by
        rw [pmmAlloc_run, halloc]
      refine Or.inr (Or.inl ⟨rfl, c, pm, hc, hmax, hused, ?_⟩)
      rw [vmmNextTable, run_bind_eq hread, if_pos hbit, run_bind_eq hrun, if_neg hc0,
        physToVirt_eq, run_bind_eq (memset_run 0#8 _ (frame_inDirectMap hcb)),
        run_bind_eq (writeEntry_run _ _ (entryAddr_inDirectMap htb j))]
      rfl
    · have hrun : pmmAlloc.run k = some (0#64, k) := by
        rw [pmmAlloc_run, halloc]
        rfl
      refine Or.inr (Or.inr ⟨rfl, hnone, ?_⟩)
      rw [vmmNextTable, run_bind_eq hread, if_pos hbit, run_bind_eq hrun, if_pos rfl]
      rfl

/-! ## Walking down a path -/

/-- The frames that linking the path `q` below `p` takes, where the paths in `P` are there. -/
def missing (P : List Idx → Bool) : List Idx → List Idx → Nat
  | _, [] => 0
  | p, i :: q => (if P (p ++ [i]) then 0 else 1) + missing P (p ++ [i]) q

theorem missing_congr {P P' : List Idx → Bool} {p q : List Idx}
    (h : ∀ s, s ≠ [] → s <+: q → P (p ++ s) = P' (p ++ s)) : missing P p q = missing P' p q := by
  induction q generalizing p with
  | nil => rfl
  | cons i q ih =>
    rw [missing, missing, h [i] (by simp) (by simp)]
    congr 1
    apply ih
    intro s _ hs
    rw [List.append_assoc]
    exact h (i :: s) (by simp) (List.prefix_cons_inj i |>.mpr hs)

/-- The paths from root `r` that reach a table. -/
def reaches (m : Mem) (r : Nat) (q : List Idx) : Bool := (walk m r q).isSome

/-- The upper levels of `vmm_map_page`, along a path. -/
def vmmDescend : U64 → List Idx → Kern (Option U64)
  | table, [] => return some table
  | table, i :: q => do
    let some next ← vmmNextTable (entryPtr table (i.setWidth 64)) | return none
    vmmDescend next q

theorem vmmMapPage_eq (pml4 virtAddr physAddr flags : U64) :
    vmmMapPage pml4 virtAddr physAddr flags = do
      let some ptVirt ← vmmDescend (physToVirt pml4) (tablePath virtAddr) | return false
      let pte := entryPtr ptVirt ((leafIdx virtAddr).setWidth 64)
      let _ ← readEntry pte
      writeEntry pte (physAddr ||| flags)
      return true := by
  unfold vmmMapPage
  simp only [tablePath, vmmDescend, pml4Index, pdptIndex, pdIndex, ptIndex, index_eq, leafIdx]
  rw [bind_assoc]
  refine bind_congr fun pdptVirt => ?_
  cases pdptVirt with
  | none => rfl
  | some pdptVirt =>
    rw [bind_assoc]
    refine bind_congr fun pdVirt => ?_
    cases pdVirt with
    | none => rfl
    | some pdVirt =>
      rw [bind_assoc]
      refine bind_congr fun ptVirt => ?_
      cases ptVirt with
      | none => rfl
      | some ptVirt => rfl

/-- The tables of `p ++ q` below the one at `p` were linked from free frames, one for each prefix
that was missing, and `g` is the last of them. -/
structure Descends (D : Ownership) (k k' : Kernel) (r : Nat) (p q : List Idx) (g : Nat) : Prop
    extends Grows D k k' where
  table : walk k'.mem r (p ++ q) = some g
  reached : ∀ r' q', D r' q' → q'.length ≤ 3 → (reaches k'.mem r' q' = true ↔
    reaches k.mem r' q' = true ∨ (r' = r ∧ p <+: q' ∧ q' <+: p ++ q))
  count : k'.pmm.freeCount + missing (reaches k.mem r) p q = k.pmm.freeCount

section Descend

variable {D : Ownership} {k k' k'' : Kernel} {r g : Nat}

theorem Descends.nil {p : List Idx} (h : Forest D k) (ht : walk k.mem r p = some g) :
    Descends D k k r p [] g where
  toGrows := Grows.refl h
  table := by rw [List.append_nil, ht]
  reached := by
    intro r' q' _ _
    refine ⟨Or.inl, fun hor => ?_⟩
    rcases hor with hr | ⟨rfl, hpre, hle⟩
    · exact hr
    · rw [List.append_nil] at hle
      rw [← hpre.eq_of_length_le hle.length_le, reaches, ht]
      rfl
  count := rfl

/-- Linking the table at `p ++ [i]` leaves missing what was missing below it. -/
theorem Descends.missing_below {p q : List Idx} {i : Idx} {c : Nat} (h : Descends D k k' r p [i] c)
    (hl : p.length + q.length < 3) (hD : D r (p ++ i :: q)) :
    missing (reaches k'.mem r) (p ++ [i]) q = missing (reaches k.mem r) (p ++ [i]) q := by
    apply missing_congr
    intro s hs hsq
    have hpre : (p ++ [i]) ++ s <+: p ++ i :: q := by
      rw [List.append_assoc]
      simpa using hsq
    obtain ⟨u, hu⟩ := hpre
    have hDs : D r ((p ++ [i]) ++ s) := h.forest.closed.append (hu ▸ hD)
    have hlen : ((p ++ [i]) ++ s).length ≤ 3 := by
      have hsl := hsq.length_le
      rw [List.length_append, List.length_append, List.length_singleton]
      omega
    have hne : ¬((p ++ [i]) ++ s <+: p ++ [i]) := by
      intro hc
      have hle := hc.length_le
      have hpos := List.length_pos_iff.mpr hs
      rw [List.length_append] at hle
      omega
    rw [Bool.eq_iff_iff, h.reached r _ hDs hlen]
    exact ⟨fun hor => hor.resolve_right (fun hc => hne hc.2.2), Or.inl⟩

/-- A step that finds or links the table at `p ++ [i]`, before the rest of the path. -/
theorem Descends.cons {p q : List Idx} {i : Idx} {c : Nat} (hl : p.length + q.length < 3)
    (hD : D r (p ++ i :: q)) (h : Descends D k k' r p [i] c)
    (h' : Descends D k' k'' r (p ++ [i]) q g) : Descends D k k'' r p (i :: q) g where
  toGrows := h.toGrows.trans h'.toGrows
  table := by
    have ht' := h'.table
    rwa [List.append_assoc] at ht'
  reached := by
    intro r' q' hq hlq
    rw [h'.reached r' q' hq hlq, h.reached r' q' hq hlq, List.append_assoc, List.singleton_append]
    have hpi : p ++ [i] <+: p ++ i :: q := by simp
    constructor
    · intro hor
      rcases hor with (hr | ⟨hr, hpre, hle⟩) | ⟨hr, hpre, hle⟩
      · exact Or.inl hr
      · exact Or.inr ⟨hr, hpre, hle.trans hpi⟩
      · exact Or.inr ⟨hr, (List.prefix_append p [i]).trans hpre, hle⟩
    · intro hor
      rcases hor with hr | ⟨hr, hpre, hle⟩
      · exact Or.inl (Or.inl hr)
      · rcases List.prefix_or_prefix_of_prefix hle hpi with hc | hc
        · exact Or.inl (Or.inr ⟨hr, hpre, hc⟩)
        · exact Or.inr ⟨hr, hc, hle⟩
  count := by
    have hm := h.missing_below hl hD
    have hc := h.count
    have hc' := h'.count
    rw [missing, missing] at hc
    rw [hm] at hc'
    rw [missing]
    omega

/-- Between a path and its extension by one index there is nothing. -/
theorem eq_or_eq_concat {p q : List Idx} {j : Idx} (hp : p <+: q) (hq : q <+: p ++ [j]) :
    q = p ∨ q = p ++ [j] := by
  rcases List.prefix_concat_iff.mp hq with h | h
  · exact Or.inr h
  · exact Or.inl (h.eq_of_length_le hp.length_le)

/-- One level of the walk down. -/
theorem vmmNextTable_spec {t : Nat} {p : List Idx} {j : Idx} (h : Forest D k)
    (hD : D r (p ++ [j])) (hp : p.length < 3) (ht : walk k.mem r p = some t) :
    (∃ c k', (vmmNextTable (entryAddr t j)).run k = some (some (frameAddr c), k') ∧
      Descends D k k' r p [j] c) ∨
    ((vmmNextTable (entryAddr t j)).run k = some (none, k) ∧
      k.pmm.freeCount < missing (reaches k.mem r) p [j]) := by
  have hr : reaches k.mem r p = true := by rw [reaches, ht]; rfl
  have hadd : missing (reaches k.mem r) p [j] = if reaches k.mem r (p ++ [j]) then 0 else 1 := rfl
  rcases vmmNextTable_cases h hD hp ht with ⟨c, hc, hrun⟩ | ⟨ha, c, pm, hc, hmax, hused, hrun⟩ |
    ⟨ha, hnone, hrun⟩
  · have hrj : reaches k.mem r (p ++ [j]) = true := by rw [reaches, hc]; rfl
    refine Or.inl ⟨c, k, hrun, Grows.refl h, hc, ?_, by rw [hadd, if_pos hrj, Nat.add_zero]⟩
    intro r' q' _ _
    refine ⟨Or.inl, fun hor => ?_⟩
    rcases hor with hr' | ⟨rfl, hpre, hle⟩
    · exact hr'
    · rcases eq_or_eq_concat hpre hle with rfl | rfl
      · exact hr
      · exact hrj
  · have hrj : reaches k.mem r (p ++ [j]) = false := by
      rw [reaches, walk_concat_of ht, entryChild_eq_none.mpr ha]
      rfl
    refine Or.inl ⟨c, _, hrun, grows_link h hD hp ht ha hc hmax hused,
      walk_link_self h hD hp ht ha hc, ?_, ?_⟩
    · intro r' q' hq hl
      have hiff := walk_link_isSome h hD hp ht ha hc hq hl
      rw [reaches, Kernel.setMem_mem, hiff]
      constructor
      · intro hor
        rcases hor with hr' | ⟨rfl, rfl⟩
        · exact Or.inl hr'
        · exact Or.inr ⟨rfl, List.prefix_append _ _, List.prefix_rfl⟩
      · intro hor
        rcases hor with hr' | ⟨rfl, hpre, hle⟩
        · exact Or.inl hr'
        · rcases eq_or_eq_concat hpre hle with rfl | rfl
          · exact Or.inl hr
          · exact Or.inr ⟨rfl, rfl⟩
    · have hcount := Pmm.freeCount_of_marked hc hmax hused
      rw [hadd, hrj]
      exact hcount
  · have hrj : reaches k.mem r (p ++ [j]) = false := by
      rw [reaches, walk_concat_of ht, entryChild_eq_none.mpr ha]
      rfl
    refine Or.inr ⟨hrun, ?_⟩
    rw [hadd, hrj, Pmm.freeCount_eq_zero.mpr hnone]
    exact Nat.one_pos

/-- **The walk down.**  Either every table of the path is there afterwards, at the price of the
missing ones, or fewer frames are free than are missing. -/
theorem vmmDescend_spec {q : List Idx} : ∀ {k : Kernel} {p : List Idx} {t : Nat}, Forest D k →
    D r (p ++ q) → p.length + q.length ≤ 3 → walk k.mem r p = some t →
    (∃ g k', (vmmDescend (frameAddr t) q).run k = some (some (frameAddr g), k') ∧
      Descends D k k' r p q g) ∨
    (∃ k', (vmmDescend (frameAddr t) q).run k = some (none, k') ∧ Grows D k k' ∧
      k.pmm.freeCount < missing (reaches k.mem r) p q) := by
  induction q with
  | nil =>
    intro k p t h _ _ ht
    exact Or.inl ⟨t, k, rfl, Descends.nil h ht⟩
  | cons i q ih =>
    intro k p t h hD hl ht
    rw [List.length_cons] at hl
    have hD' : D r ((p ++ [i]) ++ q) := by simpa using hD
    rcases vmmNextTable_spec h (h.closed.append hD') (by omega) ht with
      ⟨c, k₁, hrun, h₁⟩ | ⟨hrun, hcount⟩
    · have hlen : (p ++ [i]).length + q.length ≤ 3 := by
        rw [List.length_append, List.length_singleton]
        omega
      rcases ih h₁.forest hD' hlen h₁.table with ⟨g, k₂, hrun₂, h₂⟩ | ⟨k₂, hrun₂, hg₂, hcount₂⟩
      · refine Or.inl ⟨g, k₂, ?_, Descends.cons (by omega) hD h₁ h₂⟩
        rw [vmmDescend]
        exact (run_bind_eq hrun).trans hrun₂
      · refine Or.inr ⟨k₂, ?_, h₁.toGrows.trans hg₂, ?_⟩
        · rw [vmmDescend]
          exact (run_bind_eq hrun).trans hrun₂
        · have hc₁ := h₁.count
          rw [h₁.missing_below (by omega) hD] at hcount₂
          rw [missing, missing] at hc₁
          rw [missing]
          omega
    · refine Or.inr ⟨k, ?_, Grows.refl h, ?_⟩
      · rw [vmmDescend]
        exact (run_bind_eq hrun).trans rfl
      · rw [missing, missing] at hcount
        rw [missing]
        omega

end Descend

end PpoOS
