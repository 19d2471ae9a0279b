import PpoOS.Mm.Verify.Grow

/-!
# Mapping, unmapping and translating one page

* **`vmmMapPage_spec`**: a mapping that succeeds grows the tables along the path of the page and
  then writes its leaf and no other; one that fails grows the tables only, and fails because fewer
  frames are free than are missing on the path.
* **`vmmUnmapPage_spec`**: unmapping clears the leaf and nothing else.
* **`vmmGetPhysicalAddress_spec`**: the address is read off the leaf of the translation.

A root may reach a page through a table of another root that its own first entry points to, as
every address space does in the kernel half; `Owns` names the root the page belongs to.
-/

namespace PpoOS

open ByteMem FaultState

variable {D : Ownership} {k k' : Kernel} {r o : Nat} {va : U64}

/-! ## The owner of a page -/

/-- The index of a virtual address in the PML4. -/
def rootIdx (va : U64) : Idx := va.extractLsb' 39 9

/-- The page of `va`, reached from root `r`, belongs to root `o`: to `r` itself, or to another root
with the same present entry for it. -/
structure Owns (D : Ownership) (k : Kernel) (r : Nat) (va : U64) (o : Nat) : Prop where
  path : D o (tablePath va)
  root : D r []
  same : o = r ∨ (entryPresent (tableAt k.mem o (rootIdx va)) = true ∧
    tableAt k.mem r (rootIdx va) = tableAt k.mem o (rootIdx va))

theorem Owns.self (h : Forest D k) (hD : D r (tablePath va)) : Owns D k r va r :=
  ⟨hD, h.closed.append (p := []) hD, Or.inl rfl⟩

theorem Owns.root_owner (h : Forest D k) (ho : Owns D k r va o) : D o [] :=
  h.closed.append (p := []) ho.path

theorem Forest.root_live (h : Forest D k) (hr : D r []) : r < frameBound ∧ ¬k.pmm.Free r :=
  h.live r ⟨r, [], hr, Nat.zero_le _, rfl⟩

/-- The owner of a page stays its owner while the kernel loads. -/
theorem Owns.evolves (h : Forest D k) (ho : Owns D k r va o) (he : Evolves D k k') :
    Owns D k' r va o := by
  refine ⟨ho.path, ho.root, ho.same.imp id ?_⟩
  intro hs
  have hro := he.roots o _ (ho.root_owner h) (Or.inl hs.1)
  have hrr := he.roots r _ ho.root (Or.inl (by rw [hs.2]; exact hs.1))
  rw [hro, hrr]
  exact hs

/-- A root and the owner of a page see the same translation. -/
theorem Owns.translate_eq (ho : Owns D k r va o) : translate k.mem r va = translate k.mem o va := by
  rcases ho.same with hor | hs
  · rw [hor]
  · have hw : ∀ x : Nat, walk k.mem x (tablePath va) =
        (entryChild (tableAt k.mem x (rootIdx va))).bind fun g => walk k.mem g
          [va.extractLsb' 30 9, va.extractLsb' 21 9] := fun _ => rfl
    have hwr : walk k.mem r (tablePath va) = walk k.mem o (tablePath va) := by
      rw [hw, hw, hs.2]
    unfold translate lookup Radix.lookup
    unfold walk at hwr
    rw [hwr]

/-! ## Writing a leaf -/

/-- The state after entry `i` of the page table `pt` was written. -/
def writeLeaf (k : Kernel) (pt : Nat) (i : Idx) (v : U64) : Kernel :=
  k.setMem (store64 k.mem (entryAddr pt i) v)

section Leaf

variable {q : List Idx} {i : Idx} {pt : Nat} {v : U64}

theorem writeLeaf_outside (k : Kernel) (hpt : pt < frameBound) {b : U64} (hb : frameOf b ≠ pt) :
    (writeLeaf k pt i v).mem b = k.mem b := by
  have hi := i.isLt
  have ha : (entryAddr pt i).toNat = pt * 4096 + 8 * i.toNat := by
    unfold frameBound at hpt
    exact entryAddr_toNat (by omega)
  exact blit_frame_outside _ hpt ha (by omega) hb _

theorem tableAt_writeLeaf (h : Forest D k) (hpt : pt < frameBound) :
    ∀ f j, IsTable D k f → ¬(f = pt ∧ j = i) →
      tableAt (writeLeaf k pt i v).mem f j = tableAt k.mem f j := by
  intro f j hf hne
  rw [writeLeaf, Kernel.setMem_mem, tableAt_store64 _ hpt (h.live f hf).1, if_neg hne]

/-- Writing a leaf moves no table. -/
theorem walk_writeLeaf (h : Forest D k) (hD : D o q) (hl : q.length = 3)
    (ht : walk k.mem o q = some pt) {r' : Nat} {q' : List Idx} (hq : D r' q')
    (hlq : q'.length ≤ 3) : walk (writeLeaf k pt i v).mem r' q' = walk k.mem r' q' := by
  have hpt := (h.live pt ⟨o, q, hD, by omega, ht⟩).1
  exact Radix.walk_set h.closed h.separated hD ht hl (tableAt_writeLeaf h hpt) hq hlq

theorem evolves_writeLeaf (h : Forest D k) (hD : D o q) (hl : q.length = 3)
    (ht : walk k.mem o q = some pt) : Evolves D k (writeLeaf k pt i v) := by
  have hptab : IsTable D k pt := ⟨o, q, hD, by omega, ht⟩
  have hpt := (h.live pt hptab).1
  have hset := tableAt_writeLeaf (i := i) (v := v) h hpt
  have hwalk : ∀ r' q', D r' q' → q'.length ≤ 3 →
      walk (writeLeaf k pt i v).mem r' q' = walk k.mem r' q' :=
    fun r' q' hq hlq => walk_writeLeaf h hD hl ht hq hlq
  have hupper : ∀ r' q' f j, D r' q' → q'.length < 3 → walk k.mem r' q' = some f →
      tableAt (writeLeaf k pt i v).mem f j = tableAt k.mem f j := by
    intro r' q' f j hq hlq hw
    refine hset f j ⟨r', q', hq, by omega, hw⟩ ?_
    intro hfp
    obtain ⟨-, hqq⟩ := h.separated hq hD (by omega) (by omega) hw (hfp.1 ▸ ht)
    rw [hqq] at hlq
    omega
  refine ⟨⟨h.closed, ?_, ?_, ?_⟩, ?_, ?_, fun _ hu => hu, rfl, ?_, ?_, ?_, rfl⟩
  · exact Radix.separated_set h.closed h.separated hD ht hl hset
  · intro f hf
    obtain ⟨r', q', hq, hlq, hw⟩ := hf
    exact h.live f ⟨r', q', hq, hlq, (hwalk r' q' hq hlq).symm.trans hw⟩
  · intro r' q' j f hq hlq hw hpres
    have hq' := h.closed hq
    rw [hwalk r' q' hq' (by omega)] at hw
    rw [hupper r' q' f j hq' hlq hw] at hpres ⊢
    exact h.plain r' q' j f hq hlq hw hpres
  · intro r' q' f hq hlq hw
    rw [hwalk r' q' hq hlq, hw]
  · intro r' q' f hq hlq hw
    rw [hwalk r' q' hq hlq] at hw
    exact Or.inl hw
  · intro b _ hbt
    exact writeLeaf_outside k hpt fun hb => hbt (hb ▸ hptab)
  · intro r' j hr _
    exact hupper r' [] r' j hr (by simp) rfl
  · intro D' hsub hu r' q' j f hq hlq hw hpres
    have hq' := h.closed (hsub r' _ hq)
    rw [hwalk r' q' hq' (by omega)] at hw
    rw [hupper r' q' f j hq' hlq hw] at hpres ⊢
    exact hu r' q' j f hq hlq hw hpres

/-- The written leaf, and no other, has changed. -/
theorem lookup_writeLeaf (h : Forest D k) (hD : D o q) (hl : q.length = 3)
    (ht : walk k.mem o q = some pt) :
    lookup (writeLeaf k pt i v).mem o q i = entryLeaf v ∧
      ∀ r' q' j, D r' q' → q'.length = 3 → ¬(r' = o ∧ q' = q ∧ j = i) →
        lookup (writeLeaf k pt i v).mem r' q' j = lookup k.mem r' q' j := by
  have hpt := (h.live pt ⟨o, q, hD, by omega, ht⟩).1
  have hset := tableAt_writeLeaf (i := i) (v := v) h hpt
  constructor
  · have hs : lookup (writeLeaf k pt i v).mem o q i = entryLeaf _ :=
      Radix.lookup_set_same h.closed h.separated hD ht hl hset
    rw [hs, writeLeaf, Kernel.setMem_mem, tableAt_store64 _ hpt hpt, if_pos ⟨rfl, rfl⟩]
  · intro r' q' j hq hlq hne
    exact Radix.lookup_set_other h.closed h.separated hD ht hl hset hq (by omega) hne

end Leaf

/-! ## Mapping -/

/-- A shared first entry leads every root to the same tables. -/
theorem vmmDescend_owner (h : Forest D k) (ho : Owns D k r va o) :
    (vmmDescend (frameAddr r) (tablePath va)).run k =
      (vmmDescend (frameAddr o) (tablePath va)).run k := by
  rcases ho.same with hor | ⟨hpres, hsame⟩
  · rw [hor]
  · have hstep : ∀ x, x < frameBound → entryPresent (tableAt k.mem x (rootIdx va)) = true →
        (vmmDescend (frameAddr x) (tablePath va)).run k =
          (vmmDescend (tableAt k.mem x (rootIdx va) &&& pageMask)
            [va.extractLsb' 30 9, va.extractLsb' 21 9]).run k := by
      intro x hx hp
      have hread : (readEntry (entryAddr x (rootIdx va))).run k =
          some (tableAt k.mem x (rootIdx va), k) := readEntry_run k (entryAddr_inDirectMap hx _)
      have hnext : (vmmNextTable (entryAddr x (rootIdx va))).run k =
          some (some (tableAt k.mem x (rootIdx va) &&& pageMask), k) := by
        rw [vmmNextTable, run_bind_eq hread, if_neg ((and_ptePresent _).mpr hp)]
        rfl
      rw [tablePath, vmmDescend]
      exact run_bind_eq hnext
    rw [hstep o (h.root_live (ho.root_owner h)).1 hpres,
      hstep r (h.root_live ho.root).1 (by rw [hsame]; exact hpres), hsame]

/-- The page `va` of root `o` was mapped to `v`: the tables of its path are there, at the price of
the missing ones, and its leaf is the only one that changed. -/
structure Maps (D : Ownership) (k k' : Kernel) (o : Nat) (va v : U64) : Prop
    extends Evolves D k k' where
  leaf : translate k'.mem o va = entryLeaf v
  others : ∀ r q i, D r q → q.length = 3 → ¬(r = o ∧ q = tablePath va ∧ i = leafIdx va) →
    lookup k'.mem r q i = lookup k.mem r q i
  reached : ∀ r q, D r q → q.length ≤ 3 →
    (reaches k'.mem r q = true ↔ reaches k.mem r q = true ∨ (r = o ∧ q <+: tablePath va))
  count : k'.pmm.freeCount + missing (reaches k.mem o) [] (tablePath va) = k.pmm.freeCount
  idle : ∀ b, k'.pmm.Free (frameOf b) → k'.mem b = k.mem b
  reads : k'.reads = k.reads

/-- **Mapping a page.**  Success maps that page and no other; failure changes no leaf, and comes
from fewer free frames than tables missing. -/
theorem vmmMapPage_spec (h : Forest D k) (ho : Owns D k r va o) (pa flags : U64) :
    (∃ k', (vmmMapPage (frameAddr r) va pa flags).run k = some (true, k') ∧
      Maps D k k' o va (pa ||| flags)) ∨
    (∃ k', (vmmMapPage (frameAddr r) va pa flags).run k = some (false, k') ∧ Grows D k k' ∧
      k.pmm.freeCount < missing (reaches k.mem o) [] (tablePath va)) := by
  have hlen : (tablePath va).length = 3 := rfl
  have hdown := vmmDescend_owner h ho
  rcases vmmDescend_spec (p := []) (q := tablePath va) h ho.path (by simp [hlen]) rfl with
    ⟨pt, k₁, hrun, h₁⟩ | ⟨k₁, hrun, hg, hcount⟩
  · have htable := h₁.table
    rw [List.nil_append] at htable
    have hpt := (h₁.forest.live pt ⟨o, tablePath va, ho.path, by omega, htable⟩).1
    have hpte := entryAddr_inDirectMap hpt (leafIdx va)
    have hev := evolves_writeLeaf (i := leafIdx va) (v := pa ||| flags) h₁.forest ho.path hlen htable
    obtain ⟨hleaf, hothers⟩ :=
      lookup_writeLeaf (i := leafIdx va) (v := pa ||| flags) h₁.forest ho.path hlen htable
    refine Or.inl ⟨writeLeaf k₁ pt (leafIdx va) (pa ||| flags), ?_,
      h₁.toEvolves.trans hev, hleaf, ?_, ?_, h₁.count, ?_, h₁.reads⟩
    · rw [vmmMapPage_eq, physToVirt_eq, run_bind_eq (hdown.trans hrun)]
      exact (run_bind_eq (readEntry_run k₁ hpte)).trans (run_bind_eq (writeEntry_run _ k₁ hpte))
    · intro r' q' i hq hl hne
      rw [hothers r' q' i hq hl hne, h₁.leaves r' q' i hq hl]
    · intro r' q' hq hl
      have hreach := h₁.reached r' q' hq hl
      rw [List.nil_append] at hreach
      rw [reaches, walk_writeLeaf h₁.forest ho.path hlen htable hq hl]
      exact hreach.trans (by simp)
    · intro b hb
      have hptf := (h₁.forest.live pt ⟨o, tablePath va, ho.path, by omega, htable⟩).2
      have hbp : frameOf b ≠ pt := fun hbp => hptf (hbp ▸ hb)
      exact (writeLeaf_outside k₁ hpt hbp).trans (h₁.idle b hb)
  · refine Or.inr ⟨k₁, ?_, hg, hcount⟩
    rw [vmmMapPage_eq, physToVirt_eq, run_bind_eq (hdown.trans hrun)]
    rfl

/-! ## Walking without allocating -/

/-- The upper levels of a walk that allocates nothing, along a path. -/
def vmmFollow : U64 → List Idx → Kern (Option U64)
  | table, [] => return some table
  | table, i :: q => do
    let some next ← vmmPresentTable (entryPtr table (i.setWidth 64)) | return none
    vmmFollow next q

theorem vmmFindPte_eq (pml4 virtAddr : U64) :
    vmmFindPte pml4 virtAddr = do
      let some ptVirt ← vmmFollow (physToVirt pml4) (tablePath virtAddr) | return none
      return some (entryPtr ptVirt ((leafIdx virtAddr).setWidth 64)) := by
  unfold vmmFindPte
  simp only [tablePath, vmmFollow, pml4Index, pdptIndex, pdIndex, ptIndex, index_eq, leafIdx]
  rw [bind_assoc]
  refine bind_congr fun pdptVirt => ?_
  cases pdptVirt with
  | none => rfl
  | some pdptVirt =>
    rw [bind_assoc]
    refine bind_congr fun pdVirt => ?_
    cases pdVirt with
    | none => rfl
    | some pdVirt =>
      rw [bind_assoc]
      refine bind_congr fun ptVirt => ?_
      cases ptVirt with
      | none => rfl
      | some ptVirt => rfl

theorem vmmPresentTable_run {f : Nat} (hf : f < frameBound) (i : Idx) :
    (vmmPresentTable (entryAddr f i)).run k =
      some (if entryPresent (tableAt k.mem f i) then some (tableAt k.mem f i &&& pageMask) else none,
        k) := by
  have hread : (readEntry (entryAddr f i)).run k = some (tableAt k.mem f i, k) :=
    readEntry_run k (entryAddr_inDirectMap hf i)
  rw [vmmPresentTable, run_bind_eq hread]
  cases hp : entryPresent (tableAt k.mem f i) with
  | true =>
    rw [if_neg ((and_ptePresent _).mpr hp)]
    rfl
  | false =>
    rw [if_pos (and_ptePresent_eq_zero.mpr hp)]
    rfl

/-- Following a path reads the walk. -/
theorem vmmFollow_run (h : Forest D k) {q : List Idx} : ∀ {p : List Idx} {t : Nat}, D r (p ++ q) →
    p.length + q.length ≤ 3 → walk k.mem r p = some t →
    (vmmFollow (frameAddr t) q).run k = some ((walk k.mem r (p ++ q)).map frameAddr, k) := by
  induction q with
  | nil =>
    intro p t _ _ ht
    rw [List.append_nil, ht]
    rfl
  | cons i q ih =>
    intro p t hD hl ht
    rw [List.length_cons] at hl
    have hD' : D r ((p ++ [i]) ++ q) := by simpa using hD
    have hDi := h.closed.append hD'
    have htb := (h.live t ⟨r, p, h.closed hDi, by omega, ht⟩).1
    have hlen : (p ++ [i]).length + q.length ≤ 3 := by
      rw [List.length_append, List.length_singleton]
      omega
    have happ : p ++ i :: q = (p ++ [i]) ++ q := by simp
    have hnext := vmmPresentTable_run (k := k) htb i
    rw [vmmFollow, happ]
    cases hp : entryPresent (tableAt k.mem t i) with
    | true =>
      have hw : walk k.mem r (p ++ [i]) = some (entryFrame (tableAt k.mem t i)) := by
        rw [walk_concat_of ht, entryChild_of_present hp]
      have hplain := h.plain r p i t hDi (by omega) ht hp
      rw [hp, if_pos rfl, and_pageMask_plain hplain] at hnext
      exact (run_bind_eq hnext).trans (ih hD' hlen hw)
    | false =>
      have hw : walk k.mem r (p ++ [i]) = none := by
        rw [walk_concat_of ht, entryChild_eq_none.mpr hp]
      have hw' : walk k.mem r ((p ++ [i]) ++ q) = none := by
        unfold walk at hw ⊢
        rw [Radix.walk_append, hw]
        rfl
      rw [hp] at hnext
      rw [hw']
      exact (run_bind_eq hnext).trans rfl

theorem vmmFollow_owner (h : Forest D k) (ho : Owns D k r va o) :
    (vmmFollow (frameAddr r) (tablePath va)).run k =
      some ((walk k.mem o (tablePath va)).map frameAddr, k) := by
  have hself : (vmmFollow (frameAddr o) (tablePath va)).run k =
      some ((walk k.mem o (tablePath va)).map frameAddr, k) :=
    vmmFollow_run (p := []) h ho.path (Nat.le_refl 3) rfl
  rcases ho.same with hor | ⟨hpres, hsame⟩
  · rw [← hor, hself]
  · have hstep : ∀ x, x < frameBound → entryPresent (tableAt k.mem x (rootIdx va)) = true →
        (vmmFollow (frameAddr x) (tablePath va)).run k =
          (vmmFollow (tableAt k.mem x (rootIdx va) &&& pageMask)
            [va.extractLsb' 30 9, va.extractLsb' 21 9]).run k := by
      intro x hx hp
      have hnext := vmmPresentTable_run (k := k) hx (rootIdx va)
      rw [hp, if_pos rfl] at hnext
      rw [tablePath, vmmFollow]
      exact run_bind_eq hnext
    rw [← hself, hstep o (h.root_live (ho.root_owner h)).1 hpres,
      hstep r (h.root_live ho.root).1 (by rw [hsame]; exact hpres), hsame]

/-- The leaf entry is looked for where the translation finds it. -/
theorem vmmFindPte_run (h : Forest D k) (ho : Owns D k r va o) :
    (vmmFindPte (frameAddr r) va).run k =
      some ((walk k.mem o (tablePath va)).map fun pt => entryAddr pt (leafIdx va), k) := by
  rw [vmmFindPte_eq, physToVirt_eq, run_bind_eq (vmmFollow_owner h ho)]
  cases walk k.mem o (tablePath va) with
  | none => rfl
  | some pt => rfl

/-- The page `va` of root `o` is not mapped any more; nothing else has changed. -/
structure Unmaps (D : Ownership) (k k' : Kernel) (o : Nat) (va : U64) : Prop
    extends Evolves D k k' where
  leaf : translate k'.mem o va = none
  others : ∀ r q i, D r q → q.length = 3 → ¬(r = o ∧ q = tablePath va ∧ i = leafIdx va) →
    lookup k'.mem r q i = lookup k.mem r q i
  walks : ∀ r q, D r q → q.length ≤ 3 → walk k'.mem r q = walk k.mem r q
  pmm : k'.pmm = k.pmm
  reads : k'.reads = k.reads

/-- **Unmapping a page.** -/
theorem vmmUnmapPage_spec (h : Forest D k) (ho : Owns D k r va o) :
    ∃ k', (vmmUnmapPage (frameAddr r) va).run k = some ((), k') ∧ Unmaps D k k' o va := by
  have hlen : (tablePath va).length = 3 := rfl
  have hfind := vmmFindPte_run h ho
  have hsame : translate k.mem o va = none → Unmaps D k k o va := fun hn =>
    ⟨Evolves.refl h, hn, fun _ _ _ _ _ _ => rfl, fun _ _ _ _ => rfl, rfl, rfl⟩
  cases hw : walk k.mem o (tablePath va) with
  | none =>
    rw [hw] at hfind
    refine ⟨k, ?_, hsame (translate_of_none hw)⟩
    rw [vmmUnmapPage, run_bind_eq hfind]
    rfl
  | some pt =>
    rw [hw] at hfind
    have hptb := (h.live pt ⟨o, tablePath va, ho.path, by omega, hw⟩).1
    have hpte := entryAddr_inDirectMap hptb (leafIdx va)
    have hleaf := translate_of_walk hw
    have hread : (readEntry (entryAddr pt (leafIdx va))).run k =
        some (tableAt k.mem pt (leafIdx va), k) := readEntry_run k hpte
    cases hp : entryPresent (tableAt k.mem pt (leafIdx va)) with
    | false =>
      refine ⟨k, ?_, hsame ?_⟩
      · rw [vmmUnmapPage, run_bind_eq hfind]
        exact (run_bind_eq hread).trans (by rw [if_pos (and_ptePresent_eq_zero.mpr hp)]; rfl)
      · rw [hleaf, entryLeaf, hp]
        rfl
    | true =>
      obtain ⟨hclear, hothers⟩ :=
        lookup_writeLeaf (i := leafIdx va) (v := 0#64) h ho.path hlen hw
      refine ⟨writeLeaf k pt (leafIdx va) 0#64, ?_,
        evolves_writeLeaf h ho.path hlen hw, by rw [translate, hclear, entryLeaf_zero], hothers,
        fun r' q' hq hl => walk_writeLeaf h ho.path hlen hw hq hl, rfl, rfl⟩
      rw [vmmUnmapPage, run_bind_eq hfind]
      refine (run_bind_eq hread).trans ?_
      rw [if_neg ((and_ptePresent _).mpr hp)]
      exact writeEntry_run _ k hpte

/-- The address `vmm_get_physical_address` computes from the leaf of a translation. -/
def leafAddress (leaf : Option U64) (va : U64) : U64 :=
  match leaf with
  | some e => (e &&& pageMask) ||| (va &&& ~~~pageMask)
  | none => 0#64

/-- **Translating an address.** -/
theorem vmmGetPhysicalAddress_spec (h : Forest D k) (ho : Owns D k r va o) :
    (vmmGetPhysicalAddress (frameAddr r) va).run k =
      some (leafAddress (translate k.mem o va) va, k) := by
  have hfind := vmmFindPte_run h ho
  cases hw : walk k.mem o (tablePath va) with
  | none =>
    have hleaf := translate_of_none hw
    rw [hw] at hfind
    rw [vmmGetPhysicalAddress, run_bind_eq hfind, hleaf]
    rfl
  | some pt =>
    have hptb := (h.live pt ⟨o, tablePath va, ho.path, Nat.le_refl 3, hw⟩).1
    have hleaf := translate_of_walk hw
    have hread : (readEntry (entryAddr pt (leafIdx va))).run k =
        some (tableAt k.mem pt (leafIdx va), k) :=
      readEntry_run k (entryAddr_inDirectMap hptb (leafIdx va))
    rw [hw] at hfind
    rw [vmmGetPhysicalAddress, run_bind_eq hfind, hleaf]
    refine (run_bind_eq hread).trans ?_
    cases hp : entryPresent (tableAt k.mem pt (leafIdx va)) with
    | false =>
      rw [if_pos (and_ptePresent_eq_zero.mpr hp), entryLeaf, hp]
      rfl
    | true =>
      rw [if_neg ((and_ptePresent _).mpr hp), entryLeaf, hp]
      rfl

end PpoOS
