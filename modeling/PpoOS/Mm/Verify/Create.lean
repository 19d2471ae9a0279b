import PpoOS.Mm.Verify.MapPage

/-!
# Creating an address space

A created address space is a free frame, zeroed, whose upper half holds the
present entries of the kernel's own PML4 (`vmmCreateAddressSpace_inv`).  Its
lower half is empty, so it is a tree of its own: `Forest.create` adds it to any
forest.
-/

namespace PpoOS

open ByteMem FaultState

/-! ## The copy loop -/

theorem entryPtr_ofNat (f : Nat) {i : Nat} (hi : i < 512) :
    entryPtr (frameAddr f) (BitVec.ofNat 64 i) = entryAddr f (BitVec.ofNat 9 i) := by
  rw [entryAddr]
  congr 1
  apply BitVec.eq_of_toNat_eq
  rw [BitVec.toNat_setWidth, BitVec.toNat_ofNat, BitVec.toNat_ofNat]
  omega

/-- One iteration: nothing, or the present kernel entry stored in the new table. -/
theorem vmmCopyKernelEntry_inv {k k' : Kernel} {g : U64} {c i : Nat} {u : Unit} (hi : i < 512)
    (h : (vmmCopyKernelEntry g (frameAddr c) i).run k = some (u, k')) :
    (entryPresent (load64 k.mem (entryPtr g (BitVec.ofNat 64 i))) = false ∧ k' = k) ∨
    (entryPresent (load64 k.mem (entryPtr g (BitVec.ofNat 64 i))) = true ∧
      k' = writeLeaf k c (BitVec.ofNat 9 i) (load64 k.mem (entryPtr g (BitVec.ofNat 64 i)))) := by
  obtain ⟨e, k₁, hread, hrest⟩ := run_bind_iff.mp h
  obtain ⟨-, rfl, rfl⟩ := readEntry_inv hread
  split at hrest
  · next hbit =>
    obtain ⟨-, hk⟩ := writeBytes_inv hrest
    rw [entryPtr_ofNat c hi] at hk
    exact Or.inr ⟨(and_ptePresent _).mp hbit, hk⟩
  · next hbit =>
    obtain ⟨-, hk⟩ := run_pure_iff.mp hrest
    exact Or.inl ⟨and_ptePresent_eq_zero.mp (not_not.mp hbit), hk⟩

/-- The kernel entries in the slots `P` were copied into the table `c`, which is the only frame
written. -/
structure Copies (g : U64) (c : Nat) (P : Nat → Prop) (k k' : Kernel) : Prop where
  rest : k' = k.setMem k'.mem
  outside : ∀ b, frameOf b ≠ c → k'.mem b = k.mem b
  others : ∀ j : Idx, ¬P j.toNat → tableAt k'.mem c j = tableAt k.mem c j
  kernel : ∀ gf, gf < frameBound → gf ≠ c → ∀ j, tableAt k'.mem gf j = tableAt k.mem gf j
  copied : ∀ gf, g = frameAddr gf → gf < frameBound → gf ≠ c → ∀ j : Idx, P j.toNat →
    tableAt k'.mem c j =
      if entryPresent (tableAt k.mem gf j) then tableAt k.mem gf j else tableAt k.mem c j

theorem Copies.trans {g : U64} {c : Nat} {P Q : Nat → Prop} {k k₁ k' : Kernel}
    (h : Copies g c P k k₁) (h' : Copies g c Q k₁ k') :
    Copies g c (fun j => P j ∨ Q j) k k' where
  rest := by
    rw [h'.rest, h.rest]
    rfl
  outside := fun b hb => (h'.outside b hb).trans (h.outside b hb)
  others := fun j hj =>
    (h'.others j fun hq => hj (Or.inr hq)).trans (h.others j fun hp => hj (Or.inl hp))
  kernel := fun gf hgf hgc j => (h'.kernel gf hgf hgc j).trans (h.kernel gf hgf hgc j)
  copied := by
    intro gf hg hgf hgc j hj
    have hkeep := h.kernel gf hgf hgc j
    by_cases hq : Q j.toNat
    · rw [h'.copied gf hg hgf hgc j hq, hkeep]
      by_cases hp : P j.toNat
      · rw [h.copied gf hg hgf hgc j hp]
        split <;> rfl
      · rw [h.others j hp]
    · rw [h'.others j hq]
      exact h.copied gf hg hgf hgc j (hj.resolve_right hq)

theorem vmmCopyKernelEntry_copies {k k' : Kernel} {g : U64} {c i : Nat} {u : Unit}
    (hc : c < frameBound) (hi : i < 512)
    (h : (vmmCopyKernelEntry g (frameAddr c) i).run k = some (u, k')) :
    Copies g c (fun j => j = i) k k' := by
  have hi9 : (BitVec.ofNat 9 i).toNat = i := by
    rw [BitVec.toNat_ofNat]
    omega
  have hread : ∀ gf, g = frameAddr gf → ∀ j : Idx, j.toNat = i →
      load64 k.mem (entryPtr g (BitVec.ofNat 64 i)) = tableAt k.mem gf j := by
    intro gf hg j hj
    rw [hg, entryPtr_ofNat gf hi, ← hj, BitVec.ofNat_toNat, BitVec.setWidth_eq]
    rfl
  rcases vmmCopyKernelEntry_inv hi h with ⟨habs, hk⟩ | ⟨hpres, hk⟩
  · subst hk
    refine ⟨rfl, fun _ _ => rfl, fun _ _ => rfl, fun _ _ _ _ => rfl, ?_⟩
    intro gf hg _ _ j hj
    rw [hread gf hg j hj] at habs
    rw [habs]
    rfl
  · subst hk
    refine ⟨rfl, ?_, ?_, ?_, ?_⟩
    · exact fun b hb => writeLeaf_outside k hc hb
    · intro j hj
      have hne : ¬(c = c ∧ j = BitVec.ofNat 9 i) := fun hji => hj (by rw [hji.2, hi9])
      rw [writeLeaf, Kernel.setMem_mem, tableAt_store64 _ hc hc, if_neg hne]
    · intro gf hgf hgc j
      rw [writeLeaf, Kernel.setMem_mem, tableAt_store64 _ hc hgf, if_neg (fun h => hgc h.1)]
    · intro gf hg _ _ j hj
      have hji : j = BitVec.ofNat 9 i := BitVec.eq_of_toNat_eq (by rw [hi9, hj])
      rw [hread gf hg j hj] at hpres ⊢
      rw [writeLeaf, Kernel.setMem_mem, tableAt_store64 _ hc hc, if_pos ⟨rfl, hji⟩, hpres]
      rfl

theorem vmmCopyLoop_copies {g : U64} {c : Nat} (hc : c < frameBound) {is : List Nat}
    (his : ∀ i ∈ is, i < 512) : ∀ {k k' : Kernel} {u : Unit},
    (is.forM (vmmCopyKernelEntry g (frameAddr c))).run k = some (u, k') →
    Copies g c (· ∈ is) k k' := by
  induction is with
  | nil =>
    intro k k' u h
    cases h
    exact ⟨rfl, fun _ _ => rfl, fun _ _ => rfl, fun _ _ _ _ => rfl,
      fun _ _ _ _ _ hj => absurd hj List.not_mem_nil⟩
  | cons i is ih =>
    intro k k' u h
    rw [List.forM] at h
    obtain ⟨u₁, k₁, hone, hrest⟩ := run_bind_iff.mp h
    have hfirst := vmmCopyKernelEntry_copies hc (his i (by simp)) hone
    have hloop := hfirst.trans (ih (fun j hj => his j (by simp [hj])) hrest)
    simpa only [List.mem_cons] using hloop

/-! ## The new address space -/

/-- A free frame `c` became a PML4: its lower half is empty and its upper half holds the present
entries of the kernel's. -/
structure Creates (k k' : Kernel) (c : Nat) : Prop where
  free : k.pmm.Free c
  maxBits : k'.pmm.maxBits = k.pmm.maxBits
  used : ∀ g, k'.pmm.used g = (decide (g = c) || k.pmm.used g)
  memory : ∀ b, frameOf b ≠ c → k'.mem b = k.mem b
  lower : ∀ j : Idx, j.toNat < 256 → tableAt k'.mem c j = 0#64
  upper : ∀ gf, k.gKernelPml4 = frameAddr gf → gf < frameBound → gf ≠ c → ∀ j : Idx,
    256 ≤ j.toNat → tableAt k'.mem c j =
      if entryPresent (tableAt k.mem gf j) then tableAt k.mem gf j else 0#64
  rest : k' = { k with mem := k'.mem, pmm := k'.pmm, spaces := c :: k.spaces }

/-- What creating an address space does: nothing when no frame is free, else it makes a PML4 of a
free frame. -/
theorem vmmCreateAddressSpace_inv {k k' : Kernel} {p : U64}
    (h : vmmCreateAddressSpace.run k = some (p, k')) :
    (p = 0#64 ∧ k' = k ∧ ∀ f, ¬k.pmm.Free f) ∨ ∃ c, p = frameAddr c ∧ Creates k k' c := by
  unfold vmmCreateAddressSpace at h
  obtain ⟨k₀, k₀', hget, h⟩ := run_bind_iff.mp h
  cases hget
  by_cases hg : k.gKernelPml4 = 0#64
  · rw [if_pos hg] at h
    cases h
  · rw [if_neg hg] at h
    obtain ⟨a, k₁, halloc, h⟩ := run_bind_iff.mp h
    rw [pmmAlloc_run] at halloc
    rcases pmmAllocFrame_cases k.pmm with ⟨c, pm, hc, hf, hmax, hused⟩ | ⟨hnone, hf⟩
    · have hcb : c < frameBound := Nat.lt_trans hc.lt (by unfold frameBound; omega)
      have hc52 : c < 2 ^ 52 := Nat.lt_trans hc.lt (by omega)
      rw [hf] at halloc
      cases halloc
      rw [if_neg (frameAddr_ne_zero hc52 hc.pos), physToVirt_eq,
        run_bind_eq (memset_run 0#8 _ (frame_inDirectMap hcb))] at h
      obtain ⟨u, k₂, hloop, h⟩ := run_bind_iff.mp h
      obtain ⟨u', k₃, hmod, h⟩ := run_bind_iff.mp h
      cases hmod
      cases h
      have his : ∀ i ∈ List.range' 256 256, i < 512 := by
        intro i hi
        have := List.mem_range'_1.mp hi
        omega
      have hcopy := vmmCopyLoop_copies hcb his hloop
      have hc0 : (frameAddr c).toNat = c * 4096 + 0 := by
        rw [frameAddr_toNat hc52, Nat.add_zero]
      have hpm : k₂.pmm = pm := by
        rw [hcopy.rest]
        rfl
      refine Or.inr ⟨c, rfl, hc, by rw [hpm, hmax], by rw [hpm]; exact hused, ?_, ?_, ?_, ?_⟩
      · intro b hb
        have hzero : fill k.mem (frameAddr c) 4096 0#8 b = k.mem b := by
          rw [fill, blit_frame_outside _ hcb hc0 (by omega) hb]
        exact (hcopy.outside b hb).trans hzero
      · intro j hj
        have hnot : j.toNat ∉ List.range' 256 256 := by
          rw [List.mem_range'_1]
          omega
        rw [hcopy.others j hnot, Kernel.setMem_mem, tableAt_fill _ hcb hcb, if_pos rfl]
      · intro gf hgf hgb hgc j hj
        have hmem : j.toNat ∈ List.range' 256 256 := by
          have := j.isLt
          rw [List.mem_range'_1]
          omega
        rw [hcopy.copied gf hgf hgb hgc j hmem, Kernel.setMem_mem, tableAt_fill _ hcb hgb,
          tableAt_fill _ hcb hcb, if_neg hgc, if_pos rfl]
        rfl
      · rw [hcopy.rest, frameOf_frameAddr hc52]
        rfl
    · rw [hf] at halloc
      cases halloc
      rw [if_pos rfl] at h
      cases h
      exact Or.inl ⟨rfl, rfl, hnone⟩

/-- Where the kernel's PML4 lies in the direct map, the copy loop and the call come to an end. -/
theorem vmmCopyLoop_ends {g c : Nat} (hg : g < frameBound) (hc : c < frameBound) {is : List Nat}
    (his : ∀ i ∈ is, i < 512) : ∀ k : Kernel,
    ∃ k', (is.forM (vmmCopyKernelEntry (frameAddr g) (frameAddr c))).run k = some ((), k') := by
  induction is with
  | nil => exact fun k => ⟨k, rfl⟩
  | cons i is ih =>
    intro k
    have hi := his i (by simp)
    have hread := readEntry_run k (entryAddr_inDirectMap hg (BitVec.ofNat 9 i))
    have hone : ∃ k₁, (vmmCopyKernelEntry (frameAddr g) (frameAddr c) i).run k = some ((), k₁) := by
      rw [vmmCopyKernelEntry, entryPtr_ofNat g hi, run_bind_eq hread]
      split
      · rw [entryPtr_ofNat c hi]
        exact ⟨_, writeEntry_run _ k (entryAddr_inDirectMap hc (BitVec.ofNat 9 i))⟩
      · exact ⟨k, rfl⟩
    obtain ⟨k₁, hrun⟩ := hone
    obtain ⟨k₂, hrest⟩ := ih (fun j hj => his j (by simp [hj])) k₁
    exact ⟨k₂, (run_bind_eq hrun).trans hrest⟩

theorem vmmCreateAddressSpace_ends {k : Kernel} {g : Nat} (h : k.gKernelPml4 = frameAddr g)
    (h0 : 0 < g) (hg : g < frameBound) : ∃ p k', vmmCreateAddressSpace.run k = some (p, k') := by
  have hg52 : g < 2 ^ 52 := by
    unfold frameBound at hg
    omega
  have hget : (get : Kern Kernel).run k = some (k, k) := rfl
  rw [vmmCreateAddressSpace, run_bind_eq hget, if_neg (h ▸ frameAddr_ne_zero hg52 h0),
    run_bind_eq (pmmAlloc_run k)]
  rcases pmmAllocFrame_cases k.pmm with ⟨c, pm, hc, hf, -, -⟩ | ⟨-, hf⟩
  · have hcb : c < frameBound := Nat.lt_trans hc.lt (by unfold frameBound; omega)
    have hc52 : c < 2 ^ 52 := Nat.lt_trans hc.lt (by omega)
    have his : ∀ i ∈ List.range' 256 256, i < 512 := by
      intro i hi
      have := List.mem_range'_1.mp hi
      omega
    obtain ⟨k₁, hloop⟩ := vmmCopyLoop_ends hg hcb his
      ((k.setPmm pm).setMem (ByteMem.fill k.mem (frameAddr c) 4096 0#8))
    rw [hf, if_neg (frameAddr_ne_zero hc52 hc.pos), physToVirt_eq, physToVirt_eq, h,
      run_bind_eq (memset_run 0#8 _ (frame_inDirectMap hcb))]
    exact ⟨_, _, (run_bind_eq hloop).trans rfl⟩
  · rw [hf]
    exact ⟨_, _, rfl⟩

section Root

variable {D D' : Ownership} {k k' : Kernel} {c : Nat}

theorem Creates.bound (hc : Creates k k' c) : c < frameBound :=
  Nat.lt_trans hc.free.lt (by unfold frameBound; omega)

theorem Creates.entries (hc : Creates k k' c) {f : Nat} (hf : f < frameBound) (hne : f ≠ c)
    (i : Idx) : tableAt k'.mem f i = tableAt k.mem f i :=
  tableAt_congr hf (fun b hb => hc.memory b (hb ▸ hne)) i

/-- The tables of the old roots stay as they are. -/
theorem Creates.tables (hc : Creates k k' c) (h : Forest D k) (b : U64)
    (hb : IsTable D k (frameOf b)) : k'.mem b = k.mem b :=
  hc.memory b (fun hbc => (h.live _ hb).2 (hbc ▸ hc.free))

/-- The new root reaches nothing in the slots it owns. -/
theorem Creates.walk_new (hempty : ∀ i q, D' c (i :: q) → entryPresent (tableAt k'.mem c i) = false)
    {q : List Idx} (hq : D' c q) {f : Nat} (hw : walk k'.mem c q = some f) : q = [] ∧ f = c := by
  cases q with
  | nil => exact ⟨rfl, (Option.some.inj hw).symm⟩
  | cons i q =>
    simp [walk, Radix.walk, entryChild_eq_none.mpr (hempty i q hq)] at hw

theorem Creates.isTable (hc : Creates k k' c) (h : Forest D k)
    (hD' : ∀ r q, D' r q → D r q ∨ r = c)
    (hempty : ∀ i q, D' c (i :: q) → entryPresent (tableAt k'.mem c i) = false) {f : Nat}
    (hf : IsTable D' k' f) : IsTable D k f ∨ f = c := by
  obtain ⟨r, q, hq, hl, hw⟩ := hf
  rcases hD' r q hq with hd | hr
  · exact Or.inl ⟨r, q, hd, hl, (h.walk_agree (hc.tables h) hd hl).symm.trans hw⟩
  · subst hr
    exact Or.inr (Creates.walk_new hempty hq hw).2

/-- **A new root joins the forest.** -/
theorem Forest.create (h : Forest D k) (hc : Creates k k' c) (hclosed : Radix.PrefixClosed D')
    (hD' : ∀ r q, D' r q → D r q ∨ r = c)
    (hempty : ∀ i q, D' c (i :: q) → entryPresent (tableAt k'.mem c i) = false) :
    Forest D' k' where
  closed := hclosed
  separated := by
    have hfresh : ¬IsTable D k c := fun hf => (h.live c hf).2 hc.free
    refine Radix.separated_root h.closed h.separated hfresh (h.entries_agree (hc.tables h)) hD' ?_
    intro i q hq
    exact entryChild_eq_none.mpr (hempty i q hq)
  live := by
    intro f hf
    rw [Pmm.free_of_marked hc.maxBits hc.used]
    rcases hc.isTable h hD' hempty hf with hf' | hfc
    · obtain ⟨hfb, hff⟩ := h.live f hf'
      exact ⟨hfb, fun hc => hff hc.2⟩
    · subst hfc
      exact ⟨hc.bound, fun hne => hne.1 rfl⟩
  plain := by
    intro r q i f hq hl hw hpres
    rcases hD' r _ hq with hd | hr
    · have hdq := h.closed hd
      rw [h.walk_agree (hc.tables h) hdq (by omega)] at hw
      rw [h.entries_agree (hc.tables h) f i ⟨r, q, hdq, by omega, hw⟩] at hpres ⊢
      exact h.plain r q i f hd hl hw hpres
    · subst hr
      obtain ⟨hq', hf⟩ := Creates.walk_new hempty (hclosed hq) hw
      subst hq'
      subst hf
      rw [hempty i [] hq] at hpres
      cases hpres

end Root

end PpoOS
