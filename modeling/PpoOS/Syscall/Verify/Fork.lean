import PpoOS.Syscall.Fork
import PpoOS.Process.Verify.Frames

/-!
# Forking

The copy loop of `sys_fork` loads the child's pages like the loops of
`exec_elf`: a page that the parent has is a page job whose bytes are the
parent's.  **`forkCopyPages_inv`**: the loop does such jobs, in the order of the
pages, and stops where a frame is missing.
-/

namespace PpoOS

open ByteMem FaultState

section

variable {D : Ownership} {T : U64 → Prop} {own : Idx → Nat} {c o : Nat} {k k' : Kernel}
  {parent va a : U64} {b : Bool}

/-! ## Looking at the parent -/

/-- The state is as before. -/
abbrev Unchanged (k k' : Kernel) : Prop := k' = k

theorem unchanged_bind {α β : Type} {x : Kern α} {f : α → Kern β} (hx : Within Unchanged x)
    (hf : ∀ a, Within Unchanged (f a)) : Within Unchanged (x >>= f) :=
  Within.bind (fun _ _ _ h h' => h'.trans h) hx hf

theorem unchanged_pure {α : Type} (a : α) : Within Unchanged (pure a) :=
  Within.pure (R := Unchanged) (fun _ => rfl) a

theorem unchanged_readEntry (ptr : U64) : Within Unchanged (readEntry ptr) :=
  fun _ _ _ h => (readEntry_inv h).2.2

theorem unchanged_vmmPresentTable (entry : U64) : Within Unchanged (vmmPresentTable entry) := by
  refine unchanged_bind (unchanged_readEntry entry) fun e => ?_
  split
  · exact unchanged_pure _
  · exact unchanged_pure _

theorem unchanged_vmmFollow (q : List Idx) : ∀ table : U64, Within Unchanged (vmmFollow table q) := by
  induction q with
  | nil => exact fun table => unchanged_pure _
  | cons i q ih =>
    intro table
    refine unchanged_bind (unchanged_vmmPresentTable _) fun next => ?_
    cases next with
    | none => exact unchanged_pure _
    | some next => exact ih next

/-- Translating an address changes nothing, whatever the tables hold. -/
theorem unchanged_vmmGetPhysicalAddress (pml4 va : U64) :
    Within Unchanged (vmmGetPhysicalAddress pml4 va) := by
  rw [vmmGetPhysicalAddress, vmmFindPte_eq]
  refine unchanged_bind (unchanged_bind (unchanged_vmmFollow _ _) fun pt => ?_) fun pte => ?_
  · cases pt with
    | none => exact unchanged_pure _
    | some pt => exact unchanged_pure _
  · cases pte with
    | none => exact unchanged_pure _
    | some pte =>
      refine unchanged_bind (unchanged_readEntry _) fun e => ?_
      split
      · exact unchanged_pure _
      · exact unchanged_pure _

theorem memcpy_run {dest src : U64} {n : Nat} (k : Kernel) (hs : inDirectMap src n)
    (hd : inDirectMap dest n) : (memcpy dest src n).run k =
      some ((), k.setMem (blit k.mem dest n fun i => k.mem (src + BitVec.ofNat 64 i))) := by
  have hget : (get : Kern Kernel).run k = some (k, k) := rfl
  rw [memcpy, if_pos hs, run_bind_eq hget]
  exact writeBytes_run _ k hd

/-! ## Copying a page -/

/-- The job of a child page: a copy of the 4096 bytes at `a`. -/
def forkJob (va a : U64) (m : Mem) : PageJob where
  va := va
  flags := forkFlags va
  content := some fun i => m (a + BitVec.ofNat 64 (i % 4096))
  reads := []

theorem forkJob_userFlags (va a : U64) (m : Mem) : (forkJob va a m).UserFlags := by
  refine userFlags_of_eq ⟨decide (va ≥ userStackBottomVaddr ∧ va ≤ userStackTopVaddr), false, ?_⟩
  unfold forkJob forkFlags userFlags
  by_cases h : va ≥ userStackBottomVaddr ∧ va ≤ userStackTopVaddr
  · simp [h]
  · simp [h]

/-- One iteration of the copy loop where the parent has a page: the job of the page. -/
theorem forkCopyPage_spec (h : Forest D k) (hw : Owns D k c va o)
    (hget : (vmmGetPhysicalAddress parent va).run k = some (a, k)) (ha : a ≠ 0#64)
    (hmap : inDirectMap a 4096) :
    (∃ k' d, (forkCopyPage parent (frameAddr c) va).run k = some (true, k') ∧
      Loads D T o (forkJob va a k.mem) k k' d) ∨
    (∃ k', (forkCopyPage parent (frameAddr c) va).run k = some (false, k') ∧
      StallsAt D T o (forkJob va a k.mem) k k') := by
  have hnil : ∀ i ∈ ([] : List U64), T i := fun _ hi => absurd hi List.not_mem_nil
  rw [forkCopyPage, run_bind_eq hget, if_neg ha]
  rcases pmmAlloc_takes h with ⟨d, pm, halloc, hd0, hdb, ht⟩ | ⟨halloc, hnone⟩
  · have hd' := hdb
    unfold frameBound at hd'
    have hda : (frameAddr d).toNat = d * 4096 + 0 := by
      rw [frameAddr_toNat (by omega), Nat.add_zero]
    have hcpy := memcpy_run (k.setPmm pm) hmap (frame_inDirectMap hdb)
    -- the copy goes into the frame that was taken
    have ht₁ := ht.write (m := blit k.mem (frameAddr d) 4096 fun i => k.mem (a + BitVec.ofNat 64 i))
      h fun b hb => blit_frame_outside k.mem hdb hda (by omega) hb _
    have ht₀ : Takes D (k.log []) _ d := ht₁
    rw [run_bind_eq halloc, if_neg hd0, physToVirt_eq, physToVirt_eq, run_bind_eq hcpy]
    rcases vmmMapPage_spec ht₁.forest (hw.evolves h ht₁.toEvolves) (frameAddr d)
      (forkFlags va) with ⟨k₂, hmap₂, hm⟩ | ⟨k₂, hmap₂, hg, hshort⟩
    · refine Or.inl ⟨k₂, d, (run_bind_eq hmap₂).trans rfl, ?_⟩
      have hloads : ReadsOf T [forkJob va a k.mem] k ((k.log []).log []) →
          Loads D T o (forkJob va a k.mem) k ((k₂.setMem k₂.mem).log []) d := by
        refine Loads.of_maps h hw.path ht₀ hm (fun _ _ => rfl) fun i hi => ?_
        have hbyte := blit_at k.mem (frameAddr d) (fun i => k.mem (a + BitVec.ofNat 64 i))
          (by omega) hi
        have hjob : (forkJob va a k.mem).byte k.mem d i = k.mem (a + BitVec.ofNat 64 i) := by
          simp only [PageJob.byte, forkJob, Nat.mod_eq_of_lt hi]
        rw [ht₁.maps_keep h hm (frameOf_add hdb hi)]
        exact hbyte.trans hjob.symm
      refine hloads ⟨[], rfl, fun _ hi => absurd hi List.not_mem_nil, fun j hj i hi => ?_⟩
      rw [List.mem_singleton.mp hj] at hi
      exact hi
    · exact Or.inr ⟨_, (run_bind_eq hmap₂).trans rfl,
        StallsAt.giveBack h hw.path ht₀ hg hshort hnil⟩
  · have hfull : StallsAt D T o (forkJob va a k.mem) k (k.log []) :=
      StallsAt.full h hw.path hnone hnil
    exact Or.inr ⟨k, (run_bind_eq halloc).trans rfl, hfull⟩

/-- Where the address is not one of the direct map, the copy does not come back. -/
theorem forkCopyPage_faults (hget : (vmmGetPhysicalAddress parent va).run k = some (a, k))
    (ha : a ≠ 0#64) (hmap : ¬inDirectMap a 4096) (h : Forest D k)
    (hrun : (forkCopyPage parent (frameAddr c) va).run k = some (b, k')) : b = false ∧ k' = k := by
  rw [forkCopyPage, run_bind_eq hget, if_neg ha] at hrun
  rcases pmmAlloc_takes h with ⟨d, pm, halloc, hd0, -⟩ | ⟨halloc, -⟩
  · rw [run_bind_eq halloc, if_neg hd0, physToVirt_eq, physToVirt_eq, memcpy, if_neg hmap] at hrun
    cases hrun
  · rw [run_bind_eq halloc] at hrun
    cases hrun
    exact ⟨rfl, rfl⟩

/-- What one iteration of the copy loop does, whatever the parent's tables are. -/
theorem forkCopyPage_inv (h : Loading D own UserHalf c k) (hva : UserHalf va)
    (hrun : (forkCopyPage parent (frameAddr c) va).run k = some (b, k')) :
    ∃ a, (vmmGetPhysicalAddress parent va).run k = some (a, k) ∧
      ((a = 0#64 ∧ b = true ∧ k' = k) ∨
        (a ≠ 0#64 ∧ inDirectMap a 4096 ∧ b = true ∧
          ∃ d, Loads D T (own (rootIdx va)) (forkJob va a k.mem) k k' d) ∨
        (a ≠ 0#64 ∧ b = false ∧ Stalls D k k')) := by
  obtain ⟨a, k₀, hget, hrest⟩ := run_bind_iff.mp hrun
  cases unchanged_vmmGetPhysicalAddress parent va k a k₀ hget
  refine ⟨a, hget, ?_⟩
  by_cases h0 : a = 0#64
  · rw [if_pos h0] at hrest
    obtain ⟨rfl, rfl⟩ := run_pure_iff.mp hrest
    exact Or.inl ⟨h0, rfl, rfl⟩
  · by_cases hmap : inDirectMap a 4096
    · rcases forkCopyPage_spec (T := T) h.forest (h.owns va hva) hget h0 hmap with
        ⟨k₁, d, hrun', hl⟩ | ⟨k₁, hrun', hs⟩
      · cases hrun.symm.trans hrun'
        exact Or.inr (Or.inl ⟨h0, hmap, rfl, d, hl⟩)
      · cases hrun.symm.trans hrun'
        exact Or.inr (Or.inr ⟨h0, rfl, hs.toStalls⟩)
    · obtain ⟨rfl, rfl⟩ := forkCopyPage_faults hget h0 hmap h.forest hrun
      exact Or.inr (Or.inr ⟨h0, rfl, Stalls.refl h.forest⟩)

/-- **The copy loop** does page jobs into the child, and may stop with one half done. -/
theorem forkCopyPages_inv {vas : List U64} (hvas : ∀ va ∈ vas, UserHalf va) :
    ∀ {k k' b}, Loading D own UserHalf c k →
      (vas.allM fun va => forkCopyPage parent (frameAddr c) va).run k = some (b, k') →
      ∃ js k₁, (∀ j ∈ js, j.UserFlags) ∧ Loaded D T own k js k₁ ∧ Stalls D k₁ k' := by
  induction vas with
  | nil =>
    intro k k' b h hrun
    cases hrun
    exact ⟨[], k, fun _ hj => absurd hj List.not_mem_nil, .nil, Stalls.refl h.forest⟩
  | cons va vas ih =>
    intro k k' b h hrun
    have hrest : ∀ va' ∈ vas, UserHalf va' := fun va' hva' => hvas va' (by simp [hva'])
    rcases run_allM_cons_iff.mp hrun with ⟨hone, -⟩ | ⟨k₁, hone, hloop⟩
    · obtain ⟨a, -, ⟨-, hc, -⟩ | ⟨-, -, hc, -⟩ | ⟨-, -, hs⟩⟩ :=
        forkCopyPage_inv (T := T) h (hvas va (by simp)) hone
      · cases hc
      · cases hc
      · exact ⟨[], k, fun _ hj => absurd hj List.not_mem_nil, .nil, hs⟩
    · obtain ⟨a, -, ⟨-, -, rfl⟩ | ⟨-, -, -, d, hl⟩ | ⟨-, hc, -⟩⟩ :=
        forkCopyPage_inv (T := T) h (hvas va (by simp)) hone
      · exact ih hrest h hloop
      · obtain ⟨js, k₂, hjs, hl₂, hs⟩ := ih hrest (h.evolves hl.toEvolves) hloop
        refine ⟨[forkJob va a k.mem] ++ js, k₂, ?_, Loaded.trans (.page .nil hl) hl₂, hs⟩
        intro j hj
        rcases List.mem_cons.mp hj with rfl | hj
        · exact forkJob_userFlags va a k.mem
        · exact hjs j hj
      · cases hc

/-- The pages `sys_fork` looks at. -/
theorem forkVaddrs_lt {va : U64} (h : va ∈ forkVaddrs) :
    va.toNat < forkUserEnd ∧ va.toNat % 4096 = 0 := by
  obtain ⟨i, hi, rfl⟩ := List.mem_map.mp h
  have hi := List.mem_range.mp hi
  have h4096 : pageSize.toNat = 4096 := by decide
  unfold forkUserEnd at hi ⊢
  rw [BitVec.toNat_mul, BitVec.toNat_ofNat, h4096]
  omega

theorem forkVaddrs_user : ∀ va ∈ forkVaddrs, UserHalf va := by
  intro va hva
  have hlt := (forkVaddrs_lt hva).1
  unfold forkUserEnd at hlt
  exact userHalf_of_lt (by omega)

end

end PpoOS
