import PpoOS.Mm.Verify.UserHalf
import PpoOS.Lib.Transition
import Mathlib.Logic.Function.Basic

/-!
# Address spaces are a family of finite maps

The abstract system is a family of partial maps from user pages to leaf entries,
one for each address space; its steps insert, overwrite and erase single pages.

* **`spaces_simulate`**: a run of the page-table code from a state without
  address spaces is, operation by operation, a run of the abstract system.
* **`vmmGetPhysicalAddress_map_iff`**: a page that was just mapped translates to
  its frame exactly when it was mapped executable.
-/

namespace PpoOS

open ByteMem FaultState Transition

/-! ## The abstract system -/

/-- A family of address spaces, each a partial map from user pages to leaf entries. -/
abbrev Spaces := Nat → Option (Page → Option U64)

/-- The operations, with their arguments and results; `other` is what the rest of the kernel and
the programs do to memory and to the allocator. -/
inductive SpaceOp where
  | create (pml4 : U64)
  | map (r : Nat) (virtAddr physAddr flags : U64) (ok : Bool)
  | unmap (r : Nat) (virtAddr : U64)
  | other
deriving DecidableEq

/-- What an operation means for the family of maps. -/
inductive SpacesStep : Spaces → SpaceOp → Spaces → Prop
  | create {A : Spaces} {pml4 : U64} (hp : pml4 ≠ 0#64) (hnew : A (frameOf pml4) = none) :
      SpacesStep A (.create pml4) (Function.update A (frameOf pml4) (some fun _ => none))
  | createFails (A : Spaces) : SpacesStep A (.create 0#64) A
  | map {A : Spaces} {r : Nat} {M : Page → Option U64} (hr : A r = some M) (va pa flags : U64) :
      SpacesStep A (.map r va pa flags true)
        (Function.update A r (some (Function.update M (userPage va) (some (pa ||| flags)))))
  | mapFails {A : Spaces} {r : Nat} {M : Page → Option U64} (hr : A r = some M)
      (va pa flags : U64) : SpacesStep A (.map r va pa flags false) A
  | unmap {A : Spaces} {r : Nat} {M : Page → Option U64} (hr : A r = some M) (va : U64) :
      SpacesStep A (.unmap r va)
        (Function.update A r (some (Function.update M (userPage va) none)))
  | other (A : Spaces) : SpacesStep A .other A

/-! ## The code's system -/

/-- The rest of the kernel and the programs keep their hands off the tables: they write to no table
frame and free none. -/
structure KeepsTables (k k' : Kernel) : Prop where
  spaces : k'.spaces = k.spaces
  memory : ∀ b, IsTable (UserOwned k.spaces) k (frameOf b) → k'.mem b = k.mem b
  pmm : ∀ f, IsTable (UserOwned k.spaces) k f → ¬k'.pmm.Free f

/-- A call of the page-table code on the user half of an address space that was created. -/
inductive KernelStep : Kernel → SpaceOp → Kernel → Prop
  | create {k k' : Kernel} {pml4 : U64}
      (run : vmmCreateAddressSpace.run k = some (pml4, k')) : KernelStep k (.create pml4) k'
  | map {k k' : Kernel} {r : Nat} {va pa flags : U64} {ok : Bool} (space : r ∈ k.spaces)
      (user : UserHalf va) (present : flags &&& ptePresent ≠ 0#64)
      (run : (vmmMapPage (frameAddr r) va pa flags).run k = some (ok, k')) :
      KernelStep k (.map r va pa flags ok) k'
  | unmap {k k' : Kernel} {r : Nat} {va : U64} (space : r ∈ k.spaces) (user : UserHalf va)
      (run : (vmmUnmapPage (frameAddr r) va).run k = some ((), k')) :
      KernelStep k (.unmap r va) k'
  | other {k k' : Kernel} (keeps : KeepsTables k k') : KernelStep k .other k'

/-- The map of an address space: the leaf the four-level walk finds for each user page. -/
def spaceMap (m : Mem) (r : Nat) : Page → Option U64 := fun u => translate m r (pageBase u)

def absSpaces (k : Kernel) : Spaces := fun r =>
  if r ∈ k.spaces then some (spaceMap k.mem r) else none

/-! ## The simulation -/

section Simulation

variable {k k' : Kernel} {r c : Nat} {va v : U64}

theorem absSpaces_of_mem (h : r ∈ k.spaces) : absSpaces k r = some (spaceMap k.mem r) := if_pos h

theorem spaceMap_userPage (m : Mem) (hva : UserHalf va) :
    spaceMap m r (userPage va) = translate m r va := by
  have hpage := (pageIdx_eq_iff (userHalf_pageBase (userPage va)) hva).mpr (userPage_pageBase _)
  obtain ⟨hpath, hleaf⟩ := path_eq_iff.mpr hpage
  rw [spaceMap, translate, hpath, hleaf, translate]

/-- One changed leaf is one changed page of one map. -/
theorem absSpaces_update (hr : r ∈ k.spaces) (hs : k'.spaces = k.spaces) (hva : UserHalf va)
    {leaf : Option U64} (hleaf : translate k'.mem r va = leaf)
    (hothers : ∀ r' q i, UserOwned k.spaces r' q → q.length = 3 →
      ¬(r' = r ∧ q = tablePath va ∧ i = leafIdx va) →
      lookup k'.mem r' q i = lookup k.mem r' q i) :
    absSpaces k' = Function.update (absSpaces k) r
      (some (Function.update (spaceMap k.mem r) (userPage va) leaf)) := by
  funext r'
  by_cases hr' : r' ∈ k.spaces
  · rw [absSpaces_of_mem (hs ▸ hr')]
    have hother : ∀ u : Page, ¬(r' = r ∧ u = userPage va) →
        spaceMap k'.mem r' u = spaceMap k.mem r' u := by
      intro u hu
      refine hothers r' _ _ (userOwned_path hr' (userHalf_pageBase u)) rfl ?_
      intro hc
      have hpage := path_eq_iff.mp hc.2
      rw [pageIdx_eq_iff (userHalf_pageBase u) hva, userPage_pageBase] at hpage
      exact hu ⟨hc.1, hpage⟩
    by_cases hrr : r' = r
    · subst hrr
      rw [Function.update_self]
      refine congrArg some (funext fun u => ?_)
      by_cases hu : u = userPage va
      · rw [hu, Function.update_self, spaceMap_userPage _ hva, hleaf]
      · rw [Function.update_of_ne hu, hother u (fun hc => hu hc.2)]
    · rw [Function.update_of_ne hrr, absSpaces_of_mem hr']
      refine congrArg some (funext fun u => ?_)
      exact hother u (fun hc => hrr hc.1)
  · have hne : r' ≠ r := fun hc => hr' (hc ▸ hr)
    rw [Function.update_of_ne hne, absSpaces, absSpaces, hs, if_neg hr', if_neg hr']

/-- Where no leaf changes, no map does. -/
theorem absSpaces_eq (hs : k'.spaces = k.spaces)
    (hleaves : ∀ r' q i, UserOwned k.spaces r' q → q.length = 3 →
      lookup k'.mem r' q i = lookup k.mem r' q i) : absSpaces k' = absSpaces k := by
  funext r'
  by_cases hr' : r' ∈ k.spaces
  · rw [absSpaces_of_mem hr', absSpaces_of_mem (hs ▸ hr')]
    refine congrArg some (funext fun u => ?_)
    exact hleaves r' _ _ (userOwned_path hr' (userHalf_pageBase u)) rfl
  · rw [absSpaces, absSpaces, hs, if_neg hr', if_neg hr']

theorem Evolves.spaces {D : Ownership} (h : Evolves D k k') : k'.spaces = k.spaces := by
  rw [h.rest]

/-- A new address space is a new, empty map. -/
theorem absSpaces_create (h : Forest (UserOwned k.spaces) k) (hc : Creates k k' c) :
    absSpaces k c = none ∧
      absSpaces k' = Function.update (absSpaces k) c (some fun _ => none) := by
  have hs : k'.spaces = c :: k.spaces := by rw [hc.rest]
  have hnew : c ∉ k.spaces := by
    intro hmem
    have hroot : UserOwned k.spaces c [] := ⟨hmem, by simp⟩
    exact (h.root_live hroot).2 hc.free
  refine ⟨if_neg hnew, ?_⟩
  funext r'
  by_cases hrc : r' = c
  · subst hrc
    rw [Function.update_self, absSpaces_of_mem (by rw [hs]; simp)]
    refine congrArg some (funext fun u => ?_)
    have hwalk : walk k'.mem r' (tablePath (pageBase u)) = none := by
      have hlow := hc.lower _ (userHalf_pageBase u)
      have hchild : entryChild (tableAt k'.mem r' (rootIdx (pageBase u))) = none := by
        rw [hlow, entryChild_zero]
      rw [rootIdx] at hchild
      simp [walk, tablePath, Radix.walk, hchild]
    exact translate_of_none hwalk
  · rw [Function.update_of_ne hrc]
    by_cases hr' : r' ∈ k.spaces
    · rw [absSpaces_of_mem hr', absSpaces_of_mem (by rw [hs]; simp [hr'])]
      refine congrArg some (funext fun u => ?_)
      exact h.lookup_agree (hc.tables h) (userOwned_path hr' (userHalf_pageBase u)) (Nat.le_refl 3) _
    · rw [absSpaces, absSpaces, hs, if_neg hr', if_neg (by simp [hrc, hr'])]

/-- Every operation keeps the forest of user halves. -/
theorem KernelStep.forest {op : SpaceOp} (h : Forest (UserOwned k.spaces) k)
    (hstep : KernelStep k op k') : Forest (UserOwned k'.spaces) k' := by
  cases hstep with
  | create run =>
    rcases vmmCreateAddressSpace_inv run with ⟨-, rfl, -⟩ | ⟨c, -, hc⟩
    · exact h
    · have hs : k'.spaces = c :: k.spaces := by rw [hc.rest]
      rw [hs]
      exact forest_cons h hc
  | @map _ r va pa flags ok space user present run =>
    have ho := Owns.self h (userOwned_path space user)
    rcases vmmMapPage_spec h ho pa flags with ⟨k₁, hrun, hm⟩ | ⟨k₁, hrun, hg, -⟩
    · cases hrun.symm.trans run
      rw [hm.toEvolves.spaces]
      exact hm.forest
    · cases hrun.symm.trans run
      rw [hg.toEvolves.spaces]
      exact hg.forest
  | @unmap _ r va space user run =>
    have ho := Owns.self h (userOwned_path space user)
    obtain ⟨k₁, hrun, hu⟩ := vmmUnmapPage_spec h ho
    cases hrun.symm.trans run
    rw [hu.toEvolves.spaces]
    exact hu.forest
  | other keeps =>
    rw [keeps.spaces]
    exact h.agree keeps.memory keeps.pmm

/-- Every operation of the code is the operation of the abstract system. -/
theorem KernelStep.simulates {op : SpaceOp} (h : Forest (UserOwned k.spaces) k)
    (hstep : KernelStep k op k') : SpacesStep (absSpaces k) op (absSpaces k') := by
  cases hstep with
  | create run =>
    rcases vmmCreateAddressSpace_inv run with ⟨rfl, rfl, -⟩ | ⟨c, rfl, hc⟩
    · exact .createFails _
    · have hc52 : c < 2 ^ 52 := Nat.lt_trans hc.free.lt (by omega)
      have hframe := frameOf_frameAddr hc52
      obtain ⟨hnew, hupd⟩ := absSpaces_create h hc
      rw [hupd]
      have hstep := SpacesStep.create (A := absSpaces k) (frameAddr_ne_zero hc52 hc.free.pos)
        (hframe.symm ▸ hnew)
      rwa [hframe] at hstep
  | @map _ r va pa flags ok space user present run =>
    have ho := Owns.self h (userOwned_path space user)
    rcases vmmMapPage_spec h ho pa flags with ⟨k₁, hrun, hm⟩ | ⟨k₁, hrun, hg, -⟩
    · cases hrun.symm.trans run
      have hpres : entryPresent (pa ||| flags) = true := by
        rw [entryPresent, BitVec.getLsbD_or, ← entryPresent, ← entryPresent,
          (and_ptePresent flags).mp present, Bool.or_true]
      have hleaf : translate k'.mem r va = some (pa ||| flags) := by
        rw [hm.leaf, entryLeaf, hpres]
        rfl
      rw [absSpaces_update space hm.toEvolves.spaces user hleaf hm.others]
      exact .map (absSpaces_of_mem space) va pa flags
    · cases hrun.symm.trans run
      rw [absSpaces_eq hg.toEvolves.spaces hg.leaves]
      exact .mapFails (absSpaces_of_mem space) va pa flags
  | @unmap _ r va space user run =>
    have ho := Owns.self h (userOwned_path space user)
    obtain ⟨k₁, hrun, hu⟩ := vmmUnmapPage_spec h ho
    cases hrun.symm.trans run
    rw [absSpaces_update space hu.toEvolves.spaces user hu.leaf hu.others]
    exact .unmap (absSpaces_of_mem space) va
  | other keeps =>
    have hleaves := fun r' q i (hq : UserOwned k.spaces r' q) (hl : q.length = 3) =>
      h.lookup_agree keeps.memory hq (by omega) i
    rw [absSpaces_eq keeps.spaces hleaves]
    exact .other _

end Simulation

/-- The forest of user halves in every state a run reaches. -/
theorem run_forest {k₀ k : Kernel} {ops : List SpaceOp} (hrun : Run KernelStep k₀ ops k)
    (h₀ : k₀.spaces = []) : Forest (UserOwned k.spaces) k :=
  hrun.invariant (I := fun k => Forest (UserOwned k.spaces) k) (fun _ _ _ h hs => hs.forest h)
    (h₀ ▸ forest_nil k₀)

/-- An allocation for data keeps its hands off the tables. -/
theorem keepsTables_alloc {k : Kernel} (h : Forest (UserOwned k.spaces) k) :
    KeepsTables k (k.setPmm (pmmAllocFrame k.pmm).2) := by
  refine ⟨rfl, fun _ _ => rfl, fun f hf => ?_⟩
  have hnot := (h.live f hf).2
  rcases pmmAllocFrame_cases k.pmm with ⟨c, pm, -, halloc, hmax, hused⟩ | ⟨-, halloc⟩
  · rw [halloc, Kernel.setPmm_pmm, Pmm.free_of_marked hmax hused]
    exact fun hc => hnot hc.2
  · rw [halloc]
    exact hnot

/-- **The page-table code refines a family of finite maps.**  From a state without address spaces,
every run is a run of the abstract system with the same operations and results. -/
theorem spaces_simulate {k₀ k : Kernel} {ops : List SpaceOp} (hrun : Run KernelStep k₀ ops k)
    (h₀ : k₀.spaces = []) : Run SpacesStep (fun _ => none) ops (absSpaces k) := by
  have habs : absSpaces k₀ = fun _ => none := by
    funext r
    rw [absSpaces, h₀, if_neg List.not_mem_nil]
  rw [← habs]
  exact hrun.simulate (I := fun k => Forest (UserOwned k.spaces) k)
    (fun _ _ _ h hs => hs.forest h) (fun _ _ _ h hs => hs.simulates h) (h₀ ▸ forest_nil k₀)

/-- A machine with sixteen free frames above 1 MiB and empty memory. -/
def smallKernel : Kernel where
  mem := fun _ => 0#8
  pmm :=
    { bitmap := fun _ => 0#8
      lastAllocIndex := 0
      highestAddress := 272 * 4096
      highest_aligned := Nat.dvd_mul_left _ _
      highest_le := by decide
      lastAllocIndex_le := by decide }
  gKernelPml4 := 0x1000#64
  cr3 := 0x1000#64
  nextPid := 1#64
  spaces := []
  reads := []

theorem small_created : (vmmCreateAddressSpace.run smallKernel).any (fun x =>
    decide (x.1 = 0x100000#64 ∧ x.2.spaces = [256] ∧ (pmmAllocFrame x.2.pmm).1 = 0x101000#64)) = true := by
  decide +kernel

theorem small_create_runs : (vmmCreateAddressSpace.run smallKernel).isSome = true := isSome_of_any small_created

/-- `smallKernel` after its first address space was created. -/
def smallSpace : Kernel := ((vmmCreateAddressSpace.run smallKernel).get small_create_runs).2

theorem smallSpace_created : ((vmmCreateAddressSpace.run smallKernel).get small_create_runs).1 = 0x100000#64 ∧
    smallSpace.spaces = [256] ∧ (pmmAllocFrame smallSpace.pmm).1 = 0x101000#64 := by
  rw [smallSpace]
  exact get_of_any small_created small_create_runs

theorem small_create : vmmCreateAddressSpace.run smallKernel = some (0x100000#64, smallSpace) := by
  rw [smallSpace]
  exact eq_some_get small_create_runs smallSpace_created.1

/-- A call of the page-table code with its arguments. -/
inductive SpaceCall where
  | create
  | map (r : Nat) (virtAddr physAddr flags : U64)
  | unmap (r : Nat) (virtAddr : U64)

namespace SpaceCall

/-- What the callers of the code see to. -/
def Fits (k : Kernel) : SpaceCall → Prop
  | create => True
  | map r va _ flags => r ∈ k.spaces ∧ UserHalf va ∧ flags &&& ptePresent ≠ 0#64
  | unmap r va => r ∈ k.spaces ∧ UserHalf va

instance (k : Kernel) (c : SpaceCall) : Decidable (c.Fits k) := by
  cases c <;> unfold Fits <;> infer_instance

def call : SpaceCall → Kern SpaceOp
  | create => do return .create (← vmmCreateAddressSpace)
  | map r va pa flags => do return .map r va pa flags (← vmmMapPage (frameAddr r) va pa flags)
  | unmap r va => do
    vmmUnmapPage (frameAddr r) va
    return .unmap r va

/-- Make the call where it fits. -/
def make (c : SpaceCall) : Kern SpaceOp := do
  if c.Fits (← get) then c.call else failure

theorem make_step {c : SpaceCall} {k k' : Kernel} {op : SpaceOp} (h : c.make.run k = some (op, k')) :
    KernelStep k op k' := by
  by_cases hfits : c.Fits k
  · have hcall : c.call.run k = some (op, k') := by
      rw [← h]
      change _ = (if c.Fits k then c.call else failure).run k
      rw [if_pos hfits]
    cases c with
    | create =>
      obtain ⟨pml4, k₁, hrun, hop⟩ := run_bind_iff.mp hcall
      cases hop
      exact .create hrun
    | map r va pa flags =>
      obtain ⟨ok, k₁, hrun, hop⟩ := run_bind_iff.mp hcall
      cases hop
      exact .map hfits.1 hfits.2.1 hfits.2.2 hrun
    | unmap r va =>
      obtain ⟨_, k₁, hrun, hop⟩ := run_bind_iff.mp hcall
      cases hop
      exact .unmap hfits.1 hfits.2 hrun
  · have hnone : c.make.run k = none := by
      change (if c.Fits k then c.call else failure).run k = none
      rw [if_neg hfits]
      rfl
    rw [hnone] at h
    cases h

/-- Calls that go through one after the other are a run. -/
theorem makes_run {cs : List SpaceCall} {k k' : Kernel} {ops : List SpaceOp}
    (h : (cs.mapM make).run k = some (ops, k')) : Run KernelStep k ops k' := by
  induction cs generalizing k ops with
  | nil =>
    cases h
    exact .nil _
  | cons c cs ih =>
    rw [List.mapM_cons] at h
    obtain ⟨op, k₁, hc, h⟩ := run_bind_iff.mp h
    obtain ⟨ops', k₂, hcs, h⟩ := run_bind_iff.mp h
    cases h
    exact .cons (make_step hc) (ih hcs)

end SpaceCall

/-- `smallKernel` with ten free frames only. -/
def tenFrameKernel : Kernel :=
  { smallKernel with
    pmm :=
      { smallKernel.pmm with
        highestAddress := 266 * 4096
        highest_aligned := Nat.dvd_mul_left _ _
        highest_le := by decide
        lastAllocIndex_le := by decide } }

/-- Two spaces, the same page in both, again in the first one, gone from the second one, and a page
for whose tables two frames are left. -/
def twoSpaceCalls : List SpaceCall :=
  [.create, .create, .map 256 0x400000#64 0x7000#64 7#64, .map 257 0x400000#64 0x8000#64 5#64,
    .map 256 0x400000#64 0x9000#64 (pteNx ||| 7#64), .unmap 257 0x400000#64,
    .map 257 0x8000000000#64 0x7000#64 7#64, .create]

def twoSpaceOps : List SpaceOp :=
  [.create 0x100000#64, .create 0x101000#64, .map 256 0x400000#64 0x7000#64 7#64 true,
    .map 257 0x400000#64 0x8000#64 5#64 true,
    .map 256 0x400000#64 0x9000#64 (pteNx ||| 7#64) true, .unmap 257 0x400000#64,
    .map 257 0x8000000000#64 0x7000#64 7#64 false, .create 0#64]

theorem twoSpace_made : ((twoSpaceCalls.mapM SpaceCall.make).run tenFrameKernel).any (fun x =>
    decide (x.1 = twoSpaceOps)) = true := by
  decide +kernel

theorem twoSpace_makes : ((twoSpaceCalls.mapM SpaceCall.make).run tenFrameKernel).isSome = true :=
  isSome_of_any twoSpace_made

/-- `tenFrameKernel` after the calls. -/
def twoSpaceEnd : Kernel := ((twoSpaceCalls.mapM SpaceCall.make).run tenFrameKernel).get twoSpace_makes |>.2

theorem spaces_simulate_twoSpaces : Run SpacesStep (fun _ => none) twoSpaceOps (absSpaces twoSpaceEnd) :=
  spaces_simulate (SpaceCall.makes_run (eq_some_get twoSpace_makes (get_of_any twoSpace_made twoSpace_makes)))
    rfl

/-! ## Lookup after mapping -/

theorem and_not_pageMask_toNat (a : U64) : (a &&& ~~~pageMask).toNat = a.toNat % 4096 := by
  have hm : ~~~pageMask = 4095#64 := by decide
  have h12 : (4095#64).toNat = 4095 := by decide
  rw [hm, BitVec.toNat_and, h12]
  exact Nat.and_two_pow_sub_one_eq_mod _ 12

/-- An address is its page and its offset in the page. -/
theorem leafAddress_or {f : Nat} (hf : f < 2 ^ 51) {flags v : U64} (hlow : flags.toNat < 4096) :
    ((frameAddr f ||| flags) &&& pageMask) ||| (v &&& ~~~pageMask) = frameAddr f + v % 4096#64 := by
  have hoff : v.toNat % 4096 < 4096 := Nat.mod_lt _ (by omega)
  have h4096 : (4096#64).toNat = 4096 := by decide
  have hfa : (frameAddr f).toNat = 4096 * f := by
    rw [frameAddr_toNat (by omega), Nat.mul_comm]
  have hpage : ((frameAddr f ||| flags) &&& pageMask).toNat = 4096 * f := by
    rw [and_pageMask_toNat, BitVec.toNat_or, hfa, ← frame_add_eq_or hlow]
    omega
  apply BitVec.eq_of_toNat_eq
  rw [BitVec.toNat_or, hpage, and_not_pageMask_toNat, ← frame_add_eq_or hoff,
    BitVec.toNat_add, BitVec.toNat_umod, hfa, h4096]
  omega

/-- The masked entry of a no-execute page still has its top bit. -/
theorem leafAddress_nx {f : Nat} (hf : f < 2 ^ 51) (writable : Bool) (v : U64) :
    ((frameAddr f ||| userFlags writable true) &&& pageMask) ||| (v &&& ~~~pageMask) ≠
      frameAddr f + v % 4096#64 := by
  intro hc
  have hfa : (frameAddr f).toNat = f * 4096 := frameAddr_toNat (by omega)
  have h4096 : (4096#64).toNat = 4096 := by decide
  have htop : (((frameAddr f ||| userFlags writable true) &&& pageMask) |||
      (v &&& ~~~pageMask)).getLsbD 63 = true := by
    have hm : pageMask.getLsbD 63 = true := by decide
    have hn : (userFlags writable true).getLsbD 63 = true := by
      cases writable <;> decide
    simp only [BitVec.getLsbD_or, BitVec.getLsbD_and, hm, hn, Bool.or_true, Bool.and_true,
      Bool.true_or]
  rw [hc] at htop
  have hbig := BitVec.toNat_ge_of_msb_true (x := frameAddr f + v % 4096#64)
    (by rw [BitVec.msb_eq_getLsbD_last]; exact htop)
  rw [BitVec.toNat_add, BitVec.toNat_umod, hfa, h4096] at hbig
  omega

/-- **Lookup inverts mapping exactly for executable pages.**  In every state a run reaches, once a
frame of the allocator was mapped at a user page with the flags of `exec_elf` or `sys_fork`, every
address of the page translates to its frame if and only if the page is executable. -/
theorem vmmGetPhysicalAddress_map_iff {k₀ k k' : Kernel} {ops : List SpaceOp}
    (hrun : Run KernelStep k₀ ops k) (h₀ : k₀.spaces = []) {r : Nat} (hr : r ∈ k.spaces)
    {va pa : U64} (hva : UserHalf va) {p p' : Pmm} (hpa : pmmAllocFrame p = (pa, p'))
    (hpa0 : pa ≠ 0#64) {flags : U64} (hflags : ∃ writable nx, flags = userFlags writable nx)
    (hmap : (vmmMapPage (frameAddr r) (va &&& pageMask) pa flags).run k = some (true, k')) :
    (∀ v, v &&& pageMask = va &&& pageMask →
      (vmmGetPhysicalAddress (frameAddr r) v).run k' = some (pa + v % 4096#64, k')) ↔
    flags &&& pteNx = 0#64 := by
  have hforest := run_forest hrun h₀
  obtain ⟨writable, nx, rfl⟩ := hflags
  have hpage : ∀ v, v &&& pageMask = va &&& pageMask → pageIdx v = pageIdx va := by
    intro v hv
    have hn := congrArg BitVec.toNat hv
    rw [and_pageMask_toNat, and_pageMask_toNat] at hn
    apply BitVec.eq_of_toNat_eq
    rw [pageIdx_toNat, pageIdx_toNat]
    omega
  have huser : ∀ v, v &&& pageMask = va &&& pageMask → UserHalf v := by
    intro v hv
    have hn := congrArg BitVec.toNat hv
    rw [and_pageMask_toNat, and_pageMask_toNat] at hn
    rw [userHalf_iff] at hva ⊢
    omega
  have hbase := and_pageMask_idem va
  have ho : Owns (UserOwned k.spaces) k r (va &&& pageMask) r :=
    Owns.self hforest (userOwned_path hr (huser _ hbase))
  -- the address is the frame the allocator took
  rcases pmmAllocFrame_cases p with ⟨f, pm, hf, halloc, -, -⟩ | ⟨-, halloc⟩
  · rw [hpa] at halloc
    cases halloc
    have hf51 : f < 2 ^ 51 := Nat.lt_trans hf.lt (by omega)
    rcases vmmMapPage_spec hforest ho (frameAddr f) (userFlags writable nx) with
      ⟨k₁, hrun₁, hm⟩ | ⟨k₁, hrun₁, -, -⟩
    · cases hrun₁.symm.trans hmap
      have hpres : entryPresent (frameAddr f ||| userFlags writable nx) = true := by
        have hfl : entryPresent (userFlags writable nx) = true := by
          cases writable <;> cases nx <;> decide
        rw [entryPresent, BitVec.getLsbD_or, ← entryPresent, ← entryPresent, hfl, Bool.or_true]
      have hget : ∀ v, v &&& pageMask = va &&& pageMask →
          (vmmGetPhysicalAddress (frameAddr r) v).run k' =
            some (((frameAddr f ||| userFlags writable nx) &&& pageMask) |||
              (v &&& ~~~pageMask), k') := by
        intro v hv
        have hov : Owns (UserOwned k.spaces) k' r v r :=
          Owns.self hm.forest (userOwned_path hr (huser v hv))
        obtain ⟨hpath, hleaf⟩ := path_eq_iff.mpr ((hpage v hv).trans (hpage _ hbase).symm)
        have htrans : translate k'.mem r v = some (frameAddr f ||| userFlags writable nx) := by
          have hl := hm.leaf
          rw [translate, ← hpath, ← hleaf, entryLeaf, hpres] at hl
          exact hl
        rw [vmmGetPhysicalAddress_spec hm.forest hov, htrans]
        rfl
      constructor
      · intro hall
        cases nx with
        | false => cases writable <;> decide
        | true =>
          have hva' := hall _ hbase
          rw [hget _ hbase] at hva'
          exact absurd (congrArg Prod.fst (Option.some.inj hva')) (leafAddress_nx hf51 writable _)
      · intro hnx v hv
        rw [hget v hv]
        cases nx with
        | true => cases writable <;> exact absurd hnx (by decide)
        | false =>
          have hlow : (userFlags writable false).toNat < 4096 := by cases writable <;> decide
          rw [leafAddress_or hf51 hlow]
    · cases hrun₁.symm.trans hmap
  · rw [hpa] at halloc
    cases halloc
    exact absurd rfl hpa0

/-- `smallSpace` after a frame for data was allocated. -/
def smallAlloc : Kernel := smallSpace.setPmm (pmmAllocFrame smallSpace.pmm).2

theorem small_alloc :
    pmmAllocFrame smallSpace.pmm = (0x101000#64, (pmmAllocFrame smallSpace.pmm).2) :=
  eq_mk_of_fst smallSpace_created.2.2

theorem small_mem : 256 ∈ smallAlloc.spaces := by
  rw [smallAlloc, Kernel.setPmm_spaces, smallSpace_created.2.1]
  exact List.mem_singleton_self 256

theorem small_run : Run KernelStep smallKernel [.create 0x100000#64, .other] smallAlloc := by
  have hcreate : Run KernelStep smallKernel [.create 0x100000#64] smallSpace :=
    (Run.nil smallKernel).snoc (.create small_create)
  exact hcreate.snoc (.other (keepsTables_alloc (run_forest hcreate rfl)))

theorem small_mapped (nx : Bool) :
    ((vmmMapPage (frameAddr 256) (0x400000#64 &&& pageMask) 0x101000#64 (userFlags true nx)).run
      smallAlloc).any (fun x => decide (x.1 = true ∧
        ((vmmGetPhysicalAddress (frameAddr 256) 0x400123#64).run x.2).map Prod.fst =
          some (if nx = true then 0x8000000000101123#64 else 0x101123#64))) = true := by
  revert nx
  decide +kernel

theorem small_map_runs (nx : Bool) :
    ((vmmMapPage (frameAddr 256) (0x400000#64 &&& pageMask) 0x101000#64 (userFlags true nx)).run
      smallAlloc).isSome = true := isSome_of_any (small_mapped nx)

/-- `smallAlloc` after the frame was mapped at 4 MiB. -/
def smallMapped (nx : Bool) : Kernel :=
  (((vmmMapPage (frameAddr 256) (0x400000#64 &&& pageMask) 0x101000#64 (userFlags true nx)).run
    smallAlloc).get (small_map_runs nx)).2

theorem smallMapped_mapped (nx : Bool) :
    (((vmmMapPage (frameAddr 256) (0x400000#64 &&& pageMask) 0x101000#64 (userFlags true nx)).run
      smallAlloc).get (small_map_runs nx)).1 = true ∧
    ((vmmGetPhysicalAddress (frameAddr 256) 0x400123#64).run (smallMapped nx)).map Prod.fst =
      some (if nx = true then 0x8000000000101123#64 else 0x101123#64) := by
  rw [smallMapped]
  exact get_of_any (small_mapped nx) (small_map_runs nx)

theorem small_map (nx : Bool) :
    (vmmMapPage (frameAddr 256) (0x400000#64 &&& pageMask) 0x101000#64 (userFlags true nx)).run
      smallAlloc = some (true, smallMapped nx) := by
  rw [smallMapped]
  exact eq_some_get (small_map_runs nx) (smallMapped_mapped nx).1

theorem vmmGetPhysicalAddress_map_iff_small :
    (∀ v, v &&& pageMask = 0x400000#64 &&& pageMask →
      (vmmGetPhysicalAddress (frameAddr 256) v).run (smallMapped false) =
        some (0x101000#64 + v % 4096#64, smallMapped false)) ↔
    userFlags true false &&& pteNx = 0#64 :=
  vmmGetPhysicalAddress_map_iff small_run rfl small_mem (by decide) small_alloc
    (by decide) ⟨true, false, rfl⟩ (small_map false)

/-- A page mapped without execute permission translates to an address far outside its frame. -/
theorem vmmGetPhysicalAddress_nx :
    Run KernelStep smallKernel [.create 0x100000#64, .other] smallAlloc ∧
    256 ∈ smallAlloc.spaces ∧ (pmmAllocFrame smallSpace.pmm).1 = 0x101000#64 ∧
    (vmmMapPage (frameAddr 256) (0x400000#64 &&& pageMask) 0x101000#64 (userFlags true true)).run
      smallAlloc = some (true, smallMapped true) ∧
    (vmmGetPhysicalAddress (frameAddr 256) 0x400123#64).run (smallMapped true) ≠
      some (0x101000#64 + 0x400123#64 % 4096#64, smallMapped true) := by
  refine ⟨small_run, small_mem, congrArg Prod.fst small_alloc, small_map true, ?_⟩
  intro hc
  have hfst : ((vmmGetPhysicalAddress (frameAddr 256) 0x400123#64).run (smallMapped true)).map
      Prod.fst = some 0x8000000000101123#64 := (smallMapped_mapped true).2
  rw [hc] at hfst
  exact absurd (Option.some.inj hfst) (by decide)

end PpoOS
