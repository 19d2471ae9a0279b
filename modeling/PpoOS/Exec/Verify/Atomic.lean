import PpoOS.Mm.Bitmap
import PpoOS.Exec.Verify.Outcome
import PpoOS.Mm.Verify.Spaces

/-!
# Process creation and the used frames

No step of `exec_elf` or `sys_fork` gives a frame back but the one it took
itself a moment ago, so used frames stay used (`UsedLe`).  The frame of the new
PML4 therefore stays used after a failure: **`failed_creation_used_iff`** says
that a failed creation leaves the bitmap as it was exactly when it was refused
before that frame was taken.
-/

namespace PpoOS

open FaultState

/-! ## Used frames stay used -/

/-- Every frame used in `k`, other than `c`, is used in `k'`. -/
def UsedLeExcept (c : Option Nat) (k k' : Kernel) : Prop :=
  ∀ f, some f ≠ c → k.pmm.used f = true → k'.pmm.used f = true

/-- Every frame used in `k` is used in `k'`. -/
abbrev UsedLe : Kernel → Kernel → Prop := UsedLeExcept none

section Rules

variable {α β : Type} {c : Option Nat}

theorem usedLe_refl (k : Kernel) : UsedLeExcept c k k := fun _ _ h => h

theorem usedLe_trans (k k₁ k₂ : Kernel) (h : UsedLeExcept c k k₁) (h' : UsedLeExcept c k₁ k₂) :
    UsedLeExcept c k k₂ := fun f hf hu => h' f hf (h f hf hu)

theorem within_pure (a : α) : Within (UsedLeExcept c) (pure a) := Within.pure usedLe_refl a

theorem within_bind {x : Kern α} {f : α → Kern β} (hx : Within (UsedLeExcept c) x)
    (hf : ∀ a, Within (UsedLeExcept c) (f a)) : Within (UsedLeExcept c) (x >>= f) :=
  Within.bind usedLe_trans hx hf

theorem within_allM {ι : Type} {body : ι → Kern Bool} {is : List ι}
    (hbody : ∀ i ∈ is, Within (UsedLeExcept c) (body i)) :
    Within (UsedLeExcept c) (is.allM body) := Within.allM usedLe_refl usedLe_trans hbody

/-- A computation that does not touch the allocator. -/
theorem within_of_pmm {x : Kern α} (h : ∀ k a k', x.run k = some (a, k') → k'.pmm = k.pmm) :
    Within (UsedLeExcept c) x := by
  intro k a k' hrun f _ hu
  rw [h k a k' hrun]
  exact hu

theorem within_get : Within (UsedLeExcept c) (get : Kern Kernel) :=
  within_of_pmm fun k a k' h => by cases h; rfl

theorem within_readEntry (ptr : U64) : Within (UsedLeExcept c) (readEntry ptr) :=
  within_of_pmm fun k a k' h => by rw [(readEntry_inv h).2.2]

theorem within_writeBytes (ptr : U64) (n : Nat) (src : Nat → U8) :
    Within (UsedLeExcept c) (writeBytes ptr n src) :=
  within_of_pmm fun k a k' h => by rw [(writeBytes_inv h).2]; rfl

theorem within_memset (ptr : U64) (v : U8) (n : Nat) : Within (UsedLeExcept c) (memset ptr v n) :=
  within_writeBytes ptr n _

theorem within_memcpy (dest src : U64) (n : Nat) :
    Within (UsedLeExcept c) (memcpy dest src n) := by
  unfold memcpy
  split
  · exact within_bind within_get fun k => within_writeBytes dest n _
  · exact Within.failure

theorem within_logReads (off : U64) (n : Nat) : Within (UsedLeExcept c) (logReads off n) :=
  within_of_pmm fun k a k' h => by cases h; rfl

theorem within_readU16 (f : ElfFile) (off : U64) : Within (UsedLeExcept c) (readU16 f off) :=
  within_bind (within_logReads off 2) fun _ => within_pure _

theorem within_readU32 (f : ElfFile) (off : U64) : Within (UsedLeExcept c) (readU32 f off) :=
  within_bind (within_logReads off 4) fun _ => within_pure _

theorem within_readU64 (f : ElfFile) (off : U64) : Within (UsedLeExcept c) (readU64 f off) :=
  within_bind (within_logReads off 8) fun _ => within_pure _

/-- Freeing a frame spares the others. -/
theorem within_pmmFree {f : Nat} (hf : f < 2 ^ 20) :
    Within (UsedLeExcept (some f)) (pmmFree (frameAddr f)) := by
  intro k a k' hrun g hg hu
  rw [pmmFree_run] at hrun
  cases hrun
  have hgf : g ≠ f := fun h => hg (by rw [h])
  have ha : (frameAddr f).toNat = f * 4096 := frameAddr_toNat (by omega)
  rw [Kernel.setPmm_pmm, pmmFreeFrame_used, ha, Nat.mul_div_cancel _ (by omega), hu]
  simp [hgf]

theorem within_pmmAlloc : Within (UsedLeExcept c) pmmAlloc := by
  intro k a k' hrun f _ hu
  rw [pmmAlloc_run] at hrun
  cases hrun
  rw [Kernel.setPmm_pmm]
  rcases pmmAllocFrame_cases k.pmm with ⟨d, pm, -, halloc, -, hused⟩ | ⟨-, halloc⟩
  · rw [halloc, hused, hu, Bool.or_true]
  · rw [halloc, hu]

/-- What follows an allocation may give back the frame that was taken. -/
theorem within_alloc {g : U64 → Kern α} (h0 : Within UsedLe (g 0#64))
    (hg : ∀ f, f < 2 ^ 20 → Within (UsedLeExcept (some f)) (g (frameAddr f))) :
    Within UsedLe (pmmAlloc >>= g) := by
  intro k a k' hrun f hf hu
  rw [run_bind_eq (pmmAlloc_run k)] at hrun
  rcases pmmAllocFrame_cases k.pmm with ⟨d, pm, hd, halloc, -, hused⟩ | ⟨-, halloc⟩
  · rw [halloc] at hrun
    have hfd : f ≠ d := by
      intro hfd
      rw [hfd, hd.2.2] at hu
      cases hu
    refine hg d hd.lt _ _ _ hrun f (by simpa using hfd) ?_
    rw [Kernel.setPmm_pmm, hused, hu, Bool.or_true]
  · rw [halloc] at hrun
    exact h0 _ _ _ hrun f hf hu

/-! ## The page-table code -/

theorem within_vmmNextTable (entry : U64) : Within (UsedLeExcept c) (vmmNextTable entry) := by
  refine within_bind (within_readEntry entry) fun e => ?_
  split
  · refine within_bind within_pmmAlloc fun phys => ?_
    split
    · exact within_pure _
    · exact within_bind (within_memset _ _ _) fun _ =>
        within_bind (within_writeBytes _ _ _) fun _ => within_pure _
  · exact within_pure _

theorem within_vmmDescend (q : List Idx) :
    ∀ table : U64, Within (UsedLeExcept c) (vmmDescend table q) := by
  induction q with
  | nil => exact fun table => within_pure _
  | cons i q ih =>
    intro table
    refine within_bind (within_vmmNextTable _) fun next => ?_
    cases next with
    | none => exact within_pure _
    | some next => exact ih next

theorem within_vmmMapPage (pml4 va pa flags : U64) :
    Within (UsedLeExcept c) (vmmMapPage pml4 va pa flags) := by
  rw [vmmMapPage_eq]
  refine within_bind (within_vmmDescend _ _) fun pt => ?_
  cases pt with
  | none => exact within_pure _
  | some pt =>
    exact within_bind (within_readEntry _) fun _ =>
      within_bind (within_writeBytes _ _ _) fun _ => within_pure _

theorem within_vmmPresentTable (entry : U64) :
    Within (UsedLeExcept c) (vmmPresentTable entry) := by
  refine within_bind (within_readEntry entry) fun e => ?_
  split
  · exact within_pure _
  · exact within_pure _

theorem within_vmmFollow (q : List Idx) :
    ∀ table : U64, Within (UsedLeExcept c) (vmmFollow table q) := by
  induction q with
  | nil => exact fun table => within_pure _
  | cons i q ih =>
    intro table
    refine within_bind (within_vmmPresentTable _) fun next => ?_
    cases next with
    | none => exact within_pure _
    | some next => exact ih next

theorem within_vmmGetPhysicalAddress (pml4 va : U64) :
    Within (UsedLeExcept c) (vmmGetPhysicalAddress pml4 va) := by
  have hfind : Within (UsedLeExcept c) (vmmFindPte pml4 va) := by
    rw [vmmFindPte_eq]
    refine within_bind (within_vmmFollow _ _) fun pt => ?_
    cases pt with
    | none => exact within_pure _
    | some pt => exact within_pure _
  refine within_bind hfind fun pte => ?_
  cases pte with
  | none => exact within_pure _
  | some pte =>
    refine within_bind (within_readEntry _) fun e => ?_
    split
    · exact within_pure _
    · exact within_pure _

/-! ## Loading and forking -/

theorem within_execCopy (f : ElfFile) (dest : U64) (r : CopyRange) :
    Within (UsedLeExcept c) (execCopy f dest r) := by
  unfold execCopy
  split
  · exact within_bind (within_logReads _ _) fun _ => within_writeBytes _ _ _
  · exact within_pure _

theorem within_execLoadPage (f : ElfFile) (pml4 off offset : U64) :
    Within UsedLe (execLoadPage f pml4 off offset) := by
  refine within_bind (within_readU64 f _) fun p_vaddr => ?_
  refine within_alloc (by rw [if_pos rfl]; exact within_pure _) fun d hd => ?_
  split
  · exact within_pure _
  · refine within_bind (within_vmmMapPage _ _ _ _) fun ok => ?_
    cases ok with
    | false => exact within_bind (within_pmmFree hd) fun _ => within_pure _
    | true =>
      refine within_bind (within_memset _ _ _) fun _ =>
        within_bind (within_logReads _ _) fun _ => ?_
      split
      · exact within_bind (within_execCopy _ _ _) fun _ => within_pure _
      · exact within_pure _

theorem within_execLoadPages (f : ElfFile) (pml4 off : U64) (fuel : Nat) :
    ∀ offset : U64, Within UsedLe (execLoadPages f pml4 off fuel offset) := by
  induction fuel with
  | zero => exact fun offset => Within.failure
  | succ fuel ih =>
    intro offset
    refine within_bind (within_readU64 f _) fun p_memsz => ?_
    split
    · refine within_bind (within_execLoadPage f pml4 off offset) fun ok => ?_
      cases ok with
      | false => exact within_pure _
      | true => exact ih _
    · exact within_pure _

theorem within_execLoadSegment (f : ElfFile) (pml4 off : U64) :
    Within UsedLe (execLoadSegment f pml4 off) := by
  refine within_bind (within_readU32 f off) fun p_type => ?_
  split
  · exact within_pure _
  · have hlog : Within UsedLe (logSegment off) :=
      within_bind (within_logReads _ _) fun _ => within_bind (within_logReads _ _) fun _ =>
        within_bind (within_logReads _ _) fun _ => within_logReads _ _
    refine within_bind hlog fun _ => ?_
    split
    · exact within_pure _
    · exact within_bind within_get fun k => within_execLoadPages f pml4 off _ _

theorem within_execMapStackPage (pml4 va : U64) : Within UsedLe (execMapStackPage pml4 va) := by
  refine within_alloc (by rw [if_pos rfl]; exact within_pure _) fun d hd => ?_
  split
  · exact within_pure _
  · refine within_bind (within_vmmMapPage _ _ _ _) fun ok => ?_
    cases ok with
    | false => exact within_bind (within_pmmFree hd) fun _ => within_pure _
    | true => exact within_pure _

theorem within_execSetup (f : ElfFile) (pml4 : U64) : Within UsedLe (execSetup f pml4) := by
  refine within_bind (within_readU64 f _) fun phoff => within_bind (within_readU16 f _) fun phnum => ?_
  split
  · exact within_pure _
  · refine within_bind (within_allM fun off _ => within_execLoadSegment f pml4 off) fun ok => ?_
    cases ok with
    | false => exact within_pure _
    | true => exact within_allM fun va _ => within_execMapStackPage pml4 va

theorem within_forkCopyPage (parent child va : U64) :
    Within UsedLe (forkCopyPage parent child va) := by
  refine within_bind (within_vmmGetPhysicalAddress _ _) fun phys => ?_
  split
  · exact within_pure _
  · refine within_alloc (by rw [if_pos rfl]; exact within_pure _) fun d hd => ?_
    split
    · exact within_pure _
    · refine within_bind (within_memcpy _ _ _) fun _ =>
        within_bind (within_vmmMapPage _ _ _ _) fun ok => ?_
      cases ok with
      | false => exact within_bind (within_pmmFree hd) fun _ => within_pure _
      | true => exact within_pure _

end Rules

/-! ## Failed creations -/

/-- A call that makes a process. -/
inductive Creation where
  | exec (file : Option ElfFile)
  | fork

/-- The call returns without a new process. -/
def Creation.Fails : Creation → Kernel → Kernel → Prop
  | .exec file, k, k' => (execElf file).run k = some (none, k')
  | .fork, k, k' => sysFork.run k = some (-1#64, k')

/-- The call is refused before it takes a frame: the file is missing or its header wrong, there is
no parent, or no frame is free. -/
def Creation.Refused : Creation → Kernel → Prop
  | .exec file, k => (∀ f, file = some f → ¬f.Accepted) ∨ ∀ g, ¬k.pmm.Free g
  | .fork, k => k.cr3 &&& pageMask = 0#64 ∨ ∀ g, ¬k.pmm.Free g

/-- A new PML4 is a frame that was not used and stays used. -/
theorem Creates.used_changes {k k₁ k₂ : Kernel} {c : Nat} (hc : Creates k k₁ c)
    (h : UsedLe k₁ k₂) : ¬∀ g, k₂.pmm.used g = k.pmm.used g := by
  intro hall
  have hu : k₂.pmm.used c = true := h c (by simp) (by simp [hc.used])
  rw [hall c, hc.free.2.2] at hu
  cases hu

/-- **A failed creation leaves the bitmap as it was exactly when it was refused** before the frame
of the new PML4 was taken. -/
theorem failed_creation_used_iff {c : Creation} {k k' : Kernel} (h : c.Fails k k') :
    (∀ g, k'.pmm.used g = k.pmm.used g) ↔ c.Refused k := by
  cases c with
  | exec file =>
    cases execElf_outcome h with
    | rejected refused _ => exact ⟨fun _ => Or.inl refused, fun _ _ => rfl⟩
    | noFrame _ _ full => exact ⟨fun _ => Or.inr full, fun _ _ => rfl⟩
    | failed accepted _ created setup =>
      have hne := created.used_changes (within_execSetup _ _ _ _ _ setup)
      refine ⟨fun hall => absurd hall hne, fun hor => ?_⟩
      rcases hor with hrej | hfull
      · exact absurd accepted (hrej _ rfl)
      · exact absurd created.free (hfull _)
  | fork =>
    -- also a fork whose process number is -1 has taken a frame
    have htaken : ∀ {d : Nat} {k₁ : Kernel}, k.cr3 &&& pageMask ≠ 0#64 → Creates k k₁ d →
        UsedLe k₁ k' → ((∀ g, k'.pmm.used g = k.pmm.used g) ↔ Creation.fork.Refused k) := by
      intro d k₁ parent created hle
      refine ⟨fun hall => absurd hall (created.used_changes hle), fun hor => ?_⟩
      rcases hor with hp | hfull
      · exact absurd hp parent
      · exact absurd created.free (hfull _)
    have hloop : ∀ (parent : U64) (d : Nat), Within UsedLe
        (forkVaddrs.allM fun va => forkCopyPage parent (frameAddr d) va) :=
      fun parent d => within_allM fun va _ => within_forkCopyPage _ _ va
    obtain ⟨pid, hpid⟩ : ∃ pid, sysFork.run k = some (pid, k') := ⟨_, h⟩
    cases sysFork_outcome hpid with
    | noParent parent => exact ⟨fun _ => Or.inl parent, fun _ _ => rfl⟩
    | noFrame full => exact ⟨fun _ => Or.inr full, fun _ _ => rfl⟩
    | failed parent created copy => exact htaken parent created (hloop _ _ _ _ _ copy)
    | forked parent created copy =>
      exact htaken parent created fun g hg hu => hloop _ _ _ _ _ copy g hg hu

/-- A file that ends before its program headers. -/
def truncatedFile : ElfFile := fileOf (headerBytes 64 1) (by decide +kernel)

theorem truncatedFile_checked : ((execElf (some truncatedFile)).run smallKernel).any (fun r => decide
    (r.1.isNone = true ∧ r.2.pmm.used 256 = true ∧ smallKernel.pmm.used 256 = false)) = true := by decide +kernel

/-- The PML4 of a truncated file is never given back. -/
theorem truncatedFile_leaks : ∃ k', (Creation.exec (some truncatedFile)).Fails smallKernel k' ∧
    smallKernel.pmm.used 256 = false ∧ k'.pmm.used 256 = true := by
  have hruns := isSome_of_any truncatedFile_checked
  obtain ⟨hnone, hused, hfree⟩ := get_of_any truncatedFile_checked hruns
  exact ⟨_, eq_some_get hruns (Option.isNone_iff_eq_none.mp hnone), hfree, hused⟩

/-- A machine with one free frame, on which a program with a page at address 0 runs. -/
def lastFrameKernel : Kernel where
  mem := tablesMem fun f i => if i = 0#9 ∧ 2 ≤ f ∧ f ≤ 5 then BitVec.ofNat 64 ((f + 1) * 4096 + 7) else 0#64
  pmm :=
    { bitmap := fun _ => 0#8
      lastAllocIndex := 0
      highestAddress := 257 * 4096
      highest_aligned := Nat.dvd_mul_left _ _
      highest_le := by decide
      lastAllocIndex_le := by decide }
  gKernelPml4 := 0x1000#64
  cr3 := 0x2000#64
  nextPid := 1#64
  spaces := [2]
  reads := []

theorem lastFrame_checked : (vmmCreateAddressSpace.run lastFrameKernel).any (fun r => decide (r.1 = 0x100000#64 ∧
    ((forkCopyPage 0x2000#64 0x100000#64 0#64).run r.2).any (fun q => decide (q.1 = false)) = true)) = true := by
  decide +kernel

theorem forkVaddrs_head : ∃ vas, forkVaddrs = 0#64 :: vas := by
  have hhead : ∀ n, 0 < n → ∃ vas, ((List.range n).map fun i => BitVec.ofNat 64 i * pageSize) = 0#64 :: vas := by
    intro n hn
    obtain ⟨n, rfl⟩ := Nat.exists_eq_succ_of_ne_zero (Nat.ne_of_gt hn)
    rw [List.range_succ_eq_map]
    exact ⟨_, rfl⟩
  exact hhead _ (by decide)

/-- The fork takes the frame for a PML4, and has none for the page. -/
theorem lastFrame_fork_fails : ∃ k', Creation.fork.Fails lastFrameKernel k' := by
  have hruns := isSome_of_any lastFrame_checked
  obtain ⟨hroot, hpages⟩ := get_of_any lastFrame_checked hruns
  have hcreate := eq_some_get hruns hroot
  generalize ((vmmCreateAddressSpace.run lastFrameKernel).get hruns).2 = k₁ at *
  obtain ⟨k₂, hpage⟩ : ∃ k₂, (forkCopyPage 0x2000#64 0x100000#64 0#64).run k₁ = some (false, k₂) :=
    ⟨_, eq_some_get (isSome_of_any hpages) (get_of_any hpages (isSome_of_any hpages))⟩
  obtain ⟨vas, hvas⟩ := forkVaddrs_head
  have hcopy : ((0#64 :: vas).allM fun va => forkCopyPage 0x2000#64 0x100000#64 va).run k₁ = some (false, k₂) :=
    run_allM_false hpage
  have hcur : vmmGetCurrentAddressSpace.run lastFrameKernel = some (0x2000#64, lastFrameKernel) := rfl
  refine ⟨k₂, ?_⟩
  rw [Creation.Fails, sysFork, run_bind_eq hcur, if_neg (by decide), run_bind_eq hcreate, if_neg (by decide), hvas,
    run_bind_eq hcopy]
  rfl

/-- A file of zeros. -/
def zerosFile : ElfFile := fileOf (List.replicate 64 0#8) (by decide)

theorem zerosFile_fails : ((execElf (some zerosFile)).run smallKernel).any (fun r => decide (r.1 = none)) = true := by
  decide +kernel

/-- The file of zeros has taken no frame; the truncated file and the fork have. -/
theorem failed_creation_used_iff_taken :
    (∃ k', (Creation.exec (some zerosFile)).Fails smallKernel k' ∧
      ((∀ g, k'.pmm.used g = smallKernel.pmm.used g) ↔ (Creation.exec (some zerosFile)).Refused smallKernel)) ∧
    (∃ k', (Creation.exec (some truncatedFile)).Fails smallKernel k' ∧
      ((∀ g, k'.pmm.used g = smallKernel.pmm.used g) ↔ (Creation.exec (some truncatedFile)).Refused smallKernel)) ∧
    ∃ k', Creation.fork.Fails lastFrameKernel k' ∧
      ((∀ g, k'.pmm.used g = lastFrameKernel.pmm.used g) ↔ Creation.fork.Refused lastFrameKernel) := by
  have hzeros : (Creation.exec (some zerosFile)).Fails smallKernel _ :=
    eq_some_get (isSome_of_any zerosFile_fails) (get_of_any zerosFile_fails (isSome_of_any zerosFile_fails))
  have hruns := isSome_of_any truncatedFile_checked
  obtain ⟨hnone, -, -⟩ := get_of_any truncatedFile_checked hruns
  have hexec : (Creation.exec (some truncatedFile)).Fails smallKernel _ :=
    eq_some_get hruns (Option.isNone_iff_eq_none.mp hnone)
  obtain ⟨k', hfork⟩ := lastFrame_fork_fails
  exact ⟨⟨_, hzeros, failed_creation_used_iff hzeros⟩, ⟨_, hexec, failed_creation_used_iff hexec⟩, k', hfork, failed_creation_used_iff hfork⟩

end PpoOS
