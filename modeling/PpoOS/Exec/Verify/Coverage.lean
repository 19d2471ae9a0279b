import PpoOS.Exec.Verify.Segments
import PpoOS.Mm.Verify.Spaces

/-!
# Which bytes of a segment are mapped

The page loop steps through a segment in whole pages from its first byte on,
while the pages are those of the masked addresses.  A segment that does not
begin on a page boundary can so end on a page that its own loop does not visit.
**`execLoadSegments_covers_iff`**: every byte of every segment is mapped exactly
when the page of each segment's last byte is visited by the loop of some segment.
-/

namespace PpoOS

open ByteMem FaultState

/-- `off` is where a loadable program header of the file lies. -/
def ElfFile.Loadable (f : ElfFile) (off : U64) : Prop :=
  off ∈ phdrOffsets f.phoff f.phnum ∧ (f.phdr off).p_type = ptLoad

instance (f : ElfFile) (off : U64) : Decidable (f.Loadable off) := by
  unfold ElfFile.Loadable
  infer_instance

/-- The number of the page of the last byte of a segment. -/
def Phdr.lastPage (ph : Phdr) : Nat := (ph.p_vaddr.toNat + ph.p_memsz.toNat - 1) / 4096

/-- Every page of a segment but its last one is visited by its own loop. -/
theorem Phdr.Contains.visits_or_last {ph : Phdr} {va : U64} (h : ph.Contains va) :
    ph.Visits (frameOf va) ∨ frameOf va = ph.lastPage := by
  obtain ⟨hlo, hhi⟩ := h
  have hn : (va.toNat - ph.p_vaddr.toNat) / 4096 * 4096 ≤ va.toNat - ph.p_vaddr.toNat :=
    Nat.div_mul_le_self _ _
  by_cases hpage : (ph.p_vaddr.toNat + (va.toNat - ph.p_vaddr.toNat) / 4096 * 4096) / 4096 =
      va.toNat / 4096
  · exact Or.inl ⟨_, by omega, hpage⟩
  · by_cases hnext : ((va.toNat - ph.p_vaddr.toNat) / 4096 + 1) * 4096 < ph.p_memsz.toNat
    · exact Or.inl ⟨_, hnext, by unfold frameOf; omega⟩
    · refine Or.inr ?_
      unfold frameOf Phdr.lastPage
      omega

/-- A page of the segments is mapped exactly when a loop visits it. -/
theorem lastJob_segments_iff {f : ElfFile} {va : U64}
    (hb : ∀ off, f.Loadable off → (f.phdr off).EndsBelow (2 ^ 47)) (hva : va.toNat < 2 ^ 47) :
    lastJob f.segmentJobs va ≠ none ↔ ∃ off, f.Loadable off ∧ (f.phdr off).Visits (frameOf va) := by
  have hsome : lastJob f.segmentJobs va ≠ none ↔
      ∃ j ∈ f.segmentJobs, pageIdx j.va = pageIdx va := by
    rw [ne_eq, lastJob_eq_none]
    push Not
    rfl
  rw [hsome]
  constructor
  · rintro ⟨j, hj, hpage⟩
    obtain ⟨off, hoff, hj⟩ := List.mem_flatMap.mp hj
    have hload := (mem_segmentJobs.mp hj).1
    obtain ⟨-, hvisit⟩ := (exists_job_iff (hb off ⟨hoff, hload⟩) hva).mp ⟨j, hj, hpage⟩
    exact ⟨off, ⟨hoff, hload⟩, hvisit⟩
  · rintro ⟨off, hoff, hvisit⟩
    obtain ⟨j, hj, hpage⟩ := (exists_job_iff (hb off hoff) hva).mpr ⟨hoff.2, hvisit⟩
    exact ⟨j, List.mem_flatMap.mpr ⟨off, hoff.1, hj⟩, hpage⟩

/-- **Every byte of every segment is mapped, accessible from user mode, exactly when the page of
each segment's last byte is visited** by the page loop of some segment. -/
theorem execLoadSegments_covers_iff {f : ElfFile} {k k₁ k₂ : Kernel} {pml4 : U64}
    (hb : ∀ off, f.Loadable off → (f.phdr off).EndsBelow 0x7FFF8000)
    (hcreate : vmmCreateAddressSpace.run k = some (pml4, k₁)) (h0 : pml4 ≠ 0#64)
    (hload : (execLoadSegments f pml4 f.phoff f.phnum).run (k₁.log tableReads) = some (true, k₂)) :
    (∀ off, f.Loadable off → ∀ va, (f.phdr off).Contains va →
      (userTranslate k₂.mem (frameOf pml4) va).isSome = true) ↔
    ∀ off, f.Loadable off → (f.phdr off).p_memsz ≠ 0#64 →
      ∃ off', f.Loadable off' ∧ (f.phdr off').Visits (f.phdr off).lastPage := by
  obtain ⟨c, rfl, hc⟩ := (vmmCreateAddressSpace_inv hcreate).resolve_left fun h => h0 h.1
  have hroot : frameOf (frameAddr c) = c := frameOf_frameAddr (Nat.lt_trans hc.free.lt (by omega))
  have hb' : ∀ off, f.Loadable off → (f.phdr off).EndsBelow (2 ^ 47) :=
    fun off hoff => Nat.le_trans (hb off hoff) (by omega)
  have hva : ∀ off va, f.Loadable off → (f.phdr off).Contains va → va.toNat < 2 ^ 47 :=
    fun off va hoff hin => Nat.lt_of_lt_of_le hin.2 (hb' off hoff)
  have hV : ∀ j ∈ f.jobs f.phoff f.phnum, UserHalf j.va := by
    intro j hj
    obtain ⟨off, hoff, hj⟩ := List.mem_flatMap.mp hj
    obtain ⟨htype, n, hn, rfl⟩ := mem_segmentJobs.mp hj
    exact userHalf_of_lt (pageJob_lt (hb' off ⟨hoff, htype⟩) hn)
  have hflags : ∀ j ∈ f.segmentJobs, j.UserFlags ∧ j.content.isSome = true := by
    intro j hj
    obtain ⟨off, -, hj⟩ := List.mem_flatMap.mp hj
    exact segmentJobs_userFlags hj
  obtain ⟨b, k', hrun, hout⟩ := execLoadSegments_spec (T := fun _ => True)
    (fun _ _ _ _ => trivial) hV (hc.loading tableReads)
  cases hrun.symm.trans hload
  have hmapped : ∀ va, va.toNat < 2 ^ 47 → ((userTranslate k₂.mem c va).isSome = true ↔
      ∃ off, f.Loadable off ∧ (f.phdr off).Visits (frameOf va)) := by
    intro va hlt
    rw [(hout.loaded.image hc hflags (userHalf_of_lt hlt)).1]
    exact lastJob_segments_iff hb' hlt
  rw [hroot]
  constructor
  · intro hall off hoff hne
    have hpos : 0 < (f.phdr off).p_memsz.toNat := by
      have hz : (f.phdr off).p_memsz.toNat ≠ 0 := fun hz => hne (BitVec.eq_of_toNat_eq hz)
      omega
    have hend := hb' off hoff
    unfold Phdr.EndsBelow at hend
    -- the address of the last byte
    have hlast : (BitVec.ofNat 64 ((f.phdr off).p_vaddr.toNat + (f.phdr off).p_memsz.toNat - 1)).toNat =
        (f.phdr off).p_vaddr.toNat + (f.phdr off).p_memsz.toNat - 1 := by
      rw [BitVec.toNat_ofNat]
      omega
    have hin := hall off hoff (BitVec.ofNat 64
      ((f.phdr off).p_vaddr.toNat + (f.phdr off).p_memsz.toNat - 1)) ⟨by omega, by omega⟩
    have hvisit := (hmapped _ (by omega)).mp hin
    rwa [frameOf, hlast] at hvisit
  · intro hall off hoff va hin
    refine (hmapped va (hva off va hoff hin)).mpr ?_
    rcases hin.visits_or_last with hvisit | hlast
    · exact ⟨off, hoff, hvisit⟩
    · have hne : (f.phdr off).p_memsz ≠ 0#64 := by
        intro hz
        have := hin.2
        have := hin.1
        simp [hz] at *
        omega
      rw [hlast]
      exact hall off hoff hne

/-- A file with one segment, from the middle of a page on, as long as a page. -/
def unalignedFile : ElfFile :=
  fileOf (headerBytes 64 1 ++ segmentBytes 120 0x400800 0 0x1000) (by decide +kernel)

/-- The header and the program header. -/
theorem unalignedFile_header : (unalignedFile.Accepted ∧ ¬unalignedFile.TableTooLarge ∧
    phdrOffsets unalignedFile.phoff unalignedFile.phnum = [64#64]) ∧ (unalignedFile.phdr 64#64).p_type = ptLoad ∧
      (unalignedFile.phdr 64#64).p_vaddr.toNat = 0x400800 ∧ (unalignedFile.phdr 64#64).p_memsz.toNat = 0x1000 := by
  decide +kernel

theorem unalignedFile_loadable {off : U64} (h : unalignedFile.Loadable off) : off = 64#64 := by
  have hmem := h.1
  rw [unalignedFile_header.1.2.2] at hmem
  exact List.mem_singleton.mp hmem

theorem unalignedFile_endsBelow (off : U64) (h : unalignedFile.Loadable off) :
    (unalignedFile.phdr off).EndsBelow 0x7FFF8000 := by
  obtain ⟨-, -, hv, hm⟩ := unalignedFile_header
  rw [unalignedFile_loadable h, Phdr.EndsBelow, hv, hm]
  decide

/-- The load ends, and the second page is not mapped. -/
theorem unalignedFile_loaded : ((execLoadSegments unalignedFile 0x100000#64 unalignedFile.phoff
    unalignedFile.phnum).run (smallSpace.log tableReads)).any (fun r => decide (r.1 = true ∧
      userTranslate r.2.mem (frameOf 0x100000#64) 0x401000#64 = none)) = true := by decide +kernel

theorem unalignedFile_runs : ((execLoadSegments unalignedFile 0x100000#64 unalignedFile.phoff
    unalignedFile.phnum).run (smallSpace.log tableReads)).isSome = true := isSome_of_any unalignedFile_loaded

/-- `smallSpace` after the file was loaded. -/
def unalignedLoaded : Kernel :=
  (((execLoadSegments unalignedFile 0x100000#64 unalignedFile.phoff unalignedFile.phnum).run
    (smallSpace.log tableReads)).get unalignedFile_runs).2

theorem unalignedFile_load : (execLoadSegments unalignedFile 0x100000#64 unalignedFile.phoff
    unalignedFile.phnum).run (smallSpace.log tableReads) = some (true, unalignedLoaded) := by
  rw [unalignedLoaded]
  exact eq_some_get unalignedFile_runs (get_of_any unalignedFile_loaded unalignedFile_runs).1

theorem execLoadSegments_covers_iff_unaligned :
    (∀ off, unalignedFile.Loadable off → ∀ va, (unalignedFile.phdr off).Contains va →
      (userTranslate unalignedLoaded.mem (frameOf 0x100000#64) va).isSome = true) ↔
    ∀ off, unalignedFile.Loadable off → (unalignedFile.phdr off).p_memsz ≠ 0#64 →
      ∃ off', unalignedFile.Loadable off' ∧
        (unalignedFile.phdr off').Visits (unalignedFile.phdr off).lastPage :=
  execLoadSegments_covers_iff unalignedFile_endsBelow small_create (by decide) unalignedFile_load

/-- The second half of the segment is not mapped. -/
theorem unalignedFile_misses : unalignedFile.Accepted ∧ ¬unalignedFile.TableTooLarge ∧
    (∀ off, unalignedFile.Loadable off → (unalignedFile.phdr off).EndsBelow 0x7FFF8000) ∧
    vmmCreateAddressSpace.run smallKernel = some (0x100000#64, smallSpace) ∧
    (execLoadSegments unalignedFile 0x100000#64 unalignedFile.phoff unalignedFile.phnum).run
      (smallSpace.log tableReads) = some (true, unalignedLoaded) ∧
    unalignedFile.Loadable 64#64 ∧ (unalignedFile.phdr 64#64).Contains 0x401000#64 ∧
    userTranslate unalignedLoaded.mem (frameOf 0x100000#64) 0x401000#64 = none := by
  obtain ⟨⟨hacc, htab, hoffs⟩, htype, hv, hm⟩ := unalignedFile_header
  have hcontains : (unalignedFile.phdr 64#64).Contains 0x401000#64 := by
    rw [Phdr.Contains, hv, hm]
    decide
  have hloadable : unalignedFile.Loadable 64#64 := by
    rw [ElfFile.Loadable, hoffs]
    exact ⟨List.mem_singleton.mpr rfl, htype⟩
  have hnone : userTranslate unalignedLoaded.mem (frameOf 0x100000#64) 0x401000#64 = none := by
    rw [unalignedLoaded]
    exact (get_of_any unalignedFile_loaded unalignedFile_runs).2
  exact ⟨hacc, htab, unalignedFile_endsBelow, small_create, unalignedFile_load, hloadable, hcontains, hnone⟩

end PpoOS
