import PpoOS.Exec.Verify.Coverage

/-!
# Segments that share a page

Each iteration of the page loop maps a fresh frame, whatever the page held.  A
page that two segments share shows the bytes of the later one only.
**`execLoadSegment_preserves_iff`**: no later segment changes a byte of an
earlier one exactly when, on every page that both loops visit, the earlier
segment's bytes are zero.
-/

namespace PpoOS

open ByteMem FaultState

/-- `&phdrs[i]` -/
def ElfFile.phdrAt (f : ElfFile) (i : Nat) : U64 := f.phoff + BitVec.ofNat 64 i * phdrSize

/-- The byte that the page loop of the segment at `off` puts at `va`. -/
def ElfFile.segmentByteAt (f : ElfFile) (off va : U64) : U8 :=
  segmentByte f (f.phdr off) (va &&& pageMask) (va.toNat % 4096)

section

variable {f : ElfFile} {off va : U64} {i j : Nat}

theorem phdrOffsets_succ (phoff : U64) (n : Nat) :
    phdrOffsets phoff (n + 1) = phdrOffsets phoff n ++ [phoff + BitVec.ofNat 64 n * phdrSize] := by
  rw [phdrOffsets, phdrOffsets, List.range_succ, List.map_append, List.map_singleton]

theorem jobs_succ (f : ElfFile) (n : Nat) :
    f.jobs f.phoff (n + 1) = f.jobs f.phoff n ++ segmentJobs f (f.phdrAt n) := by
  rw [ElfFile.jobs, ElfFile.jobs, phdrOffsets_succ, List.flatMap_append, List.flatMap_singleton]
  rfl

/-! ## The bytes of a page -/

theorem lastJob_append (js js' : List PageJob) (va : U64) :
    lastJob (js ++ js') va = (lastJob js' va).or (lastJob js va) := by
  rw [lastJob, List.reverse_append, List.find?_append]
  rfl

/-- After one more segment: its own byte where its loop visits the page, else what was there. -/
theorem imageByte_segment (js : List PageJob) (hb : (f.phdr off).EndsBelow (2 ^ 47))
    (hva : va.toNat < 2 ^ 47) :
    (((f.phdr off).p_type = ptLoad ∧ (f.phdr off).Visits (frameOf va)) →
      imageByte (js ++ segmentJobs f off) va = some (f.segmentByteAt off va)) ∧
    (¬((f.phdr off).p_type = ptLoad ∧ (f.phdr off).Visits (frameOf va)) →
      imageByte (js ++ segmentJobs f off) va = imageByte js va) := by
  unfold imageByte
  rw [lastJob_append, ← exists_job_iff hb hva]
  cases hl : lastJob (segmentJobs f off) va with
  | none =>
    have hnone := lastJob_eq_none.mp hl
    refine ⟨fun h => ?_, fun _ => rfl⟩
    obtain ⟨j, hj, hpage⟩ := h
    exact absurd hpage (hnone j hj)
  | some j =>
    obtain ⟨hj, hpage⟩ := lastJob_some hl
    refine ⟨fun _ => ?_, fun h => absurd ⟨j, hj, hpage⟩ h⟩
    obtain ⟨-, n, hn, rfl⟩ := mem_segmentJobs.mp hj
    have hframe := (pageIdx_eq_of_lt (pageJob_lt hb hn) hva).mp hpage
    -- the job's page is the page of `va`
    have hmask : segmentPage f off (BitVec.ofNat 64 n * pageSize) = va &&& pageMask := by
      rw [and_pageMask_eq, ← hframe, ← and_pageMask_eq]
      exact (and_pageMask_idem _).symm
    rw [Option.some_or, Option.bind_some, jobByte, pageJob, segmentJob, Option.map_some, hmask]
    rfl

/-- A loop puts zeros on its pages outside its segment. -/
theorem segmentByteAt_outside (hva : va.toNat < 2 ^ 47) (hout : ¬(f.phdr off).Contains va) :
    f.segmentByteAt off va = 0#8 := by
  unfold ElfFile.segmentByteAt segmentByte
  cases hcr : copyRange (f.phdr off) (va &&& pageMask) with
  | none => rfl
  | some c =>
    refine if_neg fun hin => hout ?_
    obtain ⟨hlt, hoff, -, hbytes⟩ := copyRange_some hcr
    have hclip := clipToFile_le (f.phdr off) c.fileOffset
      (copyEnd (f.phdr off) (va &&& pageMask) - copyStart (f.phdr off) (va &&& pageMask))
    have hstart := copyStart_ge (f.phdr off) (va &&& pageMask)
    have hseg := copyStart_ge_vaddr (f.phdr off) (va &&& pageMask)
    have hend := copyEnd_le_end (f.phdr off) (va &&& pageMask)
    have hpage := and_pageMask_toNat va
    have hs := (copyStart (f.phdr off) (va &&& pageMask)).isLt
    have he := (copyEnd (f.phdr off) (va &&& pageMask)).isLt
    rw [BitVec.lt_def] at hlt
    rw [← hbytes, BitVec.toNat_sub] at hclip
    rw [hoff, BitVec.toNat_sub] at hin
    unfold Phdr.Contains
    omega

/-! ## Segment after segment -/

/-- Program header `i` is that of a loadable segment. -/
def ElfFile.LoadAt (f : ElfFile) (i : Nat) : Prop :=
  i < f.phnum ∧ (f.phdr (f.phdrAt i)).p_type = ptLoad

/-- The loop of program header `i` visits the page of `va`. -/
def ElfFile.VisitsAt (f : ElfFile) (i : Nat) (va : U64) : Prop :=
  f.LoadAt i ∧ (f.phdr (f.phdrAt i)).Visits (frameOf va)

/-- The segments lie in the lower half and apart from each other. -/
structure ElfFile.Apart (f : ElfFile) : Prop where
  ends : ∀ i, f.LoadAt i → (f.phdr (f.phdrAt i)).EndsBelow (2 ^ 47)
  disjoint : ∀ i j, i ≠ j → f.LoadAt i → f.LoadAt j → ∀ va,
    ¬((f.phdr (f.phdrAt i)).Contains va ∧ (f.phdr (f.phdrAt j)).Contains va)

/-- The image after one more program header. -/
theorem imageByte_succ (ha : f.Apart) (hj : j < f.phnum) (hva : va.toNat < 2 ^ 47) :
    (f.VisitsAt j va → imageByte (f.jobs f.phoff (j + 1)) va = some (f.segmentByteAt (f.phdrAt j) va)) ∧
    (¬f.VisitsAt j va → imageByte (f.jobs f.phoff (j + 1)) va = imageByte (f.jobs f.phoff j) va) := by
  rw [jobs_succ]
  by_cases ht : (f.phdr (f.phdrAt j)).p_type = ptLoad
  · obtain ⟨hvis, hnot⟩ := imageByte_segment (f.jobs f.phoff j) (ha.ends j ⟨hj, ht⟩) hva
    exact ⟨fun h => hvis ⟨ht, h.2⟩, fun h => hnot fun hc => h ⟨⟨hj, ht⟩, hc.2⟩⟩
  · have hnone : segmentJobs f (f.phdrAt j) = [] := if_neg ht
    rw [hnone, List.append_nil]
    exact ⟨fun h => absurd h.1.2 ht, fun _ => rfl⟩

/-- Every byte of the image was put there by some loop. -/
theorem imageByte_some (ha : f.Apart) (hva : va.toNat < 2 ^ 47) {x : U8} (hj : j ≤ f.phnum)
    (h : imageByte (f.jobs f.phoff j) va = some x) :
    ∃ l, l < j ∧ f.VisitsAt l va ∧ x = f.segmentByteAt (f.phdrAt l) va := by
  induction j with
  | zero => cases h
  | succ j ih =>
    obtain ⟨hvis, hnot⟩ := imageByte_succ ha hj hva
    by_cases hv : f.VisitsAt j va
    · rw [hvis hv] at h
      exact ⟨j, Nat.lt_succ_self j, hv, (Option.some.inj h).symm⟩
    · rw [hnot hv] at h
      obtain ⟨l, hl, hlv, hx⟩ := ih (by omega) h
      exact ⟨l, by omega, hlv, hx⟩

/-- The byte of a segment stays in the image until the next loop that visits its page. -/
theorem imageByte_kept (ha : f.Apart) (hva : va.toNat < 2 ^ 47) (hi : f.VisitsAt i va) (hij : i < j)
    (hj : j ≤ f.phnum) (hnone : ∀ l, i < l → l < j → ¬f.VisitsAt l va) :
    imageByte (f.jobs f.phoff j) va = some (f.segmentByteAt (f.phdrAt i) va) := by
  induction j with
  | zero => omega
  | succ j ih =>
    obtain ⟨hvis, hnot⟩ := imageByte_succ ha hj hva
    by_cases hji : j = i
    · subst hji
      exact hvis hi
    · rw [hnot (hnone j (by omega) (by omega))]
      exact ih (by omega) (by omega) fun l hl hlj => hnone l hl (by omega)

/-- No later segment changes the image on an earlier one exactly when the earlier one's bytes on
common pages are zero. -/
theorem imageByte_preserved_iff (ha : f.Apart) :
    (∀ i j, i < j → f.LoadAt i → f.LoadAt j → ∀ va, (f.phdr (f.phdrAt i)).Contains va →
      ∀ x, imageByte (f.jobs f.phoff j) va = some x →
        imageByte (f.jobs f.phoff (j + 1)) va = some x) ↔
    ∀ i j, i < j → ∀ va, (f.phdr (f.phdrAt i)).Contains va → f.VisitsAt i va → f.VisitsAt j va →
      f.segmentByteAt (f.phdrAt i) va = 0#8 := by
  have hlt : ∀ i va, f.LoadAt i → (f.phdr (f.phdrAt i)).Contains va → va.toNat < 2 ^ 47 :=
    fun i va hi hin => Nat.lt_of_lt_of_le hin.2 (ha.ends i hi)
  have hzero : ∀ i l va, i ≠ l → f.LoadAt i → f.LoadAt l → (f.phdr (f.phdrAt i)).Contains va →
      f.segmentByteAt (f.phdrAt l) va = 0#8 := fun i l va hil hi hl hin =>
    segmentByteAt_outside (hlt i va hi hin) fun hc => ha.disjoint i l hil hi hl va ⟨hin, hc⟩
  constructor
  · intro hall i j
    -- the first loop after `i` that visits the page puts zeros over its bytes
    induction j using Nat.strongRecOn with
    | ind j ih =>
      intro hij va hin hi hj
      by_cases hbetween : ∃ l, i < l ∧ l < j ∧ f.VisitsAt l va
      · obtain ⟨l, hil, hlj, hl⟩ := hbetween
        exact ih l hlj hil va hin hi hl
      · have hva := hlt i va hi.1 hin
        have hkept := imageByte_kept ha hva hi hij (Nat.le_of_lt hj.1.1)
          fun l hil hlj hl => hbetween ⟨l, hil, hlj, hl⟩
        have hafter := hall i j hij hi.1 hj.1 va hin _ hkept
        rw [(imageByte_succ ha hj.1.1 hva).1 hj] at hafter
        rw [← Option.some.inj hafter]
        exact hzero i j va (by omega) hi.1 hj.1 hin
  · intro hall i j hij hi hj va hin x hx
    have hva := hlt i va hi hin
    obtain ⟨hvis, hnot⟩ := imageByte_succ ha hj.1 hva
    by_cases hv : f.VisitsAt j va
    · rw [hvis hv, hzero i j va (by omega) hi hj hin]
      obtain ⟨l, hlj, hl, rfl⟩ := imageByte_some ha hva (Nat.le_of_lt hj.1) hx
      by_cases hli : i = l
      · subst hli
        rw [hall i j hij va hin hl hv]
      · rw [hzero i l va hli hi hl.1 hin]
    · rw [hnot hv, hx]

/-! ## The code -/

/-- The loop over the first `n` program headers goes through, and shows their jobs. -/
theorem execLoadSegments_image {k k₁ ka : Kernel} {c n : Nat} (hc : Creates k k₁ c)
    (ha : f.Apart) (hn : n ≤ f.phnum)
    (hrun : (execLoadSegments f (frameAddr c) f.phoff n).run (k₁.log tableReads) = some (true, ka))
    (hva : va.toNat < 2 ^ 47) :
    ((userTranslate ka.mem c va).isSome = true ↔ imageByte (f.jobs f.phoff n) va ≠ none) ∧
      readByte ka.mem c va = imageByte (f.jobs f.phoff n) va := by
  have hat : ∀ j ∈ f.jobs f.phoff n, ∃ i, f.LoadAt i ∧ j ∈ segmentJobs f (f.phdrAt i) := by
    intro j hj
    obtain ⟨off, hoff, hj⟩ := List.mem_flatMap.mp hj
    obtain ⟨i, hi, rfl⟩ := List.mem_map.mp hoff
    have hin := List.mem_range.mp hi
    exact ⟨i, ⟨by omega, (mem_segmentJobs.mp hj).1⟩, hj⟩
  have hV : ∀ j ∈ f.jobs f.phoff n, UserHalf j.va := by
    intro j hj
    obtain ⟨i, hi, hj⟩ := hat j hj
    obtain ⟨-, m, hm, rfl⟩ := mem_segmentJobs.mp hj
    exact userHalf_of_lt (pageJob_lt (ha.ends i hi) hm)
  have hflags : ∀ j ∈ f.jobs f.phoff n, j.UserFlags ∧ j.content.isSome = true := by
    intro j hj
    obtain ⟨i, -, hj⟩ := hat j hj
    exact segmentJobs_userFlags hj
  obtain ⟨b, k', hspec, hout⟩ := execLoadSegments_spec (T := fun _ => True)
    (fun _ _ _ _ => trivial) hV (hc.loading tableReads)
  cases hspec.symm.trans hrun
  obtain ⟨hmapped, hread⟩ := hout.loaded.image hc hflags (userHalf_of_lt hva)
  refine ⟨hmapped.trans ?_, hread⟩
  unfold imageByte
  cases hl : lastJob (f.jobs f.phoff n) va with
  | none => simp
  | some j =>
    obtain ⟨src, hsrc⟩ := Option.isSome_iff_exists.mp (hflags j (lastJob_some hl).1).2
    simp [jobByte, hsrc]

/-- The states between the program headers. -/
theorem execLoadSegments_between {k₁ k₂ : Kernel} {pml4 : U64} {n : Nat} (hj : j < n)
    (hload : (execLoadSegments f pml4 f.phoff n).run k₁ = some (true, k₂)) :
    ∃ ka kb, (execLoadSegments f pml4 f.phoff j).run k₁ = some (true, ka) ∧
      (execLoadSegment f pml4 (f.phdrAt j)).run ka = some (true, kb) := by
  have hsplit : phdrOffsets f.phoff n = phdrOffsets f.phoff j ++ (f.phdrAt j ::
      (List.range' (j + 1) (n - (j + 1))).map fun i => f.phdrAt i) := by
    have hrange : List.range n = List.range j ++ (j :: List.range' (j + 1) (n - (j + 1))) := by
      have hn : n = j + (n - (j + 1) + 1) := by omega
      conv => lhs; rw [hn]
      rw [List.range_eq_range', List.range_eq_range', ← List.range'_append, Nat.zero_add,
        List.range'_succ, Nat.one_mul]
    rw [phdrOffsets, phdrOffsets, hrange, List.map_append, List.map_cons]
    rfl
  rw [execLoadSegments, hsplit] at hload
  obtain ⟨ka, hka, hrest⟩ := run_allM_append_iff.mp hload
  rcases run_allM_cons_iff.mp hrest with ⟨-, hc⟩ | ⟨kb, hkb, -⟩
  · cases hc
  · exact ⟨ka, kb, hka, hkb⟩

theorem execLoadSegments_succ {k₁ ka kb : Kernel} {pml4 : U64}
    (hka : (execLoadSegments f pml4 f.phoff j).run k₁ = some (true, ka))
    (hkb : (execLoadSegment f pml4 (f.phdrAt j)).run ka = some (true, kb)) :
    (execLoadSegments f pml4 f.phoff (j + 1)).run k₁ = some (true, kb) := by
  rw [execLoadSegments, phdrOffsets_succ]
  exact run_allM_append_iff.mpr ⟨ka, hka, (run_allM_true hkb).trans run_allM_nil⟩

end

/-- **No later segment changes a byte of an earlier one exactly when the earlier one's bytes on
common pages are zero.** -/
theorem execLoadSegment_preserves_iff {f : ElfFile} {k k₁ k₂ : Kernel} {pml4 : U64} (ha : f.Apart)
    (hcreate : vmmCreateAddressSpace.run k = some (pml4, k₁)) (h0 : pml4 ≠ 0#64)
    (hload : (execLoadSegments f pml4 f.phoff f.phnum).run (k₁.log tableReads) = some (true, k₂)) :
    (∀ i j, i < j → f.LoadAt i → f.LoadAt j → ∀ ka kb,
      (execLoadSegments f pml4 f.phoff j).run (k₁.log tableReads) = some (true, ka) →
      (execLoadSegment f pml4 (f.phdrAt j)).run ka = some (true, kb) →
      ∀ va, (f.phdr (f.phdrAt i)).Contains va →
        (userTranslate ka.mem (frameOf pml4) va).isSome = true →
        readByte kb.mem (frameOf pml4) va = readByte ka.mem (frameOf pml4) va) ↔
    ∀ i j, i < j → ∀ va, (f.phdr (f.phdrAt i)).Contains va → f.VisitsAt i va → f.VisitsAt j va →
      f.segmentByteAt (f.phdrAt i) va = 0#8 := by
  obtain ⟨c, rfl, hc⟩ := (vmmCreateAddressSpace_inv hcreate).resolve_left fun h => h0 h.1
  have hroot : frameOf (frameAddr c) = c := frameOf_frameAddr (Nat.lt_trans hc.free.lt (by omega))
  rw [hroot, ← imageByte_preserved_iff ha]
  constructor
  · intro hall i j hij hi hj va hin x hx
    have hva := Nat.lt_of_lt_of_le hin.2 (ha.ends i hi)
    obtain ⟨ka, kb, hka, hkb⟩ := execLoadSegments_between hj.1 hload
    obtain ⟨hmapped, hread⟩ := execLoadSegments_image hc ha (Nat.le_of_lt hj.1) hka hva
    have hread' := (execLoadSegments_image hc ha hj.1 (execLoadSegments_succ hka hkb) hva).2
    have hkept := hall i j hij hi hj ka kb hka hkb va hin (hmapped.mpr (by rw [hx]; simp))
    rw [hread, hread'] at hkept
    rw [hkept, hx]
  · intro hall i j hij hi hj ka kb hka hkb va hin hsome
    have hva := Nat.lt_of_lt_of_le hin.2 (ha.ends i hi)
    obtain ⟨hmapped, hread⟩ := execLoadSegments_image hc ha (Nat.le_of_lt hj.1) hka hva
    have hread' := (execLoadSegments_image hc ha hj.1 (execLoadSegments_succ hka hkb) hva).2
    obtain ⟨x, hx⟩ := Option.ne_none_iff_exists'.mp (hmapped.mp hsome)
    rw [hread, hread', hx]
    exact hall i j hij hi hj va hin x hx

/-- Two segments on one page: a byte `0xAB` at 4 MiB, and 256 zero bytes from the middle of the page
on. -/
def sharedPageFile : ElfFile :=
  fileOf (headerBytes 64 2 ++ segmentBytes 176 0x400000 1 0x800 ++ segmentBytes 177 0x400800 0 0x100 ++
    [0xAB#8]) (by decide +kernel)

/-- The header and the two program headers. -/
theorem sharedPageFile_header : (sharedPageFile.Accepted ∧ ¬sharedPageFile.TableTooLarge ∧ sharedPageFile.phnum = 2) ∧
    ((sharedPageFile.phdr (sharedPageFile.phdrAt 0)).p_type = ptLoad ∧
      (sharedPageFile.phdr (sharedPageFile.phdrAt 0)).p_vaddr.toNat = 0x400000 ∧
      (sharedPageFile.phdr (sharedPageFile.phdrAt 0)).p_memsz.toNat = 0x800) ∧
    (sharedPageFile.phdr (sharedPageFile.phdrAt 1)).p_type = ptLoad ∧
      (sharedPageFile.phdr (sharedPageFile.phdrAt 1)).p_vaddr.toNat = 0x400800 ∧
      (sharedPageFile.phdr (sharedPageFile.phdrAt 1)).p_memsz.toNat = 0x100 := by decide +kernel

theorem sharedPageFile_loadAt {i : Nat} (h : sharedPageFile.LoadAt i) : i = 0 ∨ i = 1 := by
  have hnum := sharedPageFile_header.1.2.2
  have hi := h.1
  omega

theorem sharedPageFile_apart : sharedPageFile.Apart := by
  obtain ⟨-, ⟨-, hv₀, hm₀⟩, -, hv₁, hm₁⟩ := sharedPageFile_header
  constructor
  · intro i hi
    unfold Phdr.EndsBelow
    rcases sharedPageFile_loadAt hi with rfl | rfl <;> omega
  · intro i j hij hi hj va hin
    obtain ⟨⟨hlo, hhi⟩, hlo', hhi'⟩ := hin
    rcases sharedPageFile_loadAt hi with rfl | rfl <;>
      rcases sharedPageFile_loadAt hj with rfl | rfl <;> omega

/-- The load ends, and leaves a zero byte where the first segment begins. -/
theorem sharedPageFile_loaded : ((execLoadSegments sharedPageFile 0x100000#64 sharedPageFile.phoff
    sharedPageFile.phnum).run (smallSpace.log tableReads)).any (fun r => decide (r.1 = true ∧
      readByte r.2.mem (frameOf 0x100000#64) 0x400000#64 = some 0#8)) = true := by decide +kernel

theorem sharedPageFile_runs : ((execLoadSegments sharedPageFile 0x100000#64 sharedPageFile.phoff
    sharedPageFile.phnum).run (smallSpace.log tableReads)).isSome = true := isSome_of_any sharedPageFile_loaded

theorem sharedPageFile_load : (execLoadSegments sharedPageFile 0x100000#64 sharedPageFile.phoff
    sharedPageFile.phnum).run (smallSpace.log tableReads) =
      some (true, (((execLoadSegments sharedPageFile 0x100000#64 sharedPageFile.phoff
        sharedPageFile.phnum).run (smallSpace.log tableReads)).get sharedPageFile_runs).2) :=
  eq_some_get sharedPageFile_runs (get_of_any sharedPageFile_loaded sharedPageFile_runs).1

theorem execLoadSegment_preserves_iff_sharedPage :
    (∀ i j, i < j → sharedPageFile.LoadAt i → sharedPageFile.LoadAt j → ∀ ka kb,
      (execLoadSegments sharedPageFile 0x100000#64 sharedPageFile.phoff j).run
        (smallSpace.log tableReads) = some (true, ka) →
      (execLoadSegment sharedPageFile 0x100000#64 (sharedPageFile.phdrAt j)).run ka =
        some (true, kb) →
      ∀ va, (sharedPageFile.phdr (sharedPageFile.phdrAt i)).Contains va →
        (userTranslate ka.mem (frameOf 0x100000#64) va).isSome = true →
        readByte kb.mem (frameOf 0x100000#64) va = readByte ka.mem (frameOf 0x100000#64) va) ↔
    ∀ i j, i < j → ∀ va, (sharedPageFile.phdr (sharedPageFile.phdrAt i)).Contains va →
      sharedPageFile.VisitsAt i va → sharedPageFile.VisitsAt j va →
      sharedPageFile.segmentByteAt (sharedPageFile.phdrAt i) va = 0#8 :=
  execLoadSegment_preserves_iff sharedPageFile_apart small_create (by decide) sharedPageFile_load

/-- Loading the second segment wipes out the byte of the first. -/
theorem sharedPageFile_wiped : sharedPageFile.Accepted ∧ ¬sharedPageFile.TableTooLarge ∧
    sharedPageFile.Apart ∧ sharedPageFile.LoadAt 0 ∧ sharedPageFile.LoadAt 1 ∧
    (sharedPageFile.phdr (sharedPageFile.phdrAt 0)).Contains 0x400000#64 ∧
    ∃ ka kb, (execLoadSegments sharedPageFile 0x100000#64 sharedPageFile.phoff 1).run
        (smallSpace.log tableReads) = some (true, ka) ∧
      (execLoadSegment sharedPageFile 0x100000#64 (sharedPageFile.phdrAt 1)).run ka =
        some (true, kb) ∧
      readByte ka.mem (frameOf 0x100000#64) 0x400000#64 = some 0xAB#8 ∧
      readByte kb.mem (frameOf 0x100000#64) 0x400000#64 = some 0#8 := by
  obtain ⟨⟨hacc, htab, hnum⟩, ⟨htype₀, hv₀, hm₀⟩, htype₁, hv₁, hm₁⟩ := sharedPageFile_header
  have hlast : 1 < sharedPageFile.phnum := by omega
  obtain ⟨ka, kb, hka, hkb⟩ := execLoadSegments_between hlast sharedPageFile_load
  have hbefore : ((execLoadSegments sharedPageFile 0x100000#64 sharedPageFile.phoff 1).run
      (smallSpace.log tableReads)).bind (fun x => readByte x.2.mem (frameOf 0x100000#64) 0x400000#64) =
        some 0xAB#8 := by decide +kernel
  rw [hka] at hbefore
  have hafter := sharedPageFile_loaded
  rw [hnum, execLoadSegments_succ hka hkb] at hafter
  have hcontains : (sharedPageFile.phdr (sharedPageFile.phdrAt 0)).Contains 0x400000#64 := by
    rw [Phdr.Contains, hv₀, hm₀]
    decide
  exact ⟨hacc, htab, sharedPageFile_apart, ⟨by omega, htype₀⟩, ⟨hlast, htype₁⟩, hcontains, ka, kb, hka, hkb, hbefore,
    (of_decide_eq_true hafter).2⟩

end PpoOS
