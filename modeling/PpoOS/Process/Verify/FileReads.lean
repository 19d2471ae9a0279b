import PpoOS.Process.Verify.Exec

/-!
# Reads of the program file

The loader checks that the program header table ends before the file does, by a
sum that may wrap, and cuts copies off at the end of the segment's bytes, not of
the file's.  **`execElf_reads_iff`**: all bytes that a call of `exec_elf` reads
are bytes of the file exactly when, in a call that begins to load, that sum does
not wrap and on every page it gets to the copy range lies in the file.
-/

namespace PpoOS

open ByteMem FaultState Transition

/-- The end of the program header table wraps around. -/
def ElfFile.TableWraps (f : ElfFile) : Prop := 2 ^ 64 ≤ f.phoff.toNat + f.phnum * 56

/-- What is copied into the page lies in the first `size` bytes of the file. -/
def Phdr.CopiesWithin (ph : Phdr) (page : U64) (size : Nat) : Prop :=
  ∀ c, copyRange ph page = some c → c.bytesToCopy ≠ 0#64 →
    c.fileOffset.toNat + c.bytesToCopy.toNat ≤ size

section

variable {D : Ownership} {T : U64 → Prop} {own : Idx → Nat} {V : U64 → Prop} {k₀ k k₁ k₂ k₃ k' : Kernel}
  {g c : Nat} {f : ElfFile} {o : Option UserEntry} {rs : List U64} {js done : List PageJob}
  {j : PageJob} {b : Bool}

/-! ## Segment data -/

/-- Indices below 2⁴⁷ are in the range exactly when the range is, and does not wrap. -/
theorem readIndices_within_iff {off : U64} {n size : Nat} (hn : n < 2 ^ 64) (hs : size < 2 ^ 47) :
    (∀ i ∈ readIndices off n, i.toNat < size) ↔ n = 0 ∨ off.toNat + n ≤ size := by
  constructor
  · intro h
    by_contra hc
    have hmem : ∀ j, j < n → (off + BitVec.ofNat 64 j).toNat < size :=
      fun j hj => h _ (List.mem_map.mpr ⟨j, List.mem_range.mpr hj, rfl⟩)
    have hfirst := hmem 0 (by omega)
    have hpast := hmem (size - off.toNat)
    rw [BitVec.toNat_add, BitVec.toNat_ofNat] at hfirst hpast
    omega
  · rintro (rfl | h)
    · exact fun i hi => absurd hi List.not_mem_nil
    · exact readIndices_lt h (by omega)

theorem segmentReads_within_iff {ph : Phdr} {page : U64} {size : Nat} (hs : size < 2 ^ 47) :
    (∀ i ∈ segmentReads ph page, i.toNat < size) ↔ ph.CopiesWithin page size := by
  unfold segmentReads Phdr.CopiesWithin
  cases hc : copyRange ph page with
  | none =>
    exact ⟨fun _ _ h => (nomatch h), fun _ i hi => absurd hi List.not_mem_nil⟩
  | some c =>
    have h0 : c.bytesToCopy ≠ 0#64 ↔ ¬c.bytesToCopy.toNat = 0 :=
      not_congr (BitVec.toNat_inj.symm.trans (by simp))
    dsimp only
    rw [readIndices_within_iff c.bytesToCopy.isLt hs, or_iff_not_imp_left, ← h0]
    exact ⟨fun h c' hc' => by cases hc'; exact h, fun h => h c rfl⟩

/-! ## The program header table -/

theorem ElfFile.table_le (htab : ¬f.TableTooLarge) (hw : ¬f.TableWraps) :
    f.phoff.toNat + f.phnum * 56 ≤ f.size.toNat := by
  have h56 : phdrSize.toNat = 56 := by decide
  have hn : ((f.u16 56#64).setWidth 64).toNat = f.phnum := by
    have hlt := (f.u16 56#64).isLt
    rw [BitVec.toNat_setWidth, Nat.mod_eq_of_lt (by omega)]
    rfl
  have hlt : f.phnum < 2 ^ 16 := (f.u16 56#64).isLt
  unfold ElfFile.TableTooLarge at htab
  unfold ElfFile.TableWraps at hw
  rw [BitVec.lt_def, BitVec.toNat_add, BitVec.toNat_mul, hn, h56] at htab
  unfold ElfFile.phoff at hw ⊢
  omega

/-- Where the table does not wrap, it lies in the file. -/
theorem phdrIndices_within (htab : ¬f.TableTooLarge) (hw : ¬f.TableWraps) :
    ∀ off ∈ phdrOffsets f.phoff f.phnum, ∀ i ∈ phdrIndices off, i.toNat < f.size.toNat := by
  have hend := f.table_le htab hw
  have h56 : phdrSize.toNat = 56 := by decide
  have hsize := f.size_lt
  intro off hoff
  obtain ⟨n, hn, rfl⟩ := List.mem_map.mp hoff
  have hn := List.mem_range.mp hn
  refine readIndices_lt ?_ (by omega)
  rw [BitVec.toNat_add, BitVec.toNat_mul, BitVec.toNat_ofNat, h56]
  omega

/-- Loading only adds to the read history. -/
theorem LoadOutcome.reads (h : LoadOutcome D T own k js b k') : ∃ rs, k'.reads = rs ++ k.reads := by
  cases h with
  | all h =>
    obtain ⟨rs, hr, -⟩ := h.reads
    exact ⟨rs, hr⟩
  | stalled h hs =>
    obtain ⟨rs, hr, -⟩ := h.reads.trans hs.reads
    exact ⟨rs, hr⟩

/-- The first program header is read, wherever it lies. -/
theorem execSetup_reads_first (h : Loading D own (fun _ => True) c k) (htab : ¬f.TableTooLarge)
    (hn : 0 < f.phnum) (hrun : (execSetup f (frameAddr c)).run k = some (b, k')) :
    ∃ rs, k'.reads = rs ++ k.reads ∧ f.phoff ∈ rs := by
  have hphoff := readU64_run f 32#64 k
  have hphnum := readU16_run f 56#64 (k.log (readIndices 32#64 8))
  have htab' : ¬f.size < f.u64 32#64 + (f.u16 56#64).setWidth 64 * phdrSize := htab
  rw [execSetup, run_bind_eq hphoff, run_bind_eq hphnum, Kernel.log_log, if_neg htab'] at hrun
  obtain ⟨ok, k₂, hseg, hrest⟩ := run_bind_iff.mp hrun
  have hT : ∀ off : U64, ∀ i ∈ phdrIndices off, (fun _ => True) i := fun _ _ _ => trivial
  have hl := h.evolves ((Evolves.refl h.forest).log tableReads)
  -- the loop begins with the header at `phoff`
  obtain ⟨n, hsucc⟩ : ∃ n, f.phnum = n + 1 := ⟨f.phnum - 1, by omega⟩
  have hoffs : phdrOffsets f.phoff f.phnum = f.phoff ::
      (List.range n).map fun i => f.phoff + BitVec.ofNat 64 (i + 1) * phdrSize := by
    rw [phdrOffsets, hsucc, List.range_succ_eq_map, List.map_cons, List.map_map]
    simp [Function.comp_def]
  have hfirst : ∃ rs, k₂.reads = rs ++ k.reads ∧ f.phoff ∈ rs := by
    obtain ⟨b₁, k₃, hone, hout⟩ := execLoadSegment_spec (hT f.phoff) (fun _ _ => trivial) hl
    obtain ⟨rs₁, hr₁⟩ := hout.reads
    have hmem : f.phoff ∈ readIndices f.phoff 4 :=
      List.mem_map.mpr ⟨0, List.mem_range.mpr (by omega), by simp⟩
    have hr₃ : k₃.reads = (rs₁ ++ readIndices f.phoff 4 ++ tableReads) ++ k.reads := by
      rw [hr₁, Kernel.log_reads, Kernel.log_reads, List.append_assoc, List.append_assoc]
    have hin : f.phoff ∈ rs₁ ++ readIndices f.phoff 4 ++ tableReads := by simp [hmem]
    have hseg' : ((phdrOffsets f.phoff f.phnum).allM fun off =>
        execLoadSegment f (frameAddr c) off).run (k.log tableReads) = some (ok, k₂) := hseg
    rw [hoffs] at hseg'
    rcases run_allM_cons_iff.mp hseg' with ⟨hfail, -⟩ | ⟨k₄, hpass, hloop⟩
    · cases hone.symm.trans hfail
      exact ⟨_, hr₃, hin⟩
    · cases hone.symm.trans hpass
      have hl₃ := hl.evolves (((Evolves.refl hl.forest).log (readIndices f.phoff 4)).trans
        (hout.evolves (hl.forest.log (readIndices f.phoff 4))))
      have hbody : ∀ off ∈ (List.range n).map fun i => f.phoff + BitVec.ofNat 64 (i + 1) * phdrSize,
          ∀ k, Loading D own (fun _ => True) c k →
            ∃ b k', (execLoadSegment f (frameAddr c) off).run k = some (b, k') ∧
              LoadOutcome D (fun _ => True) own k (segmentJobs f off) b k' := by
        intro off _ k₆ h₆
        obtain ⟨b, k', hrun, hout⟩ := execLoadSegment_spec (hT off) (fun _ _ => trivial) h₆
        exact ⟨b, k', hrun, hout.log_first fun _ _ => trivial⟩
      obtain ⟨b₂, k₅, hloop', hout₂⟩ := allM_loads hbody hl₃
      cases hloop.symm.trans hloop'
      obtain ⟨rs₂, hr₂⟩ := hout₂.reads
      refine ⟨rs₂ ++ (rs₁ ++ readIndices f.phoff 4 ++ tableReads), ?_, by simp [hmem]⟩
      rw [hr₂, hr₃]
      simp only [List.append_assoc]
  obtain ⟨rs, hr, hin⟩ := hfirst
  cases ok with
  | false =>
    cases hrest
    exact ⟨rs, hr, hin⟩
  | true =>
    have hTs : ∀ off ∈ phdrOffsets f.phoff f.phnum, ∀ i ∈ phdrIndices off, (fun _ => True) i :=
      fun off _ => hT off
    obtain ⟨b₁, k₄, hsegs, hout₁⟩ := execLoadSegments_spec hTs (fun _ _ => trivial) hl
    cases hseg.symm.trans hsegs
    obtain ⟨b₂, k₅, hstack, hout⟩ := execMapStack_spec (T := fun _ => True) (fun _ _ => trivial)
      (hl.evolves (hout₁.evolves hl.forest))
    cases hrest.symm.trans hstack
    obtain ⟨rs₂, hr₂⟩ := hout.reads
    exact ⟨rs₂ ++ rs, by rw [hr₂, hr, List.append_assoc], by simp [hin]⟩

/-- A call that begins to load and whose table wraps reads its first program header, out of range. -/
theorem Valid.reads_wrapped (h : Valid (bootLayout g k₀) k) (hb : f.Begins k) (hw : f.TableWraps)
    (hrun : (execElf (some f)).run k = some (o, k')) :
    ∃ rs, k'.reads = rs ++ k.reads ∧ f.phoff ∈ rs := by
  have hn : 0 < f.phnum := by
    have hlt := f.phoff.isLt
    unfold ElfFile.TableWraps at hw
    omega
  have hload : ∀ {rs : List U64} {c : Nat} {k₁ k₃ : Kernel} {b : Bool}, Creates (k.log rs) k₁ c →
      (execSetup f (frameAddr c)).run k₁ = some (b, k₃) →
      ∃ rs, k₃.reads = rs ++ k.reads ∧ f.phoff ∈ rs := by
    intro rs c k₁ k₃ b hc hsetup
    obtain ⟨rs', hr, hin⟩ := execSetup_reads_first ((h.log rs).create_loading hc) hb.2.1 hn hsetup
    have hr₁ : k₁.reads = rs ++ k.reads := by
      rw [hc.rest]
      rfl
    exact ⟨rs' ++ rs, by rw [hr, hr₁, List.append_assoc], by simp [hin]⟩
  cases execElf_outcome hrun with
  | rejected refused _ => exact absurd hb.1 (refused f rfl)
  | noFrame _ _ full =>
    obtain ⟨x, hx⟩ := freeCount_pos.mp hb.2.2
    exact absurd hx (full x)
  | failed _ _ created setup => exact hload created setup
  | started _ _ created setup =>
    obtain ⟨rs, hr, hin⟩ := hload created setup
    exact ⟨rs, hr, hin⟩

end

/-- **All bytes that a call of `exec_elf` reads are bytes of its file exactly when**, in a call that
begins to load, the end of the program header table does not wrap and, on every page that the free
frames reach, the copy range lies in the file.  Also where a segment is mapped over the kernel's
own variables or over the file, these are assumed to stay what they are during the call. -/
theorem execElf_reads_iff {k₀ : Kernel} {g : Nat} {es : List Event} {m : Machine} (f : ElfFile)
    (hrun : Run MachineStep ⟨k₀, []⟩ es m) (h₀ : Handover g k₀) :
    ∃ o k' rs, (execElf (some f)).run m.kernel = some (o, k') ∧ k'.reads = rs ++ m.kernel.reads ∧
      ((∀ i ∈ rs, i.toNat < f.size.toNat) ↔
        (f.Begins m.kernel → ¬f.TableWraps ∧ ∀ off n, f.Loadable off →
          n * 4096 < (f.phdr off).p_memsz.toNat →
          Reached (kernelReaches m.kernel) (m.kernel.pmm.freeCount - 1) f.setupJobs
            (pageJob f off n) →
          (f.phdr off).CopiesWithin (pageJob f off n).va f.size.toNat)) := by
  have h := (run_valid_boot hrun h₀).kernel
  have hsize := f.size_lt
  obtain ⟨o, k', hexec⟩ := h.exec_ends (some f)
  by_cases hb : f.Begins m.kernel
  · by_cases hw : f.TableWraps
    · obtain ⟨rs, hr, hin⟩ := h.reads_wrapped hb hw hexec
      refine ⟨o, k', rs, hexec, hr, fun hall => ?_, fun hall => absurd hw (hall hb).1⟩
      have hlt := hall _ hin
      have hn : f.phnum < 2 ^ 16 := (f.u16 56#64).isLt
      unfold ElfFile.TableWraps at hw
      omega
    · obtain ⟨rs, c, k₁, done, k₂, k₃, he⟩ := h.exec_loads hb (phdrIndices_within hb.2.1 hw) hexec
      obtain ⟨rs', hr, hsub, hall⟩ := he.loaded.reads.trans he.stallReads
      rw [List.append_nil] at hsub hall
      have hacc := Accepted.size_le hb.1
      have hreads : k'.reads = (rs' ++ tableReads ++ rs) ++ m.kernel.reads := by
        rw [he.reads, hr, Kernel.log_reads, he.created.rest, Kernel.log_reads]
        simp only [List.append_assoc]
      refine ⟨o, k', _, hexec, hreads, ?_, ?_⟩
      · intro hin _
        refine ⟨hw, fun off n hoff hn hreach => ?_⟩
        refine (segmentReads_within_iff hsize).mp fun i hi => hin i ?_
        have hi' := hall _ ((he.done_iff _).mpr hreach) i hi
        simp [hi']
      · intro hpages i hi
        rcases List.mem_append.mp hi with hi | hi
        · rcases List.mem_append.mp hi with hi | hi
          · rcases hsub i hi with hi | ⟨j, hj, hij⟩
            · exact hi
            · have hreach := (he.done_iff j).mp hj
              rcases List.mem_append.mp hreach.mem with hseg | hstack
              · obtain ⟨off, hoff, hseg⟩ := List.mem_flatMap.mp hseg
                obtain ⟨htype, n, hn, rfl⟩ := mem_segmentJobs.mp hseg
                have hcopies := (hpages hb).2 off n ⟨hoff, htype⟩ hn hreach
                exact (segmentReads_within_iff hsize).mpr hcopies i hij
              · obtain ⟨va, -, rfl⟩ := List.mem_map.mp hstack
                exact absurd hij List.not_mem_nil
          · exact Nat.lt_of_lt_of_le (tableReads_lt i hi) hacc
        · exact Nat.lt_of_lt_of_le (he.header i hi) hacc
  · obtain ⟨-, ⟨rs, hr, hin⟩, -⟩ := h.exec_idle hb hexec
    exact ⟨o, k', rs, hexec, hr, fun _ hc => absurd hc hb, fun _ => hin⟩

/-- A file whose segment has its bytes behind the end of the file. -/
def shortFile : ElfFile :=
  fileOf (headerBytes 64 1 ++ segmentBytes 120 0x400000 0x100 0x100) (by decide +kernel)

theorem execElf_reads_iff_short :
    ∃ o k' rs, (execElf (some shortFile)).run chainKernel = some (o, k') ∧
      k'.reads = rs ++ chainKernel.reads ∧ ((∀ i ∈ rs, i.toNat < shortFile.size.toNat) ↔
        (shortFile.Begins chainKernel → ¬shortFile.TableWraps ∧ ∀ off n, shortFile.Loadable off →
          n * 4096 < (shortFile.phdr off).p_memsz.toNat →
          Reached (kernelReaches chainKernel) (chainKernel.pmm.freeCount - 1) shortFile.setupJobs
            (pageJob shortFile off n) →
          (shortFile.phdr off).CopiesWithin (pageJob shortFile off n).va shortFile.size.toNat)) :=
  execElf_reads_iff (m := ⟨chainKernel, []⟩) shortFile (Run.nil _) chainKernel_handover

theorem shortFile_checked : ((execElf (some shortFile)).run chainKernel).any (fun r => decide (r.1.isSome = true ∧
    120#64 ∈ r.2.reads)) = true := by decide +kernel

/-- The file has 120 bytes; the program starts, and its first page holds what lies behind them. -/
theorem shortFile_reads_past_end : Handover 1 chainKernel ∧ shortFile.size = 120#64 ∧
    ∃ u k', (execElf (some shortFile)).run chainKernel = some (some u, k') ∧
      ∃ rs, k'.reads = rs ++ chainKernel.reads ∧ 120#64 ∈ rs := by
  have hruns := isSome_of_any shortFile_checked
  obtain ⟨hstarts, hread⟩ := get_of_any shortFile_checked hruns
  obtain ⟨u, hu⟩ := Option.isSome_iff_exists.mp hstarts
  exact ⟨chainKernel_handover, by decide +kernel, u, _, eq_some_get hruns hu, _,
    (List.append_nil _).symm, hread⟩

end PpoOS
