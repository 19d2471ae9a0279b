import PpoOS.Exec.Verify.PageJob

/-!
# Loading a program

The loops of `exec_elf` work off a list of page jobs, which the program headers
determine.  `Loaded D T own k js k'` says that the jobs `js`, in order, lead from
`k` to `k'`; `LoadOutcome` adds the loop that stops for want of frames.
**`execSetup_spec`**: the loading code always ends, and its outcome is a
`LoadOutcome` of the jobs of the file and of the stack.

The page of a job may belong to another root than the one loaded into, as the
pages of the shared kernel half do; `own` names the owner by the page's index in
the PML4.
-/

namespace PpoOS

open ByteMem FaultState

/-! ## The jobs of a file -/

/-- The number of iterations of the page loop, when no frame is missing. -/
def pageCount (p_memsz : U64) : Nat := (p_memsz.toNat + 4095) / 4096

/-- The job of iteration `n` of the page loop. -/
def pageJob (f : ElfFile) (off : U64) (n : Nat) : PageJob :=
  segmentJob f off (BitVec.ofNat 64 n * pageSize)

/-- The jobs of the program header at `off`. -/
def segmentJobs (f : ElfFile) (off : U64) : List PageJob :=
  if (f.phdr off).p_type = ptLoad then
    (List.range (pageCount (f.phdr off).p_memsz)).map (pageJob f off)
  else []

/-- The jobs of the first `phnum` program headers. -/
def ElfFile.jobs (f : ElfFile) (phoff : U64) (phnum : Nat) : List PageJob :=
  (phdrOffsets phoff phnum).flatMap (segmentJobs f)

def stackJobs : List PageJob := stackVaddrs.map stackJob

section

variable {D : Ownership} {T : U64 → Prop} {own : Idx → Nat} {V : U64 → Prop} {c : Nat}
  {k k' k'' : Kernel} {js js' : List PageJob} {b : Bool}

/-- What loading into root `c` relies on: the forest, and an owner for every page in `V`. -/
structure Loading (D : Ownership) (own : Idx → Nat) (V : U64 → Prop) (c : Nat) (k : Kernel) :
    Prop where
  forest : Forest D k
  owns : ∀ va, V va → Owns D k c va (own (rootIdx va))

theorem Loading.evolves (h : Loading D own V c k) (he : Evolves D k k') : Loading D own V c k' :=
  ⟨he.forest, fun va hva => (h.owns va hva).evolves h.forest he⟩

/-! ## Work done -/

/-- The jobs `js`, in order, lead from `k` to `k'`. -/
inductive Loaded (D : Ownership) (T : U64 → Prop) (own : Idx → Nat) (k : Kernel) :
    List PageJob → Kernel → Prop
  | nil : Loaded D T own k [] k
  | log {js : List PageJob} {k' : Kernel} (h : Loaded D T own k js k') {rs : List U64}
      (hrs : ∀ i ∈ rs, T i) : Loaded D T own k js (k'.log rs)
  | page {js : List PageJob} {j : PageJob} {k' k'' : Kernel} {d : Nat}
      (h : Loaded D T own k js k') (hl : Loads D T (own (rootIdx j.va)) j k' k'' d) :
      Loaded D T own k (js ++ [j]) k''

theorem Loaded.trans (h : Loaded D T own k js k') (h' : Loaded D T own k' js' k'') :
    Loaded D T own k (js ++ js') k'' := by
  induction h' with
  | nil => rwa [List.append_nil]
  | log _ hrs ih => exact ih.log hrs
  | page _ hl ih =>
    rw [← List.append_assoc]
    exact ih.page hl

theorem Loaded.evolves (hf : Forest D k) (h : Loaded D T own k js k') : Evolves D k k' := by
  induction h with
  | nil => exact Evolves.refl hf
  | log _ _ ih => exact ih.log _
  | page _ hl ih => exact ih.trans hl.toEvolves

/-- How a loop over the jobs `js` ends: after all of them, or at one that is short of frames. -/
inductive LoadOutcome (D : Ownership) (T : U64 → Prop) (own : Idx → Nat) (k : Kernel) :
    List PageJob → Bool → Kernel → Prop
  | all {js : List PageJob} {k' : Kernel} (h : Loaded D T own k js k') :
      LoadOutcome D T own k js true k'
  | stalled {js rest : List PageJob} {j : PageJob} {k' k'' : Kernel} (h : Loaded D T own k js k')
      (hs : StallsAt D T (own (rootIdx j.va)) j k' k'') :
      LoadOutcome D T own k (js ++ j :: rest) false k''

theorem LoadOutcome.evolves (hf : Forest D k) (h : LoadOutcome D T own k js b k') :
    Evolves D k k' := by
  cases h with
  | all h => exact h.evolves hf
  | stalled h hs => exact (h.evolves hf).trans hs.toEvolves

theorem LoadOutcome.loaded (h : LoadOutcome D T own k js true k') : Loaded D T own k js k' := by
  cases h with
  | all h => exact h

/-- Jobs done before a loop. -/
theorem LoadOutcome.after (h : Loaded D T own k js k') (h' : LoadOutcome D T own k' js' b k'') :
    LoadOutcome D T own k (js ++ js') b k'' := by
  cases h' with
  | all h' => exact .all (h.trans h')
  | stalled h' hs =>
    rw [← List.append_assoc]
    exact .stalled (h.trans h') hs

/-- Reads before a loop. -/
theorem LoadOutcome.log_first {rs : List U64} (hrs : ∀ i ∈ rs, T i)
    (h : LoadOutcome D T own (k.log rs) js b k') : LoadOutcome D T own k js b k' :=
  LoadOutcome.after (.log .nil hrs) h

/-- Jobs that a stalled loop does not reach. -/
theorem LoadOutcome.stalled_append (h : LoadOutcome D T own k js false k') (js' : List PageJob) :
    LoadOutcome D T own k (js ++ js') false k' := by
  cases h with
  | stalled h hs =>
    rw [List.append_assoc]
    exact .stalled h hs

/-! ## The loops -/

/-- Loops one after the other. -/
theorem allM_loads {ι : Type} {body : ι → Kern Bool} {jobs : ι → List PageJob} {is : List ι}
    (hbody : ∀ i ∈ is, ∀ k, Loading D own V c k →
      ∃ b k', (body i).run k = some (b, k') ∧ LoadOutcome D T own k (jobs i) b k') :
    ∀ {k}, Loading D own V c k →
      ∃ b k', (is.allM body).run k = some (b, k') ∧ LoadOutcome D T own k (is.flatMap jobs) b k' := by
  induction is with
  | nil => exact fun _ => ⟨true, _, rfl, .all .nil⟩
  | cons i is ih =>
    intro k h
    obtain ⟨b, k₁, hrun, hone⟩ := hbody i (by simp) k h
    cases b with
    | false => exact ⟨false, k₁, run_allM_false hrun, hone.stalled_append _⟩
    | true =>
      have h₁ := h.evolves (hone.evolves h.forest)
      obtain ⟨b, k₂, hrest, hout⟩ := ih (fun i' hi => hbody i' (by simp [hi])) h₁
      exact ⟨b, k₂, (run_allM_true hrun).trans hrest, hout.after hone.loaded⟩

theorem offset_lt_iff {n : Nat} (hn : n < 2 ^ 52) (p_memsz : U64) :
    BitVec.ofNat 64 n * pageSize < p_memsz ↔ n < pageCount p_memsz := by
  have h4096 : pageSize.toNat = 4096 := by decide
  rw [BitVec.lt_def, BitVec.toNat_mul, BitVec.toNat_ofNat, h4096, pageCount]
  omega

theorem offset_succ (n : Nat) :
    BitVec.ofNat 64 n * pageSize + pageSize = BitVec.ofNat 64 (n + 1) * pageSize := by
  rw [BitVec.ofNat_add, BitVec.add_mul, BitVec.one_mul]

/-- The page loop.  Each iteration takes a frame, so the loop ends before its fuel does. -/
theorem execLoadPages_spec {f : ElfFile} {off : U64} (hT : ∀ i ∈ phdrIndices off, T i)
    (hV : ∀ n, n < pageCount (f.phdr off).p_memsz → V (pageJob f off n).va) :
    ∀ {fuel n : Nat} {k : Kernel}, Loading D own V c k → n + fuel ≤ 2 ^ 52 →
      k.pmm.freeCount < fuel →
      ∃ b k', (execLoadPages f (frameAddr c) off fuel (BitVec.ofNat 64 n * pageSize)).run k =
          some (b, k') ∧
        LoadOutcome D T own k ((List.range' n (pageCount (f.phdr off).p_memsz - n)).map
          (pageJob f off)) b k' := by
  intro fuel
  induction fuel with
  | zero => exact fun _ _ hfuel => absurd hfuel (Nat.not_lt_zero _)
  | succ fuel ih =>
    intro n k h hn hfuel
    have hread := readU64_run f (off + 40#64) k
    have hrs : ∀ i ∈ readIndices (off + 40#64) 8, T i := fun i hi => hT i (phdr_field (by omega) i hi)
    have h₀ := h.evolves ((Evolves.refl h.forest).log (readIndices (off + 40#64) 8))
    have hiff : BitVec.ofNat 64 n * pageSize < f.u64 (off + 40#64) ↔
        n < pageCount (f.phdr off).p_memsz := offset_lt_iff (by omega) _
    rw [execLoadPages, run_bind_eq hread]
    by_cases hlt : n < pageCount (f.phdr off).p_memsz
    · have hsucc : pageCount (f.phdr off).p_memsz - n =
          pageCount (f.phdr off).p_memsz - (n + 1) + 1 := by omega
      rw [if_pos (hiff.mpr hlt), hsucc, List.range'_succ, List.map_cons]
      rcases execLoadPage_spec (T := T) h₀.forest (h₀.owns _ (hV n hlt)) hT with
        ⟨k₁, d, hpage, hl⟩ | ⟨k₁, hpage, hs⟩
      · have hone : Loaded D T own k [pageJob f off n] k₁ := .page (.log .nil hrs) hl
        have hcount := hl.count
        rw [Kernel.log_pmm] at hcount
        obtain ⟨b, k₂, hrest, hout⟩ :=
          ih (h₀.evolves hl.toEvolves) (n := n + 1) (by omega) (by omega)
        refine ⟨b, k₂, ?_, hout.after hone⟩
        rw [run_bind_eq hpage, if_pos rfl, offset_succ, hrest]
      · refine ⟨false, k₁, ?_, ?_⟩
        · rw [run_bind_eq hpage]
          rfl
        · have hnone : Loaded D T own k [] (k.log (readIndices (off + 40#64) 8)) := .log .nil hrs
          exact .stalled hnone hs
    · have hzero : pageCount (f.phdr off).p_memsz - n = 0 := by omega
      rw [if_neg (fun hc => hlt (hiff.mp hc)), hzero]
      exact ⟨true, _, rfl, .all (.log .nil hrs)⟩

/-- One program header, from the state after its type was read. -/
theorem execLoadSegment_spec {f : ElfFile} {off : U64} (hT : ∀ i ∈ phdrIndices off, T i)
    (hV : ∀ j ∈ segmentJobs f off, V j.va) (h : Loading D own V c k) :
    ∃ b k', (execLoadSegment f (frameAddr c) off).run k = some (b, k') ∧
      LoadOutcome D T own (k.log (readIndices off 4)) (segmentJobs f off) b k' := by
  have hread := readU32_run f off k
  rw [execLoadSegment, run_bind_eq hread]
  by_cases hload : f.u32 off = ptLoad
  · have hjobs : segmentJobs f off =
        (List.range (pageCount (f.phdr off).p_memsz)).map (pageJob f off) := if_pos hload
    obtain ⟨rs, hlog, hrs⟩ : ∃ rs, (logSegment off).run (k.log (readIndices off 4)) =
        some ((), (k.log (readIndices off 4)).log rs) ∧ ∀ i ∈ rs, T i := by
      refine ⟨readIndices (off + 4#64) 4 ++ (readIndices (off + 32#64) 8 ++
        (readIndices (off + 40#64) 8 ++ readIndices (off + 16#64) 8)), ?_, ?_⟩
      · rw [← Kernel.log_log, ← Kernel.log_log, ← Kernel.log_log]
        rfl
      · intro i hi
        simp only [List.mem_append] at hi
        rcases hi with hi | hi | hi | hi
        · exact hT i (phdr_field (by omega) i hi)
        · exact hT i (phdr_field (by omega) i hi)
        · exact hT i (phdr_field (by omega) i hi)
        · exact hT i (phdr_field (by omega) i hi)
    rw [if_neg (not_not.mpr hload), run_bind_eq hlog, hjobs]
    by_cases h0 : (f.phdr off).p_memsz = 0#64
    · rw [if_pos h0, h0]
      exact ⟨true, _, rfl, .all (.log .nil hrs)⟩
    · have hV' : ∀ n, n < pageCount (f.phdr off).p_memsz → V (pageJob f off n).va := by
        intro n hn
        refine hV _ ?_
        rw [hjobs]
        exact List.mem_map.mpr ⟨n, List.mem_range.mpr hn, rfl⟩
      have hmax := k.pmm.maxBits_le
      have hfree := k.pmm.freeCount_le
      have hlogs := ((Evolves.refl h.forest).log (readIndices off 4)).log rs
      obtain ⟨b, k', hrun, hout⟩ := execLoadPages_spec hT hV' (h.evolves hlogs) (n := 0)
        (by omega : 0 + (k.pmm.maxBits + 1) ≤ 2 ^ 52) (by rw [Kernel.log_pmm, Kernel.log_pmm]; omega)
      refine ⟨b, k', ?_, ?_⟩
      · rw [if_neg h0]
        exact hrun
      · rw [Nat.sub_zero, ← List.range_eq_range'] at hout
        exact hout.log_first hrs
  · have hjobs : segmentJobs f off = [] := if_neg hload
    rw [if_pos hload, hjobs]
    exact ⟨true, _, rfl, .all .nil⟩

/-- The loop over the program headers. -/
theorem execLoadSegments_spec {f : ElfFile} {phoff : U64} {phnum : Nat}
    (hT : ∀ off ∈ phdrOffsets phoff phnum, ∀ i ∈ phdrIndices off, T i)
    (hV : ∀ j ∈ f.jobs phoff phnum, V j.va) (h : Loading D own V c k) :
    ∃ b k', (execLoadSegments f (frameAddr c) phoff phnum).run k = some (b, k') ∧
      LoadOutcome D T own k (f.jobs phoff phnum) b k' := by
  refine allM_loads (V := V) (c := c) ?_ h
  intro off hoff k₁ h₁
  have hV' : ∀ j ∈ segmentJobs f off, V j.va :=
    fun j hj => hV j (List.mem_flatMap.mpr ⟨off, hoff, hj⟩)
  obtain ⟨b, k', hrun, hout⟩ := execLoadSegment_spec (hT off hoff) hV' h₁
  exact ⟨b, k', hrun, hout.log_first fun i hi => hT off hoff i (phdr_field₀ (by omega) i hi)⟩

theorem execMapStack_spec (hV : ∀ va ∈ stackVaddrs, V va) (h : Loading D own V c k) :
    ∃ b k', (execMapStack (frameAddr c)).run k = some (b, k') ∧
      LoadOutcome D T own k stackJobs b k' := by
  have hjobs : stackJobs = stackVaddrs.flatMap fun va => [stackJob va] := by
    rw [stackJobs, List.map_eq_flatMap]
  rw [hjobs]
  refine allM_loads (V := V) (c := c) ?_ h
  intro va hva k₁ h₁
  rcases execMapStackPage_spec (T := T) h₁.forest (h₁.owns va (hV va hva)) with
    ⟨k₂, d, hrun, hl⟩ | ⟨k₂, hrun, hs⟩
  · have hone : Loaded D T own k₁ ([] ++ [stackJob va]) k₂ := .page .nil hl
    exact ⟨true, k₂, hrun, .all hone⟩
  · have hnone : Loaded D T own k₁ [] k₁ := .nil
    exact ⟨false, k₂, hrun, .stalled hnone hs⟩

/-! ## Everything after the PML4 -/

/-- The program header table does not fit into the file, as far as the check of `exec_elf` sees. -/
def ElfFile.TableTooLarge (f : ElfFile) : Prop :=
  f.size < f.u64 32#64 + (f.u16 56#64).setWidth 64 * phdrSize

instance (f : ElfFile) : Decidable f.TableTooLarge := by
  unfold ElfFile.TableTooLarge
  infer_instance

/-- `e_phoff` -/
def ElfFile.phoff (f : ElfFile) : U64 := f.u64 32#64

/-- `e_phnum` -/
def ElfFile.phnum (f : ElfFile) : Nat := (f.u16 56#64).toNat

/-- The jobs of all segments. -/
def ElfFile.segmentJobs (f : ElfFile) : List PageJob := f.jobs f.phoff f.phnum

/-- The jobs of loading a program: its segments, then its stack. -/
def ElfFile.setupJobs (f : ElfFile) : List PageJob := f.segmentJobs ++ stackJobs

/-- The header bytes that locate the program header table. -/
def tableReads : List U64 := readIndices 56#64 2 ++ readIndices 32#64 8

/-- **Loading ends**, and does the jobs of the file and of the stack as far as frames are free. -/
theorem execSetup_spec {f : ElfFile}
    (hT : ∀ off ∈ phdrOffsets f.phoff f.phnum, ∀ i ∈ phdrIndices off, T i)
    (hV : ∀ j ∈ f.setupJobs, V j.va) (h : Loading D own V c k) :
    (f.TableTooLarge ∧ (execSetup f (frameAddr c)).run k = some (false, k.log tableReads)) ∨
    (¬f.TableTooLarge ∧ ∃ b k', (execSetup f (frameAddr c)).run k = some (b, k') ∧
      LoadOutcome D T own (k.log tableReads) f.setupJobs b k') := by
  have hphoff := readU64_run f 32#64 k
  have hphnum := readU16_run f 56#64 (k.log (readIndices 32#64 8))
  rw [execSetup, run_bind_eq hphoff, run_bind_eq hphnum, Kernel.log_log]
  by_cases htab : f.size < f.u64 32#64 + (f.u16 56#64).setWidth 64 * phdrSize
  · refine Or.inl ⟨htab, ?_⟩
    rw [if_pos htab]
    rfl
  · refine Or.inr ⟨htab, ?_⟩
    have h₀ := h.evolves ((Evolves.refl h.forest).log tableReads)
    have hVs : ∀ j ∈ f.segmentJobs, V j.va :=
      fun j hj => hV j (List.mem_append.mpr (Or.inl hj))
    obtain ⟨b, k₁, hseg, hout⟩ := execLoadSegments_spec hT hVs h₀
    rw [if_neg htab]
    cases b with
    | false => exact ⟨false, k₁, (run_bind_eq hseg).trans rfl, hout.stalled_append _⟩
    | true =>
      have hVt : ∀ va ∈ stackVaddrs, V va := by
        intro va hva
        exact hV (stackJob va) (List.mem_append.mpr (Or.inr (List.mem_map.mpr ⟨va, hva, rfl⟩)))
      have h₁ := h₀.evolves (hout.evolves h₀.forest)
      obtain ⟨b, k₂, hstack, hout'⟩ := execMapStack_spec (T := T) hVt h₁
      exact ⟨b, k₂, (run_bind_eq hseg).trans hstack, hout'.after hout.loaded⟩

end

end PpoOS
