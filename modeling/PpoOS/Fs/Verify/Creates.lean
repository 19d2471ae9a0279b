import PpoOS.Fs.Verify.Named

/-!
# Creating a file and opening it

`fs_create_file` stores the first 31 characters of a name, and `fs_open` takes a
leading `./` off before it cuts to 31 characters.  **`createFile_finds_iff`**: what
was created is found again unless the name is new, begins with `./` and has more than
31 characters.
-/

namespace PpoOS

open FaultState FsM Transition

variable {s t : FsState} {name : CString} {i : Nat}

/-- A file that was created is what the next open and the next create give, and the table stays as it
is. -/
def CreateFinds (s : FsState) (name : CString) : Prop :=
  ∀ f t, (fsCreateFile name).run s = some (some f, t) →
    (fsOpen name).run t = some (some f, t) ∧ (fsCreateFile name).run t = some (some f, t)

/-- The name has no leading `./` or is not cut.  The third case is a cut name whose first 33 characters
are `./` over and over again. -/
def KeepsName (name : CString) : Prop :=
  strncmp name dotSlash 2 ≠ 0 ∨ name.length ≤ 31 ∨ (name.drop 2).take 31 = name.take 31

theorem take_eq_self_iff : name.take 31 = name ↔ name.length ≤ 31 := by
  refine ⟨fun h => ?_, CString.take_of_length_le⟩
  have hl := congrArg CString.length h
  rw [CString.length_take] at hl
  omega

/-- The stored name answers to the name. -/
theorem answers_take_iff : Answers (name.take 31) name ↔ KeepsName name := by
  unfold Answers KeepsName
  by_cases hdot : strncmp name dotSlash 2 = 0
  · have hhead := strncmp_dotSlash.mp hdot
    have htake : strncmp (name.take 31) dotSlash 2 = 0 :=
      strncmp_dotSlash.mpr (List.prefix_take_iff.mpr ⟨hhead, by decide⟩)
    have hlen : ∀ m, (name.drop m).length = name.length - m := fun m => List.length_drop
    have hcut : (name.take 31).drop 2 = (name.drop 2).take 31 ↔ name.length ≤ 31 := by
      constructor
      · intro h
        have hl := congrArg CString.length h
        rw [CString.length_take, hlen, CString.length, CString.chars_drop, List.length_drop,
          ← CString.length, CString.length_take] at hl
        omega
      · intro h
        rw [take_eq_self_iff.mpr h, CString.take_of_length_le (by rw [hlen]; omega)]
    rw [stripDot, stripDot, if_pos hdot, if_pos htake, hcut, take_eq_self_iff]
    constructor
    · rintro (h | h | h)
      · exact Or.inr (Or.inl h)
      · exact Or.inr (Or.inr h.symm)
      · exact Or.inr (Or.inl h)
    · rintro (h | h | h)
      · exact absurd hdot h
      · exact Or.inl h
      · exact Or.inr (Or.inl h.symm)
  · have hname : stripDot name = name := if_neg hdot
    rw [hname]
    exact ⟨fun _ => Or.inl hdot, fun _ => Or.inr (Or.inl rfl)⟩

/-- The call adds a file: no file answers to the name, and there is room. -/
structure FsState.CreatesFile (s : FsState) (name : CString) : Prop where
  absent : ∀ f ∈ s.fs.liveFiles, f.answers name = false
  slot : s.fs.fileCount < fsMaxFiles
  room : ¬s.memUsed + 256#64 > poolSize

/-- A file that is found is what both calls give. -/
theorem existing_run (h : s.fs.Named) (hfound : fsLookup s.fs name = some i) :
    (fsOpen name).run s = some (some (.slot i), s) ∧
      (fsCreateFile name).run s = some (some (.slot i), s) := by
  have hopen := h.openRun name
  rw [hfound] at hopen
  refine ⟨hopen, ?_⟩
  rw [fsCreateFile, run_bind_eq hopen]
  rfl

theorem lookup_none_iff (hne : name.length ≠ 0) :
    fsLookup s.fs name = none ↔ ∀ f ∈ s.fs.liveFiles, f.answers name = false := by
  rw [fsLookup, if_neg hne, List.findIdx?_eq_none_iff]

/-- What a lookup finds after a file was added for the name. -/
theorem lookup_push (hne : name.length ≠ 0) (habsent : ∀ f ∈ s.fs.liveFiles, f.answers name = false)
    {off : U64} (hlive : t.fs.liveFiles = s.fs.liveFiles ++ [newFile name off]) :
    fsLookup t.fs name = if Answers (name.take 31) name then some s.fs.liveFiles.length else none := by
  have hold : s.fs.liveFiles.findIdx? (fun f => f.answers name) = none :=
    List.findIdx?_eq_none_iff.mpr habsent
  have hnew : (newFile name off).answers name = decide (Answers (name.take 31) name) := by
    rw [FsFile.answers, newFile, text_take]
  rw [fsLookup, if_neg hne, hlive, List.findIdx?_append, hold, List.findIdx?_cons, hnew]
  by_cases ha : Answers (name.take 31) name
  · rw [if_pos ha, decide_eq_true ha]
    simp
  · rw [if_neg ha, decide_eq_false ha]
    rfl

/-- The state after a file was added. -/
def FsState.withFile (s : FsState) (hi : s.fs.fileCount < fsMaxFiles) (name : CString) : FsState :=
  { s.fileSlot s.fs.fileCount hi (newFile name s.memUsed) (s.fs.fileCount + 1) with
    memUsed := s.memUsed + 256#64
    mem := s.mem.blit (.pool s.memUsed) 1 fun _ => 0#8 }

theorem FsState.CreatesFile.run (h : s.fs.Named) (hne : name.length ≠ 0) (hnew : s.CreatesFile name) :
    (fsCreateFile name).run s = some (some (.slot s.fs.fileCount), s.withFile hnew.slot name) := by
  have hnone := (lookup_none_iff hne).mpr hnew.absent
  obtain ⟨⟨r, t⟩, hrun⟩ := Option.isSome_iff_exists.mp (fsCreateFile_ends h.notExt2 h.liveNames name)
  rw [hrun]
  cases fsCreateFile_outcome hrun with
  | existing found =>
    rw [h.openRun, hnone] at found
    cases found
  | refused _ full =>
    rcases full with hext2 | hfull
    · exact absurd hext2 h.notExt2
    · exact absurd hnew.slot (Nat.not_lt.mpr hfull)
  | noMemory _ _ _ full => exact absurd full hnew.room
  | created => rfl

/-- A file that was added is found where its stored name answers to the name. -/
theorem createFinds_new (h : s.fs.Named) (hne : name.length ≠ 0) (hnew : s.CreatesFile name) :
    CreateFinds s name ↔ Answers (name.take 31) name := by
  have hrun := hnew.run h hne
  have hnamed := h.createFile hrun
  have hlive : (s.withFile hnew.slot name).fs.liveFiles = s.fs.liveFiles ++ [newFile name s.memUsed] :=
    liveFiles_set_next s.fs _ hnew.slot
  have hfound := lookup_push hne hnew.absent hlive
  rw [liveFiles_length h.fileCount_le] at hfound
  constructor
  · intro hfinds
    have hopen := (hfinds _ _ hrun).1
    by_contra ha
    rw [hnamed.openRun, hfound, if_neg ha] at hopen
    cases hopen
  · intro ha f t hcall
    rw [if_pos ha] at hfound
    rw [hrun, Option.some.injEq, Prod.mk.injEq, Option.some.injEq] at hcall
    obtain ⟨rfl, rfl⟩ := hcall
    exact existing_run hnamed hfound

/-- **What was created is found again** exactly where the call adds no file or the name is kept. -/
theorem createFile_finds_iff (s : FsState) (name : CString) (h : FsReached s) (hne : name.length ≠ 0) :
    CreateFinds s name ↔ ¬s.CreatesFile name ∨ KeepsName name := by
  have hnamed := h.named
  by_cases hnew : s.CreatesFile name
  · rw [createFinds_new hnamed hne hnew, answers_take_iff]
    exact ⟨Or.inr, fun hor => hor.resolve_left fun hnot => hnot hnew⟩
  · refine ⟨fun _ => Or.inl hnew, fun _ f t hrun => ?_⟩
    cases fsCreateFile_outcome hrun with
    | existing found =>
      have hopen := hnamed.openRun name
      rw [found, Option.some.injEq, Prod.mk.injEq] at hopen
      obtain ⟨hf, rfl⟩ := hopen
      obtain ⟨i, hi, rfl⟩ := Option.map_eq_some_iff.mp hf.symm
      exact existing_run hnamed hi
    | created absent _ hi room =>
      rw [hnamed.openRun, Option.some.injEq, Prod.mk.injEq, Option.map_eq_none_iff,
        lookup_none_iff hne] at absent
      exact absurd ⟨absent.1, hi, room⟩ hnew

theorem emptyFs_reached : FsReached emptyFs := ⟨emptyFs, [], emptyFs_started, .nil emptyFs⟩

theorem createFile_finds_emptyFs :
    CreateFinds emptyFs fileA ↔ ¬emptyFs.CreatesFile fileA ∨ KeepsName fileA :=
  createFile_finds_iff emptyFs fileA emptyFs_reached (by decide)

/-- `./` and thirty times `a`. -/
def longDotName : CString := CString.ofChars ('.' :: '/' :: List.replicate 30 'a')

theorem longDotName_not_found : FsReached emptyFs ∧ longDotName.length ≠ 0 ∧
    ¬CreateFinds emptyFs longDotName := by
  refine ⟨emptyFs_reached, by decide +kernel, fun hfinds => ?_⟩
  have hnew : emptyFs.CreatesFile longDotName := ⟨by decide +kernel, by decide, by decide⟩
  have ha := (createFinds_new emptyFs_reached.named (by decide +kernel) hnew).mp hfinds
  exact absurd ha (by decide +kernel)

end PpoOS
