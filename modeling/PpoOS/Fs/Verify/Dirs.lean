import PpoOS.Fs.Verify.Calls

/-!
# How the calls on directories end

`fs_create_dir`, `fs_change_dir` and `fs_chmod`: their outcomes, and on the
in-memory file system also that they end.
-/

namespace PpoOS

open FaultState FsM

variable {s t : FsState} {name path : CString} {b : Bool}

/-! ## Making a directory -/

/-- The path of a directory made in `current`. -/
def joinDir (current name : CString) : CString :=
  if current = slash then slash ++ name else current ++ slash ++ name

theorem slash_length : slash.length = 1 := rfl

/-- The new path is the joined one, where it fits. -/
theorem fsDirPath_eq (name : CString) {currentDir p : Buf fsMaxPath} {current : CString}
    (h : currentDir.text = some current) :
    if (joinDir current name).length < fsMaxPath then
      ∃ q, fsDirPath currentDir p name = some (some q) ∧ q.text = some (joinDir current name)
    else fsDirPath currentDir p name = some none := by
  have hlast : ∀ {c : Buf fsMaxPath} {r : CString}, c.text = some r →
      ∃ q, c.write (fsMaxPath - 1) 0#8 = some q ∧ q.text = some r := by
    intro c r hc
    have hlt := Buf.length_lt_of_text hc
    obtain ⟨q, hq⟩ : ∃ q, c.write (fsMaxPath - 1) 0#8 = some q := ⟨_, if_pos (by decide)⟩
    exact ⟨q, hq, Buf.text_write_zero hc (Nat.le_sub_one_of_lt hlt) hq⟩
  have hcopy : ∀ {r : CString}, r.length < fsMaxPath → ∃ c, strcpy p r = some c ∧ c.text = some r := by
    intro r hr
    obtain ⟨c, hc⟩ := Option.isSome_iff_exists.mp ((@strcpy_isSome_iff _ p r).mpr hr)
    exact ⟨c, hc, strcpy_text hc⟩
  unfold fsDirPath joinDir
  rw [h, Option.bind_eq_bind, Option.bind_some]
  by_cases hroot : current = slash
  · rw [if_pos hroot, if_pos (strcmp_eq_zero.mpr hroot), CString.length_append, slash_length]
    by_cases hfit : 1 + name.length < fsMaxPath
    · obtain ⟨c, hc, hct⟩ := hcopy (r := slash) (by decide)
      obtain ⟨d, hd, hdt⟩ := strcat_some name hct (by rw [slash_length]; exact hfit)
      obtain ⟨q, hq, hqt⟩ := hlast hdt
      rw [if_pos hfit, if_neg (by omega)]
      exact ⟨q, by simp [hc, hd, hq], hqt⟩
    · rw [if_neg hfit, if_pos (by omega)]
      rfl
  · rw [if_neg hroot, if_neg (fun hc => hroot (strcmp_eq_zero.mp hc)), CString.length_append,
      CString.length_append, slash_length]
    by_cases hfit : current.length + 1 + name.length < fsMaxPath
    · obtain ⟨c, hc, hct⟩ := hcopy (r := current) (Buf.length_lt_of_text h)
      obtain ⟨d, hd, hdt⟩ := strcat_some slash hct (by rw [slash_length]; omega)
      obtain ⟨e, he, het⟩ := strcat_some name hdt
        (by rw [CString.length_append, slash_length]; exact hfit)
      obtain ⟨q, hq, hqt⟩ := hlast het
      rw [if_pos hfit, if_neg (by omega)]
      exact ⟨q, by simp [hc, hd, he, hq], hqt⟩
    · rw [if_neg hfit, if_pos (by omega)]
      rfl

/-- The entry that makes a directory show up in listings. -/
def dirFile (name : CString) : FsFile :=
  { FsFile.zero with name := Buf.ofText 32 (name.take 31), isDir := true }

/-- The state with that entry, where the table has room. -/
def FsState.listDir (s : FsState) (name : CString) : FsState :=
  if hi : s.fs.fileCount < fsMaxFiles then
    s.fileSlot s.fs.fileCount hi (dirFile name) (s.fs.fileCount + 1)
  else s

theorem fsListDir_run : (fsListDir name).run s = some ((), s.listDir name) := by
  rw [fsListDir, run_get_bind, FsState.listDir]
  by_cases hi : s.fs.fileCount < fsMaxFiles
  · rw [if_pos hi, dif_pos hi, strncpyCut_eq _ _ (by decide), run_ofOption_bind, Option.bind_some,
      run_putFile_bind, setFile?_slot _ hi, Option.bind_some, run_modifyFs]
    rfl
  · rw [if_neg hi, dif_neg hi]
    rfl

/-- The state after a write to a slot of the directory table, with a new count. -/
def FsState.dirSlot (s : FsState) (i : Nat) (hi : i < fsMaxDirs) (d : FsDir) (count : Nat) : FsState :=
  { s with fs := { s.fs with dirs := s.fs.dirs.set i d hi, dirCount := count } }

inductive CreateDirOutcome (s : FsState) (name : CString) : Bool → FsState → Prop
  /-- There is such a directory. -/
  | existing (fs : s.fs.activeFs ≠ .ext2) (found : fsDirExists name s.fs.liveDirs = some true) :
      CreateDirOutcome s name true s
  /-- An ext2 image is mounted, or the table is full. -/
  | refused (full : s.fs.activeFs = .ext2 ∨ fsMaxDirs ≤ s.fs.dirCount) :
      CreateDirOutcome s name false s
  /-- The path is too long; the slot past the count was written. -/
  | tooLong (fs : s.fs.activeFs ≠ .ext2) (hi : s.fs.dirCount < fsMaxDirs) (d : FsDir)
      (hname : d.name = Buf.ofText 32 (name.take 31)) (hpath : d.path = s.fs.dirs[s.fs.dirCount].path)
      (long : fsDirPath s.fs.currentDir d.path name = some none) :
      CreateDirOutcome s name false (s.dirSlot s.fs.dirCount hi d s.fs.dirCount)
  | created (fs : s.fs.activeFs ≠ .ext2) (hi : s.fs.dirCount < fsMaxDirs) {p path : Buf fsMaxPath}
      (fits : fsDirPath s.fs.currentDir p name = some (some path)) :
      CreateDirOutcome s name true
        ((s.dirSlot s.fs.dirCount hi ⟨Buf.ofText 32 (name.take 31), path⟩
          (s.fs.dirCount + 1)).listDir name)

theorem fsCreateDir_outcome (h : (fsCreateDir name).run s = some (b, t)) :
    CreateDirOutcome s name b t := by
  rw [fsCreateDir, run_get_bind] at h
  by_cases hfs : s.fs.activeFs = .ext2
  · rw [if_pos hfs] at h
    cases h
    exact .refused (Or.inl hfs)
  rw [if_neg hfs, run_ofOption_bind, Option.bind_eq_some_iff] at h
  obtain ⟨found, hfound, h⟩ := h
  cases found with
  | true =>
    cases h
    exact .existing hfs hfound
  | false =>
    rw [if_neg Bool.false_ne_true] at h
    by_cases hfull : s.fs.dirCount ≥ fsMaxDirs
    · rw [if_pos hfull] at h
      cases h
      exact .refused (Or.inr hfull)
    have hi : s.fs.dirCount < fsMaxDirs := Nat.lt_of_not_le hfull
    rw [if_neg hfull, run_ofOption_bind, Option.bind_eq_some_iff] at h
    obtain ⟨d, hd, h⟩ := h
    obtain ⟨_, rfl⟩ := Vector.getElem?_eq_some_iff.mp hd
    rw [run_modifyFs_bind, strncpyCut_eq _ _ (by decide), run_ofOption_bind, Option.bind_some,
      run_ofOption_bind, Option.bind_eq_some_iff] at h
    obtain ⟨o, ho, h⟩ := h
    cases o with
    | none =>
      dsimp only at h
      rw [run_putDir_bind, setDir?_slot _ hi, Option.bind_some, run_modifyFs_bind] at h
      cases h
      exact .tooLong hfs hi _ rfl rfl ho
    | some path =>
      dsimp only at h
      rw [run_putDir_bind, setDir?_slot _ hi, Option.bind_some, StateT.run_bind, fsListDir_run] at h
      cases h
      exact .created hfs hi ho

/-! ## Changing the directory -/

inductive ChangeDirOutcome (s : FsState) (path : CString) : Bool → FsState → Prop
  | refused : ChangeDirOutcome s path false s
  /-- The path is `/`. -/
  | root {d : Buf fsMaxPath} (hd : d.text = some slash) :
      ChangeDirOutcome s path true { s with fs := { s.fs with currentDir := d } }
  /-- The path is resolved by the ext2 driver. -/
  | ext2 (fs : s.fs.activeFs = .ext2) {abs : CString} {t : FsState} {d : Buf fsMaxPath}
      (change : (ext2ChangeDir abs).run s = some (true, t)) (hd : d.text = some (abs.take 127)) :
      ChangeDirOutcome s path true { t with fs := { t.fs with currentDir := d } }
  /-- The path names a directory of the table. -/
  | dir (fs : s.fs.activeFs ≠ .ext2) {dir : FsDir} {d : Buf fsMaxPath} (hdir : dir ∈ s.fs.liveDirs)
      (hd : d.text = dir.path.text) (hsome : d.text.isSome = true) :
      ChangeDirOutcome s path true { s with fs := { s.fs with currentDir := d } }

theorem ext2ChangeDir_false (h : (ext2ChangeDir path).run s = some (false, t)) : t = s := by
  rw [ext2ChangeDir] at h
  by_cases hlen : path.length = 0
  · rw [if_pos hlen] at h
    cases h
    rfl
  rw [if_neg hlen, run_get_bind, run_ofOption_bind, Option.bind_eq_some_iff] at h
  obtain ⟨o, -, h⟩ := h
  cases o with
  | none =>
    cases h
    rfl
  | some inode =>
    dsimp only at h
    by_cases hdir : inodeIsDir s.mem inode = true
    · rw [if_pos hdir, run_ofOption_bind, Option.bind_eq_some_iff] at h
      obtain ⟨d, -, h⟩ := h
      cases h
    · rw [if_neg hdir] at h
      cases h
      rfl

theorem fsFindDir_mem {dirs : List FsDir} {d : FsDir} (h : fsFindDir path dirs = some (some d)) :
    d ∈ dirs := by
  induction dirs with
  | nil => cases h
  | cons e dirs ih =>
    rw [fsFindDir] at h
    simp only [Option.bind_eq_bind, Option.bind_eq_some_iff] at h
    obtain ⟨n, -, p, -, h⟩ := h
    split at h
    · cases h
      exact List.mem_cons_self
    · exact List.mem_cons_of_mem _ (ih h)

theorem fsChangeDir_outcome (h : (fsChangeDir path).run s = some (b, t)) :
    ChangeDirOutcome s path b t := by
  rw [fsChangeDir] at h
  by_cases hlen : path.length = 0
  · rw [if_pos hlen] at h
    cases h
    exact .refused
  rw [if_neg hlen, run_get_bind] at h
  by_cases hroot : strcmp path slash = 0
  · rw [if_pos hroot, run_ofOption_bind, Option.bind_eq_some_iff] at h
    obtain ⟨d, hd, h⟩ := h
    cases h
    exact .root (strcpy_text hd)
  rw [if_neg hroot] at h
  by_cases hfs : s.fs.activeFs = .ext2
  · simp only [if_pos hfs, run_ofOption_bind, Option.bind_eq_some_iff] at h
    obtain ⟨absPath, -, abs, -, h⟩ := h
    obtain ⟨c, s₁, hc, h⟩ := run_bind_iff.mp h
    cases c with
    | true =>
      rw [if_pos rfl, strncpyCut_eq _ _ (by decide), run_ofOption_bind, Option.bind_some] at h
      cases h
      exact .ext2 hfs hc (Buf.text_ofText (take_length_lt _ (by decide)))
    | false =>
      obtain rfl := ext2ChangeDir_false hc
      cases h
      exact .refused
  · simp only [if_neg hfs, run_ofOption_bind, Option.bind_eq_some_iff] at h
    obtain ⟨o, ho, h⟩ := h
    cases o with
    | none =>
      cases h
      exact .refused
    | some dir =>
      simp only [run_ofOption_bind, Option.bind_eq_some_iff] at h
      obtain ⟨p, hp, d, hd, h⟩ := h
      cases h
      have ht := strcpy_text hd
      exact .dir hfs (fsFindDir_mem ho) (ht.trans hp.symm) (by rw [ht]; rfl)

/-! ## Changing the mode -/

theorem fsChmod_outcome {mode : U16} (h : (fsChmod name mode).run s = some (b, t)) :
    (b = false ∧ t = s) ∨ ∃ file s₁ f, b = true ∧ (fsOpen name).run s = some (some file, s₁) ∧
      s₁.file? file = some f ∧ s₁.setFile? file { f with mode := mode } = some t := by
  rw [fsChmod, run_bind_iff] at h
  obtain ⟨o, s₁, hopen, h⟩ := h
  cases o with
  | none =>
    obtain rfl := fsOpen_none hopen
    cases h
    exact Or.inl ⟨rfl, rfl⟩
  | some file =>
    simp only [run_getFile_bind, run_putFile_bind, Option.bind_eq_some_iff] at h
    obtain ⟨f, hf, t', ht, h⟩ := h
    cases h
    exact Or.inr ⟨file, s₁, f, rfl, hopen, hf, ht⟩

end PpoOS
