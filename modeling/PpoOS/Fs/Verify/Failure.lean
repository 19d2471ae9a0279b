import PpoOS.Fs.Verify.Dirs

/-!
# Calls that fail

`fs_create_file` and `fs_create_dir` claim a slot before they find out that they
cannot go on, and roll the count back.  `FsUnchanged` says what a program can see of
the file system; **`FsCall.failed_unchanged`**: a call that reports a failure keeps
it, whichever file system is active.
-/

namespace PpoOS

open FaultState FsM

variable {s t : FsState} {name : CString}

/-- A call that can fail. -/
inductive FsCall where
  | createFile (name : CString)
  | createDir (name : CString)
  | changeDir (path : CString)
  | chmod (name : CString) (mode : U16)
  | mountExt2 (data : Ptr) (size : U64)
  /-- A write of at least one byte. -/
  | write (file : FileRef) (offset : U64) (buf : Nat → U8) (len : U64) (pos : len ≠ 0#64)

/-- Make the call; `false` is NULL for a file, and no bytes for a write. -/
def FsCall.run : FsCall → FsM Bool
  | .createFile name => do return (← fsCreateFile name).isSome
  | .createDir name => fsCreateDir name
  | .changeDir path => fsChangeDir path
  | .chmod name mode => fsChmod name mode
  | .mountExt2 data size => fsMountExt2 data size
  | .write file offset buf len _ => do return decide (0#64 < (← fsWrite file offset buf len))

/-- The file pointer leads to a file that exists. -/
def FsState.Live (s : FsState) (file : FileRef) : Prop := ∀ i, file = .slot i → i < s.fs.fileCount

/-- A program sees no difference between the states. -/
structure FsUnchanged (s t : FsState) : Prop where
  currentDir : t.fs.currentDir = s.fs.currentDir
  activeFs : t.fs.activeFs = s.fs.activeFs
  fileCount : t.fs.fileCount = s.fs.fileCount
  dirCount : t.fs.dirCount = s.fs.dirCount
  files : t.fs.liveFiles = s.fs.liveFiles
  dirs : t.fs.liveDirs = s.fs.liveDirs
  memUsed : t.memUsed = s.memUsed
  /-- The bytes of the pool and of the image, and the state of the ext2 driver. -/
  mem : t.mem = s.mem
  ext2 : t.ext2 = s.ext2
  /-- What can be read from a file. -/
  contents : ∀ file, s.Live file → ∀ offset len : U64,
    ((fsRead file offset len).run t).map Prod.fst = ((fsRead file offset len).run s).map Prod.fst

theorem FsUnchanged.refl (s : FsState) : FsUnchanged s s where
  currentDir := rfl
  activeFs := rfl
  fileCount := rfl
  dirCount := rfl
  files := rfl
  dirs := rfl
  memUsed := rfl
  mem := rfl
  ext2 := rfl
  contents _ _ _ _ := rfl

/-! ## Reading -/

/-- What a call of `fs_read` gives. -/
def FsState.readBytes (s : FsState) (f : FsFile) (offset len : U64) : Option (List U8) :=
  if offset ≥ f.size then some []
  else if f.fsType = .ext2 then ext2Read s.ext2 s.mem f offset len
  else if f.data = Ptr.null then some []
  else some (s.mem.bytes (f.data.add offset)
    (if f.size - offset > len then len else f.size - offset).toNat)

/-- How many bytes a read within the file takes. -/
theorem toCopy_toNat {size offset len : U64} (h : offset.toNat < size.toNat) :
    (if size - offset > len then len else size - offset).toNat =
      min len.toNat (size.toNat - offset.toNat) := by
  have hsub : (size - offset).toNat = size.toNat - offset.toNat := by
    rw [BitVec.toNat_sub]
    omega
  by_cases hlen : size - offset > len
  · rw [if_pos hlen]
    rw [gt_iff_lt, BitVec.lt_def] at hlen
    omega
  · rw [if_neg hlen]
    rw [gt_iff_lt, BitVec.lt_def] at hlen
    omega

theorem fsRead_run (file : FileRef) (offset len : U64) : (fsRead file offset len).run s =
    (s.file? file).bind fun f => (s.readBytes f offset len).map fun bytes => (bytes, s) := by
  rw [fsRead, run_getFile_bind]
  congr 1
  funext f
  rw [FsState.readBytes]
  by_cases hsize : offset ≥ f.size
  · rw [if_pos hsize, if_pos hsize]
    rfl
  · rw [if_neg hsize, if_neg hsize, run_get_bind]
    by_cases hfs : f.fsType = .ext2
    · rw [if_pos hfs, if_pos hfs]
      rfl
    · rw [if_neg hfs, if_neg hfs]
      by_cases hd : f.data = Ptr.null
      · rw [if_pos hd, if_pos hd]
        rfl
      · rw [if_neg hd, if_neg hd]
        rfl

/-- A read depends on the file, the memory and the driver only. -/
theorem fsRead_congr {file : FileRef} (hfile : t.file? file = s.file? file) (hmem : t.mem = s.mem)
    (hext2 : t.ext2 = s.ext2) (offset len : U64) :
    ((fsRead file offset len).run t).map Prod.fst = ((fsRead file offset len).run s).map Prod.fst := by
  have hread : t.readBytes = s.readBytes := by
    funext f offset len
    rw [FsState.readBytes, FsState.readBytes, hmem, hext2]
  rw [fsRead_run, fsRead_run, hfile, hread]
  cases s.file? file with
  | none => rfl
  | some f => simp [Function.comp_def]

/-! ## Slots past the counts -/

theorem fsUnchanged_fileSlot (hi : s.fs.fileCount < fsMaxFiles) (f : FsFile) :
    FsUnchanged s (s.fileSlot s.fs.fileCount hi f s.fs.fileCount) where
  currentDir := rfl
  activeFs := rfl
  fileCount := rfl
  dirCount := rfl
  files := liveFiles_set_free s.fs f hi (Nat.le_refl _)
  dirs := rfl
  memUsed := rfl
  mem := rfl
  ext2 := rfl
  contents := by
    intro file hlive offset len
    refine fsRead_congr (s := s) (t := s.fileSlot _ hi f _) ?_ rfl rfl offset len
    cases file with
    | slot i =>
      have hne : s.fs.fileCount ≠ i := Nat.ne_of_gt (hlive i rfl)
      exact Vector.getElem?_set_ne hi hne
    | opened => rfl
    | cached i => rfl

theorem fsUnchanged_dirSlot (hi : s.fs.dirCount < fsMaxDirs) (d : FsDir) :
    FsUnchanged s (s.dirSlot s.fs.dirCount hi d s.fs.dirCount) where
  currentDir := rfl
  activeFs := rfl
  fileCount := rfl
  dirCount := rfl
  files := rfl
  dirs := liveDirs_set_free s.fs d hi (Nat.le_refl _)
  memUsed := rfl
  mem := rfl
  ext2 := rfl
  contents file _ offset len := by
    refine fsRead_congr (s := s) (t := s.dirSlot _ hi d _) ?_ rfl rfl offset len
    cases file <;> rfl

/-! ## The calls -/

theorem fsCreateFile_failed (h : (fsCreateFile name).run s = some (none, t)) : FsUnchanged s t := by
  cases fsCreateFile_outcome h with
  | refused => exact FsUnchanged.refl s
  | noMemory _ _ hi _ f => exact fsUnchanged_fileSlot hi f

theorem fsCreateDir_failed (h : (fsCreateDir name).run s = some (false, t)) : FsUnchanged s t := by
  cases fsCreateDir_outcome h with
  | refused => exact FsUnchanged.refl s
  | tooLong _ hi d => exact fsUnchanged_dirSlot hi d

theorem fsMountExt2_failed {data : Ptr} {size : U64}
    (h : (fsMountExt2 data size).run s = some (false, t)) : t = s := by
  rw [fsMountExt2, run_bind_iff] at h
  obtain ⟨b, s₁, hinit, h⟩ := h
  cases b with
  | true => cases h
  | false =>
    cases h
    rw [ext2Init, run_get_bind] at hinit
    by_cases hdetect : ext2Detect s.mem data size = true
    · rw [if_pos hdetect, run_ofOption_bind, Option.bind_eq_some_iff] at hinit
      obtain ⟨_, -, hinit⟩ := hinit
      cases hinit
    · rw [if_neg hdetect] at hinit
      cases hinit
      rfl

/-- **A call that reports a failure changes nothing that can be seen.** -/
theorem FsCall.failed_unchanged (s t : FsState) (call : FsCall)
    (failed : call.run.run s = some (false, t)) : FsUnchanged s t := by
  cases call with
  | createFile name =>
    obtain ⟨r, s₁, hcall, hr⟩ := run_bind_iff.mp failed
    obtain ⟨hnone, rfl⟩ := run_pure_iff.mp hr
    cases r with
    | none => exact fsCreateFile_failed hcall
    | some file => cases hnone
  | createDir name => exact fsCreateDir_failed failed
  | changeDir path =>
    cases fsChangeDir_outcome failed with
    | refused => exact FsUnchanged.refl s
  | chmod name mode =>
    rcases fsChmod_outcome failed with ⟨-, rfl⟩ | ⟨_, _, _, htrue, -⟩
    · exact FsUnchanged.refl t
    · cases htrue
  | mountExt2 data size =>
    obtain rfl := fsMountExt2_failed failed
    exact FsUnchanged.refl t
  | write file offset buf len pos =>
    obtain ⟨n, s₁, hcall, hn⟩ := run_bind_iff.mp failed
    obtain ⟨hzero, rfl⟩ := run_pure_iff.mp hn
    have hn0 : n = 0#64 := by simpa using hzero
    subst hn0
    obtain rfl := fsWrite_zero pos hcall
    exact FsUnchanged.refl t

/-- Two files, one of them empty, and no room in the pool. -/
def fullPool : FsState :=
  { FsState.zero with
    fs :=
      { FsMount.zero with
        files := (FsMount.zero.files.setIfInBounds 0
          { FsFile.zero with
            name := Buf.ofText 32 (CString.ofChars ['a']), data := .pool 0#64, size := 4#64,
            capacity := 4#64 }).setIfInBounds 1
          { FsFile.zero with name := Buf.ofText 32 (CString.ofChars ['b']), data := .pool 4#64, capacity := 4#64 }
        fileCount := 2 }
    memUsed := poolSize
    mem := ⟨fun a => if a.toNat < 4 then 0x61#8 else 0#8, fun _ => 0#8, 0#64⟩ }

theorem fullPool_fails : ((FsCall.createFile (CString.ofChars ['c'])).run.run fullPool).any
    (fun r => decide (r.1 = false)) = true := by decide +kernel

theorem FsCall.failed_unchanged_fullPool :
    ∃ t, (FsCall.createFile (CString.ofChars ['c'])).run.run fullPool = some (false, t) ∧ FsUnchanged fullPool t := by
  have hruns := isSome_of_any fullPool_fails
  have hcall := eq_some_get hruns (get_of_any fullPool_fails hruns)
  exact ⟨_, hcall, FsCall.failed_unchanged fullPool _ (.createFile (CString.ofChars ['c'])) hcall⟩

end PpoOS
