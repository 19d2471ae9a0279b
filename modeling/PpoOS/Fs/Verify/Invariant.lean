import PpoOS.Fs.Verify.Failure
import PpoOS.Lib.Extents
import PpoOS.Lib.Transition

/-!
# The invariant of the in-memory file system

`FsMount.Inv`: the counts stay within the tables, the buffers of the files lie one
after the other in the used part of the pool, the stored names and paths end inside
their arrays, and the working directory is the path of a directory.

* **`FsOp.ends`**: where it holds, every call ends.
* **`fs_invariant`**: it holds in every state that `fs_init` and calls lead to.
-/

namespace PpoOS

open FaultState FsM Extent Transition

variable {s t : FsState} {fs : FsMount} {f : FsFile} {used : U64} {name path : CString} {i : Nat}

/-- The range of the pool that the file owns. -/
def FsFile.extent (f : FsFile) : Option Extent :=
  match f.data with
  | .pool off => some ⟨off.toNat, f.capacity.toNat⟩
  | .addr _ => none

structure FsFile.Ok (f : FsFile) : Prop where
  name : f.name.text.isSome = true
  fsType : f.fsType = .initramfs
  size_le : f.size.toNat ≤ f.capacity.toNat
  /-- A file has a buffer in the pool. -/
  file : f.isDir = false → ∃ off, f.data = .pool off
  /-- The entry of a directory has none. -/
  entry : f.isDir = true → f.data = Ptr.null

/-- The tables are well formed, and the buffers of the files lie in the first `used` bytes of the
pool. -/
structure FsMount.Inv (used : U64) (fs : FsMount) : Prop where
  active : fs.activeFs = .initramfs
  fileCount_le : fs.fileCount ≤ fsMaxFiles
  dirCount_le : fs.dirCount ≤ fsMaxDirs
  used_le : used.toNat ≤ poolSize.toNat
  files : ∀ f ∈ fs.liveFiles, f.Ok
  /-- The buffers lie in the used part of the pool, and no two of them share a byte. -/
  packed : Packed used.toNat (fs.liveFiles.map FsFile.extent)
  names : ∀ f ∈ fs.files, f.name.text.isSome = true
  dirs : ∀ d ∈ fs.dirs, d.name.text.isSome = true ∧ d.path.text.isSome = true
  /-- The first directory. -/
  root : ∃ d ∈ fs.liveDirs, d.path.text = some slash
  cwd : ∃ d ∈ fs.liveDirs, d.path.text = fs.currentDir.text

/-! ## Changes of the tables -/

namespace FsMount.Inv

theorem mem_liveDirs {d : FsDir} (h : d ∈ fs.liveDirs) : d ∈ fs.dirs :=
  Vector.mem_toList_iff.mp (List.mem_of_mem_take h)

theorem currentDir (h : fs.Inv used) : ∃ c, fs.currentDir.text = some c := by
  obtain ⟨d, hd, hp⟩ := h.cwd
  rw [← hp]
  exact Option.isSome_iff_exists.mp (h.dirs d (mem_liveDirs hd)).2

theorem liveNames (h : fs.Inv used) : ∀ f ∈ fs.liveFiles, f.name.text.isSome = true :=
  fun f hf => (h.files f hf).name

theorem names_set (h : fs.Inv used) (hi : i < fsMaxFiles) (hf : f.name.text.isSome = true) :
    ∀ g ∈ fs.files.set i f hi, g.name.text.isSome = true := by
  intro g hg
  rcases Vector.mem_or_eq_of_mem_set hg with hg | rfl
  · exact h.names g hg
  · exact hf

/-- A write to a slot past the count. -/
theorem writeFree (h : fs.Inv used) (hi : i < fsMaxFiles) (hle : fs.fileCount ≤ i)
    (hf : f.name.text.isSome = true) : ({ fs with files := fs.files.set i f hi }).Inv used := by
  have hlive : ({ fs with files := fs.files.set i f hi } : FsMount).liveFiles = fs.liveFiles :=
    liveFiles_set_free fs f hi hle
  exact
    { h with
      files := by rw [hlive]; exact h.files
      packed := by rw [hlive]; exact h.packed
      names := h.names_set hi hf }

/-- A new last file, with no buffer or with one at the end of the used part of the pool. -/
theorem push (h : fs.Inv used) (used' : U64) (hi : fs.fileCount < fsMaxFiles) (hf : f.Ok)
    (hused : used.toNat ≤ used'.toNat) (hle : used'.toNat ≤ poolSize.toNat)
    (he : ∀ e, f.extent = some e → used.toNat ≤ e.start ∧ e.stop ≤ used'.toNat) :
    ({ fs with files := fs.files.set fs.fileCount f hi, fileCount := fs.fileCount + 1 }).Inv used' := by
  have hlive : ({ fs with
      files := fs.files.set fs.fileCount f hi, fileCount := fs.fileCount + 1 } : FsMount).liveFiles =
      fs.liveFiles ++ [f] := liveFiles_set_next fs f hi
  refine
    { h with
      fileCount_le := hi
      used_le := hle
      files := ?_
      packed := ?_
      names := h.names_set hi hf.name }
  · rw [hlive]
    intro g hg
    rcases List.mem_append.mp hg with hg | hg
    · exact h.files g hg
    · rw [List.mem_singleton.mp hg]
      exact hf
  · rw [hlive, List.map_append, List.map_singleton]
    cases hext : f.extent with
    | none => exact (h.packed.mono hused).push_none
    | some e => exact h.packed.push (he e hext).1 (he e hext).2

/-- A write to a file of the table, which keeps its buffer or gets one at the end of the used part of
the pool. -/
theorem write (h : fs.Inv used) (used' : U64) (hi : i < fsMaxFiles) {g : FsFile} (hg : fs.liveFiles[i]? = some g)
    (hf : f.Ok) (hused : used.toNat ≤ used'.toNat) (hle : used'.toNat ≤ poolSize.toNat)
    (he : f.extent = g.extent ∨ ∃ e, f.extent = some e ∧ used.toNat ≤ e.start ∧ e.stop ≤ used'.toNat) :
    ({ fs with files := fs.files.set i f hi }).Inv used' := by
  have hlive : ({ fs with files := fs.files.set i f hi } : FsMount).liveFiles = fs.liveFiles.set i f :=
    liveFiles_set_live fs f hi
  refine
    { h with
      used_le := hle
      files := ?_
      packed := ?_
      names := h.names_set hi hf.name }
  · rw [hlive]
    intro k hk
    rcases List.mem_or_eq_of_mem_set hk with hk | rfl
    · exact h.files k hk
    · exact hf
  · rw [hlive, List.map_set]
    rcases he with he | ⟨e, he, hstart, hstop⟩
    · have hsame : (fs.liveFiles.map FsFile.extent).set i f.extent = fs.liveFiles.map FsFile.extent := by
        obtain ⟨hlt, rfl⟩ := List.getElem?_eq_some_iff.mp hg
        rw [he, ← List.map_set, List.set_getElem_self]
      rw [hsame]
      exact h.packed.mono hused
    · rw [he]
      exact h.packed.set hstart hstop

/-- A write to a slot of the directory table that keeps the live ones. -/
theorem writeDir (h : fs.Inv used) {d : FsDir} {n : Nat} (hi : i < fsMaxDirs) (hle : fs.dirCount ≤ i)
    (hn : n ≤ fsMaxDirs) (hcount : fs.dirCount ≤ n) (hname : d.name.text.isSome = true)
    (hpath : d.path.text.isSome = true) :
    ({ fs with dirs := fs.dirs.set i d hi, dirCount := n }).Inv used := by
  have hlive : ∀ {e}, e ∈ fs.liveDirs →
      e ∈ ({ fs with dirs := fs.dirs.set i d hi, dirCount := n } : FsMount).liveDirs := by
    intro e he
    rw [← liveDirs_set_free fs d hi hle] at he
    exact (List.take_sublist_take_left hcount).subset he
  obtain ⟨r, hr, hrp⟩ := h.root
  obtain ⟨c, hc, hcp⟩ := h.cwd
  refine { h with dirCount_le := hn, dirs := ?_, root := ⟨r, hlive hr, hrp⟩, cwd := ⟨c, hlive hc, hcp⟩ }
  · intro e he
    have hmem : e ∈ fs.dirs.set i d hi := he
    rcases Vector.mem_or_eq_of_mem_set hmem with he | rfl
    · exact h.dirs e he
    · exact ⟨hname, hpath⟩

end FsMount.Inv

/-- The invariant of a state. -/
abbrev FsState.Inv (s : FsState) : Prop := s.fs.Inv s.memUsed

theorem text_take (name : CString) : (Buf.ofText 32 (name.take 31)).text = some (name.take 31) :=
  Buf.text_ofText (take_length_lt (n := 32) name (Nat.succ_pos _))

theorem ofText_take_isSome (name : CString) : (Buf.ofText 32 (name.take 31)).text.isSome = true := by
  rw [text_take]
  rfl

/-- `fs_alloc` finds room. -/
theorem room_iff {size : U64} :
    ¬used + size > poolSize ↔ (used + size).toNat ≤ poolSize.toNat := by
  rw [gt_iff_lt, BitVec.lt_def, Nat.not_lt]

theorem toNat_double {n : U64} (hw : n.toNat * 2 < 2 ^ 64) : (n * 2#64).toNat = n.toNat * 2 := by
  have htwo : (2#64 : U64).toNat = 2 := rfl
  rw [BitVec.toNat_mul, htwo, Nat.mod_eq_of_lt hw]

/-! ## The calls keep it -/

theorem FsState.Inv.openRun (h : s.Inv) (name : CString) :
    (fsOpen name).run s = some ((fsLookup s.fs name).map .slot, s) :=
  fsOpen_run (by rw [h.active]; decide) h.liveNames

/-- What a lookup finds is a live file. -/
theorem FsState.Inv.found (h : s.Inv) (hi : fsLookup s.fs name = some i) :
    i < s.fs.fileCount ∧ ∃ f ∈ s.fs.liveFiles, s.file? (.slot i) = some f := by
  obtain ⟨f, hf, -⟩ := fsLookup_some hi
  obtain ⟨hlt, hfile⟩ := liveFiles_slot h.fileCount_le hf
  exact ⟨hlt, f, List.mem_of_getElem? hf, hfile⟩

theorem FsState.Inv.liveFile (h : s.Inv) (hi : i < s.fs.fileCount) :
    ∃ f, s.fs.liveFiles[i]? = some f := by
  rw [← liveFiles_length h.fileCount_le] at hi
  exact ⟨_, List.getElem?_eq_getElem hi⟩

theorem newFile_ok (name : CString) (off : U64) : (newFile name off).Ok where
  name := ofText_take_isSome name
  fsType := rfl
  size_le := Nat.zero_le _
  file _ := ⟨off, rfl⟩
  entry hd := nomatch hd

theorem dirFile_ok (name : CString) : (dirFile name).Ok where
  name := ofText_take_isSome name
  fsType := rfl
  size_le := Nat.le_refl _
  file hd := nomatch hd
  entry _ := rfl

theorem FsState.Inv.createFile (h : s.Inv) {r : Option FileRef}
    (hrun : (fsCreateFile name).run s = some (r, t)) : t.Inv := by
  cases fsCreateFile_outcome hrun with
  | existing found =>
    rw [h.openRun, Option.some.injEq, Prod.mk.injEq] at found
    rw [← found.2]
    exact h
  | refused => exact h
  | noMemory _ _ hi _ f hname =>
    refine h.writeFree hi (Nat.le_refl _) ?_
    rw [hname]
    exact ofText_take_isSome name
  | created _ _ hi room =>
    have hle := h.used_le
    have hpool : poolSize.toNat = 65536 := rfl
    have hsize : (256#64 : U64).toNat = 256 := rfl
    have hsum := toNat_add_of_lt (a := s.memUsed) (b := 256#64) (by omega)
    rw [room_iff] at room
    refine h.push (s.memUsed + 256#64) hi (newFile_ok name s.memUsed) (by omega) room ?_
    intro e he
    obtain rfl : ⟨s.memUsed.toNat, 256⟩ = e := Option.some.inj he
    exact ⟨Nat.le_refl _, Nat.le_of_eq hsum.symm⟩

theorem FsState.Inv.listDir (h : s.Inv) : (s.listDir name).Inv := by
  unfold FsState.listDir
  by_cases hi : s.fs.fileCount < fsMaxFiles
  · rw [dif_pos hi]
    exact h.push s.memUsed hi (dirFile_ok name) (Nat.le_refl _) h.used_le nofun
  · rw [dif_neg hi]
    exact h

/-- The path of a directory that was made ends inside its array. -/
theorem fsDirPath_isSome {currentDir p q : Buf fsMaxPath} (h : fsDirPath currentDir p name = some (some q)) :
    q.text.isSome = true := by
  have hcur : ∃ current, currentDir.text = some current := by
    cases hc : currentDir.text with
    | none =>
      rw [fsDirPath, hc] at h
      cases h
    | some current => exact ⟨current, rfl⟩
  obtain ⟨current, hc⟩ := hcur
  have hpath := fsDirPath_eq name (p := p) hc
  by_cases hfit : (joinDir current name).length < fsMaxPath
  · rw [if_pos hfit] at hpath
    obtain ⟨q', hq, ht⟩ := hpath
    obtain rfl : q' = q := by simpa [hq] using h
    rw [ht]
    rfl
  · rw [if_neg hfit, h] at hpath
    cases hpath

theorem FsState.Inv.createDir (h : s.Inv) {b : Bool}
    (hrun : (fsCreateDir name).run s = some (b, t)) : t.Inv := by
  cases fsCreateDir_outcome hrun with
  | existing => exact h
  | refused => exact h
  | tooLong _ hi d hname hpath _ =>
    refine h.writeDir hi (Nat.le_refl _) h.dirCount_le (Nat.le_refl _) ?_ ?_
    · rw [hname]
      exact ofText_take_isSome name
    · rw [hpath]
      exact (h.dirs _ (Vector.getElem_mem _)).2
  | created _ hi fits =>
    refine FsState.Inv.listDir (s := s.dirSlot _ hi _ _) ?_
    exact h.writeDir hi (Nat.le_refl _) hi (Nat.le_succ _) (ofText_take_isSome name)
      (fsDirPath_isSome fits)

theorem FsState.Inv.changeDir (h : s.Inv) {b : Bool}
    (hrun : (fsChangeDir path).run s = some (b, t)) : t.Inv := by
  cases fsChangeDir_outcome hrun with
  | refused => exact h
  | root hd =>
    obtain ⟨r, hr, hp⟩ := h.root
    exact { h with cwd := ⟨r, hr, hp.trans hd.symm⟩ }
  | ext2 fs =>
    rw [h.active] at fs
    cases fs
  | dir _ hdir hd => exact { h with cwd := ⟨_, hdir, hd.symm⟩ }

theorem FsState.Inv.chmod (h : s.Inv) {mode : U16} {b : Bool}
    (hrun : (fsChmod name mode).run s = some (b, t)) : t.Inv := by
  rcases fsChmod_outcome hrun with ⟨-, rfl⟩ | ⟨file, s₁, f, -, hopen, hf, hset⟩
  · exact h
  rw [h.openRun, Option.some.injEq, Prod.mk.injEq, Option.map_eq_some_iff] at hopen
  obtain ⟨⟨i, hi, rfl⟩, rfl⟩ := hopen
  obtain ⟨hlt, g, hg, hfile⟩ := h.found hi
  obtain rfl : g = f := Option.some.inj (hfile.symm.trans hf)
  have hcount := Nat.lt_of_lt_of_le hlt h.fileCount_le
  rw [setFile?_slot _ hcount] at hset
  cases hset
  have hlive : s.fs.liveFiles[i]? = some g := (liveFiles_get hlt).trans hfile
  have hok : FsFile.Ok { g with mode := mode } := { h.files g hg with }
  exact h.write s.memUsed hcount hlive hok (Nat.le_refl _) h.used_le (Or.inl rfl)

/-! ## Writing -/

section Write

variable {offset len newSize off : U64} {buf : Nat → U8}

theorem filledFile_extent : (filledFile f offset len).extent = f.extent := by
  unfold filledFile
  split <;> rfl

theorem filledFile_ok (hf : f.Ok) (hfit : ¬offset + len > f.capacity) : (filledFile f offset len).Ok := by
  unfold filledFile
  split
  · rw [gt_iff_lt, BitVec.lt_def, Nat.not_lt] at hfit
    exact { hf with size_le := hfit }
  · exact hf

theorem grownFile_ok (hf : f.Ok) (hdir : f.isDir = false) (hgrow : newSize > f.capacity)
    (hw : newSize.toNat * 2 < 2 ^ 64) : (grownFile f newSize off).Ok := by
  have hcap := toNat_double hw
  have hsize := hf.size_le
  rw [gt_iff_lt, BitVec.lt_def] at hgrow
  refine { hf with size_le := ?_, file := fun _ => ⟨off, rfl⟩, entry := fun hd => ?_ }
  · change f.size.toNat ≤ (newSize * 2#64).toNat
    omega
  · exact absurd (hdir.symm.trans hd) Bool.false_ne_true

/-- Filling a file that has the room. -/
theorem FsState.Inv.filled (h : s.Inv) (hi : i < fsMaxFiles) (hf : s.fs.liveFiles[i]? = some f)
    (hfit : ¬offset + len > f.capacity) : (s.filled i hi f offset buf len).Inv :=
  FsMount.Inv.write h s.memUsed hi hf (filledFile_ok (h.files f (List.mem_of_getElem? hf)) hfit) (Nat.le_refl _)
    h.used_le (Or.inl filledFile_extent)

/-- Making room for `newSize` bytes, where the pool has it. -/
theorem FsState.Inv.grown (h : s.Inv) (hi : i < fsMaxFiles) (hf : s.fs.liveFiles[i]? = some f)
    (hdir : f.isDir = false) (hgrow : newSize > f.capacity)
    (hw : s.memUsed.toNat + newSize.toNat * 2 < 2 ^ 64)
    (room : ¬s.memUsed + newSize * 2#64 > poolSize) : (s.grown i hi f newSize).Inv := by
  have hcap := toNat_double (n := newSize) (by omega)
  have hsum := toNat_add_of_lt (a := s.memUsed) (b := newSize * 2#64) (by omega)
  rw [room_iff] at room
  refine FsMount.Inv.write h (s.memUsed + newSize * 2#64) hi hf
    (grownFile_ok (h.files f (List.mem_of_getElem? hf)) hdir hgrow (by omega)) (by omega) room ?_
  exact Or.inr ⟨_, rfl, Nat.le_refl _, Nat.le_of_eq hsum.symm⟩

/-- A live file after a write to its slot. -/
theorem liveFiles_fileSlot {g : FsFile} (hi : i < fsMaxFiles) (hf : s.fs.liveFiles[i]? = some f) :
    (s.fileSlot i hi g s.fs.fileCount).fs.liveFiles[i]? = some g := by
  have hlive : (s.fileSlot i hi g s.fs.fileCount).fs.liveFiles = s.fs.liveFiles.set i g :=
    liveFiles_set_live s.fs g hi
  rw [hlive, List.getElem?_set_self (List.getElem?_eq_some_iff.mp hf).1]

/-- The entry of a directory cannot be written. -/
theorem fsWrite_null {file : FileRef} (hf : s.file? file = some f) (hfs : f.fsType ≠ .ext2)
    (hd : f.data = Ptr.null) : (fsWrite file offset buf len).run s = some (0#64, s) := by
  rw [fsWrite, run_getFile_bind, hf, Option.bind_some, if_neg hfs, if_pos hd]
  rfl

/-- The sums of a write do not wrap. -/
def FsState.NoWrap (s : FsState) (offset len : U64) : Prop :=
  s.memUsed.toNat + (offset.toNat + len.toNat) * 2 < 2 ^ 64

/-- How a write to a file of the table ends. -/
inductive WriteOutcome (s : FsState) (i : Nat) (hi : i < fsMaxFiles) (f : FsFile) (offset : U64)
    (buf : Nat → U8) (len : U64) : U64 → FsState → Prop
  /-- A directory, or a full pool. -/
  | refused (h : f.isDir = true ∨ offset + len > f.capacity) :
      WriteOutcome s i hi f offset buf len 0#64 s
  | inPlace (file : f.isDir = false) (fits : ¬offset + len > f.capacity) :
      WriteOutcome s i hi f offset buf len len (s.filled i hi f offset buf len)
  | moved (file : f.isDir = false) (grows : offset + len > f.capacity)
      (room : ¬s.memUsed + (offset + len) * 2#64 > poolSize) :
      WriteOutcome s i hi f offset buf len len
        ((s.grown i hi f (offset + len)).filled i hi (grownFile f (offset + len) s.memUsed) offset buf len)

theorem FsState.Inv.write_outcome (h : s.Inv) (hi : i < fsMaxFiles) (hf : s.fs.liveFiles[i]? = some f) {n : U64}
    (hrun : (fsWrite (.slot i) offset buf len).run s = some (n, t)) : WriteOutcome s i hi f offset buf len n t := by
  have hok := h.files f (List.mem_of_getElem? hf)
  have hfs : f.fsType ≠ .ext2 := by rw [hok.fsType]; decide
  obtain ⟨-, hfile⟩ := liveFiles_slot h.fileCount_le hf
  cases hdir : f.isDir with
  | true =>
    rw [fsWrite_null hfile hfs (hok.entry hdir)] at hrun
    cases hrun
    exact .refused (Or.inl hdir)
  | false =>
    obtain ⟨off, hoff⟩ := hok.file hdir
    rw [fsWrite_run hi offset len buf hfile hfs (by rw [hoff]; exact pool_ne_null off)] at hrun
    by_cases hcap : offset + len > f.capacity
    · rw [if_pos hcap] at hrun
      by_cases hroom : s.memUsed + (offset + len) * 2#64 > poolSize
      · rw [if_pos hroom] at hrun
        cases hrun
        exact .refused (Or.inr hcap)
      · rw [if_neg hroom] at hrun
        split at hrun
        · cases hrun
          exact .moved hdir hcap hroom
        · cases hrun
    · rw [if_neg hcap] at hrun
      split at hrun
      · cases hrun
        exact .inPlace hdir hcap
      · cases hrun

/-- The buffer of a file lies in the pool. -/
theorem FsState.Inv.capacity_le (h : s.Inv) (hf : s.fs.liveFiles[i]? = some f) (hfile : f.isDir = false) :
    f.size.toNat ≤ f.capacity.toNat ∧ f.capacity.toNat ≤ poolSize.toNat := by
  have hok := h.files f (List.mem_of_getElem? hf)
  obtain ⟨off, hoff⟩ := hok.file hfile
  have hext : f.extent = some ⟨off.toNat, f.capacity.toNat⟩ := by rw [FsFile.extent, hoff]
  have hstop := h.packed.stop_le i ⟨off.toNat, f.capacity.toNat⟩ (by rw [List.getElem?_map, hf, Option.map_some, hext])
  exact ⟨hok.size_le, Nat.le_trans (Nat.le_trans (Nat.le_add_left _ _) hstop) h.used_le⟩

/-- The copies of a write in place are short. -/
theorem fillFits_of_le (hle : offset.toNat + len.toNat ≤ copyLimit) : FillFits f offset len := by
  refine ⟨fun hgap => ?_, Nat.le_trans (Nat.le_add_left _ _) hle⟩
  rw [BitVec.toNat_sub_of_le (Nat.le_of_lt hgap)]
  omega

/-- Every write to a file of the table ends where its sums do not wrap. -/
theorem FsState.Inv.write_ends (h : s.Inv) (hi : i < fsMaxFiles) (hf : s.fs.liveFiles[i]? = some f)
    (buf : Nat → U8) (hw : s.NoWrap offset len) :
    ∃ n t, (fsWrite (.slot i) offset buf len).run s = some (n, t) := by
  have hok := h.files f (List.mem_of_getElem? hf)
  have hfs : f.fsType ≠ .ext2 := by rw [hok.fsType]; decide
  have hpool : poolSize.toNat = 65536 := rfl
  have hlimit : copyLimit = 2 ^ 47 := rfl
  unfold FsState.NoWrap at hw
  have hsum := toNat_add_of_lt (a := offset) (b := len) (by omega)
  obtain ⟨-, hfile⟩ := liveFiles_slot h.fileCount_le hf
  cases hdir : f.isDir with
  | true => exact ⟨_, _, fsWrite_null hfile hfs (hok.entry hdir)⟩
  | false =>
    obtain ⟨off, hoff⟩ := hok.file hdir
    obtain ⟨hsize, hcapacity⟩ := h.capacity_le hf hdir
    have hrun := fsWrite_run hi offset len buf hfile hfs (by rw [hoff]; exact pool_ne_null off)
    by_cases hcap : offset + len > f.capacity
    · rw [if_pos hcap] at hrun
      by_cases hroom : s.memUsed + (offset + len) * 2#64 > poolSize
      · rw [if_pos hroom] at hrun
        exact ⟨_, _, hrun⟩
      · -- twice the sum fits in the pool
        have hdouble := toNat_double (n := offset + len) (by omega)
        have hnew := toNat_add_of_lt (a := s.memUsed) (b := (offset + len) * 2#64) (by omega)
        have hle := room_iff.mp hroom
        rw [if_neg hroom, if_pos ⟨⟨by omega, by omega⟩, fillFits_of_le (by omega)⟩] at hrun
        exact ⟨_, _, hrun⟩
    · have hle : (offset + len).toNat ≤ f.capacity.toNat := Nat.le_of_not_lt hcap
      rw [if_neg hcap, if_pos (fillFits_of_le (by omega))] at hrun
      exact ⟨_, _, hrun⟩

theorem FsState.Inv.write (h : s.Inv) (hi : i < s.fs.fileCount) (hw : s.NoWrap offset len) {n : U64}
    (hrun : (fsWrite (.slot i) offset buf len).run s = some (n, t)) : t.Inv := by
  have hmax := Nat.lt_of_lt_of_le hi h.fileCount_le
  obtain ⟨f, hf⟩ := h.liveFile hi
  have hout := h.write_outcome hmax hf hrun
  unfold FsState.NoWrap at hw
  have hsum := toNat_add_of_lt (a := offset) (b := len) (by omega)
  cases hout with
  | refused => exact h
  | inPlace file fits => exact h.filled hmax hf fits
  | moved file grows room =>
    refine FsState.Inv.filled (h.grown hmax hf file grows (by omega) room) hmax ?_ ?_
    · exact liveFiles_fileSlot hmax hf
    · -- the new buffer is twice as long as it has to be
      have hcap := toNat_double (n := offset + len) (by omega)
      change ¬offset + len > (offset + len) * 2#64
      rw [gt_iff_lt, BitVec.lt_def]
      omega

end Write

end PpoOS
