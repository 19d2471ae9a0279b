import PpoOS.Fs.Verify.Invariant

/-!
# Setting up the file system

`fs_init` starts from empty tables with a root directory, imports the boot archive
and looks for an ext2 image.  `FsState.Inv.import` and `fsInit_inv`: where it does
not mount one, it leaves well-formed tables.
-/

namespace PpoOS

open FaultState FsM Extent

variable {s t : FsState} {name : CString} {src : RamFile}

/-! ## One entry of the archive -/

/-- A file that `fs_init` imports, with its buffer at `off` of the pool. -/
def importedFile (name : CString) (src : RamFile) (off : U64) : FsFile where
  name := Buf.ofText 32 (name.take 31)
  data := .pool off
  size := src.size
  capacity := src.size
  mode := 0o644#16
  isDir := false
  fsType := .initramfs

/-- The state with the contents of the entry copied to the pool. -/
def FsState.imported (s : FsState) (hi : s.fs.fileCount < fsMaxFiles) (name : CString) (src : RamFile) :
    FsState :=
  { s.fileSlot s.fs.fileCount hi (importedFile name src s.memUsed) (s.fs.fileCount + 1) with
    memUsed := s.memUsed + src.size
    mem := s.mem.blit (.pool s.memUsed) src.size.toNat fun i =>
      s.mem.load ((Ptr.addr src.data).add (BitVec.ofNat 64 i)) }

theorem importFile_run (hi : s.fs.fileCount < fsMaxFiles) (src : RamFile) (name : CString) :
    (importFile src name).run s =
      if s.memUsed + src.size > poolSize then
        some (false, s.fileSlot s.fs.fileCount hi
          { s.fs.files[s.fs.fileCount] with
            name := Buf.ofText 32 (name.take 31), capacity := src.size, data := Ptr.null }
          s.fs.fileCount)
      else if src.size.toNat ≤ copyLimit then some (true, s.imported hi name src) else none := by
  have hf : s.file? (.slot s.fs.fileCount) = some s.fs.files[s.fs.fileCount] :=
    Vector.getElem?_eq_getElem hi
  rw [importFile, run_get_bind, run_getFile_bind, hf, Option.bind_some, run_modifyFs_bind,
    strncpyCut_eq _ _ (by decide), run_ofOption_bind, Option.bind_some, StateT.run_bind, fsAlloc_run]
  dsimp only
  by_cases hroom : s.memUsed + src.size > poolSize
  · rw [if_pos hroom, if_pos hroom, Option.bind_eq_bind, Option.bind_some, run_putFile_bind,
      setFile?_slot _ hi, Option.bind_some, if_pos rfl]
    rfl
  · rw [if_neg hroom, if_neg hroom, Option.bind_eq_bind, Option.bind_some, run_putFile_bind,
      setFile?_slot _ hi, Option.bind_some, if_neg (pool_ne_null _), FsM.memcpy]
    by_cases hsize : src.size.toNat ≤ copyLimit
    · rw [if_pos hsize, run_copyMem_bind hsize, run_putFile_bind, setFile?_slot _ hi, Option.bind_some,
        Vector.set_set]
      rfl
    · rw [if_neg hsize, run_copyMem_faults hsize]

/-- One file of the archive, where its contents fit in the pool or not. -/
theorem importFile_outcome (hi : s.fs.fileCount < fsMaxFiles) {b : Bool}
    (hrun : (importFile src name).run s = some (b, t)) :
    (s.memUsed + src.size > poolSize ∧ b = false ∧ t = s.fileSlot s.fs.fileCount hi
      { s.fs.files[s.fs.fileCount] with
        name := Buf.ofText 32 (name.take 31), capacity := src.size, data := Ptr.null } s.fs.fileCount) ∨
    (¬s.memUsed + src.size > poolSize ∧ b = true ∧ t = s.imported hi name src) := by
  rw [importFile_run hi] at hrun
  by_cases hroom : s.memUsed + src.size > poolSize
  · rw [if_pos hroom] at hrun
    cases hrun
    exact Or.inl ⟨hroom, rfl, rfl⟩
  · rw [if_neg hroom] at hrun
    split at hrun
    · cases hrun
      exact Or.inr ⟨hroom, rfl, rfl⟩
    · cases hrun

theorem importedFile_ok (name : CString) (src : RamFile) (off : U64) : (importedFile name src off).Ok where
  name := ofText_take_isSome name
  fsType := rfl
  size_le := Nat.le_refl _
  file _ := ⟨off, rfl⟩
  entry hd := nomatch hd

theorem FsState.Inv.imported (h : s.Inv) (hi : s.fs.fileCount < fsMaxFiles) (name : CString)
    (hsize : src.size.toNat < 2 ^ 32) (room : ¬s.memUsed + src.size > poolSize) :
    (s.imported hi name src).Inv := by
  have hle := h.used_le
  have hpool : poolSize.toNat = 65536 := rfl
  have hsum := toNat_add_of_lt (a := s.memUsed) (b := src.size) (by omega)
  rw [room_iff] at room
  refine h.push (s.memUsed + src.size) hi (importedFile_ok name src s.memUsed) (by omega) room ?_
  intro e he
  obtain rfl : ⟨s.memUsed.toNat, src.size.toNat⟩ = e := Option.some.inj he
  exact ⟨Nat.le_refl _, Nat.le_of_eq hsum.symm⟩

/-! ## The loop -/

theorem FsState.Inv.importFile (h : s.Inv) (hi : s.fs.fileCount < fsMaxFiles)
    (hsize : src.size.toNat < 2 ^ 32) {b : Bool} (hrun : (importFile src name).run s = some (b, t)) :
    t.Inv := by
  rcases importFile_outcome hi hrun with ⟨-, -, rfl⟩ | ⟨hroom, -, rfl⟩
  · exact h.writeFree hi (Nat.le_refl _) (ofText_take_isSome name)
  · exact h.imported hi name hsize hroom

/-- How the loop goes on with an entry. -/
inductive ImportOutcome (src : RamFile) (rest : List RamFile) (s t : FsState) : Prop
  /-- The table is full. -/
  | full (h : fsMaxFiles ≤ s.fs.fileCount) (same : t = s)
  | dir (hi : s.fs.fileCount < fsMaxFiles) {name dir : CString} {b : Buf 32} {r : Bool} {u : FsState}
      (hname : cstrAt s.mem src.name (2 ^ 64) = some name) (hslash : name.chars.getLast? = some 0x2F#8)
      (hcut : importDirName name = some b) (htext : b.text = some dir)
      (create : (fsCreateDir dir).run s = some (r, u)) (next : (fsImport rest).run u = some ((), t))
  | file (hi : s.fs.fileCount < fsMaxFiles) {name : CString} {u : FsState}
      (hname : cstrAt s.mem src.name (2 ^ 64) = some name) (hslash : ¬name.chars.getLast? = some 0x2F#8)
      (copied : (importFile src name).run s = some (true, u)) (next : (fsImport rest).run u = some ((), t))
  /-- The pool has no room for the contents. -/
  | noMemory (hi : s.fs.fileCount < fsMaxFiles) {name : CString}
      (hname : cstrAt s.mem src.name (2 ^ 64) = some name) (hslash : ¬name.chars.getLast? = some 0x2F#8)
      (failed : (importFile src name).run s = some (false, t))

theorem fsImport_outcome {rest : List RamFile} (hrun : (fsImport (src :: rest)).run s = some ((), t)) :
    ImportOutcome src rest s t := by
  rw [fsImport, run_get_bind] at hrun
  by_cases hfull : s.fs.fileCount ≥ fsMaxFiles
  · rw [if_pos hfull] at hrun
    cases hrun
    exact .full hfull rfl
  have hi : s.fs.fileCount < fsMaxFiles := Nat.lt_of_not_le hfull
  rw [if_neg hfull, run_ofOption_bind, Option.bind_eq_some_iff] at hrun
  obtain ⟨name, hname, hrun⟩ := hrun
  by_cases hslash : name.chars.getLast? = some 0x2F#8
  · simp only [if_pos hslash, run_ofOption_bind, Option.bind_eq_some_iff] at hrun
    obtain ⟨b, hcut, dir, htext, hrun⟩ := hrun
    obtain ⟨r, u, hcreate, hrun⟩ := run_bind_iff.mp hrun
    exact .dir hi hname hslash hcut htext hcreate hrun
  · rw [if_neg hslash, run_bind_iff] at hrun
    obtain ⟨b, u, himport, hrun⟩ := hrun
    cases b with
    | true => exact .file hi hname hslash himport hrun
    | false =>
      cases hrun
      exact .noMemory hi hname hslash himport

/-- What new directories and new files keep, the loop keeps. -/
theorem fsImport_invariant {I : FsState → Prop} {files : List RamFile}
    (hdir : ∀ {s t name r}, I s → (fsCreateDir name).run s = some (r, t) → I t)
    (hfile : ∀ {s t name r}, ∀ src ∈ files, I s → s.fs.fileCount < fsMaxFiles →
      (importFile src name).run s = some (r, t) → I t)
    (h : I s) (hrun : (fsImport files).run s = some ((), t)) : I t := by
  induction files generalizing s with
  | nil =>
    cases hrun
    exact h
  | cons src rest ih =>
    have hrest : ∀ {s t name r}, ∀ src ∈ rest, I s → s.fs.fileCount < fsMaxFiles →
        (importFile src name).run s = some (r, t) → I t :=
      fun src hsrc => hfile src (List.mem_cons_of_mem _ hsrc)
    cases fsImport_outcome hrun with
    | full _ same =>
      rw [same]
      exact h
    | dir _ _ _ _ _ create next => exact ih hrest (hdir h create) next
    | file hi _ _ copied next => exact ih hrest (hfile src List.mem_cons_self h hi copied) next
    | noMemory hi _ _ failed => exact hfile src List.mem_cons_self h hi failed

theorem FsState.Inv.import {files : List RamFile} (h : s.Inv)
    (hsize : ∀ src ∈ files, src.size.toNat < 2 ^ 32) (hrun : (fsImport files).run s = some ((), t)) :
    t.Inv :=
  fsImport_invariant (I := FsState.Inv) (fun h hcreate => h.createDir hcreate)
    (fun src hsrc h hi himport => h.importFile hi (hsize src hsrc) himport) h hrun

/-! ## Looking for an image -/

/-- The loop mounts an image, or leaves no trace. -/
theorem fsMountImages_outcome {files : List FsFile} (hrun : (fsMountImages files).run s = some ((), t)) :
    (∃ f ∈ files, (fsMountExt2 f.data f.size).run s = some (true, t)) ∨ t = s := by
  induction files with
  | nil =>
    cases hrun
    exact Or.inr rfl
  | cons f files ih =>
    rw [fsMountImages, run_ofOption_bind, Option.bind_eq_some_iff] at hrun
    obtain ⟨name, -, hrun⟩ := hrun
    rw [run_get_bind, run_ite] at hrun
    split at hrun
    · rw [run_bind_iff] at hrun
      obtain ⟨b, s₁, hmount, hrun⟩ := hrun
      cases b with
      | true =>
        cases hrun
        exact Or.inl ⟨f, List.mem_cons_self, hmount⟩
      | false =>
        obtain rfl := fsMountExt2_failed hmount
        exact (ih hrun).imp_left fun ⟨g, hg, h⟩ => ⟨g, List.mem_cons_of_mem _ hg, h⟩
    · exact (ih hrun).imp_left fun ⟨g, hg, h⟩ => ⟨g, List.mem_cons_of_mem _ hg, h⟩

theorem fsMountImages_run {files : List FsFile} (hrun : (fsMountImages files).run s = some ((), t)) :
    t.fs.activeFs = .ext2 ∨ t = s := by
  refine (fsMountImages_outcome hrun).imp_left fun ⟨f, _, hmount⟩ => ?_
  rw [fsMountExt2, run_bind_iff] at hmount
  obtain ⟨c, s₁, -, hmount⟩ := hmount
  cases c with
  | true =>
    cases hmount
    rfl
  | false => cases hmount

/-! ## From empty tables -/

/-- The tables before the archive is imported. -/
def rootMount : FsMount :=
  { FsMount.zero with
    dirs := (Vector.replicate fsMaxDirs FsDir.zero).set 0 ⟨Buf.ofText 32 slash, Buf.ofText fsMaxPath slash⟩
    dirCount := 1
    currentDir := Buf.ofText fsMaxPath slash }

theorem fsInit_run (s : FsState) : fsInit.run s = ((do
    fsImport (← get).ramfs
    fsMountImages (← get).fs.liveFiles) : FsM Unit).run { s with fs := rootMount } := rfl

theorem rootMount_inv {used : U64} (h : used.toNat ≤ poolSize.toNat) : rootMount.Inv used where
  active := rfl
  fileCount_le := Nat.zero_le _
  dirCount_le := by decide
  used_le := h
  files f hf := by cases hf
  packed := Packed.nil
  names f hf := by
    obtain rfl := Vector.eq_of_mem_replicate hf
    rfl
  dirs d hd := by
    have hmem : d ∈ (Vector.replicate fsMaxDirs FsDir.zero).set 0
        ⟨Buf.ofText 32 slash, Buf.ofText fsMaxPath slash⟩ := hd
    rcases Vector.mem_or_eq_of_mem_set hmem with hd | rfl
    · obtain rfl := Vector.eq_of_mem_replicate hd
      exact ⟨rfl, rfl⟩
    · exact ⟨rfl, rfl⟩
  root := ⟨_, List.mem_cons_self, rfl⟩
  cwd := ⟨_, List.mem_cons_self, rfl⟩

theorem fsInit_inv (hused : s.memUsed.toNat ≤ poolSize.toNat)
    (hsize : ∀ src ∈ s.ramfs, src.size.toNat < 2 ^ 32) (hrun : fsInit.run s = some ((), t))
    (hactive : t.fs.activeFs ≠ .ext2) : t.Inv := by
  rw [fsInit_run, run_get_bind, run_bind_iff] at hrun
  obtain ⟨_, s₁, himport, hrun⟩ := hrun
  rw [run_get_bind] at hrun
  rcases fsMountImages_run hrun with hext2 | rfl
  · exact absurd hext2 hactive
  · exact FsState.Inv.import (s := { s with fs := rootMount }) (rootMount_inv hused) hsize himport

/-! ## The boot archive -/

theorem initramfsScan_size (m : Memory) (stop : U64) (room : Nat) (p : U64) :
    ∀ src ∈ initramfsScan m stop room p, src.size.toNat < 2 ^ 32 := by
  induction room generalizing p with
  | zero =>
    intro src hsrc
    cases hsrc
  | succ room ih =>
    intro src hsrc
    rw [initramfsScan] at hsrc
    split at hsrc
    · split at hsrc
      · dsimp only at hsrc
        split at hsrc
        · cases hsrc
        · split at hsrc
          · cases hsrc
          · rcases List.mem_cons.mp hsrc with rfl | hsrc
            · exact Nat.lt_of_le_of_lt (Nat.le_of_eq (BitVec.toNat_setWidth_of_le (by decide)))
                (BitVec.isLt _)
            · exact ih _ src hsrc
      · cases hsrc
    · cases hsrc

/-- The sizes of the files of an archive are 32-bit numbers. -/
theorem initramfsInit_size {base len : U64} (hrun : (initramfsInit base len).run s = some ((), t)) :
    ∀ src ∈ t.ramfs, src.size.toNat < 2 ^ 32 := by
  cases hrun
  exact initramfsScan_size _ _ _ _

end PpoOS
