import PpoOS.Fs.Verify.Writes

/-!
# The names in the tables

What calls with any arguments keep of the tables, writes whose sums wrap among them:
the stored names end inside their arrays, and the paths begin with a slash.
**`FsReached.named`**: this holds in every state that is reached.
-/

namespace PpoOS

open FaultState FsM Transition

variable {s t : FsState} {fs : FsMount} {f : FsFile} {name path c : CString} {i : Nat}

/-- The path begins with a slash. -/
def IsAbsolute (c : CString) : Prop := c.chars.head? = some 0x2F#8

structure FsMount.Named (fs : FsMount) : Prop where
  active : fs.activeFs = .initramfs
  fileCount_le : fs.fileCount ≤ fsMaxFiles
  dirCount_le : fs.dirCount ≤ fsMaxDirs
  files : ∀ f ∈ fs.files, f.name.text.isSome = true
  dirs : ∀ d ∈ fs.dirs, d.name.text.isSome = true ∧ d.path.text.isSome = true
  absolute : ∀ d ∈ fs.liveDirs, ∀ p, d.path.text = some p → IsAbsolute p
  cwd : ∃ c, fs.currentDir.text = some c ∧ IsAbsolute c

/-- A call with any arguments. -/
def FsAnyStep (s : FsState) (op : FsOp) (t : FsState) : Prop := op.run.run s = some ((), t)

/-- The states that calls with any arguments lead to after `fs_init`. -/
def FsReached (s : FsState) : Prop := ∃ s₁ ops, FsStarted s₁ ∧ Run FsAnyStep s₁ ops s

theorem FsReachable.reached (h : FsReachable s) : FsReached s := by
  obtain ⟨s₁, ops, hstart, hrun⟩ := h
  refine ⟨s₁, ops, hstart, ?_⟩
  clear hstart
  induction hrun with
  | nil => exact .nil _
  | snoc _ last ih => exact .snoc ih last.2

/-! ## Changes of the tables -/

namespace FsMount.Named

theorem notExt2 (h : fs.Named) : fs.activeFs ≠ .ext2 := by
  rw [h.active]
  decide

theorem liveNames (h : fs.Named) : ∀ f ∈ fs.liveFiles, f.name.text.isSome = true :=
  fun f hf => h.files f (Vector.mem_toList_iff.mp (List.mem_of_mem_take hf))

theorem liveDirs (h : fs.Named) : ∀ d ∈ fs.liveDirs, d.name.text.isSome = true ∧ d.path.text.isSome = true :=
  fun d hd => h.dirs d (Vector.mem_toList_iff.mp (List.mem_of_mem_take hd))

/-- A write to the file table. -/
theorem setFile (h : fs.Named) (hi : i < fsMaxFiles) (hf : f.name.text.isSome = true) {n : Nat}
    (hn : n ≤ fsMaxFiles) : ({ fs with files := fs.files.set i f hi, fileCount := n }).Named := by
  refine { h with fileCount_le := hn, files := fun g hg => ?_ }
  have hmem : g ∈ fs.files.set i f hi := hg
  rcases Vector.mem_or_eq_of_mem_set hmem with hg | rfl
  · exact h.files g hg
  · exact hf

theorem dirs_set (h : fs.Named) {d : FsDir} (hi : i < fsMaxDirs)
    (hd : d.name.text.isSome = true ∧ d.path.text.isSome = true) :
    ∀ e ∈ fs.dirs.set i d hi, e.name.text.isSome = true ∧ e.path.text.isSome = true := by
  intro e he
  rcases Vector.mem_or_eq_of_mem_set he with he | rfl
  · exact h.dirs e he
  · exact hd

/-- A write to the slot past the directories. -/
theorem writeFreeDir (h : fs.Named) {d : FsDir} (hi : fs.dirCount < fsMaxDirs)
    (hd : d.name.text.isSome = true ∧ d.path.text.isSome = true) :
    ({ fs with dirs := fs.dirs.set fs.dirCount d hi }).Named := by
  have hlive : ({ fs with dirs := fs.dirs.set fs.dirCount d hi } : FsMount).liveDirs = fs.liveDirs :=
    liveDirs_set_free fs d hi (Nat.le_refl _)
  exact { h with dirs := h.dirs_set hi hd, absolute := by rw [hlive]; exact h.absolute }

/-- A new last directory. -/
theorem pushDir (h : fs.Named) {d : FsDir} (hi : fs.dirCount < fsMaxDirs) (hname : d.name.text.isSome = true)
    (hpath : d.path.text = some path) (habs : IsAbsolute path) :
    ({ fs with dirs := fs.dirs.set fs.dirCount d hi, dirCount := fs.dirCount + 1 }).Named := by
  have hlive : ({ fs with dirs := fs.dirs.set fs.dirCount d hi, dirCount := fs.dirCount + 1 } :
      FsMount).liveDirs = fs.liveDirs ++ [d] := liveDirs_set_next fs d hi
  refine
    { h with
      dirCount_le := hi
      dirs := h.dirs_set hi ⟨hname, by rw [hpath]; rfl⟩
      absolute := fun e he p hp => ?_ }
  rw [hlive] at he
  rcases List.mem_append.mp he with he | he
  · exact h.absolute e he p hp
  · rw [List.mem_singleton.mp he, hpath] at hp
    cases hp
    exact habs

end FsMount.Named

/-! ## The calls -/

theorem joinDir_absolute (hc : IsAbsolute c) : IsAbsolute (joinDir c name) := by
  unfold IsAbsolute joinDir at *
  by_cases hroot : c = slash
  · rw [if_pos hroot]
    rfl
  · rw [if_neg hroot, CString.chars_append, CString.chars_append, List.append_assoc, List.head?_append, hc]
    rfl

namespace FsMount.Named

theorem openRun (h : s.fs.Named) (name : CString) :
    (fsOpen name).run s = some ((fsLookup s.fs name).map .slot, s) := fsOpen_run h.notExt2 h.liveNames

theorem createFile (h : s.fs.Named) {r : Option FileRef} (hrun : (fsCreateFile name).run s = some (r, t)) :
    t.fs.Named := by
  cases fsCreateFile_outcome hrun with
  | existing found =>
    rw [h.openRun, Option.some.injEq, Prod.mk.injEq] at found
    rw [← found.2]
    exact h
  | refused => exact h
  | noMemory _ _ hi _ f hname => exact h.setFile hi (by rw [hname]; exact ofText_take_isSome name) h.fileCount_le
  | created _ _ hi => exact h.setFile hi (ofText_take_isSome name) hi

theorem listDir (h : s.fs.Named) : (s.listDir name).fs.Named := by
  unfold FsState.listDir
  by_cases hi : s.fs.fileCount < fsMaxFiles
  · rw [dif_pos hi]
    exact h.setFile hi (ofText_take_isSome name) hi
  · rw [dif_neg hi]
    exact h

theorem createDir (h : s.fs.Named) {b : Bool} (hrun : (fsCreateDir name).run s = some (b, t)) : t.fs.Named := by
  obtain ⟨c, hc, habs⟩ := h.cwd
  cases fsCreateDir_outcome hrun with
  | existing => exact h
  | refused => exact h
  | tooLong _ hi d hname hpath _ =>
    refine h.writeFreeDir hi ⟨?_, ?_⟩
    · rw [hname]
      exact ofText_take_isSome name
    · rw [hpath]
      exact (h.dirs _ (Vector.getElem_mem _)).2
  | @created _ hi p path fits =>
    have hpath := fsDirPath_eq name (p := p) hc
    split at hpath
    · obtain ⟨q, hq, ht⟩ := hpath
      obtain rfl : q = path := by simpa [hq] using fits
      refine listDir (s := s.dirSlot _ hi _ _) ?_
      exact h.pushDir hi (ofText_take_isSome name) ht (joinDir_absolute habs)
    · rw [hpath] at fits
      cases fits

theorem changeDir (h : s.fs.Named) {b : Bool} (hrun : (fsChangeDir path).run s = some (b, t)) : t.fs.Named := by
  cases fsChangeDir_outcome hrun with
  | refused => exact h
  | root hd => exact { h with cwd := ⟨slash, hd, rfl⟩ }
  | ext2 fs => exact absurd fs h.notExt2
  | @dir _ dir d hdir hd =>
    obtain ⟨p, hp⟩ := Option.isSome_iff_exists.mp (h.liveDirs dir hdir).2
    exact { h with cwd := ⟨p, hd.trans hp, h.absolute dir hdir p hp⟩ }

theorem chmod (h : s.fs.Named) {mode : U16} {b : Bool} (hrun : (fsChmod name mode).run s = some (b, t)) :
    t.fs.Named := by
  rcases fsChmod_outcome hrun with ⟨-, rfl⟩ | ⟨file, s₁, f, -, hopen, hf, hset⟩
  · exact h
  rw [h.openRun, Option.some.injEq, Prod.mk.injEq, Option.map_eq_some_iff] at hopen
  obtain ⟨⟨i, -, rfl⟩, rfl⟩ := hopen
  obtain ⟨hi, rfl⟩ := file?_slot hf
  rw [setFile?_slot _ hi] at hset
  cases hset
  have hname : s.fs.files[i].name.text.isSome = true := h.files _ (Vector.getElem_mem hi)
  exact h.setFile (f := { s.fs.files[i] with mode := mode }) hi hname h.fileCount_le

theorem write (h : s.fs.Named) {offset len n : U64} {buf : Nat → U8}
    (hrun : (fsWrite (.slot i) offset buf len).run s = some (n, t)) : t.fs.Named := by
  have hname : ∀ {g : FsFile}, s.file? (.slot i) = some g → g.name.text.isSome = true := by
    intro g hg
    obtain ⟨hi, rfl⟩ := file?_slot hg
    exact h.files _ (Vector.getElem_mem hi)
  have hfill : ∀ {g : FsFile}, (filledFile g offset len).name = g.name := by
    intro g
    unfold filledFile
    split <;> rfl
  cases fsWrite_outcome hrun with
  | refused => exact h
  | inPlace hi file => exact h.setFile hi (by rw [hfill]; exact hname file) h.fileCount_le
  | @moved hi g file =>
    have hg : g.name.text.isSome = true := hname file
    have hgrown := h.setFile (f := grownFile g (offset + len) s.memUsed) hi hg h.fileCount_le
    exact hgrown.setFile hi (by rw [hfill]; exact hg) h.fileCount_le

theorem step {op : FsOp} (h : s.fs.Named) (hstep : FsAnyStep s op t) : t.fs.Named := by
  cases op with
  | createFile name =>
    obtain ⟨r, hcall⟩ := run_discard_iff.mp hstep
    exact h.createFile hcall
  | write i offset buf len =>
    obtain ⟨n, hcall⟩ := run_discard_iff.mp hstep
    exact h.write hcall
  | createDir name =>
    obtain ⟨b, hcall⟩ := run_discard_iff.mp hstep
    exact h.createDir hcall
  | changeDir path =>
    obtain ⟨b, hcall⟩ := run_discard_iff.mp hstep
    exact h.changeDir hcall
  | chmod name mode =>
    obtain ⟨b, hcall⟩ := run_discard_iff.mp hstep
    exact h.chmod hcall

/-! ## The import of the archive -/

theorem importFile {src : RamFile} (h : s.fs.Named) (hi : s.fs.fileCount < fsMaxFiles) {b : Bool}
    (hrun : (importFile src name).run s = some (b, t)) : t.fs.Named := by
  rcases importFile_outcome hi hrun with ⟨-, -, rfl⟩ | ⟨-, -, rfl⟩
  · exact h.setFile hi (ofText_take_isSome name) h.fileCount_le
  · exact h.setFile hi (ofText_take_isSome name) hi

theorem importAll {files : List RamFile} (h : s.fs.Named) (hrun : (fsImport files).run s = some ((), t)) :
    t.fs.Named :=
  fsImport_invariant (I := fun s => s.fs.Named) (fun h hcreate => h.createDir hcreate)
    (fun _ _ h hi himport => h.importFile hi himport) h hrun

end FsMount.Named

theorem rootMount_named : rootMount.Named where
  active := rfl
  fileCount_le := Nat.zero_le _
  dirCount_le := by decide
  files :=
    have hinv : rootMount.Inv 0#64 := rootMount_inv (by decide)
    hinv.names
  dirs :=
    have hinv : rootMount.Inv 0#64 := rootMount_inv (by decide)
    hinv.dirs
  absolute d hd p hp := by
    obtain rfl : d = ⟨Buf.ofText 32 slash, Buf.ofText fsMaxPath slash⟩ := List.mem_singleton.mp hd
    obtain rfl : slash = p := Option.some.inj hp
    rfl
  cwd := ⟨slash, rfl, rfl⟩

theorem FsStarted.named (h : FsStarted s) : s.fs.Named := by
  obtain ⟨-, -, run, active⟩ := h
  rw [fsInit_run, run_get_bind, run_bind_iff] at run
  obtain ⟨_, s₁, himport, run⟩ := run
  rw [run_get_bind] at run
  rcases fsMountImages_run run with hext2 | rfl
  · exact absurd hext2 active
  · exact FsMount.Named.importAll (rootMount_named) himport

/-- **In every state that is reached** the names end inside their arrays, and the paths are absolute. -/
theorem FsReached.named (h : FsReached s) : s.fs.Named := by
  obtain ⟨s₁, ops, hstart, hrun⟩ := h
  exact hrun.invariant (I := fun s => s.fs.Named) (fun _ _ _ h hstep => h.step hstep) hstart.named

end PpoOS
