import PpoOS.Fs.Verify.Import

/-!
# Runs of the in-memory file system

The calls that change the file system, in any order after `fs_init`.

* **`FsOp.ends`**: in a well-formed state every call ends.
* **`fs_invariant`**: every state that is reached is well formed.
-/

namespace PpoOS

open FaultState FsM Transition

variable {s t : FsState} {name path : CString} {i : Nat}

/-- A call that changes the file system; a file is a slot of the table. -/
inductive FsOp where
  | createFile (name : CString)
  | write (i : Nat) (offset : U64) (buf : Nat → U8) (len : U64)
  | createDir (name : CString)
  | changeDir (path : CString)
  | chmod (name : CString) (mode : U16)

def FsOp.run : FsOp → FsM Unit
  | .createFile name => do let _ ← fsCreateFile name
  | .write i offset buf len => do let _ ← fsWrite (.slot i) offset buf len
  | .createDir name => do let _ ← fsCreateDir name
  | .changeDir path => do let _ ← fsChangeDir path
  | .chmod name mode => do let _ ← fsChmod name mode

/-- A write is to a file that exists, and its sums do not wrap. -/
def FsOp.Fits (s : FsState) : FsOp → Prop
  | .write i offset _ len => i < s.fs.fileCount ∧ s.NoWrap offset len
  | _ => True

def FsStep (s : FsState) (op : FsOp) (t : FsState) : Prop := op.Fits s ∧ op.run.run s = some ((), t)

/-- `fs_init` was called, after `initramfs_init` or without an archive, and found no ext2 image. -/
inductive FsStarted : FsState → Prop
  | init {s₀ s : FsState} (used : s₀.memUsed.toNat ≤ poolSize.toNat)
      (archive : s₀.ramfs = [] ∨ ∃ base len r, (initramfsInit base len).run r = some ((), s₀))
      (run : fsInit.run s₀ = some ((), s)) (active : s.fs.activeFs ≠ .ext2) : FsStarted s

/-- The states that calls after `fs_init` lead to. -/
def FsReachable (s : FsState) : Prop := ∃ s₁ ops, FsStarted s₁ ∧ Run FsStep s₁ ops s

/-! ## Every call ends -/

theorem fsDirExists_eq {dirs : List FsDir} (h : ∀ d ∈ dirs, d.name.text.isSome = true) :
    fsDirExists name dirs = some (dirs.any fun d => d.name.text = some name) := by
  induction dirs with
  | nil => rfl
  | cons d dirs ih =>
    obtain ⟨n, hn⟩ := Option.isSome_iff_exists.mp (h d List.mem_cons_self)
    rw [fsDirExists, hn, Option.bind_eq_bind, Option.bind_some,
      ih fun e he => h e (List.mem_cons_of_mem _ he), List.any_cons, hn]
    by_cases hname : n = name
    · simp [hname]
    · simp [hname]

/-- A directory answers to its name and to its path. -/
def FsDir.answers (d : FsDir) (path : CString) : Bool :=
  decide (d.name.text = some path) || decide (d.path.text = some path)

theorem fsFindDir_eq {dirs : List FsDir}
    (h : ∀ d ∈ dirs, d.name.text.isSome = true ∧ d.path.text.isSome = true) :
    fsFindDir path dirs = some (dirs.find? fun d => d.answers path) := by
  induction dirs with
  | nil => rfl
  | cons d dirs ih =>
    obtain ⟨hname, hpath⟩ := h d List.mem_cons_self
    obtain ⟨n, hn⟩ := Option.isSome_iff_exists.mp hname
    obtain ⟨p, hp⟩ := Option.isSome_iff_exists.mp hpath
    have ha : d.answers path = (strcmp n path = 0 || strcmp p path = 0) := by
      simp [FsDir.answers, hn, hp]
    rw [fsFindDir, hn, hp, Option.bind_eq_bind, Option.bind_some, Option.bind_some, List.find?_cons, ← ha,
      ih fun e he => h e (List.mem_cons_of_mem _ he)]
    cases d.answers path <;> rfl

theorem FsMount.Inv.liveDirs_text {fs : FsMount} {used : U64} (h : fs.Inv used) :
    ∀ d ∈ fs.liveDirs, d.name.text.isSome = true ∧ d.path.text.isSome = true :=
  fun d hd => h.dirs d (FsMount.Inv.mem_liveDirs hd)

theorem fsCreateFile_ends (hactive : s.fs.activeFs ≠ .ext2)
    (hnames : ∀ f ∈ s.fs.liveFiles, f.name.text.isSome = true) (name : CString) :
    ((fsCreateFile name).run s).isSome = true := by
  rw [fsCreateFile, run_bind_eq (fsOpen_run hactive hnames)]
  cases hfound : fsLookup s.fs name with
  | some i => rfl
  | none =>
    change ((get >>= fun s => _ : FsM (Option FileRef)).run s).isSome = true
    rw [run_get_bind, if_neg hactive]
    by_cases hfull : s.fs.fileCount ≥ fsMaxFiles
    · rw [if_pos hfull]
      rfl
    have hi : s.fs.fileCount < fsMaxFiles := Nat.lt_of_not_le hfull
    have hf : s.file? (.slot s.fs.fileCount) = some s.fs.files[s.fs.fileCount] :=
      Vector.getElem?_eq_getElem hi
    rw [if_neg hfull, run_getFile_bind, hf, Option.bind_some, run_modifyFs_bind,
      strncpyCut_eq _ _ (by decide), run_ofOption_bind, Option.bind_some, StateT.run_bind, fsAlloc_run]
    dsimp only
    by_cases hroom : s.memUsed + 256#64 > poolSize
    · rw [if_pos hroom, Option.bind_eq_bind, Option.bind_some, run_putFile_bind, setFile?_slot _ hi,
        Option.bind_some, if_pos rfl]
      rfl
    · rw [if_neg hroom, Option.bind_eq_bind, Option.bind_some, run_putFile_bind, setFile?_slot _ hi,
        Option.bind_some, if_neg (pool_ne_null _), run_putFile_bind, setFile?_slot _ hi,
        Option.bind_some]
      rfl

theorem fsCreateDir_ends (hactive : s.fs.activeFs ≠ .ext2)
    (hdirs : ∀ d ∈ s.fs.liveDirs, d.name.text.isSome = true ∧ d.path.text.isSome = true) {current : CString}
    (hc : s.fs.currentDir.text = some current) (name : CString) :
    ((fsCreateDir name).run s).isSome = true := by
  rw [fsCreateDir, run_get_bind, if_neg hactive, fsDirExists_eq fun d hd => (hdirs d hd).1,
    run_ofOption_bind, Option.bind_some]
  cases s.fs.liveDirs.any fun d => d.name.text = some name with
  | true => rfl
  | false =>
    rw [if_neg Bool.false_ne_true]
    by_cases hfull : s.fs.dirCount ≥ fsMaxDirs
    · rw [if_pos hfull]
      rfl
    have hi : s.fs.dirCount < fsMaxDirs := Nat.lt_of_not_le hfull
    have hpath := fsDirPath_eq name (p := s.fs.dirs[s.fs.dirCount].path) hc
    have hslot : s.fs.dirs[s.fs.dirCount]? = some s.fs.dirs[s.fs.dirCount] :=
      Vector.getElem?_eq_getElem hi
    rw [if_neg hfull, run_ofOption_bind, hslot, Option.bind_some, run_modifyFs_bind, strncpyCut_eq _ _ (by decide),
      run_ofOption_bind, Option.bind_some, run_ofOption_bind]
    by_cases hfit : (joinDir current name).length < fsMaxPath
    · rw [if_pos hfit] at hpath
      obtain ⟨q, hq, -⟩ := hpath
      rw [hq, Option.bind_some]
      dsimp only
      rw [run_putDir_bind, setDir?_slot _ hi, Option.bind_some, run_bind_eq fsListDir_run]
      rfl
    · rw [if_neg hfit] at hpath
      rw [hpath, Option.bind_some]
      dsimp only
      rw [run_putDir_bind, setDir?_slot _ hi]
      rfl

theorem fsChangeDir_ends (hactive : s.fs.activeFs ≠ .ext2)
    (hdirs : ∀ d ∈ s.fs.liveDirs, d.name.text.isSome = true ∧ d.path.text.isSome = true) (path : CString) :
    ((fsChangeDir path).run s).isSome = true := by
  have hcopy : ∀ {r : CString}, r.length < fsMaxPath → ∃ d, strcpy s.fs.currentDir r = some d :=
    fun hr => Option.isSome_iff_exists.mp (strcpy_isSome_iff.mpr hr)
  rw [fsChangeDir]
  by_cases hlen : path.length = 0
  · rw [if_pos hlen]
    rfl
  rw [if_neg hlen, run_get_bind]
  by_cases hroot : strcmp path slash = 0
  · obtain ⟨d, hd⟩ := hcopy (r := slash) (by decide)
    rw [if_pos hroot, hd]
    rfl
  rw [if_neg hroot, if_neg hactive, fsFindDir_eq hdirs, run_ofOption_bind, Option.bind_some]
  cases hfound : s.fs.liveDirs.find? fun d => d.answers path with
  | none => rfl
  | some dir =>
    have hdir := (hdirs dir (List.mem_of_find?_eq_some hfound)).2
    obtain ⟨p, hp⟩ := Option.isSome_iff_exists.mp hdir
    obtain ⟨d, hd⟩ := hcopy (Buf.length_lt_of_text hp)
    dsimp only
    rw [run_ofOption_bind, hp, Option.bind_some, run_ofOption_bind, hd]
    rfl

theorem FsState.Inv.chmod_ends (h : s.Inv) (name : CString) (mode : U16) :
    ((fsChmod name mode).run s).isSome = true := by
  rw [fsChmod, run_bind_eq (h.openRun name)]
  cases hfound : fsLookup s.fs name with
  | none => rfl
  | some i =>
    obtain ⟨hi, f, -, hf⟩ := h.found hfound
    dsimp only [Option.map_some]
    rw [run_getFile_bind, hf, Option.bind_some, run_putFile_bind,
      setFile?_slot _ (Nat.lt_of_lt_of_le hi h.fileCount_le)]
    rfl

/-- A call whose result is dropped ends where the call does. -/
theorem run_drop_isSome {α : Type} {x : FsM α} (h : (x.run s).isSome = true) :
    ∃ t, (do let _ ← x : FsM Unit).run s = some ((), t) := by
  obtain ⟨⟨a, t⟩, hx⟩ := Option.isSome_iff_exists.mp h
  exact ⟨t, by rw [run_bind_eq hx]; rfl⟩

/-- **In a well-formed state every call ends.** -/
theorem FsOp.ends (op : FsOp) (h : s.Inv) (hfits : op.Fits s) : ∃ t, op.run.run s = some ((), t) := by
  have hactive : s.fs.activeFs ≠ .ext2 := by rw [h.active]; decide
  cases op with
  | createFile name => exact run_drop_isSome (fsCreateFile_ends hactive h.liveNames name)
  | write i offset buf len =>
    obtain ⟨f, hf⟩ := h.liveFile hfits.1
    obtain ⟨n, t, hrun⟩ :=
      h.write_ends (Nat.lt_of_lt_of_le hfits.1 h.fileCount_le) hf buf hfits.2
    exact run_drop_isSome (by rw [hrun]; rfl)
  | createDir name =>
    obtain ⟨c, hc⟩ := h.currentDir
    exact run_drop_isSome (fsCreateDir_ends hactive h.liveDirs_text hc name)
  | changeDir path => exact run_drop_isSome (fsChangeDir_ends hactive h.liveDirs_text path)
  | chmod name mode => exact run_drop_isSome (h.chmod_ends name mode)

/-! ## Every state is well formed -/

theorem FsStarted.inv (h : FsStarted s) : s.Inv := by
  obtain ⟨used, archive, run, active⟩ := h
  refine fsInit_inv used ?_ run active
  rcases archive with hnil | ⟨base, len, r, hinit⟩
  · rw [hnil]
    exact nofun
  · exact initramfsInit_size hinit

/-- A call keeps the invariant. -/
theorem FsStep.inv {op : FsOp} (h : s.Inv) (hstep : FsStep s op t) : t.Inv := by
  obtain ⟨hfits, hrun⟩ := hstep
  cases op with
  | createFile name =>
    obtain ⟨r, hcall⟩ := run_discard_iff.mp hrun
    exact h.createFile hcall
  | write i offset buf len =>
    obtain ⟨n, hcall⟩ := run_discard_iff.mp hrun
    exact h.write hfits.1 hfits.2 hcall
  | createDir name =>
    obtain ⟨b, hcall⟩ := run_discard_iff.mp hrun
    exact h.createDir hcall
  | changeDir path =>
    obtain ⟨b, hcall⟩ := run_discard_iff.mp hrun
    exact h.changeDir hcall
  | chmod name mode =>
    obtain ⟨b, hcall⟩ := run_discard_iff.mp hrun
    exact h.chmod hcall

theorem FsReachable.inv (h : FsReachable s) : s.Inv := by
  obtain ⟨s₁, ops, hstart, hrun⟩ := h
  exact hrun.invariant (fun _ _ _ h hstep => FsStep.inv h hstep) hstart.inv

/-- **Every state that is reached is well formed.** -/
theorem fs_invariant (s : FsState) (h : FsReachable s) : s.fs.Inv s.memUsed := h.inv

/-- The file system without any file. -/
def emptyFs : FsState := { FsState.zero with fs := rootMount }

theorem emptyFs_started : FsStarted emptyFs := 
  @FsStarted.init FsState.zero emptyFs (by decide) (Or.inl rfl) rfl nofun

/-- A file and a directory are made. -/
theorem fs_invariant_emptyFs :
    ∃ s : FsState, s.fs.fileCount = 2 ∧ s.fs.dirCount = 2 ∧ s.fs.Inv s.memUsed := by
  have hfile : FsStep emptyFs (.createFile (CString.ofChars ['a'])) _ := ⟨trivial, rfl⟩
  have hrun := Run.snoc (Run.snoc (.nil emptyFs) hfile)
    (⟨trivial, rfl⟩ : FsStep _ (.createDir (CString.ofChars ['d'])) _)
  exact ⟨_, rfl, rfl, fs_invariant _ ⟨emptyFs, _, emptyFs_started, hrun⟩⟩

end PpoOS
