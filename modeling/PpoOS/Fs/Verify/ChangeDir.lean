import PpoOS.Fs.Verify.Import
import PpoOS.Fs.Verify.WorkDir

/-!
# Four questions about the working directory

* **`fsAbsPath_inBounds_iff`**: where the absolute path stays inside of its buffer.
* **`longPath_refused_iff`**: where a path that is too long is refused.
* **`cwd_in_sync`**: the two copies agree as long as `/` is only entered from `/`.
* **`cwd_real`**: the working directory is a directory as long as no other inode with
  the directory bit is entered.
-/

namespace PpoOS

open FaultState FsM Transition Path

variable {s t : FsState} {c path : CString} {p : Ptr}

/-! ## An image -/

/-- A directory record. -/
def dirEntry (inode recLen : Nat) (name : List U8) : List U8 :=
  [BitVec.ofNat 8 inode, 0#8, 0#8, 0#8, BitVec.ofNat 8 recLen, BitVec.ofNat 8 (recLen / 256),
    BitVec.ofNat 8 name.length, 0#8] ++ name

/-- The characters `aaa...`, 126 of them. -/
def longName : List U8 := List.replicate 126 0x61#8

/-- The parts of an image with blocks of 1024 bytes that are not zero, with their offsets. -/
def imageParts : List (Nat × List U8) :=
  -- the superblock and the group descriptor
  [(1024, [16#8]), (1028, [16#8]), (1044, [1#8]), (1064, [16#8]), (1080, [0x53#8, 0xEF#8]), (1112, [128#8]),
    (2056, [3#8]),
    -- inode 2: the root directory
    (3200, [0xED#8, 0x41#8, 0#8, 0#8, 0#8, 4#8]), (3228, [2#8]), (3240, [5#8]),
    -- inode 3: a block device
    (3328, [0xB0#8, 0x61#8]),
    -- inode 4: a directory
    (3456, [0xED#8, 0x41#8, 0#8, 0#8, 0#8, 4#8]), (3484, [2#8]), (3496, [6#8]),
    -- inodes 5 and 6: files
    (3584, [0xA4#8, 0x81#8, 0#8, 0#8, 1#8]), (3612, [2#8]), (3624, [7#8]),
    (3712, [0xA4#8, 0x81#8, 0#8, 0#8, 1#8]), (3740, [2#8]), (3752, [8#8]),
    -- the two directories
    (5120, dirEntry 2 136 longName), (5256, dirEntry 3 12 [0x62#8]), (5268, dirEntry 4 12 [0x64#8]),
    (5280, dirEntry 5 12 [0x66#8]), (5292, dirEntry 6 852 [0x67#8]), (6144, dirEntry 6 1024 [0x68#8]),
    -- the contents of the files
    (7168, [0x78#8]), (8192, [0x79#8])]

def diskByte (i : Nat) : U8 :=
  match imageParts.find? fun part => part.1 ≤ i && i < part.1 + part.2.length with
  | some part => part.2.getD (i - part.1) 0#8
  | none => 0#8

/-- The image lies at 65536. -/
def imageMemory : Memory where
  pool := fun _ => 0#8
  other := fun a => diskByte (a - 65536#64).toNat
  poolBase := 0#64

/-- The file system with the image. -/
def imageFs : FsState :=
  { FsState.zero with
    fs := { rootMount with activeFs := .ext2 }
    mem := imageMemory
    ext2 := { FsState.zero.ext2 with
      data := .addr 65536#64
      size := 16384#64
      superblock := .addr 66560#64
      blockSize := 1024#32
      currentDir := Buf.ofText fsMaxPath slash } }

theorem imageFs_mounted : FsMounted imageFs :=
  ⟨{ FsState.zero with fs := rootMount, mem := imageMemory }, .addr 65536#64, 16384#64, rfl, rfl⟩

/-- `/aaa...` -/
def longDir : CString := ⟨0x2F#8 :: longName, by decide⟩

theorem longDir_length : longDir.length = 127 := congrArg (· + 1) List.length_replicate

theorem longDir_take : longDir.take 127 = longDir := CString.take_of_length_le (Nat.le_of_eq longDir_length)

/-- The two directories of the root, and the device. -/
theorem imageFs_inodes : ext2ReadInode imageFs.ext2 imageMemory 2#32 = some (some (.addr 68736#64)) ∧
    inodeIsDir imageMemory (.addr 68736#64) = true ∧ pathComponents longDir.chars = [longName] ∧
      ext2FindInodeByPath imageFs.ext2 imageMemory (CString.ofChars ['/', 'b']) = some (some (.addr 68864#64)) ∧
        inodeIsDir imageMemory (.addr 68864#64) = true := by
  decide +kernel

theorem imageFs_scan : ext2ScanDir imageFs.ext2 imageMemory (.addr 68736#64) longName = some 2#32 := by
  decide +kernel

theorem imageFs_longDir :
    ext2FindInodeByPath imageFs.ext2 imageMemory longDir = some (some (.addr 68736#64)) := by
  obtain ⟨hroot, hdir, hcomponents, -⟩ := imageFs_inodes
  have hlen : longDir.length ≠ 0 := by
    rw [longDir_length]
    decide
  have hlookup : ext2Lookup imageFs.ext2 imageMemory (.addr 68736#64) longName = some (some (.addr 68736#64)) := by
    rw [ext2Lookup, hdir, if_neg Bool.noConfusion, imageFs_scan]
    exact hroot
  rw [ext2FindInodeByPath_some hlen, longDir_take, Ext2.Names, hcomponents]
  exact ⟨_, hroot, Path.walk_single.trans hlookup⟩

/-- A change to the directory that an absolute path names, cut to 127 characters. -/
theorem imageFs_change {q : Ptr} (hne : path ≠ slash) (hhead : path.chars.head? = some 0x2F#8)
    (hp : ext2FindInodeByPath imageFs.ext2 imageMemory (path.take 127) = some (some q))
    (hdir : inodeIsDir imageFs.mem q = true) :
    (fsChangeDir path).run imageFs = some (true, imageFs.movedTo (path.take 127)) := by
  have habs : absPath slash path = path := if_pos hhead
  have hover : ¬Overruns slash path := fun h => h.2.1 hhead
  have hcwd : imageFs.fs.currentDir.text = some slash := rfl
  have htarget : imageFs.target slash path = some (some q) := by
    rw [FsState.target, habs]
    exact hp
  rw [fsChangeDir_ext2 rfl hcwd rfl (length_ne_zero_of_head hhead) hne, if_neg hover, htarget,
    Option.map_some, FsState.enter, if_pos hdir, habs]

theorem longDir_change : DirStep imageFs longDir (imageFs.movedTo longDir) := by
  have hchange := @imageFs_change longDir _ (by decide) rfl (by rw [longDir_take]; exact imageFs_longDir)
    imageFs_inodes.2.1
  rw [longDir_take] at hchange
  exact ⟨true, hchange⟩

/-! ## The bounds of the copies -/

/-- The absolute path is written inside of its 128 bytes, and the driver's copy too. -/
def PathInBounds (s : FsState) (path : CString) : Prop :=
  ∃ a abs, fsAbsPath s.fs.currentDir path = some a ∧ a.text = some abs ∧
    (ext2JoinDir s.ext2.currentDir abs).isSome = true

theorem pathInBounds_iff (hc : s.fs.currentDir.text = some c) (hhead : c.chars.head? = some 0x2F#8) :
    PathInBounds s path ↔ ¬Overruns c path := by
  constructor
  · rintro ⟨a, abs, ha, -⟩ hover
    rw [fsAbsPath_overruns hc hover] at ha
    cases ha
  · intro hover
    obtain ⟨a, ha, hat⟩ := fsAbsPath_fits hc hover
    have habs := absPath_take_head path hhead
    refine ⟨a, _, ha, hat, ?_⟩
    rw [ext2JoinDir, if_pos habs]
    change (strncpyCut s.ext2.currentDir _).isSome = true
    rw [strncpyCut_eq _ _ (by decide)]
    rfl

/-- **The writes stay inside of the buffers** exactly where a relative path is not joined to a working
directory of 127 characters that does not end with a slash. -/
theorem fsAbsPath_inBounds_iff (s₁ s : FsState) (paths : List CString) (path : CString)
    (mounted : FsMounted s₁) (run : Run DirStep s₁ paths s) :
    PathInBounds s path ↔ ∀ c, s.fs.currentDir.text = some c → ¬Overruns c path := by
  obtain ⟨-, c, hc, hhead⟩ := InImage.run mounted run
  rw [pathInBounds_iff hc hhead]
  constructor
  · intro h c' hc'
    obtain rfl : c = c' := Option.some.inj (hc.symm.trans hc')
    exact h
  · intro h
    exact h c hc

/-- Into a directory and back, and then a relative path. -/
theorem fsAbsPath_inBounds_imageFs : ∃ s, Run DirStep imageFs [longDir, slash] s ∧
    (PathInBounds s (CString.ofChars ['b']) ↔
      ∀ c, s.fs.currentDir.text = some c → ¬Overruns c (CString.ofChars ['b'])) := by
  obtain ⟨s, hback⟩ : ∃ s, (fsChangeDir slash).run (imageFs.movedTo longDir) = some (true, s) := ⟨_, rfl⟩
  have hrun : Run DirStep imageFs [longDir, slash] s := .snoc (.snoc (.nil imageFs) longDir_change) ⟨true, hback⟩
  exact ⟨s, hrun, fsAbsPath_inBounds_iff imageFs s _ _ imageFs_mounted hrun⟩

/-- After `cd /aaa...` with 126 characters, `cd b` writes behind the buffer. -/
theorem longDir_not_inBounds : ∃ s₁ s paths, FsMounted s₁ ∧ Run DirStep s₁ paths s ∧
    ¬PathInBounds s (CString.ofChars ['b']) := by
  have hcwd : (imageFs.movedTo longDir).fs.currentDir.text = some longDir :=
    movedTo_text (Nat.le_of_eq longDir_length)
  refine ⟨imageFs, _, _, imageFs_mounted, .snoc (.nil imageFs) longDir_change, ?_⟩
  rw [pathInBounds_iff hcwd rfl, not_not]
  refine ⟨by decide, by decide, longDir_length, ?_⟩
  have hlast : longDir.chars.getLast? = some 0x61#8 := by
    have hname : longDir.chars = 0x2F#8 :: List.replicate 126 0x61#8 := rfl
    rw [hname, List.getLast?_cons, List.getLast?_replicate]
    rfl
  rw [hlast]
  decide

/-! ## Paths that are too long -/

/-- The path leads to a directory. -/
def FsState.NamesDir (s : FsState) (path : List U8) : Prop :=
  ∃ p, s.ext2.Names s.mem path p ∧ inodeIsDir s.mem p = true

theorem ext2Open_isNone_iff {r : Option FileRef} (hne : path.length ≠ 0)
    (h : (ext2Open path).run s = some (r, t)) :
    r = none ↔ ¬∃ p, s.ext2.Names s.mem (path.take 127).chars p := by
  rw [ext2Open_run hne, Option.map_eq_some_iff] at h
  obtain ⟨o, hfind, h⟩ := h
  cases o with
  | none =>
    cases h
    refine ⟨fun _ ⟨p, hp⟩ => ?_, fun _ => rfl⟩
    rw [← ext2FindInodeByPath_some hne, hfind] at hp
    cases hp
  | some p =>
    cases h
    exact ⟨nofun, fun hnot => absurd ⟨p, (ext2FindInodeByPath_some hne).mp hfind⟩ hnot⟩

theorem fsChangeDir_isFalse_iff {b : Bool} (hfs : s.fs.activeFs = .ext2)
    (hc : s.fs.currentDir.text = some c) (hhead : c.chars.head? = some 0x2F#8) (hne : path.length ≠ 0)
    (hroot : path ≠ slash) (h : (fsChangeDir path).run s = some (b, t)) :
    b = false ↔ ¬s.NamesDir ((absPath c path).take 127).chars := by
  have habs := absPath_take_head path hhead
  have hcut : ((absPath c path).take 127).take 127 = (absPath c path).take 127 :=
    CString.take_of_length_le (length_take_le _)
  have hnames : ∀ p, s.target c path = some (some p) ↔
      s.ext2.Names s.mem ((absPath c path).take 127).chars p := by
    intro p
    rw [FsState.target, ext2FindInodeByPath_some (length_ne_zero_of_head habs), hcut]
  rw [fsChangeDir_ext2 hfs hc hhead hne hroot] at h
  by_cases hover : Overruns c path
  · rw [if_pos hover] at h
    cases h
  rw [if_neg hover, Option.map_eq_some_iff] at h
  obtain ⟨o, htarget, h⟩ := h
  cases o with
  | none =>
    cases h
    refine ⟨fun _ hdirs => ?_, fun _ => rfl⟩
    obtain ⟨p, hp, -⟩ := hdirs
    rw [← hnames, htarget] at hp
    cases hp
  | some p =>
    rw [FsState.enter] at h
    by_cases hdir : inodeIsDir s.mem p = true
    · rw [if_pos hdir] at h
      cases h
      exact ⟨fun ht => Bool.noConfusion ht, fun hnot => absurd ⟨p, (hnames p).mp htarget, hdir⟩ hnot⟩
    · rw [if_neg hdir] at h
      cases h
      refine ⟨fun _ hdirs => ?_, fun _ => rfl⟩
      obtain ⟨q, hq, hqdir⟩ := hdirs
      rw [← hnames, htarget] at hq
      cases hq
      exact hdir hqdir

/-- **A path whose absolute form is too long is refused** by both calls exactly where its first 127
characters name nothing, and those of the absolute form no directory. -/
theorem longPath_refused_iff (s t u : FsState) (c path : CString) (b : Bool) (r : Option FileRef)
    (image : InImage s) (cwd : s.fs.currentDir.text = some c) (long : 127 < (absPath c path).length)
    (changed : (fsChangeDir path).run s = some (b, t)) (opened : (fsOpen path).run s = some (r, u)) :
    (b = false ∧ r = none) ↔ path.length = 0 ∨
      (¬s.NamesDir ((absPath c path).take 127).chars ∧
        ¬∃ p, s.ext2.Names s.mem (path.take 127).chars p) := by
  obtain ⟨hfs, c', hc', hhead⟩ := image
  obtain rfl : c' = c := Option.some.inj (hc'.symm.trans cwd)
  by_cases hne : path.length = 0
  · rw [fsChangeDir, if_pos hne] at changed
    rw [fsOpen, if_pos hne] at opened
    cases changed
    cases opened
    exact ⟨fun _ => Or.inl hne, fun _ => ⟨rfl, rfl⟩⟩
  have hroot : path ≠ slash := by
    rintro rfl
    have habs : absPath c' slash = slash := if_pos rfl
    rw [habs] at long
    exact absurd long (by decide)
  rw [fsOpen_ext2 hfs] at opened
  rw [fsChangeDir_isFalse_iff hfs cwd hhead hne hroot changed, ext2Open_isNone_iff hne opened]
  exact ⟨Or.inr, fun h => h.resolve_left hne⟩

/-- `/aaa...` with one more character. -/
def longerDir : CString := longDir ++ CString.ofChars ['x']

theorem longerDir_absPath : absPath slash longerDir = longerDir := rfl

theorem longerDir_length : longerDir.length = 128 := by
  rw [longerDir, CString.length_append, longDir_length]
  rfl

theorem longerDir_take : longerDir.take 127 = longDir := by
  apply CString.ext
  exact List.take_left' longDir_length

theorem longerDir_ne_slash : longerDir ≠ slash := by
  intro h
  have hlen := longerDir_length
  rw [h] at hlen
  exact absurd hlen (by decide)

theorem longerDir_change : (fsChangeDir longerDir).run imageFs = some (true, imageFs.movedTo longDir) := by
  have hchange := @imageFs_change longerDir _ longerDir_ne_slash rfl
    (by rw [longerDir_take]; exact imageFs_longDir) imageFs_inodes.2.1
  rw [longerDir_take] at hchange
  exact hchange

theorem longerDir_open : ∃ t, (fsOpen longerDir).run imageFs = some (some .opened, t) := by
  have hfind : ext2FindInodeByPath imageFs.ext2 imageFs.mem longerDir = some (some (.addr 68736#64)) := by
    have hnames := (ext2FindInodeByPath_some (by rw [longDir_length]; decide)).mp imageFs_longDir
    rw [ext2FindInodeByPath_some (by rw [longerDir_length]; decide), longerDir_take]
    rw [longDir_take] at hnames
    exact hnames
  have hopen := @ext2Open_run longerDir imageFs (by rw [longerDir_length]; decide)
  rw [hfind, Option.map_some] at hopen
  exact ⟨_, (fsOpen_ext2 rfl longerDir).trans hopen⟩

theorem longPath_refused_imageFs : ∃ b r t u, (fsChangeDir longerDir).run imageFs = some (b, t) ∧
    (fsOpen longerDir).run imageFs = some (r, u) ∧ ((b = false ∧ r = none) ↔ longerDir.length = 0 ∨
      (¬imageFs.NamesDir ((absPath slash longerDir).take 127).chars ∧
        ¬∃ p, imageFs.ext2.Names imageFs.mem (longerDir.take 127).chars p)) := by
  obtain ⟨u, hopen⟩ := longerDir_open
  exact ⟨_, _, _, u, longerDir_change, hopen,
    longPath_refused_iff imageFs _ u slash longerDir true _ imageFs_mounted.inImage rfl
      (by rw [longerDir_absPath, longerDir_length]; decide) longerDir_change hopen⟩

/-- A path of 128 characters is not refused: both calls find what its first 127 characters name. -/
theorem longerDir_not_refused : 127 < (absPath slash longerDir).length ∧
    ∃ t u, (fsChangeDir longerDir).run imageFs = some (true, t) ∧
      (fsOpen longerDir).run imageFs = some (some .opened, u) := by
  obtain ⟨u, hopen⟩ := longerDir_open
  exact ⟨by rw [longerDir_absPath, longerDir_length]; decide, _, u, longerDir_change, hopen⟩

/-! ## The two copies -/

/-- Both copies of the working directory are the same string. -/
def InSync (s : FsState) : Prop :=
  ∃ c, s.fs.currentDir.text = some c ∧ s.ext2.currentDir.text = some c

/-- `/` is only entered from `/`. -/
def RootFromRoot (s : FsState) (path : CString) : Prop :=
  path = slash → s.fs.currentDir.text = some slash

theorem FsMounted.inSync (h : FsMounted s) : InSync s := by
  obtain ⟨s₀, data, size, hcwd, hrun⟩ := h
  obtain ⟨-, hdir, hext2⟩ := fsMountExt2_mounted hrun
  exact ⟨slash, by rw [hdir, hcwd], hext2⟩

theorem InSync.step (h : InSync s) (himage : InImage s) (hroot : RootFromRoot s path)
    (hstep : DirStep s path t) : InSync t := by
  obtain ⟨hfs, c, hc, hhead⟩ := himage
  obtain ⟨c', hc', he⟩ := h
  obtain rfl : c = c' := Option.some.inj (hc.symm.trans hc')
  cases hstep.outcome hfs hc hhead with
  | refused => exact ⟨c, hc, he⟩
  | root hslash hd =>
    obtain rfl : c = slash := Option.some.inj (hc.symm.trans (hroot hslash))
    exact ⟨slash, hd, he⟩
  | moved => exact ⟨_, movedTo_text (length_take_le _), movedTo_text (s := s) (length_take_le _)⟩

/-- **The two copies agree** in every state of a run in which `/` is only entered from `/`. -/
theorem cwd_in_sync (s₁ s : FsState) (paths : List CString) (mounted : FsMounted s₁)
    (run : Run (fun s path t => RootFromRoot s path ∧ DirStep s path t) s₁ paths s) : InSync s := by
  have hboth : InImage s ∧ InSync s := by
    refine run.invariant (I := fun s => InImage s ∧ InSync s) (fun _ _ _ h hstep => ?_)
      ⟨mounted.inImage, mounted.inSync⟩
    exact ⟨h.1.step hstep.2, h.2.step h.1 hstep.1 hstep.2⟩
  exact hboth.2

theorem cwd_in_sync_imageFs : InSync (imageFs.movedTo longDir) :=
  cwd_in_sync imageFs _ _ imageFs_mounted
    (.snoc (.nil imageFs) ⟨fun h => absurd h (by decide), longDir_change⟩)

/-- After `cd /aaa...` and `cd /` the copies differ. -/
theorem rootDir_not_inSync : ∃ s₁ s paths, FsMounted s₁ ∧ Run DirStep s₁ paths s ∧ ¬InSync s := by
  have hroot : DirStep (imageFs.movedTo longDir) slash _ := ⟨true, rfl⟩
  refine ⟨imageFs, _, _, imageFs_mounted, .snoc (.snoc (.nil imageFs) longDir_change) hroot, ?_⟩
  rintro ⟨c, hc, he⟩
  have hlong : (imageFs.movedTo longDir).fs.currentDir.text = some longDir :=
    movedTo_text (Nat.le_of_eq longDir_length)
  have hslash : some slash = some c := hc
  have hsame : some longDir = some c := hlong.symm.trans he
  exact absurd (hslash.trans hsame.symm) (by decide)

/-! ## The type of the working directory -/

/-- `mode & EXT2_S_IFMT` -/
def inodeType (m : Memory) (p : Ptr) : U16 := inodeMode m p &&& 0xF000#16

/-- The working directory leads to an inode whose type is directory. -/
def RealDir (s : FsState) : Prop :=
  ∃ c p, s.fs.currentDir.text = some c ∧ ext2FindInodeByPath s.ext2 s.mem c = some (some p) ∧
    inodeType s.mem p = ext2SIfdir

/-- The inode that the path leads to has the directory bit in its type only as a directory: it is no
block device, no socket, and of no unassigned type with that bit. -/
def TypeIsDir (s : FsState) (path : CString) : Prop :=
  ∀ c p, s.fs.currentDir.text = some c →
    s.ext2.Names s.mem ((absPath c path).take 127).chars p → inodeIsDir s.mem p = true →
      inodeType s.mem p = ext2SIfdir

/-- Inode 2 of the image is a directory. -/
def RootIsDir (s : FsState) : Prop :=
  ∃ root, ext2ReadInode s.ext2 s.mem 2#32 = some (some root) ∧ inodeType s.mem root = ext2SIfdir

theorem RootIsDir.slash (h : RootIsDir s) :
    ∃ p, ext2FindInodeByPath s.ext2 s.mem slash = some (some p) ∧ inodeType s.mem p = ext2SIfdir := by
  obtain ⟨root, hroot, htype⟩ := h
  refine ⟨root, (ext2FindInodeByPath_some (by decide)).mpr ⟨root, hroot, rfl⟩, htype⟩

/-- A change of the working directory alone does not change what paths lead to. -/
theorem realDir_movedTo {abs : CString} (hlen : abs.length ≤ 127)
    (hp : ext2FindInodeByPath s.ext2 s.mem abs = some (some p)) (htype : inodeType s.mem p = ext2SIfdir) :
    RealDir (s.movedTo abs) :=
  ⟨abs, p, movedTo_text hlen, (withTables_find s.ext2 s.mem _ s.ext2.fileCache s.ext2.opened abs).trans hp, htype⟩

theorem RealDir.step (h : RealDir s ∧ RootIsDir s) (himage : InImage s) (htype : TypeIsDir s path)
    (hstep : DirStep s path t) : RealDir t ∧ RootIsDir t := by
  obtain ⟨hreal, hroot⟩ := h
  obtain ⟨hfs, c, hc, hhead⟩ := himage
  cases hstep.outcome hfs hc hhead with
  | refused => exact ⟨hreal, hroot⟩
  | root _ hd =>
    obtain ⟨p, hp, hptype⟩ := hroot.slash
    exact ⟨⟨slash, p, hd, hp, hptype⟩, hroot⟩
  | moved _ target dir =>
    have habs := absPath_take_head path hhead
    have hnames := (ext2FindInodeByPath_some (length_ne_zero_of_head habs)).mp target
    rw [CString.take_of_length_le (length_take_le _)] at hnames
    exact ⟨realDir_movedTo (length_take_le _) target (htype c _ hc hnames dir), hroot⟩

/-- **The working directory is a directory** in every state of a run that enters no inode of another
type with the directory bit. -/
theorem cwd_real (s₁ s : FsState) (paths : List CString) (mounted : FsMounted s₁) (root : RootIsDir s₁)
    (run : Run (fun s path t => TypeIsDir s path ∧ DirStep s path t) s₁ paths s) : RealDir s := by
  have hstart : RealDir s₁ := by
    obtain ⟨c, hc, -⟩ := mounted.inSync
    obtain ⟨s₀, data, size, hcwd, hrun⟩ := mounted
    obtain ⟨-, hdir, -⟩ := fsMountExt2_mounted hrun
    obtain ⟨p, hp, htype⟩ := root.slash
    exact ⟨slash, p, by rw [hdir, hcwd], hp, htype⟩
  have hboth : InImage s ∧ RealDir s ∧ RootIsDir s := by
    refine run.invariant (I := fun s => InImage s ∧ RealDir s ∧ RootIsDir s) (fun _ _ _ h hstep => ?_)
      ⟨mounted.inImage, hstart, root⟩
    exact ⟨h.1.step hstep.2, RealDir.step h.2 h.1 hstep.1 hstep.2⟩
  exact hboth.2.1

/-- `/b` -/
def deviceDir : CString := CString.ofChars ['/', 'b']

theorem imageFs_types : inodeType imageMemory (.addr 68736#64) = ext2SIfdir ∧
    inodeType imageMemory (.addr 68864#64) ≠ ext2SIfdir := by
  decide +kernel

theorem imageFs_root : RootIsDir imageFs := ⟨.addr 68736#64, imageFs_inodes.1, imageFs_types.1⟩

theorem cwd_real_imageFs : RealDir (imageFs.movedTo longDir) := by
  have htype : TypeIsDir imageFs longDir := by
    intro c p hc hp _
    obtain rfl : slash = c := Option.some.inj hc
    have habs : absPath slash longDir = longDir := if_pos rfl
    have hlen : longDir.length ≠ 0 := by
      rw [longDir_length]
      decide
    rw [habs] at hp
    have hfind := (ext2FindInodeByPath_some hlen).mpr hp
    obtain rfl : Ptr.addr 68736#64 = p :=
      Option.some.inj (Option.some.inj (imageFs_longDir.symm.trans hfind))
    exact imageFs_types.1
  exact cwd_real imageFs _ _ imageFs_mounted imageFs_root (.snoc (.nil imageFs) ⟨htype, longDir_change⟩)

/-- A block device can be entered. -/
theorem deviceDir_not_real : ∃ s₁ s paths, FsMounted s₁ ∧ RootIsDir s₁ ∧ Run DirStep s₁ paths s ∧
    ¬RealDir s := by
  have hcut : deviceDir.take 127 = deviceDir := CString.take_of_length_le (by decide)
  have hchange := @imageFs_change deviceDir _ (by decide) rfl (by rw [hcut]; exact imageFs_inodes.2.2.2.1)
    imageFs_inodes.2.2.2.2
  rw [hcut] at hchange
  refine ⟨imageFs, _, _, imageFs_mounted, imageFs_root, .snoc (.nil imageFs) ⟨true, hchange⟩, ?_⟩
  rintro ⟨c, p, hc, hp, htype⟩
  obtain rfl : deviceDir = c :=
    Option.some.inj ((movedTo_text (s := imageFs) (c := deviceDir) (by decide)).symm.trans hc)
  have hfind := (withTables_find imageFs.ext2 imageFs.mem _ _ _ deviceDir).symm.trans hp
  obtain rfl : Ptr.addr 68864#64 = p := Option.some.inj (Option.some.inj (imageFs_inodes.2.2.2.1.symm.trans hfind))
  exact imageFs_types.2 htype

end PpoOS
