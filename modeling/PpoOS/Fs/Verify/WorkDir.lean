import PpoOS.Fs.Verify.Resolve
import PpoOS.Fs.Verify.Dirs
import PpoOS.Lib.Transition

/-!
# The working directory on an ext2 image

`fs_change_dir` makes an absolute path in a buffer of 128 bytes, and both the file
system and the driver keep a copy of it.  **`fsChangeDir_ext2`** says what a call
does; everything about the working directory comes from it.
-/

namespace PpoOS

open FaultState FsM Transition Path

variable {s t : FsState} {c path : CString} {p : Ptr}

/-! ## The absolute path -/

/-- The path as it is, or behind the working directory. -/
def absPath (c path : CString) : CString :=
  if path.chars.head? = some 0x2F#8 then path
  else if c.length = 0 ∨ c.chars.getLast? ≠ some 0x2F#8 then c ++ slash ++ path
  else c ++ path

/-- A relative path from a directory whose name fills the buffer, without a slash at its end. -/
def Overruns (c path : CString) : Prop :=
  path.length ≠ 0 ∧ path.chars.head? ≠ some 0x2F#8 ∧ c.length = 127 ∧ c.chars.getLast? ≠ some 0x2F#8

instance (c path : CString) : Decidable (Overruns c path) :=
  inferInstanceAs (Decidable (_ ∧ _ ∧ _ ∧ _))

/-- What is left of the buffer. -/
theorem room_toNat {n : Nat} (h : n ≤ 127) : (128#64 - BitVec.ofNat 64 n - 1#64).toNat = 127 - n := by
  have hn : (BitVec.ofNat 64 n).toNat = n := by
    rw [BitVec.toNat_ofNat]
    omega
  rw [BitVec.toNat_sub, BitVec.toNat_sub, hn]
  simp
  omega

theorem take_append_take (a b : CString) {n : Nat} (h : a.length ≤ n) :
    a ++ b.take (n - a.length) = (a ++ b).take n := by
  ext1
  rw [CString.chars_append, CString.chars_take, CString.chars_take, CString.chars_append,
    List.take_append, List.take_of_length_le h]
  rfl

/-- A relative path is joined to a copy of the working directory. -/
theorem fsAbsPath_relative {b : Buf fsMaxPath} (hc : b.text = some c) (hrel : path.chars.head? ≠ some 0x2F#8) :
    ∃ d : Buf fsMaxPath, d.text = some c ∧ fsAbsPath b path =
      if c.length = 0 ∨ c.chars.getLast? ≠ some 0x2F#8 then
        (strncat d slash (128#64 - BitVec.ofNat 64 c.length - 1#64).toNat).bind fun d =>
          strncat d path (128#64 - (BitVec.ofNat 64 c.length + 1#64) - 1#64).toNat
      else strncat d path (128#64 - BitVec.ofNat 64 c.length - 1#64).toNat := by
  have hlt := Buf.length_lt_of_text hc
  have hcopy : (Buf.ofText fsMaxPath (c.take (fsMaxPath - 1))).text = some c := by
    rw [Buf.text_ofText (take_length_lt c (by decide)), CString.take_of_length_le (Nat.le_sub_one_of_lt hlt)]
  refine ⟨_, hcopy, ?_⟩
  rw [fsAbsPath, if_neg hrel, hc]
  simp only [Option.bind_eq_bind, Option.bind_some, strncpyCut_eq _ _ (show 0 < fsMaxPath by decide), hcopy]

/-- A bounded join that stays in the buffer. -/
theorem length_le_of_text {b : Buf fsMaxPath} (hc : b.text = some c) : c.length ≤ 127 :=
  Nat.le_of_lt_succ (Buf.length_lt_of_text hc)

/-- Nothing is left for the slash, the next bound wraps around, and the write goes out of the
buffer. -/
theorem fsAbsPath_overruns {b : Buf fsMaxPath} (hc : b.text = some c) (h : Overruns c path) :
    fsAbsPath b path = none := by
  obtain ⟨hne, hrel, hlen, hlast⟩ := h
  obtain ⟨d, hd, hpath⟩ := fsAbsPath_relative hc hrel
  obtain ⟨a, ha, hat⟩ := strncat_some hd slash (m := 0) (by rw [hlen]; decide)
  rw [hpath, if_pos (Or.inr hlast), hlen, show (128#64 - BitVec.ofNat 64 127 - 1#64).toNat = 0 from rfl, ha,
    Option.bind_some, show (128#64 - (BitVec.ofNat 64 127 + 1#64) - 1#64).toNat = 2 ^ 64 - 1 from rfl,
    ← Option.not_isSome_iff_eq_none, strncat_isSome_iff hat, CString.length_append, CString.length_take, hlen]
  unfold fsMaxPath
  omega

/-- Otherwise the absolute path is built inside of its buffer, and cut to 127 characters. -/
theorem fsAbsPath_fits {b : Buf fsMaxPath} (hc : b.text = some c) (h : ¬Overruns c path) :
    ∃ a, fsAbsPath b path = some a ∧ a.text = some ((absPath c path).take 127) := by
  have hlen := length_le_of_text hc
  have hmax : fsMaxPath = 128 := rfl
  rw [absPath]
  by_cases habs : path.chars.head? = some 0x2F#8
  · rw [if_pos habs, fsAbsPath, if_pos habs, strncpyCut_eq _ _ (by decide)]
    exact ⟨_, rfl, Buf.text_ofText (take_length_lt path (by decide))⟩
  obtain ⟨d, hd, hpath⟩ := fsAbsPath_relative hc habs
  rw [if_neg habs, hpath, room_toNat hlen]
  by_cases hsep : c.length = 0 ∨ c.chars.getLast? ≠ some 0x2F#8
  · rw [if_pos hsep, if_pos hsep]
    by_cases hfull : c.length = 127
    · -- the buffer is full, so the path is empty
      have hempty : path = CString.empty := by
        rw [← CString.length_eq_zero]
        by_contra hne
        exact h ⟨hne, habs, hfull, hsep.resolve_left (by omega)⟩
      obtain ⟨a, ha, hat⟩ := strncat_some hd slash (m := 127 - c.length) (by rw [hfull]; decide)
      obtain ⟨a', ha', hat'⟩ := strncat_some hat path
        (m := (128#64 - (BitVec.ofNat 64 c.length + 1#64) - 1#64).toNat)
        (by rw [hempty, CString.length_append, CString.length_take, hfull]; decide)
      rw [ha, Option.bind_some, ha']
      refine ⟨a', rfl, hat'.trans (congrArg some ?_)⟩
      ext1
      rw [hempty, hfull]
      simp only [CString.chars_append, CString.chars_take, CString.chars_empty, List.append_nil, Nat.sub_self,
        List.take_zero, List.take_nil]
      rw [List.take_append, List.take_of_length_le (Nat.le_of_eq hfull)]
      change _ = c.chars ++ slash.chars.take (127 - c.length)
      rw [hfull]
      simp
    · obtain ⟨a, ha, hat⟩ := strncat_some hd slash (m := 127 - c.length) (by rw [slash_length]; omega)
      have hslash : slash.take (127 - c.length) = slash :=
        CString.take_of_length_le (by rw [slash_length]; omega)
      have hroom : (128#64 - (BitVec.ofNat 64 c.length + 1#64) - 1#64).toNat = 127 - (c ++ slash).length := by
        rw [CString.length_append, slash_length, ← BitVec.ofNat_add]
        exact room_toNat (by omega)
      rw [hslash] at hat
      have hlen' : (c ++ slash).length ≤ 127 := by rw [CString.length_append, slash_length]; omega
      obtain ⟨a', ha', hat'⟩ := strncat_some hat path (m := 127 - (c ++ slash).length) (by omega)
      rw [ha, Option.bind_some, hroom, ha']
      exact ⟨a', rfl, hat'.trans (congrArg some (take_append_take _ _ hlen'))⟩
  · rw [if_neg hsep, if_neg hsep]
    obtain ⟨a, ha, hat⟩ := strncat_some hd path (m := 127 - c.length) (by omega)
    exact ⟨a, ha, hat.trans (congrArg some (take_append_take _ _ hlen))⟩

/-! ## A call -/

/-- The state after a change to the directory `abs`. -/
def FsState.movedTo (s : FsState) (abs : CString) : FsState :=
  { s with
    fs := { s.fs with currentDir := Buf.ofText fsMaxPath abs }
    ext2 := { s.ext2 with currentDir := Buf.ofText fsMaxPath abs } }

/-- The inode that the absolute path leads to, after it was cut. -/
def FsState.target (s : FsState) (c path : CString) : Option (Option Ptr) :=
  ext2FindInodeByPath s.ext2 s.mem ((absPath c path).take 127)

/-- What a call with that inode does. -/
def FsState.enter (s : FsState) (abs : CString) : Option Ptr → Bool × FsState
  | some p => if inodeIsDir s.mem p = true then (true, s.movedTo abs) else (false, s)
  | none => (false, s)

/-- A joined path begins like the working directory. -/
theorem absPath_head (hc : c.chars.head? = some 0x2F#8) :
    (absPath c path).chars.head? = some 0x2F#8 := by
  rw [absPath]
  split
  · assumption
  · split
    · rw [CString.chars_append, CString.chars_append, List.append_assoc, List.head?_append, hc]
      rfl
    · rw [CString.chars_append, List.head?_append, hc]
      rfl

theorem take_head {m : Nat} (hm : m ≠ 0) (hc : c.chars.head? = some 0x2F#8) :
    (c.take m).chars.head? = some 0x2F#8 := by
  rw [CString.chars_take, List.head?_take, if_neg hm, hc]

theorem absPath_take_head (path : CString) (hc : c.chars.head? = some 0x2F#8) :
    ((absPath c path).take 127).chars.head? = some 0x2F#8 :=
  take_head (by decide) (absPath_head hc)

theorem length_ne_zero_of_head (hc : c.chars.head? = some 0x2F#8) : c.length ≠ 0 := by
  intro h
  rw [CString.length_eq_zero] at h
  rw [h] at hc
  cases hc

theorem ext2ChangeDir_run (h : path.chars.head? = some 0x2F#8) : (ext2ChangeDir path).run s =
    (ext2FindInodeByPath s.ext2 s.mem path).map fun o =>
      match o with
      | some p =>
        if inodeIsDir s.mem p = true then
          (true, { s with ext2 := { s.ext2 with currentDir := Buf.ofText fsMaxPath (path.take 127) } })
        else (false, s)
      | none => (false, s) := by
  rw [ext2ChangeDir, if_neg (length_ne_zero_of_head h), run_get_bind, run_ofOption_bind]
  cases ext2FindInodeByPath s.ext2 s.mem path with
  | none => rfl
  | some o =>
    cases o with
    | none => rfl
    | some p =>
      rw [Option.bind_some, Option.map_some]
      dsimp only
      by_cases hdir : inodeIsDir s.mem p = true
      · have hjoin : ext2JoinDir s.ext2.currentDir path = some (Buf.ofText fsMaxPath (path.take 127)) := by
          rw [ext2JoinDir, if_pos h]
          exact strncpyCut_eq s.ext2.currentDir path (by decide)
        rw [if_pos hdir, if_pos hdir, hjoin, run_ofOption_bind, Option.bind_some]
        rfl
      · rw [if_neg hdir, if_neg hdir]
        rfl

/-- **What `fs_change_dir` does on an ext2 image** with a path other than `/`. -/
theorem fsChangeDir_ext2 (hfs : s.fs.activeFs = .ext2) (hc : s.fs.currentDir.text = some c)
    (hhead : c.chars.head? = some 0x2F#8) (hne : path.length ≠ 0) (hroot : path ≠ slash) :
    (fsChangeDir path).run s = if Overruns c path then none
      else (s.target c path).map (s.enter ((absPath c path).take 127)) := by
  rw [fsChangeDir, if_neg hne, run_get_bind, if_neg (fun h => hroot (strcmp_eq_zero.mp h)), if_pos hfs,
    run_ofOption_bind]
  by_cases hover : Overruns c path
  · rw [if_pos hover, fsAbsPath_overruns hc hover]
    rfl
  obtain ⟨a, ha, hat⟩ := fsAbsPath_fits hc hover
  have habs := absPath_take_head path hhead
  have hcut : ((absPath c path).take 127).take 127 = (absPath c path).take 127 :=
    CString.take_of_length_le (by rw [CString.length_take]; exact Nat.min_le_left _ _)
  rw [if_neg hover, ha, Option.bind_some, run_ofOption_bind, hat, Option.bind_some, StateT.run_bind,
    ext2ChangeDir_run habs, FsState.target]
  cases ext2FindInodeByPath s.ext2 s.mem ((absPath c path).take 127) with
  | none => rfl
  | some o =>
    cases o with
    | none => rfl
    | some p =>
      rw [Option.map_some, Option.map_some, FsState.enter]
      dsimp only [Option.bind_eq_bind, Option.bind_some]
      by_cases hdir : inodeIsDir s.mem p = true
      · rw [if_pos hdir, if_pos hdir, if_pos rfl, strncpyCut_eq _ _ (by decide), run_ofOption_bind,
          Option.bind_some, hcut, show fsMaxPath - 1 = 127 from rfl, hcut]
        rfl
      · rw [if_neg hdir, if_neg hdir]
        rfl

/-! ## Runs -/

/-- An image was mounted, in the root directory as `fs_init` does. -/
def FsMounted (s : FsState) : Prop :=
  ∃ s₀ data size, s₀.fs.currentDir.text = some slash ∧ (fsMountExt2 data size).run s₀ = some (true, s)

/-- A call of `fs_change_dir`, whether it succeeds or not. -/
def DirStep (s : FsState) (path : CString) (t : FsState) : Prop :=
  ∃ b, (fsChangeDir path).run s = some (b, t)

/-- An image is mounted, and the working directory is an absolute path. -/
structure InImage (s : FsState) : Prop where
  active : s.fs.activeFs = .ext2
  cwd : ∃ c, s.fs.currentDir.text = some c ∧ c.chars.head? = some 0x2F#8

/-- How a call ends. -/
inductive DirOutcome (s : FsState) (c path : CString) : FsState → Prop
  | refused : DirOutcome s c path s
  /-- Only the file system's copy is changed. -/
  | root (hroot : path = slash) {d : Buf fsMaxPath} (hd : d.text = some slash) :
      DirOutcome s c path { s with fs := { s.fs with currentDir := d } }
  | moved (hroot : path ≠ slash) {p : Ptr} (target : s.target c path = some (some p))
      (dir : inodeIsDir s.mem p = true) : DirOutcome s c path (s.movedTo ((absPath c path).take 127))

theorem fsMountExt2_mounted {data : Ptr} {size : U64} (h : (fsMountExt2 data size).run s = some (true, t)) :
    t.fs.activeFs = .ext2 ∧ t.fs.currentDir = s.fs.currentDir ∧ t.ext2.currentDir.text = some slash := by
  rw [fsMountExt2, run_bind_iff] at h
  obtain ⟨b, s₁, hinit, h⟩ := h
  cases b with
  | false => cases h
  | true =>
    cases h
    rw [ext2Init, run_get_bind] at hinit
    by_cases hdetect : ext2Detect s.mem data size = true
    · rw [if_pos hdetect, run_ofOption_bind, Option.bind_eq_some_iff] at hinit
      obtain ⟨d, hd, hinit⟩ := hinit
      cases hinit
      exact ⟨rfl, rfl, strcpy_text hd⟩
    · rw [if_neg hdetect] at hinit
      cases hinit

theorem FsMounted.inImage (h : FsMounted s) : InImage s := by
  obtain ⟨s₀, data, size, hcwd, hrun⟩ := h
  obtain ⟨hfs, hdir, -⟩ := fsMountExt2_mounted hrun
  exact ⟨hfs, slash, by rw [hdir, hcwd], rfl⟩

theorem DirStep.outcome (hfs : s.fs.activeFs = .ext2) (hc : s.fs.currentDir.text = some c)
    (hhead : c.chars.head? = some 0x2F#8) (h : DirStep s path t) : DirOutcome s c path t := by
  obtain ⟨b, h⟩ := h
  by_cases hne : path.length = 0
  · rw [fsChangeDir, if_pos hne] at h
    cases h
    exact .refused
  by_cases hroot : path = slash
  · rw [fsChangeDir, if_neg hne, run_get_bind, if_pos (strcmp_eq_zero.mpr hroot), run_ofOption_bind,
      Option.bind_eq_some_iff] at h
    obtain ⟨d, hd, h⟩ := h
    cases h
    exact .root hroot (strcpy_text hd)
  rw [fsChangeDir_ext2 hfs hc hhead hne hroot] at h
  by_cases hover : Overruns c path
  · rw [if_pos hover] at h
    cases h
  rw [if_neg hover, Option.map_eq_some_iff] at h
  obtain ⟨o, htarget, h⟩ := h
  cases o with
  | none =>
    cases h
    exact .refused
  | some p =>
    rw [FsState.enter] at h
    by_cases hdir : inodeIsDir s.mem p = true
    · rw [if_pos hdir] at h
      cases h
      exact .moved hroot htarget hdir
    · rw [if_neg hdir] at h
      cases h
      exact .refused

/-- The text of the working directory after a change. -/
theorem movedTo_text (h : c.length ≤ 127) : (s.movedTo c).fs.currentDir.text = some c :=
  Buf.text_ofText (Nat.lt_succ_of_le h)

theorem length_take_le (c : CString) : (c.take 127).length ≤ 127 := by
  rw [CString.length_take]
  exact Nat.min_le_left _ _

theorem InImage.step (h : InImage s) (hstep : DirStep s path t) : InImage t := by
  obtain ⟨hfs, c, hc, hhead⟩ := h
  cases hstep.outcome hfs hc hhead with
  | refused => exact ⟨hfs, c, hc, hhead⟩
  | root _ hd => exact ⟨hfs, slash, hd, rfl⟩
  | moved =>
    exact ⟨hfs, _, movedTo_text (length_take_le _), absPath_take_head path hhead⟩

theorem InImage.run {paths : List CString} (h : FsMounted s) (hrun : Run DirStep s paths t) : InImage t :=
  hrun.invariant (fun _ _ _ h hstep => h.step hstep) h.inImage

end PpoOS
