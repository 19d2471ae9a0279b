import PpoOS.Lib.Path
import PpoOS.Fs.Verify.Calls

/-!
# Paths on an ext2 image

`ext2_find_inode_by_path` cuts a copy of the path into pieces as it goes.
**`ext2FindInodeByPath_eq`**: it walks from the root along the components of the
first 127 characters, so that what it finds depends on these only.
-/

namespace PpoOS

open FaultState FsM Path

variable {e : Ext2} {m : Memory} {path : CString} {p q : Ptr}

/-- The components of a path. -/
def pathComponents (l : List U8) : List (List U8) := components 0x2F#8 l

/-- One component of a path: the inode of a directory's entry. -/
def ext2Lookup (e : Ext2) (m : Memory) (p : Ptr) (component : List U8) : Option (Option Ptr) :=
  if inodeIsDir m p = false then some none
  else
    match ext2ScanDir e m p component with
    | none => some none
    | some num => ext2ReadInode e m num

/-- The inode at the end of a path from `p` on. -/
def ext2Resolve (e : Ext2) (m : Memory) : List (List U8) → Ptr → Option (Option Ptr) :=
  Path.walk (ext2Lookup e m)

/-- The pieces before and behind the first `c`. -/
theorem strchrCut_eq (c : U8) (s : List U8) :
    c ∉ (strchrCut c s).1 ∧
      match (strchrCut c s).2 with
      | none => s = (strchrCut c s).1
      | some rest => s = (strchrCut c s).1 ++ c :: rest := by
  induction s with
  | nil => exact ⟨nofun, rfl⟩
  | cons d s ih =>
    rw [strchrCut]
    by_cases hd : d = c
    · rw [if_pos hd, hd]
      exact ⟨nofun, rfl⟩
    · obtain ⟨hnot, hrest⟩ := ih
      rw [if_neg hd]
      refine ⟨fun hm => ?_, ?_⟩
      · rcases List.mem_cons.mp hm with rfl | hm
        · exact hd rfl
        · exact hnot hm
      · dsimp only
        cases h : (strchrCut c s).2 with
        | none =>
          rw [h] at hrest
          exact congrArg (d :: ·) hrest
        | some rest =>
          rw [h] at hrest
          exact congrArg (d :: ·) hrest

/-- The components are the first piece, where it is not empty, and those of the rest. -/
theorem pathComponents_cut (token : List U8) : pathComponents token =
    (if (strchrCut 0x2F#8 token).1 = [] then [] else [(strchrCut 0x2F#8 token).1]) ++
      pathComponents ((strchrCut 0x2F#8 token).2.getD []) := by
  obtain ⟨hnot, hrest⟩ := strchrCut_eq 0x2F#8 token
  have hfirst : pathComponents (strchrCut 0x2F#8 token).1 =
      if (strchrCut 0x2F#8 token).1 = [] then [] else [(strchrCut 0x2F#8 token).1] := by
    by_cases hempty : (strchrCut 0x2F#8 token).1 = []
    · rw [if_pos hempty, hempty]
      exact components_nil
    · rw [if_neg hempty]
      exact components_single hnot hempty
  rw [← hfirst]
  cases hr : (strchrCut 0x2F#8 token).2 with
  | none =>
    rw [hr] at hrest
    have hnone : pathComponents [] = [] := components_nil
    rw [Option.getD_none, hnone, List.append_nil, ← hrest]
  | some rest =>
    rw [hr] at hrest
    conv_lhs => rw [hrest]
    exact components_append

theorem strchrCut_rest_lt {token : List U8} (hnil : token ≠ []) :
    ((strchrCut 0x2F#8 token).2.getD []).length < token.length := by
  obtain ⟨-, hrest⟩ := strchrCut_eq 0x2F#8 token
  cases hr : (strchrCut 0x2F#8 token).2 with
  | none => exact List.length_pos_of_ne_nil hnil
  | some rest =>
    rw [hr] at hrest
    have hlen := congrArg List.length hrest
    rw [List.length_append, List.length_cons] at hlen
    rw [Option.getD_some]
    omega

/-- A loop that cuts the path at its slashes and looks every piece up walks along the components. -/
theorem walk_of_cut {lookup : Ptr → List U8 → Option (Option Ptr)} {w : Nat → List U8 → Ptr → Option (Option Ptr)}
    (hw : ∀ fuel token p, w (fuel + 1) token p =
      if token = [] then some (some p)
      else if (strchrCut 0x2F#8 token).1 = [] then w fuel ((strchrCut 0x2F#8 token).2.getD []) p
      else (lookup p (strchrCut 0x2F#8 token).1).bind fun o =>
        o.elim (some none) (w fuel ((strchrCut 0x2F#8 token).2.getD [])))
    (fuel : Nat) (token : List U8) (p : Ptr) (h : token.length < fuel) :
    w fuel token p = Path.walk lookup (pathComponents token) p := by
  induction fuel generalizing token p with
  | zero => exact absurd h (Nat.not_lt_zero _)
  | succ fuel ih =>
    rw [hw]
    by_cases hnil : token = []
    · rw [if_pos hnil, hnil]
      rfl
    have hshort := strchrCut_rest_lt hnil
    have hnext : w fuel ((strchrCut 0x2F#8 token).2.getD []) =
        Path.walk lookup (pathComponents ((strchrCut 0x2F#8 token).2.getD [])) :=
      funext fun q => ih _ q (by omega)
    have hcomp := pathComponents_cut token
    rw [if_neg hnil, hnext]
    by_cases hempty : (strchrCut 0x2F#8 token).1 = []
    · rw [if_pos hempty] at hcomp ⊢
      rw [hcomp, List.nil_append]
    · rw [if_neg hempty] at hcomp ⊢
      rw [hcomp, List.singleton_append, Path.walk_cons]

/-- The walk follows the components. -/
theorem ext2Walk_eq (fuel : Nat) (token : List U8) (p : Ptr) (h : token.length < fuel) :
    ext2Walk e m fuel token p = ext2Resolve e m (pathComponents token) p := by
  refine walk_of_cut (fun fuel token p => ?_) fuel token p h
  rw [ext2Walk, ext2Lookup]
  by_cases hdir : inodeIsDir m p = false
  · simp only [if_pos hdir, Option.bind_some, Option.elim_none]
  · simp only [if_neg hdir]
    cases ext2ScanDir e m p (strchrCut 0x2F#8 token).1 with
    | none => rfl
    | some num =>
      dsimp only
      cases ext2ReadInode e m num with
      | none => rfl
      | some o => cases o <;> rfl

/-- The copy of the path that is cut into pieces: its first 127 characters.  A slash at the front does
not count. -/
theorem walk_copy {lookup : Ptr → List U8 → Option (Option Ptr)} {w : Nat → List U8 → Ptr → Option (Option Ptr)}
    {root : Ptr} (hw : ∀ token, w (token.length + 1) token root = Path.walk lookup (pathComponents token) root) :
    ((strncpyCut (Buf.zero fsMaxPath) path).bind fun pathCopy => pathCopy.text.bind fun text =>
      let token := if text.chars.head? = some 0x2F#8 then text.chars.tail else text.chars
      w (token.length + 1) token root) = Path.walk lookup (pathComponents (path.take 127).chars) root := by
  have htext : (Buf.ofText fsMaxPath (path.take (fsMaxPath - 1))).text = some (path.take 127) :=
    Buf.text_ofText (take_length_lt path (by decide))
  rw [strncpyCut_eq _ _ (by decide), Option.bind_some, htext, Option.bind_some]
  dsimp only
  rw [hw]
  cases (path.take 127).chars with
  | nil => rfl
  | cons c cs =>
    by_cases hslash : c = 0x2F#8
    · rw [hslash, List.head?_cons, if_pos rfl, List.tail_cons]
      exact congrArg (fun l => Path.walk lookup l root) components_cons.symm
    · rw [if_neg (by simpa using hslash)]

/-- **The inode of a path** is at the end of the walk from the root along the components of its first
127 characters. -/
theorem ext2FindInodeByPath_eq (h : path.length ≠ 0) : ext2FindInodeByPath e m path =
    match ext2ReadInode e m 2#32 with
    | none => none
    | some none => some none
    | some (some root) => ext2Resolve e m (pathComponents (path.take 127).chars) root := by
  rw [ext2FindInodeByPath, if_neg h]
  cases ext2ReadInode e m 2#32 with
  | none => rfl
  | some o =>
    cases o with
    | none => rfl
    | some root =>
      rw [Option.bind_eq_bind, Option.bind_some]
      dsimp only
      by_cases hroot : strcmp path slash = 0
      · rw [if_pos hroot, strcmp_eq_zero.mp hroot]
        rfl
      · rw [if_neg hroot]
        exact walk_copy fun token => ext2Walk_eq _ _ _ (Nat.lt_succ_self _)

/-- The path leads from the root to the inode at `p`. -/
def Ext2.Names (e : Ext2) (m : Memory) (path : List U8) (p : Ptr) : Prop :=
  ∃ root, ext2ReadInode e m 2#32 = some (some root) ∧
    ext2Resolve e m (pathComponents path) root = some (some p)

theorem ext2FindInodeByPath_some (h : path.length ≠ 0) :
    ext2FindInodeByPath e m path = some (some p) ↔ e.Names m (path.take 127).chars p := by
  rw [ext2FindInodeByPath_eq h, Ext2.Names]
  cases hroot : ext2ReadInode e m 2#32 with
  | none => exact ⟨nofun, fun ⟨_, h, _⟩ => nomatch h⟩
  | some o =>
    cases o with
    | none => exact ⟨nofun, fun ⟨_, h, _⟩ => nomatch h⟩
    | some root =>
      constructor
      · intro h
        exact ⟨root, rfl, h⟩
      · rintro ⟨_, hr, h⟩
        cases hr
        exact h

/-- The empty path leads nowhere. -/
theorem length_ne_zero_of_find (h : ext2FindInodeByPath e m path = some (some p)) : path.length ≠ 0 := by
  intro hzero
  rw [ext2FindInodeByPath, if_pos hzero] at h
  cases h

theorem names_of_find (h : ext2FindInodeByPath e m path = some (some p)) : e.Names m (path.take 127).chars p :=
  (ext2FindInodeByPath_some (length_ne_zero_of_find h)).mp h

/-- The driver's state with another directory, other listed entries and another opened file. -/
def Ext2.withTables (e : Ext2) (d : Buf fsMaxPath) (files : List FsFile) (g : FsFile) : Ext2 :=
  { e with currentDir := d, fileCache := files, opened := g }

/-- They do not change what a path leads to. -/
theorem withTables_find (e : Ext2) (m : Memory) (d : Buf fsMaxPath) (files : List FsFile) (g : FsFile)
    (path : CString) : ext2FindInodeByPath (e.withTables d files g) m path = ext2FindInodeByPath e m path := by
  have hresolve : ext2Resolve (e.withTables d files g) m = ext2Resolve e m := rfl
  by_cases hlen : path.length = 0
  · rw [ext2FindInodeByPath, ext2FindInodeByPath, if_pos hlen, if_pos hlen]
  · rw [ext2FindInodeByPath_eq hlen, ext2FindInodeByPath_eq hlen, hresolve]
    rfl

/-! ## Opening -/

/-- The state after `ext2_open` of a path to the inode at `p`. -/
def FsState.openedAt (s : FsState) (path : CString) (p : Ptr) : FsState :=
  { s with ext2 := { s.ext2 with
    opened := inodeFile s.mem p (Buf.ofText 32 ((ext2FileName path).take 31)) } }

theorem ext2Open_run {s : FsState} (h : path.length ≠ 0) : (ext2Open path).run s =
    (ext2FindInodeByPath s.ext2 s.mem path).map fun o =>
      match o with
      | some p => (some .opened, s.openedAt path p)
      | none => (none, s) := by
  rw [ext2Open, if_neg h, run_get_bind, run_ofOption_bind]
  cases ext2FindInodeByPath s.ext2 s.mem path with
  | none => rfl
  | some o =>
    cases o with
    | none => rfl
    | some p =>
      rw [Option.bind_some, Option.map_some]
      dsimp only
      rw [strncpyCut_eq _ _ (by decide), run_ofOption_bind, Option.bind_some, run_putFile_bind]
      rfl

theorem fsOpen_ext2 {s : FsState} (hfs : s.fs.activeFs = .ext2) (path : CString) :
    (fsOpen path).run s = (ext2Open path).run s := by
  rw [fsOpen]
  by_cases h : path.length = 0
  · rw [if_pos h, ext2Open, if_pos h]
  · rw [if_neg h, run_get_bind, if_pos hfs]

end PpoOS
