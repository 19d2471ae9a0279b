import PpoOS.Fs.Verify.Hostile

/-!
# Looking up a path is a fold

`ext2_find_inode_by_path` cuts the path as it goes, and looks for every piece in the
records of the blocks of a directory.

* **`blockItems_chain`**: the loop over the records of a block comes to an end, and
  which records it visits.
* **`ext2FindInodeByPath_fold_iff`**: the inode of a path is the fold of the lookups
  in one directory over its components, from inode 2 on.  Slashes do not count.  It
  is so on every image whose root can be looked up without a division by zero.
-/

namespace PpoOS

open FaultState FsM Path

variable {e : Ext2} {m : Memory} {p : Ptr} {path : CString}

/-! ## The records of a block -/

/-- The records from `offset` on: up to the end of the block, or up to one without inode or length. -/
inductive RecordChain (blockSize : U32) (b : U64 → U8) : U64 → List DirItem → Prop
  | last {offset : U64} (h : ¬offset < blockSize.setWidth 64 ∨ dirStops b offset) : RecordChain blockSize b offset []
  | next {offset : U64} {ds : List DirItem} (hlt : offset < blockSize.setWidth 64) (hstops : ¬dirStops b offset)
      (rest : RecordChain blockSize b (dirNext b offset) ds) :
      RecordChain blockSize b offset (dirItem b offset :: ds)

/-- **The loop over the records ends**: it visits a chain of them. -/
theorem blockItems_chain {blockSize : U32} {b : U64 → U8} (fuel : Nat) (offset : U64)
    (hfuel : blockSize.toNat - offset.toNat < fuel) :
    RecordChain blockSize b offset (blockItems blockSize b fuel offset) := by
  induction fuel generalizing offset with
  | zero => exact absurd hfuel (Nat.not_lt_zero _)
  | succ fuel ih =>
    by_cases hlt : offset < blockSize.setWidth 64
    · by_cases hstops : dirStops b offset
      · rw [blockItems_stops hstops]
        exact .last (Or.inr hstops)
      · obtain ⟨hoff, hnext⟩ := dirNext_toNat hlt hstops
        rw [blockItems_cons hlt hstops]
        exact .next hlt hstops (ih _ (by omega))
    · rw [blockItems_end hlt]
      exact .last (Or.inl hlt)

/-! ## One component -/

/-- The inode with the number; none where it cannot be read. -/
def inodeAt (e : Ext2) (m : Memory) (num : U32) : Option Ptr := (ext2ReadInode e m num).join

/-- The records of a directory that a lookup comes to. -/
def dirScanned (e : Ext2) (m : Memory) (inode : Ptr) : List DirItem := (List.range 12).flatMap (scannedItems e m inode)

/-- **The lookup in one directory**: the inode of the first record with the name. -/
def dirLookup (e : Ext2) (m : Memory) (inode : Ptr) (component : List U8) : Option Ptr :=
  if inodeIsDir m inode = true then
    ((dirScanned e m inode).find? fun d => d.name = component).bind fun d => inodeAt e m d.inode
  else none

/-- Every inode can be looked up without a division by zero. -/
def NoDivision (e : Ext2) (m : Memory) : Prop := ∀ num, ∃ o, ext2ReadInode e m num = some o

theorem NoDivision.read (h : NoDivision e m) (num : U32) : ext2ReadInode e m num = some (inodeAt e m num) := by
  obtain ⟨o, ho⟩ := h num
  rw [inodeAt, ho]
  rfl

theorem ext2Lookup_eq (h : NoDivision e m) {component : List U8} (hc : 0#8 ∉ component) :
    ext2Lookup e m p component = some (dirLookup e m p component) := by
  rw [ext2Lookup, dirLookup]
  by_cases hdir : inodeIsDir m p = true
  · rw [if_neg (by simp [hdir]), if_pos hdir, ext2ScanDir_find hc, ← dirScanned]
    cases (dirScanned e m p).find? fun d => d.name = component with
    | none => rfl
    | some d => exact h.read d.inode
  · rw [if_pos (by simpa using hdir), if_neg hdir]

/-! ## The fold -/

/-- The path leads from inode 2 along its components; NULL stays NULL. -/
def pathFold (e : Ext2) (m : Memory) (path : CString) : Option Ptr :=
  (pathComponents path.chars).foldl (fun current c => current.bind fun p => dirLookup e m p c) (inodeAt e m 2#32)

/-- The lookup of a path is a fold. -/
structure FoldsPath (e : Ext2) (m : Memory) (path : CString) : Prop where
  /-- The loop over the records of a block ends. -/
  records : ∀ block, RecordChain e.blockSize (blockBuffer e m block) 0#64
    (blockItems e.blockSize (blockBuffer e m block) (e.blockSize.toNat + 1) 0#64)
  /-- The walk ends, with what the fold gives. -/
  result : ext2FindInodeByPath e m path = some (pathFold e m path)
  /-- Slashes make no difference. -/
  slashes : ∀ path' : CString, path'.length ≠ 0 → path'.length ≤ 127 →
    pathComponents path'.chars = pathComponents path.chars →
      ext2FindInodeByPath e m path' = ext2FindInodeByPath e m path

theorem FoldsPath.isSome (h : FoldsPath e m path) : (ext2FindInodeByPath e m path).isSome = true := by
  rw [h.result]
  rfl

/-- To look the root up does not divide by zero. -/
def RootDefined (e : Ext2) (m : Memory) : Prop :=
  e.inodesPerGroup m = 0#32 → e.data = Ptr.null ∨ e.superblock = Ptr.null ∨ e.inodesCount m < 2#32

theorem rootDefined_iff : RootDefined e m ↔ (ext2ReadInode e m 2#32).isSome = true := by
  rw [ext2ReadInode]
  by_cases hnull : e.data = Ptr.null ∨ e.superblock = Ptr.null ∨ 2#32 = 0#32 ∨ 2#32 > e.inodesCount m
  · rw [if_pos hnull]
    refine ⟨fun _ => rfl, fun _ _ => ?_⟩
    rcases hnull with h | h | h | h
    · exact Or.inl h
    · exact Or.inr (Or.inl h)
    · cases h
    · exact Or.inr (Or.inr h)
  · rw [if_neg hnull]
    obtain ⟨hdata, hsuper, -, hcount⟩ := by simpa only [not_or] using hnull
    by_cases hgroups : e.inodesPerGroup m = 0#32
    · rw [if_pos hgroups]
      constructor
      · intro h
        rcases h hgroups with h | h | h
        · exact absurd h hdata
        · exact absurd h hsuper
        · exact absurd h hcount
      · exact fun h => Bool.noConfusion h
    · rw [if_neg hgroups]
      refine ⟨fun _ => ?_, fun _ h => absurd h hgroups⟩
      dsimp only
      split <;> rfl

/-- Where the root is read, every inode can be looked up. -/
theorem noDivision_of_root {root : Ptr} (h : ext2ReadInode e m 2#32 = some (some root)) : NoDivision e m :=
  (ext2ReadInode_some h).2.2

theorem ext2Resolve_eq (h : NoDivision e m) (path : CString) (p : Ptr) :
    ext2Resolve e m (pathComponents path.chars) p =
      some ((pathComponents path.chars).foldl (fun current c => current.bind fun p => dirLookup e m p c) (some p)) :=
  walk_foldl (fun _ _ hc => ext2Lookup_eq h fun h0 => path.nonzero (mem_of_mem_components hc h0)) p

/-- **Looking up a path is a fold** over its components, exactly where the root can be looked up. -/
theorem ext2FindInodeByPath_fold_iff (e : Ext2) (m : Memory) (path : CString) (hne : path.length ≠ 0)
    (hlen : path.length ≤ 127) : FoldsPath e m path ↔ RootDefined e m := by
  have hfind : ∀ q : CString, q.length ≠ 0 → q.length ≤ 127 → ext2FindInodeByPath e m q =
      (ext2ReadInode e m 2#32).bind fun o => o.elim (some none) (ext2Resolve e m (pathComponents q.chars)) := by
    intro q hq hql
    rw [ext2FindInodeByPath_eq hq, CString.take_of_length_le hql]
    cases ext2ReadInode e m 2#32 with
    | none => rfl
    | some o => cases o <;> rfl
  rw [rootDefined_iff]
  constructor
  · intro h
    have hsome := h.isSome
    rw [hfind path hne hlen] at hsome
    cases hroot : ext2ReadInode e m 2#32 with
    | none =>
      rw [hroot] at hsome
      cases hsome
    | some o => rfl
  · intro h
    obtain ⟨o, hroot⟩ := Option.isSome_iff_exists.mp h
    refine ⟨fun block => blockItems_chain _ _ (Nat.lt_succ_of_le (Nat.sub_le _ _)), ?_, fun q hq hql hsame => ?_⟩
    · rw [hfind path hne hlen, pathFold, inodeAt, hroot]
      cases o with
      | none => exact congrArg some (foldl_bind_none _).symm
      | some root => exact ext2Resolve_eq (noDivision_of_root hroot) path root
    · rw [hfind q hq hql, hfind path hne hlen, hsame]

/-- The file of the small image. -/
theorem ext2FindInodeByPath_fold_diskFs : FoldsPath diskFs.ext2 diskFs.mem fPath :=
  (ext2FindInodeByPath_fold_iff diskFs.ext2 diskFs.mem fPath (by decide) (by decide)).mpr
    fun h => absurd h (by decide +kernel)

/-- On the image without inodes in a group, not even the root is looked up. -/
theorem noGroupsFs_not_folds : ∃ s, (ext2Init (.pool 0#64) 2048#64).run noGroupsFs = some (true, s) ∧
    ¬FoldsPath s.ext2 s.mem slash := by
  refine ⟨_, rfl, fun h => absurd h.isSome ?_⟩
  decide +kernel

end PpoOS
