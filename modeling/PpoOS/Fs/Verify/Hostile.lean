import PpoOS.Fs.Verify.DataBounds

/-!
# Hostile images

The driver believes most of what an image says.  **`Ext2Call.checked_iff`**: on an
image that `ext2_init` accepted, a call divides by zero or reads outside of the
image, or of the block that it scans, exactly where its condition (`Ext2Call.Safe`)
does not hold.
-/

namespace PpoOS

open FaultState FsM Path Transition
open Checked (blockBytes)

variable {e : Ext2} {m : Memory} {p : Ptr} {path : CString}

/-! ## Listing -/

/-- A listing shows the record at `offset`: it is not one of the dot entries, and its inode can be read. -/
def listsRecord (e : Ext2) (m : Memory) (block : Ptr) (offset : U64) : Bool :=
  let entry := dirRecord (blockBytes m block) offset
  entry.recLen ≠ 0#16 && !isDotName (dirName (blockBytes m block) offset entry.nameLen.toNat) &&
    (ext2ReadInode e m entry.inode).join.isSome

/-- The places of the records that a listing looks at in a block, where `n` entries have been listed. -/
def listedRecords (e : Ext2) (m : Memory) (block : Ptr) : Nat → U64 → Nat → List U64
  | 0, _, _ => []
  | fuel + 1, offset, n =>
    if offset < e.blockSize.setWidth 64 ∧ n < fsMaxFiles then
      let entry := dirRecord (blockBytes m block) offset
      if entry.inode = 0#32 ∨ entry.recLen = 0#16 then [offset]
      else offset :: listedRecords e m block fuel (offset + entry.recLen.setWidth 64)
        (if listsRecord e m block offset = true then n + 1 else n)
    else []

/-- A record of a listing: the block holds what tells whether to list it, its inode can be looked up, and
where it is listed the block holds its name, and the image the fields of its inode. -/
def RecordSafe (e : Ext2) (m : Memory) (block : Ptr) (offset : U64) : Prop :=
  let entry := dirRecord (blockBytes m block) offset
  offset.toNat + Checked.listReads (blockBytes m block) offset ≤ e.blockSize.toNat ∧
    (entry.inode ≠ 0#32 → entry.recLen ≠ 0#16 →
      isDotName (dirName (blockBytes m block) offset entry.nameLen.toNat) = false →
        InodeSafe e m entry.inode ∧ ∀ inode, ext2ReadInode e m entry.inode = some (some inode) →
          offset.toNat + Checked.nameReads entry ≤ e.blockSize.toNat ∧ FieldsSafe e inode)

/-- How many entries there are after those of a block. -/
def listedCount (e : Ext2) (m : Memory) (block : Ptr) (fuel : Nat) (offset : U64) (n : Nat) : Nat :=
  n + (listedRecords e m block fuel offset n).countP (listsRecord e m block)

section Count

variable {block : Ptr} {offset : U64} {fuel n : Nat}

theorem ext2ReadInode_zero (e : Ext2) (m : Memory) : ext2ReadInode e m 0#32 = some none :=
  if_pos (Or.inr (Or.inr (Or.inl rfl)))

theorem listedCount_last (hin : offset < e.blockSize.setWidth 64 ∧ n < fsMaxFiles)
    (hend : (dirRecord (blockBytes m block) offset).inode = 0#32 ∨ (dirRecord (blockBytes m block) offset).recLen = 0#16) :
    listedCount e m block (fuel + 1) offset n = n := by
  have hlast : listsRecord e m block offset = false := by
    rw [listsRecord]
    rcases hend with hzero | hzero
    · rw [hzero, ext2ReadInode_zero]
      exact Bool.and_false _
    · simp [hzero]
  rw [listedCount, listedRecords, if_pos hin, if_pos hend]
  simp [hlast]

theorem listedCount_next (hin : offset < e.blockSize.setWidth 64 ∧ n < fsMaxFiles)
    (hend : ¬((dirRecord (blockBytes m block) offset).inode = 0#32 ∨
      (dirRecord (blockBytes m block) offset).recLen = 0#16)) :
    listedCount e m block (fuel + 1) offset n = listedCount e m block fuel
      (offset + (dirRecord (blockBytes m block) offset).recLen.setWidth 64)
      (if listsRecord e m block offset = true then n + 1 else n) := by
  rw [listedCount, listedRecords, if_pos hin, if_neg hend, listedCount, List.countP_cons]
  by_cases hl : listsRecord e m block offset = true
  · rw [if_pos hl, if_pos hl]
    omega
  · rw [if_neg hl, if_neg hl]
    rfl

theorem listsRecord_eq (hlen : (dirRecord (blockBytes m block) offset).recLen ≠ 0#16) :
    listsRecord e m block offset =
      (!isDotName (dirName (blockBytes m block) offset (dirRecord (blockBytes m block) offset).nameLen.toNat) &&
        (ext2ReadInode e m (dirRecord (blockBytes m block) offset).inode).join.isSome) := by
  rw [listsRecord]
  simp [hlen]

end Count

/-- A record that is not the last one of its block. -/
theorem ext2ListEntry_checks (h : e.Mounted) {block : Ptr} {offset : U64} {n : Nat} {entry : DirRecord}
    {next : Nat → Option Nat} {P : Nat → Prop} {g : Nat → Nat} (hentry : entry = dirRecord (blockBytes m block) offset)
    (hlen : entry.recLen ≠ 0#16) (hnext : ∀ n, Checks (next n) (P n) (some (g n))) :
    Checks
      (if isDotName (dirName (blockBytes m block) offset entry.nameLen.toNat) = true then next n
      else do
        match ← Checked.ext2ReadInode e m entry.inode with
        | none => next n
        | some inode =>
          Checked.record e.blockSize offset (Checked.nameReads entry)
          Checked.inodeFields e m inode
          next (n + 1))
      ((isDotName (dirName (blockBytes m block) offset entry.nameLen.toNat) = false →
        InodeSafe e m entry.inode ∧ ∀ inode, ext2ReadInode e m entry.inode = some (some inode) →
          offset.toNat + Checked.nameReads entry ≤ e.blockSize.toNat ∧ FieldsSafe e inode) ∧
        P (if listsRecord e m block offset = true then n + 1 else n))
      (some (g (if listsRecord e m block offset = true then n + 1 else n))) := by
  subst hentry
  rw [listsRecord_eq hlen]
  cases isDotName (dirName (blockBytes m block) offset (dirRecord (blockBytes m block) offset).nameLen.toNat) with
  | true => exact (hnext n).congr ⟨fun hP => ⟨nofun, hP⟩, fun hP => hP.2⟩
  | false =>
    have hread := ext2ReadInode_checks (m := m) h (dirRecord (blockBytes m block) offset).inode
    simp only [Bool.false_eq_true, if_false, Bool.not_false, Bool.true_and, forall_const]
    cases hinode : ext2ReadInode e m (dirRecord (blockBytes m block) offset).inode with
    | none =>
      rw [hinode] at hread
      exact (hread.stop _).congr ⟨False.elim, fun hs => nomatch (hread.passes hs.1.1).1 ▸ (hread.passes hs.1.1).2⟩
    | some o =>
      rw [hinode] at hread
      cases o with
      | none =>
        exact (hread.next (hnext n)).congr ⟨fun ⟨hs, hP⟩ => ⟨⟨hs, nofun⟩, hP⟩, fun ⟨hs, hP⟩ => ⟨hs.1, hP⟩⟩
      | some inode =>
        refine (hread.next ((record_checks _ _ _).next ((inodeFields_checks e m inode).next (hnext (n + 1))))).congr ?_
        constructor
        · rintro ⟨hs, hname, hfields, hP⟩
          exact ⟨⟨hs, fun _ hi => Option.some.inj (Option.some.inj hi) ▸ ⟨hname, hfields⟩⟩, hP⟩
        · rintro ⟨⟨hs, hall⟩, hP⟩
          obtain ⟨hname, hfields⟩ := hall inode rfl
          exact ⟨hs, hname, hfields, hP⟩

theorem ext2ListBlock_checks (h : e.Mounted) (block : Ptr) (fuel : Nat) (offset : U64) (n : Nat)
    (hfuel : e.blockSize.toNat - offset.toNat < fuel) : Checks (Checked.ext2ListBlock e m block fuel offset n)
      (∀ o ∈ listedRecords e m block fuel offset n, RecordSafe e m block o)
      (some (listedCount e m block fuel offset n)) := by
  induction fuel generalizing offset n with
  | zero => exact absurd hfuel (Nat.not_lt_zero _)
  | succ fuel ih =>
    rw [Checked.ext2ListBlock, listedRecords]
    by_cases hin : offset < e.blockSize.setWidth 64 ∧ n < fsMaxFiles
    · have hrecord := record_checks e.blockSize offset (Checked.listReads (blockBytes m block) offset)
      rw [if_pos hin, if_pos hin]
      dsimp only
      by_cases hend : (dirRecord (blockBytes m block) offset).inode = 0#32 ∨
          (dirRecord (blockBytes m block) offset).recLen = 0#16
      · rw [if_pos hend, listedCount_last hin hend]
        simp only [if_pos hend]
        refine (hrecord.next (Checks.done n)).congr ?_
        simp only [and_true, List.mem_singleton, forall_eq, RecordSafe]
        exact ⟨fun hs => ⟨hs, fun hi hl => absurd hend (not_or.mpr ⟨hi, hl⟩)⟩, fun hs => hs.1⟩
      · obtain ⟨hinode, hlen⟩ := not_or.mp hend
        have hrest := ext2ListEntry_checks (n := n) h rfl hlen fun n =>
          ih (offset + (dirRecord (blockBytes m block) offset).recLen.setWidth 64) n (next_record_lt hlen hin.1 hfuel)
        rw [if_neg hend, listedCount_next hin hend]
        simp only [if_neg hend]
        refine (hrecord.next hrest).congr ?_
        simp only [List.mem_cons, forall_eq_or_imp, RecordSafe]
        exact ⟨fun ⟨hs, hentry, hall⟩ => ⟨⟨hs, fun _ _ => hentry⟩, hall⟩,
          fun ⟨⟨hs, hentry⟩, hall⟩ => ⟨hs, hentry hinode hlen, hall⟩⟩
    · rw [listedCount, listedRecords, if_neg hin, if_neg hin]
      exact (Checks.done n).congr ⟨fun _ => nofun, fun _ => trivial⟩

/-- The entries that the driver lists. -/
theorem ext2ListBlock_length {block : Ptr} {fuel : Nat} {offset : U64} {acc files : List FsFile}
    (h : ext2ListBlock e m block fuel offset acc = some files) :
    files.length = listedCount e m block fuel offset acc.length := by
  induction fuel generalizing offset acc with
  | zero => cases h
  | succ fuel ih =>
    have hbytes : (fun i => m.load (block.add i)) = blockBytes m block := rfl
    rw [ext2ListBlock] at h
    by_cases hin : offset < e.blockSize.setWidth 64 ∧ acc.length < fsMaxFiles
    · simp only [if_pos hin, hbytes] at h
      by_cases hend : (dirRecord (blockBytes m block) offset).inode = 0#32 ∨
          (dirRecord (blockBytes m block) offset).recLen = 0#16
      · rw [if_pos hend] at h
        rw [listedCount_last hin hend]
        cases h
        rfl
      · rw [if_neg hend] at h
        rw [listedCount_next hin hend, listsRecord_eq (not_or.mp hend).2]
        cases hdot : isDotName (dirName (blockBytes m block) offset
            (dirRecord (blockBytes m block) offset).nameLen.toNat) with
        | true =>
          rw [if_pos hdot] at h
          exact ih h
        | false =>
          rw [if_neg (by rw [hdot]; exact Bool.false_ne_true)] at h
          obtain ⟨o, ho, h⟩ := Option.bind_eq_some_iff.mp h
          rw [ho]
          cases o with
          | none => exact ih h
          | some inode =>
            obtain ⟨name, -, h⟩ := Option.bind_eq_some_iff.mp h
            have hlen := ih h
            rw [List.length_append] at hlen
            exact hlen
    · rw [if_neg hin] at h
      rw [listedCount, listedRecords, if_neg hin]
      cases h
      rfl

/-- A direct block of a listing, where `n` entries have been listed. -/
def ListDirectSafe (e : Ext2) (m : Memory) (dir : Ptr) (n i : Nat) : Prop :=
  n < fsMaxFiles → e.Holds (dir.add (BitVec.ofNat 64 (40 + 4 * i))) 4 ∧
    (inodeBlock m dir i ≠ 0#32 → ∀ block, ext2ReadBlock e m (inodeBlock m dir i) = some block →
      ∀ o ∈ listedRecords e m block (e.blockSize.toNat + 1) 0#64 n, RecordSafe e m block o)

/-- How many entries there are after a direct block. -/
def listDirectCount (e : Ext2) (m : Memory) (dir : Ptr) (n i : Nat) : Nat :=
  if n < fsMaxFiles then
    if inodeBlock m dir i = 0#32 then n
    else
      match ext2ReadBlock e m (inodeBlock m dir i) with
      | none => n
      | some block => listedCount e m block (e.blockSize.toNat + 1) 0#64 n
  else n

theorem ext2ListDirect_checks (h : e.Mounted) (dir : Ptr) (n i : Nat) :
    Checks (Checked.ext2ListDirect e m dir n i) (ListDirectSafe e m dir n i)
      (some (listDirectCount e m dir n i)) := by
  rw [Checked.ext2ListDirect, listDirectCount]
  by_cases hroom : n < fsMaxFiles
  · rw [if_pos hroom, if_pos hroom]
    refine Checks.congr (Checks.next (inodeBlock_checks e m dir i) (Q := inodeBlock m dir i ≠ 0#32 → ∀ block,
      ext2ReadBlock e m (inodeBlock m dir i) = some block →
        ∀ o ∈ listedRecords e m block (e.blockSize.toNat + 1) 0#64 n, RecordSafe e m block o) ?_)
      ⟨fun hs _ => hs, fun hs => hs hroom⟩
    by_cases hzero : inodeBlock m dir i = 0#32
    · rw [if_pos hzero, if_pos hzero]
      exact (Checks.done n).congr ⟨fun _ hne => absurd hzero hne, fun _ => trivial⟩
    rw [if_neg hzero, if_neg hzero, ext2ReadBlock_checks h, Option.bind_eq_bind, Option.bind_some]
    cases ext2ReadBlock e m (inodeBlock m dir i) with
    | none => exact (Checks.done n).congr ⟨fun _ _ _ => nofun, fun _ => trivial⟩
    | some block =>
      exact (ext2ListBlock_checks h block _ _ n (Nat.lt_succ_of_le (Nat.sub_le _ _))).congr
        ⟨fun hall _ _ hb => Option.some.inj hb ▸ hall, fun hall => hall hzero block rfl⟩
  · rw [if_neg hroom, if_neg hroom]
    exact (Checks.done n).congr ⟨fun _ hlt => absurd hlt hroom, fun _ => trivial⟩

/-- `ext2_list`: every direct block, with as many entries listed as those before it give. -/
def ListSafe (e : Ext2) (m : Memory) (path : CString) : Prop :=
  PathSafe e m path ∧ ∀ dir, ext2FindInodeByPath e m path = some (some dir) →
    e.Holds dir 2 ∧ (inodeIsDir m dir = true →
      ∀ i < 12, ListDirectSafe e m dir ((List.range i).foldl (listDirectCount e m dir) 0) i)

theorem checkedList_checks (h : e.Mounted) (path : CString) :
    Checks (Checked.ext2List e m path) (ListSafe e m path)
      ((ext2FindInodeByPath e m path).bind fun o => some (o.elim 0 fun dir =>
        if inodeIsDir m dir = true then (List.range 12).foldl (listDirectCount e m dir) 0 else 0)) := by
  rw [Checked.ext2List]
  refine ((ext2FindInodeByPath_checks h path).bind (Q := fun o => ∀ dir, o = some dir →
    e.Holds dir 2 ∧ (inodeIsDir m dir = true →
      ∀ i < 12, ListDirectSafe e m dir ((List.range i).foldl (listDirectCount e m dir) 0) i))
    fun o _ => ?_).congr ⟨fun ⟨hpath, hall⟩ => ⟨hpath, fun dir hd => hall _ hd dir rfl⟩,
      fun ⟨hpath, hall⟩ => ⟨hpath, fun o ho dir hd => hall dir (hd ▸ ho)⟩⟩
  cases o with
  | none => exact (Checks.done 0).congr ⟨fun _ _ => nofun, fun _ => trivial⟩
  | some dir =>
    dsimp only
    have hloop := (Checks.fold (fun n i _ => ext2ListDirect_checks (m := m) h dir n i) 0).congr
      (@Checks.range_split 12 fun before i =>
        ListDirectSafe e m dir (before.foldl (listDirectCount e m dir) 0) i)
    refine (((inodeIsDir_checks e m dir).next
      (Checks.ite (fun _ => hloop) fun _ => Checks.done 0)).result fun _ => ?_).congr ?_
    · rw [Option.elim_some]
      split <;> rfl
    · exact ⟨fun ⟨hmode, hall, _⟩ _ hd => Option.some.inj hd ▸ ⟨hmode, hall⟩,
        fun hall => ⟨(hall dir rfl).1, (hall dir rfl).2, fun _ => trivial⟩⟩

theorem ext2ListDirect_length {dir : Ptr} {acc files : List FsFile} {i : Nat}
    (h : ext2ListDirect e m dir acc i = some files) : files.length = listDirectCount e m dir acc.length i := by
  rw [ext2ListDirect] at h
  rw [listDirectCount]
  by_cases hroom : acc.length < fsMaxFiles
  · rw [if_pos hroom]
    by_cases hzero : inodeBlock m dir i = 0#32
    · rw [if_neg fun hboth => hboth.2 hzero] at h
      rw [if_pos hzero]
      cases h
      rfl
    · rw [if_pos ⟨hroom, hzero⟩] at h
      rw [if_neg hzero]
      cases hblock : ext2ReadBlock e m (inodeBlock m dir i) with
      | none =>
        rw [hblock] at h
        cases h
        rfl
      | some block =>
        rw [hblock] at h
        exact ext2ListBlock_length h
  · rw [if_neg fun hboth => hroom hboth.1] at h
    rw [if_neg hroom]
    cases h
    rfl

theorem ext2ListDirects_length {dir : Ptr} {l : List Nat} {acc files : List FsFile}
    (h : l.foldlM (ext2ListDirect e m dir) acc = some files) :
    files.length = l.foldl (listDirectCount e m dir) acc.length := by
  induction l generalizing acc with
  | nil =>
    cases h
    rfl
  | cons i l ih =>
    obtain ⟨next, hnext, h⟩ := Option.bind_eq_some_iff.mp h
    rw [List.foldl_cons, ← ext2ListDirect_length hnext]
    exact ih h

/-- **The listing with checked reads counts the entries that `ext2_list` lists.** -/
theorem checkedList_length {s t : FsState} {files : List FsFile} {n : Nat} (h : s.ext2.Mounted)
    (hrun : (ext2List path).run s = some (files, t)) (hcount : Checked.ext2List s.ext2 s.mem path = some n) :
    n = files.length := by
  have hchecks := checkedList_checks (m := s.mem) h path
  have hsafe := hchecks.isSome_iff.mp (Option.isSome_iff_exists.mpr ⟨n, hcount⟩)
  have hpass := (hchecks.passes hsafe).1
  rw [hcount] at hpass
  rw [ext2List, run_get_bind, run_ofOption_bind, Option.bind_eq_some_iff] at hrun
  obtain ⟨o, hfind, hrun⟩ := hrun
  rw [hfind, Option.bind_some] at hpass
  obtain rfl := Option.some.inj hpass
  cases o with
  | none =>
    cases hrun
    rfl
  | some dir =>
    rw [Option.elim_some]
    by_cases hdir : inodeIsDir s.mem dir = true
    · simp only [if_pos hdir] at hrun
      rw [run_ofOption_bind, Option.bind_eq_some_iff] at hrun
      obtain ⟨listed, hlisted, hrun⟩ := hrun
      cases hrun
      rw [if_pos hdir]
      exact (ext2ListDirects_length hlisted).symm
    · simp only [if_neg hdir] at hrun
      cases hrun
      rw [if_neg hdir]
      rfl

/-! ## Changing the directory -/

/-- `ext2_change_dir`: the image also holds the mode of the inode. -/
def ChangeDirSafe (e : Ext2) (m : Memory) (path : CString) : Prop :=
  PathSafe e m path ∧ ∀ p, ext2FindInodeByPath e m path = some (some p) → e.Holds p 2

theorem checkedChangeDir_checks (h : e.Mounted) (path : CString) :
    Checks (Checked.ext2ChangeDir e m path) (ChangeDirSafe e m path)
      ((ext2FindInodeByPath e m path).bind fun o => some (o.elim false (inodeIsDir m))) := by
  rw [Checked.ext2ChangeDir]
  refine ((ext2FindInodeByPath_checks h path).bind (Q := fun o => ∀ p, o = some p → e.Holds p 2)
    fun o _ => ?_).congr ⟨fun ⟨hpath, hall⟩ => ⟨hpath, fun p hp => hall _ hp p rfl⟩,
      fun ⟨hpath, hall⟩ => ⟨hpath, fun o ho p hp => hall p (hp ▸ ho)⟩⟩
  cases o with
  | none => exact (Checks.done false).congr ⟨fun _ _ => nofun, fun _ => trivial⟩
  | some p =>
    exact (inodeIsDir_checks e m p).congr ⟨fun hs _ hp => Option.some.inj hp ▸ hs, fun hs => hs p rfl⟩

/-! ## Calls -/

/-- A call that returns. -/
def Ext2Step (s : FsState) (call : Ext2Call) (t : FsState) : Prop := call.run.run s = some ((), t)

/-- Nothing that a call reads outside of the image, and no division by zero. -/
def Ext2Call.Safe (e : Ext2) (m : Memory) : Ext2Call → Prop
  | .openFile path => OpenSafe e m path
  | .list path => ListSafe e m path
  | .changeDir path => ChangeDirSafe e m path
  | .read path offset len => OpenSafe e m path ∧
      ∀ p, ext2FindInodeByPath e m path = some (some p) → HandleSafe e m p offset len

/-- The same image, with another directory, other listed entries or another opened file. -/
def SameImage (s t : FsState) : Prop := t.mem = s.mem ∧ ∃ d files g, t.ext2 = s.ext2.withTables d files g

theorem SameImage.refl (s : FsState) : SameImage s s :=
  ⟨rfl, s.ext2.currentDir, s.ext2.fileCache, s.ext2.opened, rfl⟩

variable {s t : FsState}

theorem ext2Open_sameImage {r : Option FileRef} (h : (ext2Open path).run s = some (r, t)) : SameImage s t := by
  by_cases hlen : path.length = 0
  · rw [ext2Open, if_pos hlen] at h
    cases h
    exact .refl s
  rw [ext2Open_run hlen, Option.map_eq_some_iff] at h
  obtain ⟨o, -, h⟩ := h
  cases o with
  | none =>
    cases h
    exact .refl s
  | some p =>
    cases h
    exact ⟨rfl, s.ext2.currentDir, s.ext2.fileCache, _, rfl⟩

theorem ext2List_sameImage {files : List FsFile} (h : (ext2List path).run s = some (files, t)) : SameImage s t := by
  rw [ext2List_run, Option.bind_eq_some_iff] at h
  obtain ⟨o, -, h⟩ := h
  cases o with
  | none =>
    cases h
    exact .refl s
  | some dir =>
    dsimp only at h
    split at h
    · obtain ⟨files, -, h⟩ := Option.map_eq_some_iff.mp h
      cases h
      exact ⟨rfl, s.ext2.currentDir, files, s.ext2.opened, rfl⟩
    · cases h
      exact .refl s

theorem ext2ChangeDir_sameImage {b : Bool} (h : (ext2ChangeDir path).run s = some (b, t)) : SameImage s t := by
  rw [ext2ChangeDir] at h
  by_cases hlen : path.length = 0
  · rw [if_pos hlen] at h
    cases h
    exact .refl s
  rw [if_neg hlen, run_get_bind, run_ofOption_bind, Option.bind_eq_some_iff] at h
  obtain ⟨o, -, h⟩ := h
  cases o with
  | none =>
    cases h
    exact .refl s
  | some inode =>
    dsimp only at h
    split at h
    · rw [run_ofOption_bind, Option.bind_eq_some_iff] at h
      obtain ⟨d, -, h⟩ := h
      cases h
      exact ⟨rfl, d, s.ext2.fileCache, s.ext2.opened, rfl⟩
    · cases h
      exact .refl s

/-- A call leaves the image as it is. -/
theorem Ext2Step.sameImage {call : Ext2Call} (h : Ext2Step s call t) : SameImage s t := by
  cases call with
  | openFile path =>
    obtain ⟨r, u, hrun, hpure⟩ := run_bind_iff.mp h
    cases hpure
    exact ext2Open_sameImage hrun
  | list path =>
    obtain ⟨r, u, hrun, hpure⟩ := run_bind_iff.mp h
    cases hpure
    exact ext2List_sameImage hrun
  | changeDir path =>
    obtain ⟨r, u, hrun, hpure⟩ := run_bind_iff.mp h
    cases hpure
    exact ext2ChangeDir_sameImage hrun
  | read path offset len =>
    obtain ⟨r, u, hrun, hrest⟩ := run_bind_iff.mp h
    have hsame := ext2Open_sameImage hrun
    cases r with
    | none =>
      cases hrest
      exact hsame
    | some file =>
      dsimp only at hrest
      rw [run_getFile_bind, Option.bind_eq_some_iff] at hrest
      obtain ⟨f, -, hrest⟩ := hrest
      rw [run_get_bind, run_ofOption_bind, Option.bind_eq_some_iff] at hrest
      obtain ⟨_, -, hrest⟩ := hrest
      cases hrest
      exact hsame

/-- After the image was accepted, and any calls. -/
theorem ext2_run_mounted {calls : List Ext2Call} (hs : s.ext2.Mounted) (h : Run Ext2Step s calls t) :
    t.ext2.Mounted := by
  refine h.invariant (I := fun s => s.ext2.Mounted) (fun s call t hs hstep => ?_) hs
  obtain ⟨-, d, files, g, ht⟩ := hstep.sameImage
  rw [ht]
  exact ⟨hs.data, hs.size, hs.superblock⟩

/-- A read on the handle that `ext2_open` gives. -/
theorem checkedOpenRead_checks (h : e.Mounted) (path : CString) (offset len : U64) :
    Checks ((Ext2Call.read path offset len).checked e m) ((Ext2Call.read path offset len).Safe e m)
      (((ext2FindInodeByPath e m path).bind fun o => some (o.map (openedFile m path))).bind fun r =>
        r.elim (some ()) fun file => (ext2Read e m file offset len).bind fun _ => some ()) := by
  refine ((checkedOpen_checks h path).bind (Q := fun r => ∀ p, ext2FindInodeByPath e m path = some (some p) →
    HandleSafe e m p offset len) fun r hr => ?_).congr ?_
  · obtain ⟨o, hfind, ho⟩ := Option.bind_eq_some_iff.mp hr
    cases ho
    cases o with
    | none =>
      refine (Checks.done ()).congr ⟨fun _ p hp => ?_, fun _ => trivial⟩
      rw [hfind] at hp
      cases hp
    | some p =>
      obtain ⟨n, hn⟩ := (names_of_find hfind).readable
      have hread := (checkedRead_checks h hn path offset len).bind (Q := fun _ => True) fun _ _ => Checks.done ()
      refine hread.congr ⟨fun hs q hq => ?_, fun hs => ⟨hs p hfind, fun _ _ => trivial⟩⟩
      rw [hfind] at hq
      exact Option.some.inj (Option.some.inj hq) ▸ hs.1
  · constructor
    · rintro ⟨hopen, hall⟩
      exact ⟨hopen, fun p hp => hall (some (openedFile m path p)) (by rw [hp]; rfl) p hp⟩
    · exact fun ⟨hopen, hall⟩ => ⟨hopen, fun _ _ => hall⟩

theorem isSome_bind_unit {α : Type} (x : Option α) : (x.bind fun _ => some ()).isSome = true ↔ x.isSome = true := by
  cases x <;> exact Iff.rfl

theorem Ext2Call.checked_isSome (h : e.Mounted) (call : Ext2Call) :
    (call.checked e m).isSome = true ↔ call.Safe e m := by
  cases call with
  | openFile path => exact (isSome_bind_unit _).trans (checkedOpen_checks h path).isSome_iff
  | list path => exact (isSome_bind_unit _).trans (checkedList_checks h path).isSome_iff
  | changeDir path => exact (isSome_bind_unit _).trans (checkedChangeDir_checks h path).isSome_iff
  | read path offset len => exact (checkedOpenRead_checks h path offset len).isSome_iff

/-- **Where the driver stays inside an accepted image**: after any calls, a call neither divides by zero nor
reads outside of the image, or of the block that it scans, exactly where its condition holds. -/
theorem ext2_stays_inside_iff (s₀ s t : FsState) (data : Ptr) (size : U64) (calls : List Ext2Call) (call : Ext2Call)
    (accepted : (ext2Init data size).run s₀ = some (true, s)) (run : Run Ext2Step s calls t) :
    (call.checked t.ext2 t.mem).isSome = true ↔ call.Safe t.ext2 t.mem :=
  call.checked_isSome (ext2_run_mounted (ext2Init_mounted accepted) run)

/-- The small image, after its file was opened. -/
theorem ext2_stays_inside_diskFs : (Ext2Call.read fPath 0#64 1#64).Safe (diskFs.openedAt fPath (.pool 6400#64)).ext2
    diskFs.mem := by
  have hinit : (ext2Init (.pool 0#64) 16384#64).run { diskFs with ext2 := FsState.zero.ext2 } = some (true, diskFs) :=
    rfl
  have hopen : Ext2Step diskFs (.openFile fPath) (diskFs.openedAt fPath (.pool 6400#64)) :=
    run_bind_iff.mpr ⟨_, _, diskFs_open, rfl⟩
  exact (ext2_stays_inside_iff _ diskFs _ _ _ _ (.read fPath 0#64 1#64) hinit (.snoc (.nil diskFs) hopen)).mp
    (by decide +kernel)

/-- An image of a superblock alone, which says that there are two inodes, and none in a group. -/
def noGroupsFs : FsState :=
  { FsState.zero with
    mem := ⟨fun i => if i = 1024#64 then 2#8 else if i = 1080#64 then 0x53#8 else if i = 1081#64 then 0xEF#8
      else 0#8, fun _ => 0#8, 0#64⟩ }

/-- To look up its root divides by zero. -/
theorem noGroupsFs_divides : ∃ s, (ext2Init (.pool 0#64) 2048#64).run noGroupsFs = some (true, s) ∧
    (Ext2Call.openFile slash).checked s.ext2 s.mem = none := by
  refine ⟨_, rfl, ?_⟩
  decide +kernel

end PpoOS
