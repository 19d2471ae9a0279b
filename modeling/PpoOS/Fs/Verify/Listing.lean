import Mathlib.Data.List.Nodup
import PpoOS.Fs.Verify.Records
import PpoOS.Fs.Verify.ChangeDir

/-!
# Listing and opening on an ext2 image

**`scanners_agree`**: in a directory whose records are in order, what a listing
shows and what can be opened below the directory are the same files.
-/

namespace PpoOS

open FaultState FsM Path

variable {e : Ext2} {m : Memory} {p : Ptr} {s : FsState}

/-! ## What a listing shows -/

/-- The name fits into its array. -/
theorem ext2ListName_text {name : List U8} (hlen : name.length ≤ 31) (hn : 0#8 ∉ name) :
    ∃ b, ext2ListName name = some b ∧ b.text = some ⟨name, hn⟩ := by
  have hput : ((Buf.zero 32).put 0 name).isSome = true := by
    rw [Buf.put_isSome_iff (Nat.zero_le _)]
    omega
  obtain ⟨b, hb⟩ := Option.isSome_iff_exists.mp hput
  have htext : b.text = some ⟨name, hn⟩ := by
    obtain ⟨-, hbytes⟩ := (Buf.put_some_iff (Nat.zero_le _)).mp hb
    obtain ⟨k, hk⟩ := Nat.exists_eq_succ_of_ne_zero (Nat.sub_ne_zero_of_lt (Nat.lt_succ_of_le hlen))
    refine Buf.text_eq_some_iff.mpr ⟨List.replicate k 0#8, ?_⟩
    rw [hbytes, Buf.zero, List.take_zero, List.nil_append, Nat.zero_add, List.drop_replicate, hk,
      List.replicate_succ]
  obtain ⟨b', hb'⟩ : ∃ b', b.write name.length 0#8 = some b' := by
    rw [Buf.write, if_pos (by omega)]
    exact ⟨_, rfl⟩
  refine ⟨b', ?_, Buf.text_write_zero htext (Nat.le_refl _) hb'⟩
  rw [ext2ListName, hb]
  exact hb'

theorem ext2ListName_isSome {name : List U8} (hlen : name.length ≤ 31) : ∃ b, ext2ListName name = some b := by
  obtain ⟨b, hput⟩ := Option.isSome_iff_exists.mp ((Buf.put_isSome_iff (b := Buf.zero 32) (Nat.zero_le _)).mpr
    (show 0 + name.length ≤ 32 by omega))
  rw [ext2ListName, hput, Option.bind_eq_bind, Option.bind_some, Buf.write, if_pos (by omega)]
  exact ⟨_, rfl⟩

/-- The entry that a listing shows for an item. -/
def itemFile (e : Ext2) (m : Memory) (d : DirItem) : Option FsFile :=
  match ext2ReadInode e m d.inode with
  | some (some inode) => (ext2ListName d.name).map (inodeFile m inode)
  | _ => none

theorem itemFile_some {d : DirItem} {f : FsFile} (h : itemFile e m d = some f) :
    ∃ inode name, ext2ReadInode e m d.inode = some (some inode) ∧ ext2ListName d.name = some name ∧
      f = inodeFile m inode name := by
  rw [itemFile] at h
  cases hread : ext2ReadInode e m d.inode with
  | none => rw [hread] at h; cases h
  | some o =>
    cases o with
    | none => rw [hread] at h; cases h
    | some inode =>
      rw [hread] at h
      obtain ⟨name, hname, hf⟩ := Option.map_eq_some_iff.mp h
      exact ⟨inode, name, rfl, hname, hf.symm⟩

/-- The items that a listing shows. -/
def shownItems (ds : List DirItem) : List DirItem := ds.filter fun d => !isDotName d.name

/-- Where every item has an entry and there is room for all of them, a listing shows them all. -/
theorem listItems_eq {ds : List DirItem} {acc : List FsFile}
    (hfile : ∀ d ∈ shownItems ds, (itemFile e m d).isSome = true)
    (hroom : acc.length + (shownItems ds).length ≤ fsMaxFiles) :
    listItems e m ds acc = some (acc ++ (shownItems ds).filterMap (itemFile e m)) := by
  induction ds generalizing acc with
  | nil => simp [listItems, shownItems]
  | cons d ds ih =>
    by_cases hdot : isDotName d.name = true
    · have hshown : shownItems (d :: ds) = shownItems ds := by simp [shownItems, hdot]
      rw [hshown] at hfile hroom ⊢
      rw [listItems, if_pos hdot, ih hfile hroom]
      by_cases hfull : acc.length < fsMaxFiles
      · rw [if_pos hfull]
      · have hnil : shownItems ds = [] := List.eq_nil_of_length_eq_zero (by omega)
        rw [if_neg hfull, hnil, List.filterMap_nil, List.append_nil]
    · have hshown : shownItems (d :: ds) = d :: shownItems ds := by simp [shownItems, hdot]
      rw [hshown] at hfile hroom ⊢
      rw [List.length_cons] at hroom
      obtain ⟨f, hf⟩ := Option.isSome_iff_exists.mp (hfile d List.mem_cons_self)
      obtain ⟨inode, name, hread, hname, rfl⟩ := itemFile_some hf
      rw [listItems, if_pos (by omega), if_neg hdot, hread]
      dsimp only
      rw [hname, Option.bind_some, ih (fun d' hd' => hfile d' (List.mem_cons_of_mem _ hd'))
        (by rw [List.length_append, List.length_singleton]; omega), List.filterMap_cons_some hf,
        List.append_assoc, List.singleton_append]

/-! ## What can be opened -/

/-- A name in a directory, other than `.` and `..`. -/
structure IsName (n : CString) : Prop where
  ne_nil : n.chars ≠ []
  no_slash : 0x2F#8 ∉ n.chars
  no_dot : isDotName n.chars = false

/-- The path names `n` in the directory that `d` names. -/
def NamesIn (path d n : CString) : Prop :=
  pathComponents (path.take 127).chars = pathComponents (d.take 127).chars ++ [n.chars]

instance (path d n : CString) : Decidable (NamesIn path d n) := inferInstanceAs (Decidable (_ = _))

/-- A path into a directory leads to the first record with the name. -/
theorem ext2FindInodeByPath_named {d n path : CString} (hd : ext2FindInodeByPath e m d = some (some p))
    (hdir : inodeIsDir m p = true) (hin : DirInside e m p) (hpath : NamesIn path d n) :
    ext2FindInodeByPath e m path =
      match (dirItems e m p).find? fun i => i.name = n.chars with
      | none => some none
      | some i => ext2ReadInode e m i.inode := by
  have hne : path.length ≠ 0 := by
    intro hzero
    rw [NamesIn, CString.length_eq_zero.mp hzero] at hpath
    have hnil : pathComponents (CString.empty.take 127).chars = [] := components_nil
    rw [hnil] at hpath
    exact List.append_ne_nil_of_right_ne_nil _ (List.cons_ne_nil _ _) hpath.symm
  obtain ⟨root, hroot, hwalk⟩ := names_of_find hd
  rw [ext2FindInodeByPath_eq hne, hroot]
  dsimp only
  rw [hpath, ext2Resolve, Path.walk_append hwalk, Path.walk_single, ext2Lookup, if_neg (by simp [hdir]),
    ext2ScanDir_eq n.nonzero hin]
  cases (dirItems e m p).find? fun i => i.name = n.chars <;> rfl

theorem ext2FindInodeByPath_child {d n : CString} (hd : ext2FindInodeByPath e m d = some (some p))
    (hdir : inodeIsDir m p = true) (hin : DirInside e m p) (hn : IsName n) (hfits : d.length + 1 + n.length ≤ 127) :
    ext2FindInodeByPath e m (d ++ slash ++ n) =
      match (dirItems e m p).find? fun i => i.name = n.chars with
      | none => some none
      | some i => ext2ReadInode e m i.inode := by
  refine ext2FindInodeByPath_named hd hdir hin ?_
  have hpath : (d ++ slash ++ n).chars = d.chars ++ 0x2F#8 :: n.chars := by
    rw [CString.chars_append, CString.chars_append, List.append_assoc]
    rfl
  have hlen : (d ++ slash ++ n).length = d.length + 1 + n.length := by
    rw [CString.length_append, CString.length_append, slash_length]
  rw [NamesIn, CString.take_of_length_le (by omega), CString.take_of_length_le (by omega), hpath, pathComponents,
    components_append, components_single hn.no_slash hn.ne_nil]
  rfl

/-- The records of a directory are in order: inside of their blocks, with distinct names that fit, and
with readable inodes; and they are not too many. -/
structure DirListable (e : Ext2) (m : Memory) (p : Ptr) : Prop where
  inside : DirInside e m p
  names : ∀ d ∈ dirItems e m p, d.name.length ≤ 31 ∧ 0#8 ∉ d.name
  distinct : ((dirItems e m p).map DirItem.name).Nodup
  readable : ∀ d ∈ dirItems e m p, ∃ inode, ext2ReadInode e m d.inode = some (some inode)
  count : (shownItems (dirItems e m p)).length ≤ fsMaxFiles

/-- The name of an item is the text of its entry. -/
theorem itemFile_text {d : DirItem} {f : FsFile} (hd : d.name.length ≤ 31 ∧ 0#8 ∉ d.name)
    (h : itemFile e m d = some f) : f.name.text = some ⟨d.name, hd.2⟩ := by
  obtain ⟨inode, name, -, hname, rfl⟩ := itemFile_some h
  obtain ⟨b, hb, htext⟩ := ext2ListName_text hd.1 hd.2
  obtain rfl : b = name := Option.some.inj (hb.symm.trans hname)
  exact htext

theorem DirListable.isSome (h : DirListable e m p) {d : DirItem} (hd : d ∈ dirItems e m p) :
    ∃ f, itemFile e m d = some f := by
  obtain ⟨inode, hread⟩ := h.readable d hd
  obtain ⟨hlen, hnul⟩ := h.names d hd
  obtain ⟨b, hb, -⟩ := ext2ListName_text hlen hnul
  rw [itemFile, hread]
  exact ⟨_, congrArg (Option.map _) hb⟩

theorem DirListable.list (h : DirListable e m p) :
    listItems e m (dirItems e m p) [] = some ((shownItems (dirItems e m p)).filterMap (itemFile e m)) := by
  refine listItems_eq (fun d hd => ?_) (by rw [List.length_nil, Nat.zero_add]; exact h.count)
  exact Option.isSome_iff_exists.mpr (h.isSome (List.mem_of_mem_filter hd))

/-- An entry with the name `n` comes from the item with that name. -/
theorem DirListable.shown_iff (h : DirListable e m p) {n : CString} (hn : IsName n) {f : FsFile} :
    (f ∈ (shownItems (dirItems e m p)).filterMap (itemFile e m) ∧ f.name.text = some n) ↔
      ∃ d ∈ dirItems e m p, d.name = n.chars ∧ itemFile e m d = some f := by
  constructor
  · rintro ⟨hmem, htext⟩
    obtain ⟨d, hd, hf⟩ := List.mem_filterMap.mp hmem
    have hitem := List.mem_of_mem_filter hd
    rw [itemFile_text (h.names d hitem) hf] at htext
    exact ⟨d, hitem, congrArg CString.chars (Option.some.inj htext), hf⟩
  · rintro ⟨d, hd, hname, hf⟩
    have hshown : d ∈ shownItems (dirItems e m p) := by
      refine List.mem_filter.mpr ⟨hd, ?_⟩
      rw [hname, hn.no_dot]
      rfl
    refine ⟨List.mem_filterMap.mpr ⟨d, hshown, hf⟩, ?_⟩
    rw [itemFile_text (h.names d hd) hf]
    exact congrArg some (CString.ext hname)

/-! ## A small image -/

/-- The parts of an image of 16 blocks of 1024 bytes that are not zero, with their offsets. -/
def diskParts : List (Nat × List U8) :=
  -- the superblock: 16 inodes, 16 blocks, 1024 bytes each
  [(1024, [16#8, 0#8, 0#8, 0#8, 16#8, 0#8, 0#8, 0#8, 0#8, 0#8, 0#8, 0#8, 7#8, 0#8, 0#8, 0#8, 4#8]), (1044, [1#8]), (1057, [32#8]), (1061, [32#8]),
    (1064, [16#8]), (1080, [0x53#8, 0xEF#8, 1#8, 0#8, 1#8]), (1100, [1#8]), (1108, [11#8, 0#8, 0#8, 0#8, 128#8]),
    -- the group descriptor and the bitmaps
    (2048, [3#8, 0#8, 0#8, 0#8, 4#8, 0#8, 0#8, 0#8, 5#8, 0#8, 0#8, 0#8, 7#8, 0#8, 4#8, 0#8, 1#8]),
    (3072, [0xFF#8]), (4096, [0xFF#8, 0x0F#8]),
    -- inode 2: the root directory in block 7
    (5248, [0xED#8, 0x41#8, 0#8, 0#8, 0#8, 4#8]), (5274, [2#8, 0#8, 2#8]), (5288, [7#8]),
    -- inode 11: a file of one byte in block 8
    (6400, [0xA4#8, 0x81#8, 0#8, 0#8, 1#8]), (6426, [1#8, 0#8, 2#8]), (6440, [8#8]),
    -- inode 12: an empty file
    (6528, [0xA4#8, 0x81#8]), (6554, [1#8]),
    -- the root directory, and the contents of the file
    (7168, dirEntry 2 12 [0x2E#8]), (7180, dirEntry 2 12 [0x2E#8, 0x2E#8]), (7192, dirEntry 11 12 [0x66#8]),
    (7204, dirEntry 12 988 [0x65#8]), (8192, [0x78#8])]

/-- Byte `i` of the image. -/
def diskImage (i : Nat) : U8 :=
  match diskParts.find? fun part => part.1 ≤ i && i < part.1 + part.2.length with
  | some part => part.2.getD (i - part.1) 0#8
  | none => 0#8

/-- The image is mounted from the start of the pool, as a file of the boot archive is. -/
def diskFs : FsState :=
  { FsState.zero with
    fs := { rootMount with activeFs := .ext2 }
    memUsed := 16384#64
    mem := ⟨fun i => diskImage i.toNat, fun _ => 0#8, 0xFFFFFFFF80100000#64⟩
    ext2 := { FsState.zero.ext2 with
      data := .pool 0#64
      size := 16384#64
      superblock := .pool 1024#64
      blockSize := 1024#32
      currentDir := Buf.ofText fsMaxPath slash } }

theorem diskFs_mounted : FsMounted diskFs :=
  ⟨{ diskFs with fs := rootMount, ext2 := FsState.zero.ext2 }, .pool 0#64, 16384#64, rfl, rfl⟩

def diskRoot : Ptr := .pool 5248#64

theorem diskFs_root : ext2FindInodeByPath diskFs.ext2 diskFs.mem slash = some (some diskRoot) ∧
    inodeIsDir diskFs.mem diskRoot = true := by decide +kernel

/-- The records of the root directory, and their inodes. -/
theorem diskFs_items : dirItems diskFs.ext2 diskFs.mem diskRoot =
      [⟨2#32, [0x2E#8]⟩, ⟨2#32, [0x2E#8, 0x2E#8]⟩, ⟨11#32, [0x66#8]⟩, ⟨12#32, [0x65#8]⟩] ∧
    ∀ d ∈ [⟨2#32, [0x2E#8]⟩, ⟨2#32, [0x2E#8, 0x2E#8]⟩, ⟨11#32, [0x66#8]⟩, (⟨12#32, [0x65#8]⟩ : DirItem)],
      ((ext2ReadInode diskFs.ext2 diskFs.mem d.inode).getD none).isSome = true := by decide +kernel

/-- The root directory has one block. -/
theorem diskFs_block : (∀ j < 12, j ≠ 0 → inodeBlock diskFs.mem diskRoot j = 0#32) ∧
    ext2ReadBlock diskFs.ext2 diskFs.mem (inodeBlock diskFs.mem diskRoot 0) = some (.pool 7168#64) ∧
      ItemsInside diskFs.ext2.blockSize (fun j => diskFs.mem.load ((Ptr.pool 7168#64).add j))
        (diskFs.ext2.blockSize.toNat + 1) 0#64 := by decide +kernel

theorem diskFs_inside : DirInside diskFs.ext2 diskFs.mem diskRoot := by
  obtain ⟨hzero, hread, hrecords⟩ := diskFs_block
  intro i hi hhole block hblock
  obtain rfl : i = 0 := by
    by_contra hne
    exact hhole (hzero i hi hne)
  obtain rfl := Option.some.inj (hread.symm.trans hblock)
  exact hrecords

theorem diskFs_listable : DirListable diskFs.ext2 diskFs.mem diskRoot where
  inside := diskFs_inside
  names := by
    rw [diskFs_items.1]
    decide
  distinct := by
    rw [diskFs_items.1]
    decide
  readable := by
    rw [diskFs_items.1]
    intro d hd
    have hsome := diskFs_items.2 d hd
    cases hread : ext2ReadInode diskFs.ext2 diskFs.mem d.inode with
    | none => rw [hread] at hsome; cases hsome
    | some o =>
      rw [hread] at hsome
      obtain ⟨inode, rfl⟩ := Option.isSome_iff_exists.mp hsome
      exact ⟨inode, rfl⟩
  count := by
    rw [diskFs_items.1]
    decide

/-! ## The two together -/

/-- **The two scanners agree**: a listing of the directory shows a name exactly where the path below the
directory can be opened, and both give the same size, kind and data. -/
theorem scanners_agree (s : FsState) (dir : Ptr) (d n : CString)
    (resolves : ext2FindInodeByPath s.ext2 s.mem d = some (some dir)) (isDir : inodeIsDir s.mem dir = true)
    (listable : DirListable s.ext2 s.mem dir) (name : IsName n) (fits : d.length + 1 + n.length ≤ 127) :
    ∃ files t r u, (ext2List d).run s = some (files, t) ∧ (ext2Open (d ++ slash ++ n)).run s = some (r, u) ∧
      ((∃ f ∈ files, f.name.text = some n) ↔ r.isSome = true) ∧
        ∀ f ∈ files, f.name.text = some n → ∃ file g, r = some file ∧ u.file? file = some g ∧
          f.size = g.size ∧ f.isDir = g.isDir ∧ f.data = g.data := by
  have hlist := @ext2List_run s d
  have hlen : (d ++ slash ++ n).length ≠ 0 := by
    rw [CString.length_append, CString.length_append, slash_length]
    omega
  have hopen := ext2Open_run hlen (s := s)
  rw [resolves, Option.bind_some] at hlist
  dsimp only at hlist
  rw [if_pos isDir, listable.list, Option.map_some] at hlist
  rw [ext2FindInodeByPath_child resolves isDir listable.inside name fits] at hopen
  cases hfind : (dirItems s.ext2 s.mem dir).find? fun i => i.name = n.chars with
  | none =>
    -- no record has the name
    rw [hfind] at hopen
    have hnone : ∀ f ∈ (shownItems (dirItems s.ext2 s.mem dir)).filterMap (itemFile s.ext2 s.mem),
        f.name.text ≠ some n := by
      intro f hf htext
      obtain ⟨i, hi, hname, -⟩ := (listable.shown_iff name).mp ⟨hf, htext⟩
      exact List.find?_eq_none.mp hfind i hi (by simpa using hname)
    refine ⟨_, _, _, _, hlist, hopen, ⟨fun ⟨f, hf, ht⟩ => absurd ht (hnone f hf), nofun⟩, ?_⟩
    exact fun f hf ht => absurd ht (hnone f hf)
  | some i =>
    have hi := List.mem_of_find?_eq_some hfind
    have hname : i.name = n.chars := by simpa using List.find?_some hfind
    obtain ⟨inode, hread⟩ := listable.readable i hi
    obtain ⟨f, hf⟩ := listable.isSome hi
    rw [hfind] at hopen
    dsimp only at hopen
    rw [hread, Option.map_some] at hopen
    refine ⟨_, _, _, _, hlist, hopen, ⟨fun _ => rfl, fun _ => ?_⟩, ?_⟩
    · obtain ⟨hmem, htext⟩ := (listable.shown_iff name).mpr ⟨i, hi, hname, hf⟩
      exact ⟨f, hmem, htext⟩
    · intro g hg ht
      obtain ⟨j, hj, hname', hg'⟩ := (listable.shown_iff name).mp ⟨hg, ht⟩
      obtain rfl : j = i := List.inj_on_of_nodup_map listable.distinct hj hi (hname'.trans hname.symm)
      obtain ⟨inode', name', hread', -, rfl⟩ := itemFile_some hg'
      obtain rfl : inode = inode' := Option.some.inj (Option.some.inj (hread.symm.trans hread'))
      exact ⟨.opened, _, rfl, rfl, rfl, rfl, rfl⟩

/-- The file `/f`, which has a slash twice in its path. -/
theorem scanners_agree_diskFs : ∃ files t r u, (ext2List slash).run diskFs = some (files, t) ∧
    (ext2Open (slash ++ slash ++ CString.ofChars ['f'])).run diskFs = some (r, u) ∧
      ((∃ f ∈ files, f.name.text = some (CString.ofChars ['f'])) ↔ r.isSome = true) := by
  obtain ⟨files, t, r, u, hlist, hopen, hiff, -⟩ := scanners_agree diskFs diskRoot slash (CString.ofChars ['f'])
    diskFs_root.1 diskFs_root.2 diskFs_listable ⟨by decide, by decide, by decide⟩ (by decide)
  exact ⟨files, t, r, u, hlist, hopen, hiff⟩

end PpoOS
