import PpoOS.Fs.Verify.ListNames

/-!
# Unused records

ext2 deletes the first record of a block by clearing its inode number, and every other one
by making the record in front of it longer.  Both scanners of the driver leave a block at a
record without inode.

* **`dirItems_tiled`**: in a directory whose blocks are tiled with records, they come to
  those in front of the first unused one of each block.
* **`nameKept_iff`**: exactly when a name is found and listed as it should be.
* **`DirListable.nameSeen_iff`**: in a directory in order this is so unless it is carried behind
  an unused record only.
-/

namespace PpoOS

open ByteMem FaultState FsM Path

variable {e : Ext2} {m : Memory} {p : Ptr} {d n path : CString} {items : Nat → List DirItem}

/-! ## Blocks that are tiled with records -/

/-- The records tile the block from `offset` on, and those in use have their names in it. -/
def Tiled (blockSize : U32) (b : U64 → U8) : List DirItem → U64 → Prop
  | [], offset => offset.toNat = blockSize.toNat
  | d :: ds, offset => d = dirItem b offset ∧ offset.toNat + 8 ≤ blockSize.toNat ∧
      (dirRecord b offset).recLen ≠ 0#16 ∧ (d.inode ≠ 0#32 → offset.toNat + 8 + d.name.length ≤ blockSize.toNat) ∧
        Tiled blockSize b ds (dirNext b offset)

instance decidableTiled (blockSize : U32) (b : U64 → U8) :
    (ds : List DirItem) → (offset : U64) → Decidable (Tiled blockSize b ds offset)
  | [], offset => inferInstanceAs (Decidable (offset.toNat = blockSize.toNat))
  | d :: ds, offset =>
    have := decidableTiled blockSize b ds (dirNext b offset)
    inferInstanceAs (Decidable (d = dirItem b offset ∧ _ ∧ _ ∧ (d.inode ≠ 0#32 → _) ∧ Tiled blockSize b ds _))

/-- The records in front of the first unused one. -/
def usedPrefix (ds : List DirItem) : List DirItem := ds.takeWhile fun d => d.inode ≠ 0#32

section Block

variable {blockSize : U32} {b : U64 → U8} {ds : List DirItem} {offset : U64}

theorem dirStops_iff (hlen : (dirRecord b offset).recLen ≠ 0#16) :
    dirStops b offset ↔ (dirItem b offset).inode = 0#32 := by
  constructor
  · exact fun h => h.resolve_right hlen
  · exact Or.inl

/-- A scan of a tiled block comes to the records in front of the first unused one. -/
theorem Tiled.scanned (h : Tiled blockSize b ds offset) (fuel : Nat) (hfuel : blockSize.toNat - offset.toNat < fuel) :
    blockItems blockSize b fuel offset = usedPrefix ds := by
  have hsize := blockSize.isLt
  have hwidth : (blockSize.setWidth 64).toNat = blockSize.toNat := by
    rw [BitVec.toNat_setWidth, Nat.mod_eq_of_lt (by omega)]
  induction ds generalizing offset fuel with
  | nil =>
    obtain ⟨fuel, rfl⟩ := Nat.exists_eq_succ_of_ne_zero (Nat.ne_of_gt (Nat.zero_lt_of_lt hfuel))
    refine blockItems_end fun hlt => ?_
    have hlt : offset.toNat < (blockSize.setWidth 64).toNat := hlt
    have hend : offset.toNat = blockSize.toNat := h
    omega
  | cons d ds ih =>
    obtain ⟨rfl, hin, hlen, -, hrest⟩ := h
    obtain ⟨fuel, rfl⟩ := Nat.exists_eq_succ_of_ne_zero (Nat.ne_of_gt (Nat.zero_lt_of_lt hfuel))
    have hlt : offset < blockSize.setWidth 64 := by
      change offset.toNat < (blockSize.setWidth 64).toNat
      omega
    rw [usedPrefix, List.takeWhile_cons]
    by_cases hused : (dirItem b offset).inode = 0#32
    · rw [blockItems_stops ((dirStops_iff hlen).mpr hused), if_neg (by simpa using hused)]
    · have hstops : ¬dirStops b offset := fun hs => hused ((dirStops_iff hlen).mp hs)
      obtain ⟨-, hnext⟩ := dirNext_toNat hlt hstops
      rw [blockItems_cons hlt hstops, if_pos (by simpa using hused), ih hrest fuel (by omega), usedPrefix]

/-- The records of a tiled block lie inside of it. -/
theorem Tiled.inside (h : Tiled blockSize b ds offset) (fuel : Nat) : ItemsInside blockSize b fuel offset := by
  have hsize := blockSize.isLt
  induction fuel generalizing ds offset with
  | zero => trivial
  | succ fuel ih =>
    intro hlt
    cases ds with
    | nil =>
      have hlt : offset.toNat < (blockSize.setWidth 64).toNat := hlt
      have hend : offset.toNat = blockSize.toNat := h
      rw [BitVec.toNat_setWidth, Nat.mod_eq_of_lt (by omega)] at hlt
      omega
    | cons d ds =>
      obtain ⟨rfl, hin, hlen, hname, hrest⟩ := h
      refine ⟨hin, fun hstops => ⟨?_, ih hrest⟩⟩
      have hend := hname fun hzero => hstops (Or.inl hzero)
      rwa [dirItem, dirName_length] at hend

end Block

/-! ## The records of a directory -/

/-- The direct blocks of the directory are tiled with the records; a hole and a block that cannot be read have
none. -/
def DirTiled (e : Ext2) (m : Memory) (p : Ptr) (items : Nat → List DirItem) : Prop :=
  ∀ i < 12, if inodeBlock m p i = 0#32 then items i = []
    else match ext2ReadBlock e m (inodeBlock m p i) with
      | none => items i = []
      | some block => Tiled e.blockSize (fun j => m.load (block.add j)) (items i) 0#64

/-- All records of the directory. -/
def allRecords (items : Nat → List DirItem) : List DirItem := (List.range 12).flatMap items

/-- The records in front of the first unused one of each block. -/
def seenRecords (items : Nat → List DirItem) : List DirItem := (List.range 12).flatMap fun i => usedPrefix (items i)

theorem mem_allRecords {r : DirItem} (h : r ∈ seenRecords items) : r ∈ allRecords items ∧ r.inode ≠ 0#32 := by
  obtain ⟨i, hi, hr⟩ := List.mem_flatMap.mp h
  have hused := @List.mem_takeWhile_imp _ (fun d : DirItem => decide (d.inode ≠ 0#32)) _ _ hr
  exact ⟨List.mem_flatMap.mpr ⟨i, hi, (List.takeWhile_prefix _).subset hr⟩, of_decide_eq_true hused⟩

/-- **The scanners come to the records in front of the unused ones.** -/
theorem dirItems_tiled (h : DirTiled e m p items) : dirItems e m p = seenRecords items := by
  refine List.flatMap_congr fun i hi => ?_
  have hi := h i (List.mem_range.mp hi)
  rw [directItems]
  by_cases hhole : inodeBlock m p i = 0#32
  · rw [if_pos hhole] at hi
    rw [if_pos hhole, hi]
    rfl
  · rw [if_neg hhole] at hi
    rw [if_neg hhole]
    cases hblock : ext2ReadBlock e m (inodeBlock m p i) with
    | none =>
      rw [hblock] at hi
      rw [hi]
      rfl
    | some block =>
      rw [hblock] at hi
      exact hi.scanned _ (Nat.lt_succ_of_le (Nat.sub_le _ _))

theorem DirTiled.inside (h : DirTiled e m p items) : DirInside e m p := by
  intro i hi hhole block hblock
  have hi := h i hi
  rw [if_neg hhole, hblock] at hi
  exact hi.inside _

/-! ## Names -/

/-- A record in use with a readable inode carries the name. -/
def Carries (e : Ext2) (m : Memory) (ds : List DirItem) (name : List U8) : Prop :=
  ∃ r ∈ ds, r.inode ≠ 0#32 ∧ (inodeAt e m r.inode).isSome = true ∧ r.name = name

/-- The inode of the first record with the name. -/
def firstNamed (e : Ext2) (m : Memory) (ds : List DirItem) (name : List U8) : Option Ptr :=
  (ds.find? fun r => r.name = name).bind fun r => inodeAt e m r.inode

theorem firstNamed_carries {name : List U8} (h : (firstNamed e m (seenRecords items) name).isSome = true) :
    Carries e m (seenRecords items) name := by
  obtain ⟨q, hq⟩ := Option.isSome_iff_exists.mp h
  obtain ⟨r, hr, hread⟩ := Option.bind_eq_some_iff.mp hq
  have hmem := List.mem_of_find?_eq_some hr
  have hname : r.name = name := by simpa using List.find?_some hr
  refine ⟨r, hmem, (mem_allRecords hmem).2, ?_, hname⟩
  rw [hread]
  rfl

theorem Carries.all {name : List U8} (h : Carries e m (seenRecords items) name) :
    Carries e m (allRecords items) name := by
  obtain ⟨r, hr, hrest⟩ := h
  exact ⟨r, (mem_allRecords hr).1, hrest⟩

theorem ext2FindInodeByPath_firstNamed (hd : ext2FindInodeByPath e m d = some (some p))
    (hdir : inodeIsDir m p = true) (hin : DirInside e m p) (hpath : NamesIn path d n) :
    ext2FindInodeByPath e m path = some (firstNamed e m (dirItems e m p) n.chars) := by
  obtain ⟨root, hroot, -⟩ := names_of_find hd
  rw [ext2FindInodeByPath_named hd hdir hin hpath, firstNamed]
  cases (dirItems e m p).find? fun r => r.name = n.chars with
  | none => rfl
  | some r => exact (noDivision_of_root hroot).read r.inode

/-! ## What an entry of the listing says -/

/-- The name of an entry, as its reader sees it. -/
def FileCache.entryText (c : FileCache) (i : Nat) : Option CString :=
  CString.read ((List.range fsFileSize).map fun k => c.bytes (BitVec.ofNat 64 (fsFileSize * i + k)))

/-- An entry has the name. -/
def FileCache.Lists (c : FileCache) (n : CString) : Prop := ∃ i < c.count, c.entryText i = some n

/-- The text that the entry of a record shows: its name, as much of it as there is room for in front of the data
field, and that field where the name does not end. -/
def shownText (m : Memory) (t : Ptr × List U8) : Option CString :=
  CString.read (nameArray t.2 ++ (List.range 8).map (byteOf ((inodeBlocks m t.1).setWidth 64)))

/-- The upper half of a widened word is zero. -/
theorem byteOf_setWidth_upper (w : U32) {i : Nat} (hi : 4 ≤ i) : byteOf (w.setWidth 64) i = 0#8 := by
  refine BitVec.eq_of_getLsbD_eq fun k hk => ?_
  rw [byteOf, BitVec.getLsbD_extractLsb', BitVec.getLsbD_setWidth, BitVec.getLsbD_of_ge w _ (by omega)]
  simp

theorem shownText_isSome (t : Ptr × List U8) : (shownText m t).isSome = true :=
  CString.read_isSome_iff.mpr (List.mem_append_right _
    (List.mem_map.mpr ⟨4, by decide, byteOf_setWidth_upper _ (Nat.le_refl 4)⟩))

theorem CacheHolds.entryText {ts : List (Ptr × List U8)} {c : FileCache} (h : CacheHolds m ts c) {i : Nat}
    {t : Ptr × List U8} (ht : ts[i]? = some t) : c.entryText i = shownText m t := by
  obtain ⟨s, hs⟩ := Option.isSome_iff_exists.mp (shownText_isSome (m := m) t)
  have hname : (List.range 32).map (fun k => c.bytes (BitVec.ofNat 64 (fsFileSize * i + k))) = nameArray t.2 :=
    List.map_congr_left fun k hk => h.name i t ht k (List.mem_range.mp hk)
  have hdata : (List.range 8).map ((fun k => c.bytes (BitVec.ofNat 64 (fsFileSize * i + k))) ∘ (32 + ·)) =
      (List.range 8).map (byteOf ((inodeBlocks m t.1).setWidth 64)) := by
    refine List.map_congr_left fun k hk => ?_
    rw [Function.comp_apply, ← Nat.add_assoc]
    exact h.data i t ht k (List.mem_range.mp hk)
  have hsplit : List.range fsFileSize = (List.range 32 ++ (List.range 8).map (32 + ·)) ++ (List.range 24).map (40 + ·) :=
    rfl
  rw [FileCache.entryText, hsplit, List.map_append, List.map_append, List.map_map, hname, hdata, hs]
  exact CString.read_append_of_some hs _

theorem CacheHolds.lists_iff {ts : List (Ptr × List U8)} {c : FileCache} (h : CacheHolds m ts c) :
    c.Lists n ↔ ∃ t ∈ ts, shownText m t = some n := by
  constructor
  · rintro ⟨i, hi, htext⟩
    rw [h.count] at hi
    have ht : ts[i]? = some ts[i] := List.getElem?_eq_getElem hi
    exact ⟨ts[i], List.getElem_mem hi, by rw [← h.entryText ht, htext]⟩
  · rintro ⟨t, ht, htext⟩
    obtain ⟨i, hi⟩ := List.mem_iff_getElem?.mp ht
    obtain ⟨hlt, -⟩ := List.getElem?_eq_some_iff.mp hi
    exact ⟨i, h.count.symm ▸ hlt, (h.entryText hi).trans htext⟩

/-! ## Names behind unused records -/

/-- The name is found, and listed up to the limit, exactly where a record in use carries it. -/
structure NameKept (e : Ext2) (m : Memory) (d path n : CString) (bytes : Mem) (items : Nat → List DirItem) : Prop where
  found : (∃ q, ext2FindInodeByPath e m path = some (some q)) ↔ Carries e m (allRecords items) n.chars
  listed : ∃ c, ext2ListInto e m d bytes = some (some c) ∧ (c.Lists n → Carries e m (allRecords items) n.chars) ∧
    (Carries e m (allRecords items) n.chars → c.Lists n ∨ c.count = fsMaxFiles)

/-- The records that are seen stand for the name. -/
structure NameSeen (e : Ext2) (m : Memory) (n : CString) (items : Nat → List DirItem) : Prop where
  /-- A name that is carried is so by the first seen record that has it. -/
  found : Carries e m (allRecords items) n.chars → (firstNamed e m (seenRecords items) n.chars).isSome = true
  /-- No name runs out of `file_cache`. -/
  room : NamesInCache (takenEntries e m (seenRecords items))
  /-- No other name is shown as this one. -/
  shown : ∀ t ∈ takenEntries e m (seenRecords items), shownText m t = some n →
    Carries e m (allRecords items) n.chars
  /-- A name that is carried is shown by a seen record, where there is room. -/
  listed : Carries e m (allRecords items) n.chars →
    (takenEntries e m (seenRecords items)).length = fsMaxFiles ∨
      ∃ t ∈ takenEntries e m (seenRecords items), shownText m t = some n

/-- **Unused records do not hide a name** exactly where the records that are seen stand for it. -/
theorem nameKept_iff (e : Ext2) (m : Memory) (d path n : CString) (p : Ptr) (bytes : Mem)
    (items : Nat → List DirItem) (hd : ext2FindInodeByPath e m d = some (some p)) (hdir : inodeIsDir m p = true)
    (htiled : DirTiled e m p items) (hpath : NamesIn path d n) :
    NameKept e m d path n bytes items ↔ NameSeen e m n items := by
  have hseen := dirItems_tiled htiled
  have hfound : (∃ q, ext2FindInodeByPath e m path = some (some q)) ↔
      (firstNamed e m (seenRecords items) n.chars).isSome = true := by
    rw [ext2FindInodeByPath_firstNamed hd hdir htiled.inside hpath, hseen, Option.isSome_iff_exists]
    exact exists_congr fun q => Option.some_inj
  constructor
  · rintro ⟨hkept, c, hrun, hshown, hlisted⟩
    have hholds := ext2ListInto_holds hd hdir hrun
    rw [hseen] at hholds
    rw [ext2ListInto_taken hd hdir, hseen] at hrun
    refine ⟨fun h => hfound.mp (hkept.mpr h), ?_, fun t ht htext => ?_, fun h => ?_⟩
    · rcases @listTaken_holds m _ bytes (takenEntries_length (e := e) (seenRecords items)) with ⟨hroom, -⟩ | ⟨-, hnone⟩
      · exact hroom
      · rw [hnone] at hrun
        cases hrun
    · exact hshown (hholds.lists_iff.mpr ⟨t, ht, htext⟩)
    · rcases hlisted h with hlists | hfull
      · exact Or.inr (hholds.lists_iff.mp hlists)
      · exact Or.inl (hholds.count.symm.trans hfull)
  · intro h
    obtain ⟨-, c, hrun, hholds⟩ := (@listTaken_holds m _ bytes (takenEntries_length (e := e) (seenRecords items))).resolve_right
      fun hno => hno.1 h.room
    refine ⟨⟨fun hq => (firstNamed_carries (hfound.mp hq)).all, fun hc => hfound.mpr (h.found hc)⟩, c, ?_, ?_, ?_⟩
    · rw [ext2ListInto_taken hd hdir, hseen, hrun]
      rfl
    · intro hlists
      obtain ⟨t, ht, htext⟩ := hholds.lists_iff.mp hlists
      exact h.shown t ht htext
    · intro hc
      rcases h.listed hc with hfull | hshown
      · exact Or.inr (hholds.count.trans hfull)
      · exact Or.inl (hholds.lists_iff.mpr hshown)

/-! ## A directory in order -/

/-- A short name is shown as it is. -/
theorem shownText_short {t : Ptr × List U8} (hlen : t.2.length ≤ 31) (hn : 0#8 ∉ t.2) :
    shownText m t = some ⟨t.2, hn⟩ := by
  obtain ⟨k, hk⟩ := Nat.exists_eq_succ_of_ne_zero (Nat.sub_ne_zero_of_lt (Nat.lt_succ_of_le hlen))
  refine CString.read_append_of_some (CString.read_eq_some_iff.mpr ⟨List.replicate k 0#8, ?_⟩) _
  rw [nameArray_short hlen, hk, List.replicate_succ]

theorem takenEntry_some {r : DirItem} {t : Ptr × List U8} (h : takenEntry e m r = some t) :
    t.2 = r.name ∧ (inodeAt e m r.inode).isSome = true := by
  rw [takenEntry] at h
  split at h
  · cases h
  · obtain ⟨q, hq, rfl⟩ := Option.map_eq_some_iff.mp h
    refine ⟨rfl, ?_⟩
    rw [hq]
    rfl

/-- **In a directory in order** a name is kept exactly where it is not carried behind an unused record only. -/
theorem DirListable.nameSeen_iff (h : DirListable e m p) (htiled : DirTiled e m p items)
    (hdot : isDotName n.chars = false) : NameSeen e m n items ↔
      (Carries e m (allRecords items) n.chars → Carries e m (seenRecords items) n.chars) := by
  have hseen := dirItems_tiled htiled
  have htaken : ∀ t ∈ takenEntries e m (seenRecords items), ∃ r ∈ seenRecords items, takenEntry e m r = some t :=
    fun t ht => List.mem_filterMap.mp (List.mem_of_mem_take ht)
  have hshort : ∀ t ∈ takenEntries e m (seenRecords items), t.2.length ≤ 31 ∧ 0#8 ∉ t.2 := by
    intro t ht
    obtain ⟨r, hr, htr⟩ := htaken t ht
    rw [(takenEntry_some htr).1]
    exact h.names r (hseen ▸ hr)
  constructor
  · exact fun hn hc => firstNamed_carries (hn.found hc)
  · intro hcarried
    refine ⟨fun hc => ?_, fun i t ht => ?_, fun t ht htext => ?_, fun hc => ?_⟩
    · -- the first record with the name has a readable inode, as every one has
      obtain ⟨r, hr, -, -, hname⟩ := hcarried hc
      obtain ⟨f, hf⟩ := Option.isSome_iff_exists.mp
        (List.find?_isSome (p := fun r : DirItem => decide (r.name = n.chars)) |>.mpr ⟨r, hr, decide_eq_true hname⟩)
      obtain ⟨q, hq⟩ := h.readable f (hseen ▸ List.mem_of_find?_eq_some hf)
      rw [firstNamed, hf, Option.bind_some, inodeAt, hq]
      rfl
    · obtain ⟨hi, -⟩ := List.getElem?_eq_some_iff.mp ht
      have hlen := (hshort t (List.mem_of_getElem? ht)).1
      have hcount := takenEntries_length (e := e) (m := m) (seenRecords items)
      have hfile : fsFileSize * i = 64 * i := rfl
      have hmax : fsMaxFiles = 32 := rfl
      have hend : fsFileSize * fsMaxFiles = 2048 := rfl
      omega
    · obtain ⟨r, hr, htr⟩ := htaken t ht
      obtain ⟨hname, hread⟩ := takenEntry_some htr
      obtain ⟨hlen, hnul⟩ := hshort t ht
      rw [shownText_short hlen hnul] at htext
      refine ⟨r, (mem_allRecords hr).1, (mem_allRecords hr).2, hread, ?_⟩
      rw [← hname]
      exact congrArg CString.chars (Option.some.inj htext)
    · -- no more than 32 records are shown, so that all are taken
      obtain ⟨r, hr, -, hread, hname⟩ := hcarried hc
      obtain ⟨q, hq⟩ := Option.isSome_iff_exists.mp hread
      have htr : takenEntry e m r = some (q, r.name) := by
        rw [takenEntry, hname, hdot, hq]
        rfl
      have hmem : (q, r.name) ∈ (seenRecords items).filterMap (takenEntry e m) := List.mem_filterMap.mpr ⟨r, hr, htr⟩
      by_cases hfull : fsMaxFiles ≤ ((seenRecords items).filterMap (takenEntry e m)).length
      · left
        rw [takenEntries, List.length_take, Nat.min_eq_left hfull]
      · right
        have hall : (q, r.name) ∈ takenEntries e m (seenRecords items) := by
          rw [takenEntries, List.take_of_length_le (Nat.le_of_not_le hfull)]
          exact hmem
        obtain ⟨hlen, hnul⟩ := hshort _ hall
        refine ⟨_, hall, ?_⟩
        rw [shownText_short hlen hnul]
        exact congrArg some (CString.ext hname)

/-! ## An image with an unused record -/

/-- What the small image has instead where its root directory has a second block, in block 9.  The first record
of this block has been deleted. -/
def deletedParts : List (Nat × List U8) :=
  -- one block is free no more
  [(1036, [6#8]), (2060, [6#8]), (3073, [1#8]),
    -- inode 2: two blocks; inode 11: two names
    (5248, [0xED#8, 0x41#8, 0#8, 0#8, 0#8, 8#8]), (5276, [4#8]), (5292, [9#8]), (6426, [2#8]),
    (9216, dirEntry 0 12 [0x68#8]), (9228, dirEntry 11 1012 [0x67#8])]

/-- Byte `i` of the image. -/
def deletedImage (i : Nat) : U8 :=
  match deletedParts.find? fun part => part.1 ≤ i && i < part.1 + part.2.length with
  | some part => part.2.getD (i - part.1) 0#8
  | none => diskImage i

def deletedFs : FsState :=
  { diskFs with mem := ⟨fun i => deletedImage i.toNat, fun _ => 0#8, 0xFFFFFFFF80100000#64⟩ }

theorem deletedFs_mounted : FsMounted deletedFs :=
  ⟨{ deletedFs with fs := rootMount, ext2 := FsState.zero.ext2 }, .pool 0#64, 16384#64, rfl, rfl⟩

theorem deletedFs_root : ext2FindInodeByPath deletedFs.ext2 deletedFs.mem slash = some (some diskRoot) ∧
    inodeIsDir deletedFs.mem diskRoot = true := by decide +kernel

/-- The records of the root directory. -/
def deletedRecords : Nat → List DirItem
  | 0 => [⟨2#32, [0x2E#8]⟩, ⟨2#32, [0x2E#8, 0x2E#8]⟩, ⟨11#32, [0x66#8]⟩, ⟨12#32, [0x65#8]⟩]
  | 1 => [⟨0#32, [0x68#8]⟩, ⟨11#32, [0x67#8]⟩]
  | _ => []

theorem deletedFs_blocks : (∀ j < 12, 2 ≤ j → inodeBlock deletedFs.mem diskRoot j = 0#32) ∧
    ∀ j < 2, inodeBlock deletedFs.mem diskRoot j ≠ 0#32 ∧
      ext2ReadBlock deletedFs.ext2 deletedFs.mem (inodeBlock deletedFs.mem diskRoot j) =
        some (.pool (BitVec.ofNat 64 (7168 + 2048 * j))) ∧
      Tiled deletedFs.ext2.blockSize
        (fun k => deletedFs.mem.load ((Ptr.pool (BitVec.ofNat 64 (7168 + 2048 * j))).add k)) (deletedRecords j)
        0#64 := by decide +kernel

theorem deletedFs_tiled : DirTiled deletedFs.ext2 deletedFs.mem diskRoot deletedRecords := by
  intro i hi
  by_cases hlt : i < 2
  · obtain ⟨hhole, hblock, htiled⟩ := deletedFs_blocks.2 i hlt
    rw [if_neg hhole, hblock]
    exact htiled
  · rw [if_pos (deletedFs_blocks.1 i hi (Nat.not_lt.mp hlt))]
    obtain ⟨k, rfl⟩ := Nat.exists_eq_add_of_le' (Nat.not_lt.mp hlt)
    rfl

/-- The name of a record in front of the unused one is kept. -/
theorem nameKept_deletedFs : NameKept deletedFs.ext2 deletedFs.mem slash fPath (CString.ofChars ['f'])
    (fun _ => 0xFF#8) deletedRecords := by
  refine (nameKept_iff deletedFs.ext2 deletedFs.mem slash fPath (CString.ofChars ['f']) diskRoot _ deletedRecords
    deletedFs_root.1 deletedFs_root.2 deletedFs_tiled (by decide +kernel)).mpr ?_
  have htaken : takenEntries deletedFs.ext2 deletedFs.mem (seenRecords deletedRecords) =
      [(.pool 6400#64, [0x66#8]), (.pool 6528#64, [0x65#8])] := by decide +kernel
  have hcarried : Carries deletedFs.ext2 deletedFs.mem (allRecords deletedRecords) [0x66#8] :=
    ⟨⟨11#32, [0x66#8]⟩, by decide, by decide, by decide +kernel, rfl⟩
  refine ⟨fun _ => by decide +kernel, ?_, fun _ _ _ => hcarried, fun _ => Or.inr ?_⟩
  · rw [htaken]
    rintro (_ | _ | i) t ht
    · cases ht
      decide
    · cases ht
      decide
    · cases ht
  · rw [htaken]
    exact ⟨_, List.mem_cons_self, by decide +kernel⟩

/-- The record behind the unused one is not found, although it carries the name. -/
theorem deletedFs_not_kept : FsMounted deletedFs ∧
    ext2FindInodeByPath deletedFs.ext2 deletedFs.mem slash = some (some diskRoot) ∧
    inodeIsDir deletedFs.mem diskRoot = true ∧ DirTiled deletedFs.ext2 deletedFs.mem diskRoot deletedRecords ∧
    NamesIn (CString.ofChars ['/', 'g']) slash (CString.ofChars ['g']) ∧
    ¬NameKept deletedFs.ext2 deletedFs.mem slash (CString.ofChars ['/', 'g']) (CString.ofChars ['g']) (fun _ => 0#8)
      deletedRecords := by
  refine ⟨deletedFs_mounted, deletedFs_root.1, deletedFs_root.2, deletedFs_tiled, by decide +kernel, fun h => ?_⟩
  have hnone : ext2FindInodeByPath deletedFs.ext2 deletedFs.mem (CString.ofChars ['/', 'g']) = some none := by
    decide +kernel
  obtain ⟨q, hq⟩ := h.found.mpr ⟨⟨11#32, [0x67#8]⟩, by decide, by decide, by decide +kernel, by decide⟩
  rw [hnone] at hq
  cases hq

end PpoOS
