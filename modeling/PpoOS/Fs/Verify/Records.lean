import PpoOS.Fs.Verify.Resolve
import PpoOS.Lib.RoomFold

/-!
# The records of a directory

Both scanners of the driver go along the records of a block until one is unused or
has no length.  They visit the same records where these lie inside of their block,
although one of them looks at a copy.

* **`ext2ScanDir_eq`**: a lookup finds the first record with the name.
* **`ext2ListDirect_eq`**: a listing takes the records one after the other.
-/

namespace PpoOS

open FaultState FsM Path RoomFold

variable {e : Ext2} {m : Memory} {p block : Ptr}

/-! ## One block -/

/-- A record in use: the number of its inode, and its name. -/
structure DirItem where
  inode : U32
  name : List U8
deriving DecidableEq

/-- The item at `offset` of a block. -/
def dirItem (b : U64 → U8) (offset : U64) : DirItem :=
  ⟨(dirRecord b offset).inode, dirName b offset (dirRecord b offset).nameLen.toNat⟩

/-- The scan stops at a record without inode or length. -/
def dirStops (b : U64 → U8) (offset : U64) : Prop :=
  (dirRecord b offset).inode = 0#32 ∨ (dirRecord b offset).recLen = 0#16

instance (b : U64 → U8) (offset : U64) : Decidable (dirStops b offset) :=
  inferInstanceAs (Decidable (_ ∨ _))

/-- The next record. -/
def dirNext (b : U64 → U8) (offset : U64) : U64 := offset + (dirRecord b offset).recLen.setWidth 64

/-- The items from `offset` on. -/
def blockItems (blockSize : U32) (b : U64 → U8) : Nat → U64 → List DirItem
  | 0, _ => []
  | fuel + 1, offset =>
    if offset < blockSize.setWidth 64 ∧ ¬dirStops b offset then
      dirItem b offset :: blockItems blockSize b fuel (dirNext b offset)
    else []

section

variable {blockSize : U32} {b : U64 → U8} {fuel : Nat} {offset : U64}

theorem blockItems_cons (hlt : offset < blockSize.setWidth 64) (hstops : ¬dirStops b offset) :
    blockItems blockSize b (fuel + 1) offset =
      dirItem b offset :: blockItems blockSize b fuel (dirNext b offset) := if_pos ⟨hlt, hstops⟩

theorem blockItems_stops (hstops : dirStops b offset) : blockItems blockSize b (fuel + 1) offset = [] :=
  if_neg fun h => h.2 hstops

theorem blockItems_end (hend : ¬offset < blockSize.setWidth 64) : blockItems blockSize b (fuel + 1) offset = [] :=
  if_neg fun h => hend h.1

end

/-- The records from `offset` on lie inside of the block: the fixed part of every one that is looked
at, and the names of those in use. -/
def ItemsInside (blockSize : U32) (b : U64 → U8) : Nat → U64 → Prop
  | 0, _ => True
  | fuel + 1, offset => offset < blockSize.setWidth 64 → offset.toNat + 8 ≤ blockSize.toNat ∧
      (¬dirStops b offset → offset.toNat + 8 + (dirRecord b offset).nameLen.toNat ≤ blockSize.toNat ∧
        ItemsInside blockSize b fuel (dirNext b offset))

instance decidableItemsInside (blockSize : U32) (b : U64 → U8) :
    (fuel : Nat) → (offset : U64) → Decidable (ItemsInside blockSize b fuel offset)
  | 0, _ => isTrue trivial
  | fuel + 1, offset =>
    have := decidableItemsInside blockSize b fuel (dirNext b offset)
    inferInstanceAs (Decidable (_ → _ ∧ (_ → _ ∧ ItemsInside blockSize b fuel (dirNext b offset))))

section Copy

variable {blockSize : U32} {b b' : U64 → U8} {offset : U64}

/-- The two views of the block agree on its own bytes. -/
def SameBlock (blockSize : U32) (b b' : U64 → U8) : Prop := ∀ i, i.toNat < blockSize.toNat → b' i = b i

theorem SameBlock.byte (h : SameBlock blockSize b b') {i : Nat} (hi : offset.toNat + i < blockSize.toNat) :
    b' (offset + BitVec.ofNat 64 i) = b (offset + BitVec.ofNat 64 i) := by
  have hsize := blockSize.isLt
  refine h _ ?_
  rw [BitVec.toNat_add, BitVec.toNat_ofNat, Nat.mod_eq_of_lt (by omega : i < 2 ^ 64), Nat.mod_eq_of_lt (by omega)]
  exact hi

theorem SameBlock.record (h : SameBlock blockSize b b') (hin : offset.toNat + 8 ≤ blockSize.toNat) :
    dirRecord b' offset = dirRecord b offset := by
  have hbyte : ∀ i, i < 8 → b' (offset + BitVec.ofNat 64 i) = b (offset + BitVec.ofNat 64 i) :=
    fun i hi => h.byte (by omega)
  have h0 : b' offset = b offset := by simpa using hbyte 0 (by decide)
  simp only [dirRecord, h0, hbyte 1 (by decide), hbyte 2 (by decide), hbyte 3 (by decide), hbyte 4 (by decide),
    hbyte 5 (by decide), hbyte 6 (by decide)]

theorem SameBlock.item (h : SameBlock blockSize b b') (hin : offset.toNat + 8 ≤ blockSize.toNat)
    (hname : offset.toNat + 8 + (dirRecord b offset).nameLen.toNat ≤ blockSize.toNat) :
    dirItem b' offset = dirItem b offset := by
  rw [dirItem, dirItem, h.record hin]
  congr 1
  refine List.map_congr_left fun i hi => ?_
  have hlt := List.mem_range.mp hi
  have hadd : offset + 8#64 + BitVec.ofNat 64 i = offset + BitVec.ofNat 64 (8 + i) := by
    rw [BitVec.add_assoc, BitVec.ofNat_add]
  rw [hadd]
  exact h.byte (by omega)

/-- Both views have the same items. -/
theorem SameBlock.items (h : SameBlock blockSize b b') (fuel : Nat) (offset : U64)
    (hin : ItemsInside blockSize b fuel offset) :
    blockItems blockSize b' fuel offset = blockItems blockSize b fuel offset := by
  induction fuel generalizing offset with
  | zero => rfl
  | succ fuel ih =>
    by_cases hlt : offset < blockSize.setWidth 64
    · obtain ⟨hhead, hrest⟩ := hin hlt
      have hrec := h.record hhead
      have hstop : dirStops b' offset ↔ dirStops b offset := by rw [dirStops, dirStops, hrec]
      by_cases hstops : dirStops b offset
      · rw [blockItems_stops hstops, blockItems_stops (hstop.mpr hstops)]
      · obtain ⟨hname, hnext⟩ := hrest hstops
        have hdir : dirNext b' offset = dirNext b offset := by rw [dirNext, dirNext, hrec]
        rw [blockItems_cons hlt hstops, blockItems_cons hlt (fun hc => hstops (hstop.mp hc)), h.item hhead hname,
          hdir, ih _ hnext]
    · rw [blockItems_end hlt, blockItems_end hlt]

end Copy

/-! ## The two scanners on a block -/

@[simp] theorem dirName_length (b : U64 → U8) (offset : U64) (n : Nat) : (dirName b offset n).length = n := by
  simp [dirName]

/-- The comparison of a record's name with a component. -/
theorem dirName_match {b : U64 → U8} {offset : U64} {token : List U8} (ht : 0#8 ∉ token) (nameLen : U8) :
    (nameLen.toNat = token.length ∧ strncmpLoop (dirName b offset nameLen.toNat) token nameLen.toNat = 0) ↔
      dirName b offset nameLen.toNat = token := by
  constructor
  · rintro ⟨hlen, hcmp⟩
    rw [hlen] at hcmp ⊢
    have hhead := (strncmpLoop_eq_zero ht).mp hcmp
    exact (hhead.eq_of_length (by rw [dirName_length])).symm
  · intro heq
    have hlen : nameLen.toNat = token.length := by
      rw [← heq, dirName_length]
    refine ⟨hlen, ?_⟩
    rw [hlen] at heq ⊢
    rw [heq]
    exact (strncmpLoop_eq_zero ht).mpr List.prefix_rfl

/-- A lookup in a block finds the first item with the name. -/
theorem ext2ScanBlock_eq {blockSize : U32} {b : U64 → U8} {token : List U8} (ht : 0#8 ∉ token) (fuel : Nat)
    (offset : U64) : ext2ScanBlock blockSize b token fuel offset =
      ((blockItems blockSize b fuel offset).find? fun d => d.name = token).map DirItem.inode := by
  induction fuel generalizing offset with
  | zero => rfl
  | succ fuel ih =>
    rw [ext2ScanBlock]
    by_cases hlt : offset < blockSize.setWidth 64
    · rw [if_pos hlt]
      dsimp only
      by_cases hstops : dirStops b offset
      · rw [blockItems_stops hstops]
        exact if_pos hstops
      · rw [blockItems_cons hlt hstops, if_neg (show ¬(_ ∨ _) from hstops), List.find?_cons]
        by_cases hname : (dirItem b offset).name = token
        · rw [if_pos ((dirName_match ht _).mpr hname), decide_eq_true hname]
          rfl
        · rw [if_neg (fun hc => hname ((dirName_match ht _).mp hc)), decide_eq_false hname]
          exact ih _
    · rw [if_neg hlt, blockItems_end hlt]
      rfl

/-- A listing of items; `acc` has been listed before. -/
def listItems (e : Ext2) (m : Memory) : List DirItem → List FsFile → Option (List FsFile)
  | [], acc => some acc
  | d :: ds, acc =>
    if acc.length < fsMaxFiles then
      if isDotName d.name = true then listItems e m ds acc
      else
        match ext2ReadInode e m d.inode with
        | none => none
        | some none => listItems e m ds acc
        | some (some inode) =>
          (ext2ListName d.name).bind fun name => listItems e m ds (acc ++ [inodeFile m inode name])
    else some acc

/-- What a listing does with a record; `put` makes the entry. -/
def listStep {α : Type} (e : Ext2) (m : Memory) (put : Ptr → List U8 → α → Option α) (d : DirItem) (a : α) : Option α :=
  if isDotName d.name = true then some a
  else
    match ext2ReadInode e m d.inode with
    | none => none
    | some none => some a
    | some (some inode) => put inode d.name a

/-- The entry that `ext2_list` makes. -/
def listFile (m : Memory) (inode : Ptr) (name : List U8) (acc : List FsFile) : Option (List FsFile) :=
  (ext2ListName name).map fun name => acc ++ [inodeFile m inode name]

theorem listItems_roomFold (ds : List DirItem) (acc : List FsFile) : listItems e m ds acc =
    roomFold (fun acc => acc.length < fsMaxFiles) (listStep e m (listFile m)) ds acc := by
  induction ds generalizing acc with
  | nil => rfl
  | cons d ds ih =>
    rw [listItems, roomFold, listStep]
    by_cases hdot : isDotName d.name = true
    · rw [if_pos hdot, if_pos hdot, Option.bind_some, ih]
    · rw [if_neg hdot, if_neg hdot]
      cases ext2ReadInode e m d.inode with
      | none => rfl
      | some o =>
        cases o with
        | none =>
          rw [Option.bind_some, ← ih]
        | some inode =>
          dsimp only
          rw [listFile, Option.bind_map]
          congr 2
          funext name
          exact ih _

/-- The next record is further on, and the offset does not wrap. -/
theorem dirNext_toNat {blockSize : U32} {b : U64 → U8} {offset : U64} (hlt : offset < blockSize.setWidth 64)
    (hstops : ¬dirStops b offset) : offset.toNat < blockSize.toNat ∧ offset.toNat < (dirNext b offset).toNat := by
  have hsize := blockSize.isLt
  have hrec := (dirRecord b offset).recLen.isLt
  have hoff : offset.toNat < blockSize.toNat := by
    have h : offset.toNat < (blockSize.setWidth 64).toNat := hlt
    rwa [BitVec.toNat_setWidth, Nat.mod_eq_of_lt (by omega)] at h
  have hpos : 0 < (dirRecord b offset).recLen.toNat :=
    Nat.pos_of_ne_zero fun h => hstops (Or.inr (BitVec.eq_of_toNat_eq h))
  refine ⟨hoff, ?_⟩
  rw [dirNext, BitVec.toNat_add, BitVec.toNat_setWidth, Nat.mod_eq_of_lt (by omega : _ < 2 ^ 64),
    Nat.mod_eq_of_lt (by omega)]
  omega

section Loop

variable {α : Type} {room : α → Prop} [DecidablePred room] {f : DirItem → α → Option α}

/-- A loop that goes along the records of a block as long as there is room. -/
theorem recordLoop_eq {blockSize : U32} {b : U64 → U8} {L : Nat → U64 → α → Option α}
    (hL : ∀ fuel offset a, L (fuel + 1) offset a =
      if offset < blockSize.setWidth 64 ∧ room a then
        if dirStops b offset then some a else (f (dirItem b offset) a).bind (L fuel (dirNext b offset))
      else some a)
    (fuel : Nat) (offset : U64) (a : α) (hfuel : blockSize.toNat - offset.toNat < fuel) :
    L fuel offset a = roomFold room f (blockItems blockSize b fuel offset) a := by
  induction fuel generalizing offset a with
  | zero => exact absurd hfuel (Nat.not_lt_zero _)
  | succ fuel ih =>
    rw [hL]
    by_cases hlt : offset < blockSize.setWidth 64
    · by_cases hroom : room a
      · rw [if_pos ⟨hlt, hroom⟩]
        by_cases hstops : dirStops b offset
        · rw [if_pos hstops, blockItems_stops hstops]
          rfl
        · obtain ⟨hoff, hnext⟩ := dirNext_toNat hlt hstops
          have hrest : L fuel (dirNext b offset) = roomFold room f (blockItems blockSize b fuel (dirNext b offset)) :=
            funext fun a => ih _ a (by omega)
          rw [if_neg hstops, blockItems_cons hlt hstops, roomFold, if_pos hroom, hrest]
      · rw [if_neg (fun hc => hroom hc.2), roomFold_full hroom]
    · rw [if_neg (fun hc => hlt hc.1), blockItems_end hlt]
      rfl

end Loop

/-- A loop that lists the records of a block; `put` makes an entry. -/
theorem listLoop_eq {α : Type} {room : α → Prop} [DecidablePred room] {put : Ptr → List U8 → α → Option α}
    {b : U64 → U8} {L : Nat → U64 → α → Option α}
    (hL : ∀ fuel offset a, L (fuel + 1) offset a =
      if offset < e.blockSize.setWidth 64 ∧ room a then
        if dirStops b offset then some a
        else if isDotName (dirItem b offset).name = true then L fuel (dirNext b offset) a
        else (ext2ReadInode e m (dirItem b offset).inode).bind fun o =>
          match o with
          | none => L fuel (dirNext b offset) a
          | some inode => (put inode (dirItem b offset).name a).bind (L fuel (dirNext b offset))
      else some a)
    (fuel : Nat) (offset : U64) (a : α) (hfuel : e.blockSize.toNat - offset.toNat < fuel) :
    L fuel offset a = roomFold room (listStep e m put) (blockItems e.blockSize b fuel offset) a := by
  refine recordLoop_eq (fun fuel offset a => ?_) fuel offset a hfuel
  rw [hL, listStep]
  refine if_congr Iff.rfl (if_congr Iff.rfl rfl ?_) rfl
  by_cases hdot : isDotName (dirItem b offset).name = true
  · rw [if_pos hdot, if_pos hdot]
    rfl
  · rw [if_neg hdot, if_neg hdot]
    cases ext2ReadInode e m (dirItem b offset).inode with
    | none => rfl
    | some o => cases o <;> rfl

/-- A listing of a block lists its items. -/
theorem ext2ListBlock_eq (fuel : Nat) (offset : U64) (acc : List FsFile)
    (hfuel : e.blockSize.toNat - offset.toNat < fuel) : ext2ListBlock e m block fuel offset acc =
      listItems e m (blockItems e.blockSize (fun i => m.load (block.add i)) fuel offset) acc := by
  rw [listItems_roomFold]
  refine listLoop_eq (fun fuel offset acc => ?_) fuel offset acc hfuel
  rw [ext2ListBlock]
  refine if_congr Iff.rfl (if_congr Iff.rfl rfl (if_congr Iff.rfl rfl ?_)) rfl
  refine congrArg _ (funext fun o => ?_)
  cases o with
  | none => rfl
  | some inode =>
    dsimp only
    rw [listFile, Option.bind_map]
    rfl

/-! ## The blocks of a directory -/

/-- The items of a direct block; a hole and a block that cannot be read have none. -/
def directItems (e : Ext2) (m : Memory) (inode : Ptr) (i : Nat) : List DirItem :=
  if inodeBlock m inode i = 0#32 then []
  else
    match ext2ReadBlock e m (inodeBlock m inode i) with
    | none => []
    | some block => blockItems e.blockSize (fun j => m.load (block.add j)) (e.blockSize.toNat + 1) 0#64

/-- The items of a directory, in the order of its blocks. -/
def dirItems (e : Ext2) (m : Memory) (inode : Ptr) : List DirItem :=
  (List.range 12).flatMap (directItems e m inode)

/-- The records of the directory lie inside of their blocks. -/
def DirInside (e : Ext2) (m : Memory) (inode : Ptr) : Prop :=
  ∀ i < 12, inodeBlock m inode i ≠ 0#32 → ∀ block, ext2ReadBlock e m (inodeBlock m inode i) = some block →
    ItemsInside e.blockSize (fun j => m.load (block.add j)) (e.blockSize.toNat + 1) 0#64

theorem blockBuffer_same (e : Ext2) (m : Memory) (block : Ptr) :
    SameBlock e.blockSize (fun j => m.load (block.add j)) (blockBuffer e m block) := by
  intro i hi
  have hsize := e.blockSize.isLt
  refine if_pos ?_
  change i.toNat < (e.blockSize.setWidth 64).toNat
  rwa [BitVec.toNat_setWidth, Nat.mod_eq_of_lt (by omega)]

theorem findSome?_congr {α β : Type} {l : List α} {f g : α → Option β} (h : ∀ a ∈ l, f a = g a) :
    l.findSome? f = l.findSome? g := by
  induction l with
  | nil => rfl
  | cons a l ih =>
    rw [List.findSome?_cons, List.findSome?_cons, h a List.mem_cons_self,
      ih fun b hb => h b (List.mem_cons_of_mem _ hb)]

/-- The items of a direct block in the copy that a lookup makes of it. -/
def scannedItems (e : Ext2) (m : Memory) (inode : Ptr) (i : Nat) : List DirItem :=
  if inodeBlock m inode i = 0#32 then []
  else
    match ext2ReadBlock e m (inodeBlock m inode i) with
    | none => []
    | some block => blockItems e.blockSize (blockBuffer e m block) (e.blockSize.toNat + 1) 0#64

theorem scannedItems_eq (hin : DirInside e m p) {i : Nat} (hi : i < 12) : scannedItems e m p i = directItems e m p i := by
  rw [scannedItems, directItems]
  by_cases hhole : inodeBlock m p i = 0#32
  · rw [if_pos hhole, if_pos hhole]
  · rw [if_neg hhole, if_neg hhole]
    cases hblock : ext2ReadBlock e m (inodeBlock m p i) with
    | none => rfl
    | some block => exact (blockBuffer_same e m block).items _ _ (hin i hi hhole block hblock)

/-- A lookup finds the first record with the name in its copies of the blocks. -/
theorem ext2ScanDir_find {token : List U8} (ht : 0#8 ∉ token) : ext2ScanDir e m p token =
    (((List.range 12).flatMap (scannedItems e m p)).find? fun d => d.name = token).map DirItem.inode := by
  have hdirect : ∀ i ∈ List.range 12, ext2ScanDirect e m p token i =
      ((scannedItems e m p i).find? fun d => d.name = token).map DirItem.inode := by
    intro i _
    rw [ext2ScanDirect, scannedItems]
    by_cases hhole : inodeBlock m p i = 0#32
    · rw [if_pos hhole, if_pos hhole]
      rfl
    · rw [if_neg hhole, if_neg hhole]
      cases ext2ReadBlock e m (inodeBlock m p i) with
      | none => rfl
      | some block => exact ext2ScanBlock_eq ht _ _
  rw [ext2ScanDir, List.find?_flatMap, List.map_findSome?]
  exact findSome?_congr hdirect

/-- **A lookup finds the first record with the name.** -/
theorem ext2ScanDir_eq {token : List U8} (ht : 0#8 ∉ token) (hin : DirInside e m p) :
    ext2ScanDir e m p token = ((dirItems e m p).find? fun d => d.name = token).map DirItem.inode := by
  have hitems : (List.range 12).flatMap (scannedItems e m p) = dirItems e m p :=
    List.flatMap_congr fun i hi => scannedItems_eq hin (List.mem_range.mp hi)
  rw [ext2ScanDir_find ht, hitems]

section Loop

variable {α : Type} {room : α → Prop} [DecidablePred room] {f : DirItem → α → Option α} {L : Ptr → Nat → U64 → α → Option α}

/-- A loop over the records of one direct block. -/
theorem directLoop_eq (hL : ∀ block a, L block (e.blockSize.toNat + 1) 0#64 a =
      roomFold room f (blockItems e.blockSize (fun j => m.load (block.add j)) (e.blockSize.toNat + 1) 0#64) a)
    (a : α) (i : Nat) :
    (if room a ∧ inodeBlock m p i ≠ 0#32 then
      match ext2ReadBlock e m (inodeBlock m p i) with
      | none => some a
      | some block => L block (e.blockSize.toNat + 1) 0#64 a
    else some a) = roomFold room f (directItems e m p i) a := by
  rw [directItems]
  by_cases hroom : room a
  · by_cases hhole : inodeBlock m p i = 0#32
    · rw [if_neg (fun h => h.2 hhole), if_pos hhole]
      rfl
    · rw [if_pos ⟨hroom, hhole⟩, if_neg hhole]
      cases ext2ReadBlock e m (inodeBlock m p i) with
      | none => rfl
      | some block => exact hL block a
  · rw [if_neg (fun h => hroom h.1), roomFold_full hroom]

/-- The blocks one after the other. -/
theorem blocksLoop_eq {D : α → Nat → Option α} (hD : ∀ a i, D a i = roomFold room f (directItems e m p i) a)
    (blocks : List Nat) (a : α) : blocks.foldlM D a = roomFold room f (blocks.flatMap (directItems e m p)) a := by
  induction blocks generalizing a with
  | nil => rfl
  | cons i blocks ih =>
    rw [List.foldlM_cons, List.flatMap_cons, roomFold_append, hD]
    cases roomFold room f (directItems e m p i) a with
    | none => rfl
    | some a' => exact ih a'

end Loop

/-- **A listing of a block lists its records.** -/
theorem ext2ListDirect_eq (acc : List FsFile) (i : Nat) : ext2ListDirect e m p acc i =
    roomFold (fun acc => acc.length < fsMaxFiles) (listStep e m (listFile m)) (directItems e m p i) acc := by
  have hblock : ∀ block acc, ext2ListBlock e m block (e.blockSize.toNat + 1) 0#64 acc =
      roomFold (fun acc => acc.length < fsMaxFiles) (listStep e m (listFile m))
        (blockItems e.blockSize (fun j => m.load (block.add j)) (e.blockSize.toNat + 1) 0#64) acc := by
    intro block acc
    rw [ext2ListBlock_eq _ _ _ (Nat.lt_succ_of_le (Nat.sub_le _ _)), listItems_roomFold]
  exact directLoop_eq hblock acc i

/-- The blocks are listed one after the other. -/
theorem listDirects_eq (blocks : List Nat) (acc : List FsFile) :
    blocks.foldlM (ext2ListDirect e m p) acc = listItems e m (blocks.flatMap (directItems e m p)) acc := by
  rw [listItems_roomFold]
  exact blocksLoop_eq ext2ListDirect_eq blocks acc

/-- **What `ext2_list` returns** for a path. -/
theorem ext2List_run {s : FsState} (path : CString) : (ext2List path).run s =
    (ext2FindInodeByPath s.ext2 s.mem path).bind fun o =>
      match o with
      | none => some ([], s)
      | some dir =>
        if inodeIsDir s.mem dir = true then
          (listItems s.ext2 s.mem (dirItems s.ext2 s.mem dir) []).map fun files =>
            (files, { s with ext2 := { s.ext2 with fileCache := files } })
        else some ([], s) := by
  rw [ext2List, run_get_bind, run_ofOption_bind]
  congr 1
  funext o
  cases o with
  | none => rfl
  | some dir =>
    dsimp only
    by_cases hdir : inodeIsDir s.mem dir = true
    · rw [if_pos hdir, if_pos hdir, listDirects_eq, run_ofOption_bind]
      change Option.bind (listItems s.ext2 s.mem (dirItems s.ext2 s.mem dir) []) _ = _
      cases listItems s.ext2 s.mem (dirItems s.ext2 s.mem dir) [] <;> rfl
    · rw [if_neg hdir, if_neg hdir]
      rfl

end PpoOS
