import Mathlib.Data.List.GetD
import Mathlib.Data.List.Induction
import PpoOS.Fs.Ext2Writes
import PpoOS.Fs.Verify.Walk

/-!
# What a listing writes

`ext2_list` takes the first 32 records of a directory that are not `.` or `..` and
whose inodes can be read, and fills an entry of `file_cache` for each of them.

* **`ext2ListInto_taken`**: the writes are those of the records that are taken, one
  after the other.
* **`listTaken_holds`**: what lies in an entry afterwards, and what was written.
-/

namespace PpoOS

open ByteMem FaultState FsM Path RoomFold

variable {e : Ext2} {m : Memory} {p : Ptr} {path : CString} {c : FileCache}

/-! ## The records that are taken -/

/-- The inode and the name of a record that a listing takes. -/
def takenEntry (e : Ext2) (m : Memory) (d : DirItem) : Option (Ptr × List U8) :=
  if isDotName d.name = true then none else (inodeAt e m d.inode).map fun inode => (inode, d.name)

/-- The records that a listing takes, as long as there is room. -/
def takenEntries (e : Ext2) (m : Memory) (ds : List DirItem) : List (Ptr × List U8) :=
  (ds.filterMap (takenEntry e m)).take fsMaxFiles

/-- The entries for the records. -/
def listTaken (m : Memory) (ts : List (Ptr × List U8)) (c : FileCache) : Option FileCache :=
  ts.foldlM (fun c t => ext2ListPut m t.1 t.2 c) c

theorem ext2ListBlockInto_eq (block : Ptr) (fuel : Nat) (offset : U64) (c : FileCache)
    (hfuel : e.blockSize.toNat - offset.toNat < fuel) : ext2ListBlockInto e m block fuel offset c =
      roomFold (fun c => c.count < fsMaxFiles) (listStep e m (ext2ListPut m))
        (blockItems e.blockSize (fun i => m.load (block.add i)) fuel offset) c := by
  refine listLoop_eq (fun fuel offset c => ?_) fuel offset c hfuel
  rw [ext2ListBlockInto]
  refine if_congr Iff.rfl (if_congr Iff.rfl rfl (if_congr Iff.rfl rfl ?_)) rfl
  refine congrArg _ (funext fun o => ?_)
  cases o <;> rfl

theorem ext2ListDirectInto_eq (c : FileCache) (i : Nat) : ext2ListDirectInto e m p c i =
    roomFold (fun c => c.count < fsMaxFiles) (listStep e m (ext2ListPut m)) (directItems e m p i) c := by
  have hblock : ∀ block c, ext2ListBlockInto e m block (e.blockSize.toNat + 1) 0#64 c =
      roomFold (fun c => c.count < fsMaxFiles) (listStep e m (ext2ListPut m))
        (blockItems e.blockSize (fun j => m.load (block.add j)) (e.blockSize.toNat + 1) 0#64) c :=
    fun block c => ext2ListBlockInto_eq block _ _ c (Nat.lt_succ_of_le (Nat.sub_le _ _))
  exact directLoop_eq hblock c i

/-! ## One entry -/

/-- The writes for entry `i`, with a name of `n` bytes. -/
def entryWrites (i n : Nat) : List CacheWrite :=
  [⟨i, fsFileSize * i, fsFileSize⟩, ⟨i, fsFileSize * i, n⟩, ⟨i, fsFileSize * i + n, 1⟩, ⟨i, fsFileSize * i + 40, 8⟩,
    ⟨i, fsFileSize * i + 58, 1⟩, ⟨i, fsFileSize * i + 32, 8⟩, ⟨i, fsFileSize * i + 48, 8⟩]

/-- After a write. -/
def FileCache.wrote (c : FileCache) (entry start size : Nat) (src : Nat → U8) : FileCache :=
  { c with
    bytes := blit c.bytes (BitVec.ofNat 64 start) size src
    writes := c.writes ++ [⟨entry, start, size⟩] }

theorem FileCache.put_some {entry start size : Nat} {src : Nat → U8} (h : start + size ≤ fsFileSize * fsMaxFiles) :
    c.put entry start size src = some (c.wrote entry start size src) := if_pos h

theorem FileCache.put_none {entry start size : Nat} {src : Nat → U8} (h : ¬start + size ≤ fsFileSize * fsMaxFiles) :
    c.put entry start size src = none := if_neg h

/-- The bytes with an entry for the record. -/
def entryBytes (m : Memory) (inode : Ptr) (name : List U8) (i : Nat) (bytes : Mem) : Mem :=
  let file := fsFileSize * i
  let size := byteOf ((inodeFileSize m inode).setWidth 64)
  let bytes := blit bytes (BitVec.ofNat 64 file) fsFileSize fun _ => 0#8
  let bytes := blit bytes (BitVec.ofNat 64 file) name.length fun k => name.getD k 0#8
  let bytes := blit bytes (BitVec.ofNat 64 (file + name.length)) 1 fun _ => 0#8
  let bytes := blit bytes (BitVec.ofNat 64 (file + 40)) 8 size
  let bytes := blit bytes (BitVec.ofNat 64 (file + 58)) 1 fun _ => if inodeIsDir m inode then 1#8 else 0#8
  let bytes := blit bytes (BitVec.ofNat 64 (file + 32)) 8 (byteOf ((inodeBlocks m inode).setWidth 64))
  blit bytes (BitVec.ofNat 64 (file + 48)) 8 size

/-- **What is written for a record.** -/
theorem ext2ListPut_eq (inode : Ptr) (name : List U8) (hroom : c.count < fsMaxFiles) :
    ext2ListPut m inode name c =
      if fsFileSize * c.count + name.length < fsFileSize * fsMaxFiles then
        some ⟨c.count + 1, entryBytes m inode name c.count c.bytes, c.writes ++ entryWrites c.count name.length⟩
      else none := by
  have hentry : fsFileSize * c.count + fsFileSize ≤ fsFileSize * fsMaxFiles := Nat.mul_le_mul_left fsFileSize hroom
  have hsize : fsFileSize = 64 := rfl
  rw [ext2ListPut, FileCache.put_some hentry, Option.bind_eq_bind, Option.bind_some]
  by_cases hname : fsFileSize * c.count + name.length < fsFileSize * fsMaxFiles
  · rw [if_pos hname, FileCache.put_some (by omega), Option.bind_some, FileCache.put_some (by omega), Option.bind_some,
      FileCache.put_some (by omega), Option.bind_some, FileCache.put_some (by omega), Option.bind_some,
      FileCache.put_some (by omega), Option.bind_some, FileCache.put_some (by omega)]
    simp only [FileCache.wrote, List.append_assoc]
    rfl
  · rw [if_neg hname]
    by_cases hcopy : fsFileSize * c.count + name.length ≤ fsFileSize * fsMaxFiles
    · rw [FileCache.put_some hcopy, Option.bind_some, FileCache.put_none (by omega)]
      rfl
    · rw [FileCache.put_none hcopy]
      rfl

section Entry

variable {inode : Ptr} {name : List U8} {i k : Nat} {bytes : Mem}
  (hname : fsFileSize * i + name.length < fsFileSize * fsMaxFiles)

include hname

/-- Nothing in front of the entry changes. -/
theorem entryBytes_before (hk : k < fsFileSize * i) :
    entryBytes m inode name i bytes (BitVec.ofNat 64 k) = bytes (BitVec.ofNat 64 k) := by
  have hfile : fsFileSize * i = 64 * i := rfl
  have hsize : fsFileSize = 64 := rfl
  have hend : fsFileSize * fsMaxFiles = 2048 := rfl
  rw [entryBytes]
  rw [blit_ofNat (by omega) (by omega), if_neg (by omega), blit_ofNat (by omega) (by omega), if_neg (by omega),
    blit_ofNat (by omega) (by omega), if_neg (by omega), blit_ofNat (by omega) (by omega), if_neg (by omega),
    blit_ofNat (by omega) (by omega), if_neg (by omega), blit_ofNat (by omega) (by omega), if_neg (by omega),
    blit_ofNat (by omega) (by omega), if_neg (by omega)]

/-- The array of the name. -/
theorem entryBytes_name (hk : k < 32) :
    entryBytes m inode name i bytes (BitVec.ofNat 64 (fsFileSize * i + k)) = name.getD k 0#8 := by
  have hfile : fsFileSize * i = 64 * i := rfl
  have hsize : fsFileSize = 64 := rfl
  have hend : fsFileSize * fsMaxFiles = 2048 := rfl
  rw [entryBytes]
  -- the fields lie behind the name
  rw [blit_ofNat (by omega) (by omega), if_neg (by omega), blit_ofNat (by omega) (by omega), if_neg (by omega),
    blit_ofNat (by omega) (by omega), if_neg (by omega), blit_ofNat (by omega) (by omega), if_neg (by omega),
    blit_ofNat (by omega) (by omega), blit_ofNat (by omega) (by omega), blit_ofNat (by omega) (by omega)]
  have hplace : fsFileSize * i + k - fsFileSize * i = k := Nat.add_sub_cancel_left _ _
  by_cases hnul : k = name.length
  · rw [if_pos (by omega), hnul, List.getD_eq_default _ _ (Nat.le_refl _)]
  · rw [if_neg (by omega)]
    by_cases hin : k < name.length
    · rw [if_pos (by omega), hplace]
    · rw [if_neg (by omega), if_pos (by omega), List.getD_eq_default _ _ (by omega)]

/-- The field behind it. -/
theorem entryBytes_data (hk : k < 8) : entryBytes m inode name i bytes (BitVec.ofNat 64 (fsFileSize * i + 32 + k)) =
    byteOf ((inodeBlocks m inode).setWidth 64) k := by
  have hfile : fsFileSize * i = 64 * i := rfl
  have hsize : fsFileSize = 64 := rfl
  have hend : fsFileSize * fsMaxFiles = 2048 := rfl
  have hplace : fsFileSize * i + 32 + k - (fsFileSize * i + 32) = k := Nat.add_sub_cancel_left _ _
  rw [entryBytes]
  rw [blit_ofNat (by omega) (by omega), if_neg (by omega), blit_ofNat (by omega) (by omega), if_pos (by omega), hplace]

end Entry

/-! ## All entries -/

/-- The cache has an entry for each of the records. -/
structure CacheHolds (m : Memory) (ts : List (Ptr × List U8)) (c : FileCache) : Prop where
  count : c.count = ts.length
  name : ∀ i t, ts[i]? = some t → ∀ k < 32, c.bytes (BitVec.ofNat 64 (fsFileSize * i + k)) = t.2.getD k 0#8
  data : ∀ i t, ts[i]? = some t → ∀ k < 8, c.bytes (BitVec.ofNat 64 (fsFileSize * i + 32 + k)) =
    byteOf ((inodeBlocks m t.1).setWidth 64) k
  writes : ∀ w, w ∈ c.writes ↔ ∃ i t, ts[i]? = some t ∧ w ∈ entryWrites i t.2.length

/-- No name runs past the end of `file_cache`. -/
def NamesInCache (ts : List (Ptr × List U8)) : Prop :=
  ∀ i t, ts[i]? = some t → fsFileSize * i + t.2.length < fsFileSize * fsMaxFiles

/-- One more entry. -/
theorem CacheHolds.put {ts : List (Ptr × List U8)} {t : Ptr × List U8} (h : CacheHolds m ts c)
    (hname : fsFileSize * c.count + t.2.length < fsFileSize * fsMaxFiles) :
    CacheHolds m (ts ++ [t])
      ⟨c.count + 1, entryBytes m t.1 t.2 c.count c.bytes, c.writes ++ entryWrites c.count t.2.length⟩ := by
  -- an entry is one of the old ones, or the new one
  have hcases : ∀ i u, (ts ++ [t])[i]? = some u → i < c.count ∧ ts[i]? = some u ∨ i = c.count ∧ u = t := by
    intro i u hu
    rw [h.count]
    by_cases hi : i < ts.length
    · rw [List.getElem?_append_left hi] at hu
      exact Or.inl ⟨hi, hu⟩
    · rw [List.getElem?_append_right (Nat.not_lt.mp hi), List.getElem?_singleton] at hu
      split at hu
      · cases hu
        exact Or.inr ⟨by omega, rfl⟩
      · cases hu
  have hfile : ∀ i, fsFileSize * i = 64 * i := fun _ => rfl
  refine ⟨?_, fun i u hu k hk => ?_, fun i u hu k hk => ?_, fun w => ?_⟩
  · rw [List.length_append, ← h.count, List.length_singleton]
  · rcases hcases i u hu with ⟨hi, hold⟩ | ⟨rfl, rfl⟩
    · rw [← h.name i u hold k hk]
      exact entryBytes_before hname (by rw [hfile, hfile]; omega)
    · exact entryBytes_name hname hk
  · rcases hcases i u hu with ⟨hi, hold⟩ | ⟨rfl, rfl⟩
    · rw [← h.data i u hold k hk]
      exact entryBytes_before hname (by rw [hfile, hfile]; omega)
    · exact entryBytes_data hname hk
  · rw [List.mem_append, h.writes]
    constructor
    · rintro (⟨i, u, hu, hw⟩ | hw)
      · obtain ⟨hi, -⟩ := List.getElem?_eq_some_iff.mp hu
        exact ⟨i, u, by rw [List.getElem?_append_left hi]; exact hu, hw⟩
      · refine ⟨c.count, t, ?_, hw⟩
        rw [h.count, List.getElem?_append_right (Nat.le_refl _), Nat.sub_self]
        rfl
    · rintro ⟨i, u, hu, hw⟩
      rcases hcases i u hu with ⟨-, hold⟩ | ⟨rfl, rfl⟩
      · exact Or.inl ⟨i, u, hold, hw⟩
      · exact Or.inr hw

theorem listTaken_append {ts : List (Ptr × List U8)} {t : Ptr × List U8} :
    listTaken m (ts ++ [t]) c = (listTaken m ts c).bind (ext2ListPut m t.1 t.2) := by
  rw [listTaken, List.foldlM_append, ← listTaken]
  congr 1
  funext c
  rw [List.foldlM_cons]
  cases ext2ListPut m t.1 t.2 c <;> rfl

theorem namesInCache_append {ts : List (Ptr × List U8)} {t : Ptr × List U8} : NamesInCache (ts ++ [t]) ↔
    NamesInCache ts ∧ fsFileSize * ts.length + t.2.length < fsFileSize * fsMaxFiles := by
  have hlast : (ts ++ [t])[ts.length]? = some t := by
    rw [List.getElem?_append_right (Nat.le_refl _), Nat.sub_self]
    rfl
  constructor
  · intro h
    refine ⟨fun i u hu => h i u ?_, h _ _ hlast⟩
    obtain ⟨hi, -⟩ := List.getElem?_eq_some_iff.mp hu
    rw [List.getElem?_append_left hi]
    exact hu
  · rintro ⟨h, hname⟩ i u hu
    by_cases hi : i < ts.length
    · rw [List.getElem?_append_left hi] at hu
      exact h i u hu
    · obtain ⟨hlt, -⟩ := List.getElem?_eq_some_iff.mp hu
      rw [List.length_append, List.length_singleton] at hlt
      obtain rfl : i = ts.length := by omega
      rw [hlast] at hu
      cases hu
      exact hname

/-- **What a listing leaves in `file_cache`**; where a name runs past its end, the listing has no result. -/
theorem listTaken_holds {ts : List (Ptr × List U8)} {bytes : Mem} (hlen : ts.length ≤ fsMaxFiles) :
    (NamesInCache ts ∧ ∃ c, listTaken m ts ⟨0, bytes, []⟩ = some c ∧ CacheHolds m ts c) ∨
      (¬NamesInCache ts ∧ listTaken m ts ⟨0, bytes, []⟩ = none) := by
  induction ts using List.reverseRecOn with
  | nil => exact Or.inl ⟨nofun, _, rfl, rfl, nofun, nofun, fun w => ⟨nofun, nofun⟩⟩
  | append_singleton ts t ih =>
    rw [List.length_append, List.length_singleton] at hlen
    rw [listTaken_append, namesInCache_append]
    rcases ih (by omega) with ⟨hnames, c, hrun, hholds⟩ | ⟨hnames, hrun⟩
    · have hroom : c.count < fsMaxFiles := by
        rw [hholds.count]
        omega
      rw [hrun, Option.bind_some, ext2ListPut_eq _ _ hroom, ← hholds.count]
      by_cases hname : fsFileSize * c.count + t.2.length < fsFileSize * fsMaxFiles
      · rw [if_pos hname]
        exact Or.inl ⟨⟨hnames, hname⟩, _, rfl, hholds.put hname⟩
      · rw [if_neg hname]
        exact Or.inr ⟨fun h => hname h.2, rfl⟩
    · rw [hrun]
      exact Or.inr ⟨fun h => hnames h.1, rfl⟩

/-! ## The listing -/

theorem FileCache.put_count {entry start size : Nat} {src : Nat → U8} {c' : FileCache}
    (h : c.put entry start size src = some c') : c'.count = c.count := by
  rw [FileCache.put] at h
  split at h
  · cases h
    rfl
  · cases h

theorem ext2ListPut_count {inode : Ptr} {name : List U8} {c' : FileCache} (h : ext2ListPut m inode name c = some c') :
    c'.count = c.count + 1 := by
  rw [ext2ListPut] at h
  simp only [Option.bind_eq_bind, Option.bind_eq_some_iff] at h
  obtain ⟨c₁, h₁, c₂, h₂, c₃, h₃, c₄, h₄, c₅, h₅, c₆, h₆, h⟩ := h
  rw [FileCache.put_count h, FileCache.put_count h₆, FileCache.put_count h₅, FileCache.put_count h₄,
    FileCache.put_count h₃, FileCache.put_count h₂, FileCache.put_count h₁]

/-- What a listing does with a record: nothing, or an entry. -/
theorem listStep_taken {α : Type} {put : Ptr → List U8 → α → Option α} (hdef : NoDivision e m) (d : DirItem) (a : α) :
    listStep e m put d a =
      match takenEntry e m d with
      | none => some a
      | some t => put t.1 t.2 a := by
  rw [listStep, takenEntry]
  by_cases hdot : isDotName d.name = true
  · rw [if_pos hdot, if_pos hdot]
  · rw [if_neg hdot, if_neg hdot, hdef.read]
    cases inodeAt e m d.inode <;> rfl

/-- A listing takes the records in order, as long as there is room. -/
theorem roomFold_taken {α : Type} {put : Ptr → List U8 → α → Option α} (hdef : NoDivision e m) {count : α → Nat}
    (hcount : ∀ a (t : Ptr × List U8) a', put t.1 t.2 a = some a' → count a' = count a + 1) (ds : List DirItem)
    (a : α) (hstart : count a = 0) : roomFold (fun a => count a < fsMaxFiles) (listStep e m put) ds a =
      (takenEntries e m ds).foldlM (fun a t => put t.1 t.2 a) a := by
  have hskip : ∀ d a, takenEntry e m d = none → listStep e m put d a = some a := by
    intro d a h
    rw [listStep_taken hdef, h]
  have htake : ∀ d t a, takenEntry e m d = some t → listStep e m put d a = put t.1 t.2 a := by
    intro d t a h
    rw [listStep_taken hdef, h]
  rw [roomFold_take (fun _ => Iff.rfl) hskip htake hcount, hstart]
  rfl

/-- The loops over the blocks take the records in order. -/
theorem listDirectsInto_taken (hdef : NoDivision e m) (bytes : Mem) :
    (List.range 12).foldlM (ext2ListDirectInto e m p) ⟨0, bytes, []⟩ =
      listTaken m (takenEntries e m (dirItems e m p)) ⟨0, bytes, []⟩ := by
  rw [blocksLoop_eq ext2ListDirectInto_eq, ← dirItems]
  exact roomFold_taken hdef (fun _ _ _ h => ext2ListPut_count h) _ _ rfl

theorem listItems_taken (hdef : NoDivision e m) (ds : List DirItem) :
    listItems e m ds [] = (takenEntries e m ds).foldlM (fun acc t => listFile m t.1 t.2 acc) [] := by
  have hcount : ∀ acc (t : Ptr × List U8) acc', listFile m t.1 t.2 acc = some acc' → acc'.length = acc.length + 1 := by
    intro acc t acc' h
    obtain ⟨name, -, rfl⟩ := Option.map_eq_some_iff.mp h
    exact List.length_append
  rw [listItems_roomFold]
  exact roomFold_taken hdef hcount ds [] rfl

/-- **The writes of a listing** are those for the records that are taken. -/
theorem ext2ListInto_taken (hfind : ext2FindInodeByPath e m path = some (some p)) (hdir : inodeIsDir m p = true)
    (bytes : Mem) : ext2ListInto e m path bytes =
      (listTaken m (takenEntries e m (dirItems e m p)) ⟨0, bytes, []⟩).map some := by
  obtain ⟨root, hroot, -⟩ := names_of_find hfind
  rw [ext2ListInto, hfind, Option.bind_eq_bind, Option.bind_some]
  dsimp only
  rw [if_pos hdir, listDirectsInto_taken (noDivision_of_root hroot)]
  cases listTaken m (takenEntries e m (dirItems e m p)) ⟨0, bytes, []⟩ <;> rfl

end PpoOS
