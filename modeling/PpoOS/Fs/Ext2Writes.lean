import PpoOS.Fs.Ext2

/-!
# What the driver of an image writes

`Fs/Ext2.lean` has what the calls of the driver return.  Here are the same loops with
the memory that they write to.
-/

namespace PpoOS

open ByteMem

/-! ## Reading into a buffer -/

/-- The loop of `ext2_read_inode_data`.  `buf` is what lies at each distance from the start of the
buffer. -/
def inodeDataLoopInto (e : Ext2) (m : Memory) (inode : Ptr) (offset len : U64) (start stop : U32) :
    Nat → U32 → U64 → Mem → U64 × Mem
  | 0, _, bytesRead, buf => (bytesRead, buf)
  | fuel + 1, i, bytesRead, buf =>
    if i ≤ stop ∧ i < 12#32 then
      match ext2ReadBlock e m (inodeBlock m inode i.toNat) with
      | none => (bytesRead, buf)
      | some block =>
        let (first, toRead) := inodeDataPart e.blockSize offset len start stop i
        let toRead := if bytesRead + toRead > len then len - bytesRead else toRead
        let buf := blit buf bytesRead toRead.toNat fun k =>
          m.load ((block.add first).add (BitVec.ofNat 64 k))
        let bytesRead := bytesRead + toRead
        if bytesRead ≥ len then (bytesRead, buf)
        else inodeDataLoopInto e m inode offset len start stop fuel (i + 1#32) bytesRead buf
    else (bytesRead, buf)

/-- `ext2_read_inode_data`, for an inode and a buffer that are not NULL: how much was read, and the
buffer. -/
def ext2ReadInodeDataInto (e : Ext2) (m : Memory) (inode : Ptr) (offset : U64) (buf : Mem) (len : U64) :
    Option (U64 × Mem) :=
  let size := (inodeFileSize m inode).setWidth 64
  if offset ≥ size then some (0#64, buf)
  else
    let len := if offset + len > size then size - offset else len
    if e.blockSize = 0#32 then none
    else
      let blockSize := e.blockSize.setWidth 64
      let start := (offset / blockSize).setWidth 32
      let stop := ((offset + len - 1#64) / blockSize).setWidth 32
      some (inodeDataLoopInto e m inode offset len start stop 12 start 0#64 buf)

/-! ## Listing into `file_cache` -/

/-- `sizeof(struct fs_file)` -/
def fsFileSize : Nat := 64

/-- A write to `file_cache` while one of its entries is filled, with distances from the start of the array. -/
structure CacheWrite where
  entry : Nat
  start : Nat
  size : Nat
deriving DecidableEq

/-- `file_cache_count`, what lies at each distance from the start of `file_cache`, and the writes of the
call. -/
structure FileCache where
  count : Nat
  bytes : Mem
  writes : List CacheWrite

/-- A write while entry `entry` is filled; one that leaves the array has no result. -/
def FileCache.put (c : FileCache) (entry start size : Nat) (src : Nat → U8) : Option FileCache :=
  if start + size ≤ fsFileSize * fsMaxFiles then
    some { c with
      bytes := blit c.bytes (BitVec.ofNat 64 start) size src
      writes := c.writes ++ [⟨entry, start, size⟩] }
  else none

/-- What `ext2_list` writes for a record.  The fields of the structure begin at 0 (`name`), 32 (`data`),
40 (`size`), 48 (`capacity`) and 58 (`is_dir`). -/
def ext2ListPut (m : Memory) (inode : Ptr) (name : List U8) (c : FileCache) : Option FileCache := do
  let i := c.count
  let file := fsFileSize * i
  let size := byteOf ((inodeFileSize m inode).setWidth 64)
  let c := { c with count := i + 1 }
  let c ← c.put i file fsFileSize fun _ => 0#8
  let c ← c.put i file name.length fun k => name.getD k 0#8
  let c ← c.put i (file + name.length) 1 fun _ => 0#8
  let c ← c.put i (file + 40) 8 size
  let c ← c.put i (file + 58) 1 fun _ => if inodeIsDir m inode then 1#8 else 0#8
  let c ← c.put i (file + 32) 8 (byteOf ((inodeBlocks m inode).setWidth 64))
  c.put i (file + 48) 8 size

/-- The loop over the records of a block. -/
def ext2ListBlockInto (e : Ext2) (m : Memory) (block : Ptr) : Nat → U64 → FileCache → Option FileCache
  | 0, _, _ => none
  | fuel + 1, offset, c =>
    if offset < e.blockSize.setWidth 64 ∧ c.count < fsMaxFiles then do
      let b := fun i => m.load (block.add i)
      let entry := dirRecord b offset
      if entry.inode = 0#32 ∨ entry.recLen = 0#16 then return c
      let next := offset + entry.recLen.setWidth 64
      let name := dirName b offset entry.nameLen.toNat
      if isDotName name then ext2ListBlockInto e m block fuel next c
      else
        match ← ext2ReadInode e m entry.inode with
        | none => ext2ListBlockInto e m block fuel next c
        | some inode =>
          let c ← ext2ListPut m inode name c
          ext2ListBlockInto e m block fuel next c
    else some c

/-- One of the direct blocks of a directory. -/
def ext2ListDirectInto (e : Ext2) (m : Memory) (inode : Ptr) (c : FileCache) (i : Nat) : Option FileCache :=
  if c.count < fsMaxFiles ∧ inodeBlock m inode i ≠ 0#32 then
    match ext2ReadBlock e m (inodeBlock m inode i) with
    | none => some c
    | some block => ext2ListBlockInto e m block (e.blockSize.toNat + 1) 0#64 c
  else some c

/-- `ext2_list`: NULL, or `file_cache`. -/
def ext2ListInto (e : Ext2) (m : Memory) (path : CString) (bytes : Mem) : Option (Option FileCache) := do
  match ← ext2FindInodeByPath e m path with
  | none => return none
  | some dir =>
    if inodeIsDir m dir then
      let c ← (List.range 12).foldlM (ext2ListDirectInto e m dir) ⟨0, bytes, []⟩
      return some c
    else return none

end PpoOS
