import PpoOS.Fs.Ext2

/-!
# The ext2 driver with checked reads (`ext2.c`)

The functions of the driver again, where every read of the image is checked to lie
in the image, and every read of a directory record in the block that is scanned.  A
read that does not, and a division by zero, have no result.  What the driver writes
is left out, so that a listing only counts its entries.
-/

namespace PpoOS

open FsM

namespace Checked

/-! ## Reads -/

/-- The `n` bytes from `p` on lie in the image. -/
def inImage (e : Ext2) (p : Ptr) (n : Nat) : Bool :=
  match e.data, p with
  | .pool a, .pool b => decide ((b - a).toNat + n ≤ e.size.toNat)
  | .addr a, .addr b => decide ((b - a).toNat + n ≤ e.size.toNat)
  | _, _ => false

def load16 (e : Ext2) (m : Memory) (p : Ptr) : Option U16 :=
  if inImage e p 2 = true then some (m.load16 p) else none

def load32 (e : Ext2) (m : Memory) (p : Ptr) : Option U32 :=
  if inImage e p 4 = true then some (m.load32 p) else none

def bytes (e : Ext2) (m : Memory) (p : Ptr) (n : Nat) : Option (List U8) :=
  if inImage e p n = true then some (m.bytes p n) else none

/-- The first `n` bytes of the record at `offset` lie in the block. -/
def record (blockSize : U32) (offset : U64) (n : Nat) : Option Unit :=
  if offset.toNat + n ≤ blockSize.toNat then some () else none

/-! ## Blocks and inodes -/

/-- `ext2_read_block` -/
def ext2ReadBlock (e : Ext2) (m : Memory) (blockNum : U32) : Option (Option Ptr) :=
  if e.data = Ptr.null ∨ e.blockSize = 0#32 then some none
  else do
    let blocksCount ← load32 e m (e.superblock.add 4#64)
    if blockNum ≥ blocksCount then return none
    let offset := (blockNum * e.blockSize).setWidth 64
    if offset + e.blockSize.setWidth 64 > e.size then return none
    return some (e.data.add offset)

/-- `ext2_read_inode` -/
def ext2ReadInode (e : Ext2) (m : Memory) (inodeNum : U32) : Option (Option Ptr) :=
  if e.data = Ptr.null ∨ e.superblock = Ptr.null ∨ inodeNum = 0#32 then some none
  else do
    let inodesCount ← load32 e m e.superblock
    if inodeNum > inodesCount then return none
    let inodesPerGroup ← load32 e m (e.superblock.add 40#64)
    -- the two divisions
    if inodesPerGroup = 0#32 then none
    else
      let group := (inodeNum - 1#32) / inodesPerGroup
      let index := (inodeNum - 1#32) % inodesPerGroup
      let firstDataBlock ← load32 e m (e.superblock.add 20#64)
      let bgDescOffset := (firstDataBlock + 1#32) * e.blockSize
      let bgDesc := (e.data.add (bgDescOffset.setWidth 64)).add (group.setWidth 64 * groupDescSize)
      let inodeTableBlock ← load32 e m (bgDesc.add 8#64)
      let inodeSize ← load16 e m (e.superblock.add 88#64)
      let inodeOffset := inodeTableBlock * e.blockSize + index * inodeSize.setWidth 32
      if (inodeOffset + inodeSize.setWidth 32).setWidth 64 > e.size then return none
      return some (e.data.add (inodeOffset.setWidth 64))

/-- `inode->block[i]` -/
def inodeBlock (e : Ext2) (m : Memory) (inode : Ptr) (i : Nat) : Option U32 :=
  load32 e m (inode.add (BitVec.ofNat 64 (40 + 4 * i)))

/-- `inode->mode & EXT2_S_IFDIR` -/
def inodeIsDir (e : Ext2) (m : Memory) (inode : Ptr) : Option Bool := do
  let mode ← load16 e m inode
  return decide (mode &&& ext2SIfdir ≠ 0#16)

/-- The fields of an inode that go into a file structure. -/
def inodeFields (e : Ext2) (m : Memory) (inode : Ptr) : Option Unit := do
  let _ ← load32 e m (inode.add 4#64)
  let _ ← load16 e m inode
  let _ ← load32 e m (inode.add 28#64)
  return ()

/-! ## Reading a file -/

/-- The loop of `ext2_read_inode_data`. -/
def inodeDataLoop (e : Ext2) (m : Memory) (inode : Ptr) (offset len : U64) (start stop : U32) :
    Nat → U32 → List U8 → Option (List U8)
  | 0, _, acc => some acc
  | fuel + 1, i, acc =>
    if i ≤ stop ∧ i < 12#32 then do
      let blockNum ← inodeBlock e m inode i.toNat
      match ← ext2ReadBlock e m blockNum with
      | none => return acc
      | some block =>
        let (first, toRead) := inodeDataPart e.blockSize offset len start stop i
        let bytesRead := BitVec.ofNat 64 acc.length
        let toRead := if bytesRead + toRead > len then len - bytesRead else toRead
        let part ← bytes e m (block.add first) toRead.toNat
        let acc := acc ++ part
        if BitVec.ofNat 64 acc.length ≥ len then return acc
        else inodeDataLoop e m inode offset len start stop fuel (i + 1#32) acc
    else some acc

/-- `ext2_read_inode_data` -/
def ext2ReadInodeData (e : Ext2) (m : Memory) (inode : Ptr) (offset len : U64) : Option (List U8) := do
  let fileSize ← load32 e m (inode.add 4#64)
  let size := fileSize.setWidth 64
  if offset ≥ size then return []
  else
    let len := if offset + len > size then size - offset else len
    if e.blockSize = 0#32 then none
    else
      let blockSize := e.blockSize.setWidth 64
      let start := (offset / blockSize).setWidth 32
      let stop := ((offset + len - 1#64) / blockSize).setWidth 32
      inodeDataLoop e m inode offset len start stop 12 start []

/-! ## Looking up a path -/

/-- How many bytes of `s` `strncmp` looks at. -/
def strncmpReads : List U8 → List U8 → Nat → Nat
  | _, _, 0 => 0
  | a :: s, b :: t, m + 1 => if a ≠ 0#8 ∧ a = b then strncmpReads s t m + 1 else 1
  | _, _, _ + 1 => 1

/-- How many bytes of a record a lookup of `token` looks at: the inode, the length, the length of the
name and the name, each one where the one before does not settle the matter. -/
def lookupReads (b : U64 → U8) (token : List U8) (offset : U64) : Nat :=
  let entry := dirRecord b offset
  if entry.inode = 0#32 then 4
  else if entry.recLen = 0#16 then 6
  else if entry.nameLen.toNat = token.length then
    8 + strncmpReads (dirName b offset entry.nameLen.toNat) token entry.nameLen.toNat
  else 7

/-- The loop over the records of a block. -/
def ext2ScanBlock (blockSize : U32) (b : U64 → U8) (token : List U8) : Nat → U64 → Option (Option U32)
  | 0, _ => none
  | fuel + 1, offset =>
    if offset < blockSize.setWidth 64 then do
      record blockSize offset (lookupReads b token offset)
      let entry := dirRecord b offset
      if entry.inode = 0#32 ∨ entry.recLen = 0#16 then return none
      else if entry.nameLen.toNat = token.length ∧
          strncmpLoop (dirName b offset entry.nameLen.toNat) token entry.nameLen.toNat = 0 then
        return some entry.inode
      else ext2ScanBlock blockSize b token fuel (offset + entry.recLen.setWidth 64)
    else some none

/-- One of the direct blocks of a directory. -/
def ext2ScanDirect (e : Ext2) (m : Memory) (inode : Ptr) (token : List U8) (i : Nat) :
    Option (Option U32) := do
  let blockNum ← inodeBlock e m inode i
  if blockNum = 0#32 then return none
  else
    match ← ext2ReadBlock e m blockNum with
    | none => return none
    | some block =>
      -- the copy of the block
      let _ ← bytes e m block e.blockSize.toNat
      ext2ScanBlock e.blockSize (blockBuffer e m block) token (e.blockSize.toNat + 1) 0#64

/-- `for (i = 0; i < 12 && !found; i++)` -/
def ext2ScanDir (e : Ext2) (m : Memory) (inode : Ptr) (token : List U8) : Option (Option U32) :=
  (List.range 12).findSomeM? (ext2ScanDirect e m inode token)

/-- The loop over the components of a path. -/
def ext2Walk (e : Ext2) (m : Memory) : Nat → List U8 → Ptr → Option (Option Ptr)
  | 0, _, _ => none
  | fuel + 1, token, current =>
    if token = [] then some (some current)
    else
      let (component, rest) := strchrCut 0x2F#8 token
      if component = [] then ext2Walk e m fuel (rest.getD []) current
      else do
        if (← inodeIsDir e m current) = false then return none
        else
          match ← ext2ScanDir e m current component with
          | none => return none
          | some num =>
            match ← ext2ReadInode e m num with
            | none => return none
            | some next => ext2Walk e m fuel (rest.getD []) next

/-- `ext2_find_inode_by_path` -/
def ext2FindInodeByPath (e : Ext2) (m : Memory) (path : CString) : Option (Option Ptr) := do
  if path.length = 0 then return none
  match ← ext2ReadInode e m 2#32 with
  | none => return none
  | some root =>
    if strcmp path slash = 0 then return some root
    let pathCopy ← strncpyCut (Buf.zero fsMaxPath) path
    let token := (← pathCopy.text).chars
    let token := if token.head? = some 0x2F#8 then token.tail else token
    ext2Walk e m (token.length + 1) token root

/-! ## The driver's calls -/

/-- `ext2_open` -/
def ext2Open (e : Ext2) (m : Memory) (path : CString) : Option (Option FsFile) := do
  match ← ext2FindInodeByPath e m path with
  | none => return none
  | some inode =>
    inodeFields e m inode
    let name ← strncpyCut (Buf.zero 32) (ext2FileName path)
    return some (inodeFile m inode name)

/-- The loop of `ext2_read`. -/
def ext2FindByBlocks (e : Ext2) (m : Memory) (blocks : U32) : Nat → U32 → Option (Option Ptr)
  | 0, _ => none
  | fuel + 1, i => do
    if i ≤ (← load32 e m e.superblock) then
      match ← ext2ReadInode e m i with
      | some inode =>
        if (← load32 e m (inode.add 28#64)) = blocks then return some inode
        else ext2FindByBlocks e m blocks fuel (i + 1#32)
      | none => ext2FindByBlocks e m blocks fuel (i + 1#32)
    else return none

/-- `ext2_read` -/
def ext2Read (e : Ext2) (m : Memory) (file : FsFile) (offset len : U64) : Option (List U8) := do
  if offset ≥ file.size then return []
  match ← ext2FindByBlocks e m (file.data.toU32 m) (2 ^ 32) 1#32 with
  | none => return []
  | some inode => ext2ReadInodeData e m inode offset len

/-- The bytes of a block where it lies. -/
def blockBytes (m : Memory) (block : Ptr) : U64 → U8 := fun i => m.load (block.add i)

/-- How many bytes of a record a listing looks at before it takes the entry: the inode, the length, the
length of the name, and the name where that is as short as `.` or `..`. -/
def listReads (b : U64 → U8) (offset : U64) : Nat :=
  let entry := dirRecord b offset
  if entry.inode = 0#32 then 4
  else if entry.recLen = 0#16 then 6
  else if entry.nameLen = 1#8 then 9
  else if entry.nameLen = 2#8 then if b (offset + 8#64) = 0x2E#8 then 10 else 9
  else 7

/-- The bytes of a record up to the end of its name. -/
def nameReads (entry : DirRecord) : Nat := if entry.nameLen = 0#8 then 7 else 8 + entry.nameLen.toNat

/-- The loop over the records of a block; `n` entries have been listed. -/
def ext2ListBlock (e : Ext2) (m : Memory) (block : Ptr) : Nat → U64 → Nat → Option Nat
  | 0, _, _ => none
  | fuel + 1, offset, n =>
    if offset < e.blockSize.setWidth 64 ∧ n < fsMaxFiles then do
      let b := blockBytes m block
      let entry := dirRecord b offset
      record e.blockSize offset (listReads b offset)
      if entry.inode = 0#32 ∨ entry.recLen = 0#16 then return n
      let next := offset + entry.recLen.setWidth 64
      if isDotName (dirName b offset entry.nameLen.toNat) then ext2ListBlock e m block fuel next n
      else
        match ← ext2ReadInode e m entry.inode with
        | none => ext2ListBlock e m block fuel next n
        | some inode =>
          record e.blockSize offset (nameReads entry)
          inodeFields e m inode
          ext2ListBlock e m block fuel next (n + 1)
    else some n

/-- One of the direct blocks of a directory. -/
def ext2ListDirect (e : Ext2) (m : Memory) (inode : Ptr) (n i : Nat) : Option Nat := do
  if n < fsMaxFiles then
    let blockNum ← inodeBlock e m inode i
    if blockNum = 0#32 then return n
    else
      match ← ext2ReadBlock e m blockNum with
      | none => return n
      | some block => ext2ListBlock e m block (e.blockSize.toNat + 1) 0#64 n
  else return n

/-- `ext2_list`: the number of entries listed. -/
def ext2List (e : Ext2) (m : Memory) (path : CString) : Option Nat := do
  match ← ext2FindInodeByPath e m path with
  | none => return 0
  | some dir =>
    if (← inodeIsDir e m dir) = true then (List.range 12).foldlM (ext2ListDirect e m dir) 0
    else return 0

/-- `ext2_change_dir` -/
def ext2ChangeDir (e : Ext2) (m : Memory) (path : CString) : Option Bool := do
  match ← ext2FindInodeByPath e m path with
  | none => return false
  | some inode => inodeIsDir e m inode

end Checked

/-- A call of the driver; the read is on the handle that `ext2_open` gives for the path. -/
inductive Ext2Call where
  | openFile (path : CString)
  | list (path : CString)
  | changeDir (path : CString)
  | read (path : CString) (offset len : U64)

def Ext2Call.run : Ext2Call → FsM Unit
  | .openFile path => do let _ ← ext2Open path
  | .list path => do let _ ← ext2List path
  | .changeDir path => do let _ ← ext2ChangeDir path
  | .read path offset len => do
    match ← ext2Open path with
    | none => return ()
    | some file =>
      let f ← getFile file
      let s ← get
      let _ ← ofOption (ext2Read s.ext2 s.mem f offset len)

/-- The call with checked reads. -/
def Ext2Call.checked (e : Ext2) (m : Memory) : Ext2Call → Option Unit
  | .openFile path => do let _ ← Checked.ext2Open e m path
  | .list path => do let _ ← Checked.ext2List e m path
  | .changeDir path => do let _ ← Checked.ext2ChangeDir e m path
  | .read path offset len => do
    match ← Checked.ext2Open e m path with
    | none => return ()
    | some file => do let _ ← Checked.ext2Read e m file offset len

end PpoOS
