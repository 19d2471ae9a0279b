import PpoOS.Fs.Types

/-!
# The ext2 driver (`ext2.c`)

An image is read where it lies; its fields are 32-bit numbers whose products and
sums wrap, as in the source.  `none` is NULL, and a division by zero has no
result.
-/

namespace PpoOS

open FsM

/-! ## Fields of the image -/

def ext2SuperMagic : U16 := 0xEF53#16
def ext2SIfdir : U16 := 0x4000#16

/-- `sizeof(struct ext2_superblock)` -/
def superblockSize : U64 := 1024#64

/-- `sizeof(struct ext2_group_desc)` -/
def groupDescSize : U64 := 32#64

namespace Ext2

def inodesCount (e : Ext2) (m : Memory) : U32 := m.load32 e.superblock
def blocksCount (e : Ext2) (m : Memory) : U32 := m.load32 (e.superblock.add 4#64)
def firstDataBlock (e : Ext2) (m : Memory) : U32 := m.load32 (e.superblock.add 20#64)
def inodesPerGroup (e : Ext2) (m : Memory) : U32 := m.load32 (e.superblock.add 40#64)
def inodeSize (e : Ext2) (m : Memory) : U16 := m.load16 (e.superblock.add 88#64)

end Ext2

def inodeMode (m : Memory) (inode : Ptr) : U16 := m.load16 inode
def inodeFileSize (m : Memory) (inode : Ptr) : U32 := m.load32 (inode.add 4#64)
def inodeBlocks (m : Memory) (inode : Ptr) : U32 := m.load32 (inode.add 28#64)

/-- `inode->block[i]` -/
def inodeBlock (m : Memory) (inode : Ptr) (i : Nat) : U32 :=
  m.load32 (inode.add (BitVec.ofNat 64 (40 + 4 * i)))

/-- `inode->mode & EXT2_S_IFDIR` -/
def inodeIsDir (m : Memory) (inode : Ptr) : Bool := decide (inodeMode m inode &&& ext2SIfdir ≠ 0#16)

/-! ## Blocks and inodes -/

/-- `ext2_read_block` -/
def ext2ReadBlock (e : Ext2) (m : Memory) (blockNum : U32) : Option Ptr :=
  if e.data = Ptr.null ∨ e.blockSize = 0#32 ∨ blockNum ≥ e.blocksCount m then none
  else
    let offset := (blockNum * e.blockSize).setWidth 64
    if offset + e.blockSize.setWidth 64 > e.size then none
    else some (e.data.add offset)

/-- `ext2_read_inode` -/
def ext2ReadInode (e : Ext2) (m : Memory) (inodeNum : U32) : Option (Option Ptr) :=
  if e.data = Ptr.null ∨ e.superblock = Ptr.null ∨ inodeNum = 0#32 ∨ inodeNum > e.inodesCount m then
    some none
  else if e.inodesPerGroup m = 0#32 then none
  else
    let group := (inodeNum - 1#32) / e.inodesPerGroup m
    let index := (inodeNum - 1#32) % e.inodesPerGroup m
    let bgDescOffset := (e.firstDataBlock m + 1#32) * e.blockSize
    let bgDesc := (e.data.add (bgDescOffset.setWidth 64)).add (group.setWidth 64 * groupDescSize)
    let inodeTableBlock := m.load32 (bgDesc.add 8#64)
    let inodeSize := (e.inodeSize m).setWidth 32
    let inodeOffset := inodeTableBlock * e.blockSize + index * inodeSize
    if (inodeOffset + inodeSize).setWidth 64 > e.size then some none
    else some (some (e.data.add (inodeOffset.setWidth 64)))

/-! ## Reading a file -/

/-- How much of block `i` is read, and from where in it on. -/
def inodeDataPart (blockSize : U32) (offset len : U64) (start stop i : U32) : U64 × U64 :=
  let size := blockSize.setWidth 64
  let blockOffset := (offset % size).setWidth 32
  let first := if i = start then blockOffset.setWidth 64 else 0#64
  let endOffset := (offset + len) % size
  if i = stop ∧ endOffset > 0#64 then (first, endOffset - first) else (first, size - first)

/-- The loop over the direct blocks from `i` on; `acc` is what has been read. -/
def inodeDataLoop (e : Ext2) (m : Memory) (inode : Ptr) (offset len : U64) (start stop : U32) :
    Nat → U32 → List U8 → List U8
  | 0, _, acc => acc
  | fuel + 1, i, acc =>
    if i ≤ stop ∧ i < 12#32 then
      match ext2ReadBlock e m (inodeBlock m inode i.toNat) with
      | none => acc
      | some block =>
        let (first, toRead) := inodeDataPart e.blockSize offset len start stop i
        let bytesRead := BitVec.ofNat 64 acc.length
        let toRead := if bytesRead + toRead > len then len - bytesRead else toRead
        let acc := acc ++ m.bytes (block.add first) toRead.toNat
        if BitVec.ofNat 64 acc.length ≥ len then acc
        else inodeDataLoop e m inode offset len start stop fuel (i + 1#32) acc
    else acc

/-- `ext2_read_inode_data`: the bytes read, at most those of the twelve direct blocks. -/
def ext2ReadInodeData (e : Ext2) (m : Memory) (inode : Ptr) (offset len : U64) : Option (List U8) :=
  let size := (inodeFileSize m inode).setWidth 64
  if offset ≥ size then some []
  else
    let len := if offset + len > size then size - offset else len
    if e.blockSize = 0#32 then none
    else
      let blockSize := e.blockSize.setWidth 64
      let start := (offset / blockSize).setWidth 32
      let stop := ((offset + len - 1#64) / blockSize).setWidth 32
      some (inodeDataLoop e m inode offset len start stop 12 start [])

/-! ## Looking up a path -/

/-- A directory record, at some place of a block. -/
structure DirRecord where
  inode : U32
  recLen : U16
  nameLen : U8

/-- The name of the record at `offset` of a block, and its other fields; `b` gives the bytes of the
block and those behind it. -/
def dirName (b : U64 → U8) (offset : U64) (n : Nat) : List U8 :=
  (List.range n).map fun i => b (offset + 8#64 + BitVec.ofNat 64 i)

def dirRecord (b : U64 → U8) (offset : U64) : DirRecord where
  inode := b (offset + 3#64) ++ b (offset + 2#64) ++ b (offset + 1#64) ++ b offset
  recLen := b (offset + 5#64) ++ b (offset + 4#64)
  nameLen := b (offset + 6#64)

/-- `block_buffer`, which holds a copy of the block, and the stack behind it. -/
def blockBuffer (e : Ext2) (m : Memory) (block : Ptr) : U64 → U8 := fun i =>
  if i < e.blockSize.setWidth 64 then m.load (block.add i)
  else e.stack (i - e.blockSize.setWidth 64).toNat

/-- The loop over the records of a block: the inode number of the first record with the name
`token`. -/
def ext2ScanBlock (blockSize : U32) (b : U64 → U8) (token : List U8) : Nat → U64 → Option U32
  | 0, _ => none
  | fuel + 1, offset =>
    if offset < blockSize.setWidth 64 then
      let entry := dirRecord b offset
      if entry.inode = 0#32 ∨ entry.recLen = 0#16 then none
      else if entry.nameLen.toNat = token.length ∧
          strncmpLoop (dirName b offset entry.nameLen.toNat) token entry.nameLen.toNat = 0 then
        some entry.inode
      else ext2ScanBlock blockSize b token fuel (offset + entry.recLen.setWidth 64)
    else none

/-- One of the direct blocks of a directory: nothing where it is a hole or cannot be read.  Every
record has a length, so there are at most as many as bytes. -/
def ext2ScanDirect (e : Ext2) (m : Memory) (inode : Ptr) (token : List U8) (i : Nat) : Option U32 :=
  if inodeBlock m inode i = 0#32 then none
  else
    match ext2ReadBlock e m (inodeBlock m inode i) with
    | none => none
    | some block =>
      ext2ScanBlock e.blockSize (blockBuffer e m block) token (e.blockSize.toNat + 1) 0#64

/-- `for (i = 0; i < 12 && !found; i++)` -/
def ext2ScanDir (e : Ext2) (m : Memory) (inode : Ptr) (token : List U8) : Option U32 :=
  (List.range 12).findSome? (ext2ScanDirect e m inode token)

/-- The loop over the components of a path, with `token` still to be walked.  Each iteration takes at
least one character. -/
def ext2Walk (e : Ext2) (m : Memory) : Nat → List U8 → Ptr → Option (Option Ptr)
  | 0, _, _ => none
  | fuel + 1, token, current =>
    if token = [] then some (some current)
    else
      let (component, rest) := strchrCut 0x2F#8 token
      if component = [] then ext2Walk e m fuel (rest.getD []) current
      else if inodeIsDir m current = false then some none
      else
        match ext2ScanDir e m current component with
        | none => some none
        | some num => do
          match ← ext2ReadInode e m num with
          | none => return none
          | some next => ext2Walk e m fuel (rest.getD []) next

/-- `"/"` -/
def slash : CString := CString.ofChars ['/']

/-- `ext2_find_inode_by_path` -/
def ext2FindInodeByPath (e : Ext2) (m : Memory) (path : CString) : Option (Option Ptr) := do
  if path.length = 0 then return none
  match ← ext2ReadInode e m 2#32 with
  | none => return none
  | some root =>
    if strcmp path slash = 0 then return some root
    let pathCopy ← strncpyCut (Buf.zero fsMaxPath) path
    let token := (← pathCopy.text).chars
    let token := if token.head? = some 0x2F#8 then token.tail else token
    ext2Walk e m (token.length + 1) token root

/-! ## The driver's calls -/

/-- `ext2_detect` -/
def ext2Detect (m : Memory) (data : Ptr) (size : U64) : Bool :=
  if data = Ptr.null ∨ size < 1024#64 + superblockSize then false
  else decide (m.load16 ((data.add 1024#64).add 56#64) = ext2SuperMagic)

/-- `ext2_init` -/
def ext2Init (data : Ptr) (size : U64) : FsM Bool := do
  let s ← get
  if ext2Detect s.mem data size then
    let superblock := data.add 1024#64
    -- the processor takes the shift count modulo 32
    let shift := (s.mem.load32 (superblock.add 24#64)).toNat % 32
    let currentDir ← ofOption (strcpy s.ext2.currentDir slash)
    set { s with ext2 := { s.ext2 with
      data := data
      size := size
      superblock := superblock
      blockSize := 1024#32 <<< shift
      currentDir := currentDir } }
    return true
  else return false

/-- The file structure of an inode; the number of its blocks stands in for its data. -/
def inodeFile (m : Memory) (inode : Ptr) (name : Buf 32) : FsFile :=
  { FsFile.zero with
    name := name
    data := .addr ((inodeBlocks m inode).setWidth 64)
    size := (inodeFileSize m inode).setWidth 64
    capacity := (inodeFileSize m inode).setWidth 64
    isDir := inodeIsDir m inode }

/-- `strrchr(path, '/') + 1`, or the path itself. -/
def ext2FileName (path : CString) : CString :=
  match strrchrAfter 0x2F#8 path.chars with
  | some name => path.drop (path.length - name.length)
  | none => path

/-- `ext2_open` -/
def ext2Open (path : CString) : FsM (Option FileRef) := do
  if path.length = 0 then return none
  let s ← get
  match ← ofOption (ext2FindInodeByPath s.ext2 s.mem path) with
  | none => return none
  | some inode =>
    let name ← ofOption (strncpyCut (Buf.zero 32) (ext2FileName path))
    putFile .opened (inodeFile s.mem inode name)
    return some .opened

/-- The loop of `ext2_read`: the first inode from `i` on with that number of blocks. -/
def ext2FindByBlocks (e : Ext2) (m : Memory) (blocks : U32) : Nat → U32 → Option (Option Ptr)
  | 0, _ => none
  | fuel + 1, i => do
    if i ≤ e.inodesCount m then
      match ← ext2ReadInode e m i with
      | some inode =>
        if inodeBlocks m inode = blocks then return some inode
        else ext2FindByBlocks e m blocks fuel (i + 1#32)
      | none => ext2FindByBlocks e m blocks fuel (i + 1#32)
    else return none

/-- `(uint32_t)(uintptr_t)p` -/
def Ptr.toU32 (m : Memory) : Ptr → U32
  | .pool off => (m.poolBase + off).setWidth 32
  | .addr a => a.setWidth 32

/-- `ext2_read`: the bytes read. -/
def ext2Read (e : Ext2) (m : Memory) (file : FsFile) (offset len : U64) : Option (List U8) := do
  if offset ≥ file.size then return []
  match ← ext2FindByBlocks e m (file.data.toU32 m) (2 ^ 32) 1#32 with
  | none => return []
  | some inode => ext2ReadInodeData e m inode offset len

/-- `"."` and `".."` -/
def isDotName (name : List U8) : Bool := name = [0x2E#8] || name = [0x2E#8, 0x2E#8]

/-- `memcpy(file->name, entry->name, name_len); file->name[name_len] = 0`.  A name that runs out of
the array has no result here: `ext2ListInto` has the bytes that it writes then. -/
def ext2ListName (name : List U8) : Option (Buf 32) := do
  let b ← (Buf.zero 32).put 0 name
  b.write name.length 0#8

/-- The loop over the records of a block; `acc` is the part of `file_cache` that is filled. -/
def ext2ListBlock (e : Ext2) (m : Memory) (block : Ptr) :
    Nat → U64 → List FsFile → Option (List FsFile)
  | 0, _, _ => none
  | fuel + 1, offset, acc =>
    if offset < e.blockSize.setWidth 64 ∧ acc.length < fsMaxFiles then do
      let b := fun i => m.load (block.add i)
      let entry := dirRecord b offset
      if entry.inode = 0#32 ∨ entry.recLen = 0#16 then return acc
      let next := offset + entry.recLen.setWidth 64
      let name := dirName b offset entry.nameLen.toNat
      if isDotName name then ext2ListBlock e m block fuel next acc
      else
        match ← ext2ReadInode e m entry.inode with
        | none => ext2ListBlock e m block fuel next acc
        | some inode =>
          let name ← ext2ListName name
          ext2ListBlock e m block fuel next (acc ++ [inodeFile m inode name])
    else some acc

/-- One of the direct blocks of a directory. -/
def ext2ListDirect (e : Ext2) (m : Memory) (inode : Ptr) (acc : List FsFile) (i : Nat) :
    Option (List FsFile) :=
  if acc.length < fsMaxFiles ∧ inodeBlock m inode i ≠ 0#32 then
    match ext2ReadBlock e m (inodeBlock m inode i) with
    | none => some acc
    | some block => ext2ListBlock e m block (e.blockSize.toNat + 1) 0#64 acc
  else some acc

/-- `ext2_list`: the entries listed, which stay in `file_cache`. -/
def ext2List (path : CString) : FsM (List FsFile) := do
  let s ← get
  match ← ofOption (ext2FindInodeByPath s.ext2 s.mem path) with
  | none => return []
  | some dir =>
    if inodeIsDir s.mem dir then
      let files ← ofOption ((List.range 12).foldlM (ext2ListDirect s.ext2 s.mem dir) [])
      set { s with ext2 := { s.ext2 with fileCache := files } }
      return files
    else return []

/-- The directory string of the driver after a change to `path`. -/
def ext2JoinDir (currentDir : Buf fsMaxPath) (path : CString) : Option (Buf fsMaxPath) := do
  if path.chars.head? = some 0x2F#8 then
    let d ← strncpy currentDir path (fsMaxPath - 1)
    d.write (fsMaxPath - 1) 0#8
  else
    let current ← currentDir.text
    let len := BitVec.ofNat 64 current.length
    if current.length = 0 then none
    else if current.chars.getLast? ≠ some 0x2F#8 then
      let d ← strncat currentDir slash (128#64 - len - 1#64).toNat
      let d ← strncat d path (128#64 - (len + 1#64) - 1#64).toNat
      d.write (fsMaxPath - 1) 0#8
    else
      let d ← strncat currentDir path (128#64 - len - 1#64).toNat
      d.write (fsMaxPath - 1) 0#8

/-- `ext2_change_dir` -/
def ext2ChangeDir (path : CString) : FsM Bool := do
  if path.length = 0 then return false
  let s ← get
  match ← ofOption (ext2FindInodeByPath s.ext2 s.mem path) with
  | none => return false
  | some inode =>
    if inodeIsDir s.mem inode then
      let d ← ofOption (ext2JoinDir s.ext2.currentDir path)
      set { s with ext2 := { s.ext2 with currentDir := d } }
      return true
    else return false

end PpoOS
