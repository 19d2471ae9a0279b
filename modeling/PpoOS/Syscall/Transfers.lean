import PpoOS.Lib.Trace
import PpoOS.Syscall.Syscall

/-!
# The transfers of the system calls

The handlers of `syscall.c` with an event for every access through a pointer of the
program, and for every write into one of the buffers on the kernel's stack.  A copy
is recorded before it is made, so that one that faults is recorded too.  The path
of an open and the entries of a listing are only read by the file system.  An exit
and a fork take no pointer; nothing is recorded of them.
-/

namespace PpoOS

open FsM SysM Traced

/-! ## Transfers -/

/-- The buffers of the handlers. -/
inductive KernelBuffer where
  | kbuf
  | kpath
  | kdirent
deriving DecidableEq

/-- `sizeof` of a buffer. -/
def KernelBuffer.capacity : KernelBuffer → Nat
  | .kbuf => 4096
  | .kpath => 256
  | .kdirent => direntSize.toNat

inductive Transfer where
  /-- The `size` bytes from `addr` on, read or written through a pointer of the program. -/
  | user (addr : U64) (size : Nat)
  /-- `size` bytes written into a buffer, from its byte `first` on. -/
  | kernel (buffer : KernelBuffer) (first size : Nat)
deriving DecidableEq

abbrev FsT := Traced Transfer FsState
abbrev SysT := Traced Transfer SysState

/-- A call of the file system. -/
def SysT.ofFs {α : Type} (x : FsT α) : SysT α := fun s =>
  ((x s.fs).1, (x s.fs).2.map fun (a, fs) => (a, { s with fs := fs }))

/-! ## Reading a file into a buffer -/

/-- The loop of `ext2_read_inode_data`. -/
def inodeDataLoopTraced (buf : KernelBuffer) (e : Ext2) (m : Memory) (inode : Ptr) (offset len : U64)
    (start stop : U32) : Nat → U32 → List U8 → FsT (List U8)
  | 0, _, acc => return acc
  | fuel + 1, i, acc =>
    if i ≤ stop ∧ i < 12#32 then
      match ext2ReadBlock e m (inodeBlock m inode i.toNat) with
      | none => return acc
      | some block => do
        let (first, toRead) := inodeDataPart e.blockSize offset len start stop i
        let bytesRead := BitVec.ofNat 64 acc.length
        let toRead := if bytesRead + toRead > len then len - bytesRead else toRead
        emit (.kernel buf bytesRead.toNat toRead.toNat)
        let acc := acc ++ m.bytes (block.add first) toRead.toNat
        if BitVec.ofNat 64 acc.length ≥ len then return acc
        else inodeDataLoopTraced buf e m inode offset len start stop fuel (i + 1#32) acc
    else return acc

/-- `ext2_read_inode_data` -/
def ext2ReadInodeDataTraced (buf : KernelBuffer) (e : Ext2) (m : Memory) (inode : Ptr) (offset len : U64) :
    FsT (List U8) :=
  let size := (inodeFileSize m inode).setWidth 64
  if offset ≥ size then return []
  else
    let len := if offset + len > size then size - offset else len
    if e.blockSize = 0#32 then fault
    else
      let blockSize := e.blockSize.setWidth 64
      let start := (offset / blockSize).setWidth 32
      let stop := ((offset + len - 1#64) / blockSize).setWidth 32
      inodeDataLoopTraced buf e m inode offset len start stop 12 start []

/-- `ext2_read` -/
def ext2ReadTraced (buf : KernelBuffer) (e : Ext2) (m : Memory) (file : FsFile) (offset len : U64) :
    FsT (List U8) := do
  if offset ≥ file.size then return []
  match ← lift (ofOption (ext2FindByBlocks e m (file.data.toU32 m) (2 ^ 32) 1#32)) with
  | none => return []
  | some inode => ext2ReadInodeDataTraced buf e m inode offset len

/-- `fs_read` -/
def fsReadTraced (buf : KernelBuffer) (file : FileRef) (offset len : U64) : FsT (List U8) := do
  let f ← lift (getFile file)
  if offset ≥ f.size then return []
  let s ← lift get
  if f.fsType = .ext2 then ext2ReadTraced buf s.ext2 s.mem f offset len
  else if f.data = Ptr.null then return []
  else
    let toCopy := if f.size - offset > len then len else f.size - offset
    emit (.kernel buf 0 toCopy.toNat)
    return s.mem.bytes (f.data.add offset) toCopy.toNat

/-! ## Access to the memory of a program -/

/-- `copy_from_user` -/
def copyFromUserTraced (kdest : KernelBuffer) (userSrc size : U64) : SysT (Option (List U8)) := do
  if validateUserMemory userSrc size then
    emit (.user userSrc size.toNat)
    emit (.kernel kdest 0 size.toNat)
    lift (copyFromUser kdest.capacity userSrc size)
  else return none

/-- `copy_to_user` -/
def copyToUserTraced (userDest : U64) (bytes : List U8) : SysT Bool := do
  if validateUserMemory userDest (BitVec.ofNat 64 bytes.length) then
    emit (.user userDest bytes.length)
    lift (copyToUser userDest bytes)
  else return false

/-! ## The calls -/

/-- `sys_write` -/
def sysWriteTraced (fd bufPtr count : U64) : SysT U64 := do
  if count = 0#64 then return 0#64
  if fd = stdoutFd ∨ fd = stderrFd then
    match ← copyFromUserTraced .kbuf bufPtr (capCount count) with
    | none => return -1#64
    | some bytes =>
      lift (flantermWrite bytes)
      return BitVec.ofNat 64 bytes.length
  return -1#64

/-- The loop of `sys_read` over the keys, with `readBytes` characters in the buffer. -/
def stdinLoopTraced (readBytes : Nat) : List U8 → Nat → SysT (List U8 × List U8)
  | keys, 0 => return ([], keys)
  | [], _ + 1 => fault
  | c :: keys, room + 1 =>
    if c = 0#8 then stdinLoopTraced readBytes keys (room + 1)
    else do
      let c := if c = 0x0D#8 then 0x0A#8 else c
      emit (.kernel .kbuf readBytes 1)
      if c = 0x0A#8 then return ([c], keys)
      else
        let (line, rest) ← stdinLoopTraced (readBytes + 1) keys room
        return (c :: line, rest)

/-- The part of `sys_read` for standard input. -/
def sysReadStdinTraced (bufPtr count : U64) : SysT U64 := do
  let s ← lift get
  let (line, rest) ← stdinLoopTraced 0 s.keys (capCount count).toNat
  lift (modify fun s => { s with keys := rest })
  if ← copyToUserTraced bufPtr line then return BitVec.ofNat 64 line.length
  else return -1#64

/-- The part of `sys_read` for an entry in use. -/
def sysReadFileTraced (fd : Nat) (d : FileDescriptor) (bufPtr count : U64) : SysT U64 := do
  match d.file with
  | none => return 0#64
  | some file =>
    let bytes ← SysT.ofFs (fsReadTraced .kbuf file d.position (capCount count))
    if bytes.length = 0 then return 0#64
    if bytes.length > 4096 then fault
    if ← copyToUserTraced bufPtr bytes then
      lift (modify fun s => s.setFd fd { d with position := d.position + BitVec.ofNat 64 bytes.length })
      return BitVec.ofNat 64 bytes.length
    else return -1#64

/-- `sys_read` -/
def sysReadTraced (fd bufPtr count : U64) : SysT U64 := do
  if count = 0#64 then return 0#64
  if fd = stdinFd then sysReadStdinTraced bufPtr count
  else
    match (← lift get).inUse? fd with
    | some d => sysReadFileTraced fd.toNat d bufPtr count
    | none => return -1#64

/-- `sys_open` -/
def sysOpenTraced (pathPtr : U64) : SysT U64 := do
  let s ← lift get
  match freeFd s.fdTable with
  | none => return -1#64
  | some fd =>
    match ← copyFromUserTraced .kpath pathPtr 255#64 with
    | none => return -1#64
    | some bytes =>
      -- kpath[copied_len] = '\0'
      emit (.kernel .kpath bytes.length 1)
      match CString.read (bytes ++ [0#8]) with
      | none => fault
      | some kpath =>
        if kpath.length ≥ 255 then return -1#64
        match ← lift (ofFs (fsOpen kpath)) with
        | none => return -1#64
        | some file =>
          lift (modify fun s => s.setFd fd ⟨some file, 0#64, true⟩)
          return BitVec.ofNat 64 fd

/-- `sys_close` -/
def sysCloseTraced (fd : U64) : SysT U64 := lift (sysClose fd)

/-- `sys_readdir` -/
def sysReaddirTraced (index bufPtr bufSize : U64) : SysT U64 := do
  if bufSize < direntSize then return -1#64
  if validateUserMemory bufPtr direntSize then
    let files ← lift (ofFs fsList)
    match files[index.toNat]? with
    | none => return 0#64
    | some fileInfo =>
      -- memset of the whole entry, then strncpy of the name, its NUL, and the size
      emit (.kernel .kdirent 0 direntSize.toNat)
      match fileInfo.name.text with
      | none => fault
      | some name =>
        emit (.kernel .kdirent 0 255)
        emit (.kernel .kdirent 255 1)
        emit (.kernel .kdirent 256 8)
        if ← copyToUserTraced bufPtr (direntBytes name fileInfo.size) then return 1#64 else return -1#64
  else return -1#64

/-! ## The dispatcher -/

def SysNum.handlerTraced (n : SysNum) (arg1 arg2 arg3 : U64) : SysT U64 :=
  match n with
  | .exit => lift (sysExit arg1)
  | .write => sysWriteTraced arg1 arg2 arg3
  | .read => sysReadTraced arg1 arg2 arg3
  | .open => sysOpenTraced arg1
  | .close => sysCloseTraced arg1
  | .readdir => sysReaddirTraced arg1 arg2 arg3
  | .fork => lift (ofKern sysFork)

/-- `syscall` -/
def syscallTraced (num arg1 arg2 arg3 : U64) : SysT U64 := do
  match SysNum.ofNum? num with
  | none => return -1#64
  | some n =>
    let result ← n.handlerTraced arg1 arg2 arg3
    if result = 0xDEAD#64 ∧ n = .exit then return 0#64 else return result

end PpoOS
