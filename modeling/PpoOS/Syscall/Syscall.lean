import PpoOS.Fs.Fs
import PpoOS.Syscall.Fork

/-!
# The system calls (`syscall.c`)

The memory of the running program is the part of the memory below
`KERNEL_VMA_BASE`.  An access of the kernel to a page that the program has not
mapped halts the machine, and so has no result; neither has a copy that overruns a
buffer of the kernel, or a wait for a key that is never pressed.  No handler uses
its fourth or fifth argument, the flags and the mode of an open are ignored, and
`syscall_init` also sets processor registers; all of these are left out.
-/

namespace PpoOS

/-! ## The descriptor table -/

def maxFds : Nat := 16

def stdinFd : U64 := 0#64
def stdoutFd : U64 := 1#64
def stderrFd : U64 := 2#64

/-- `struct file_descriptor`; no file is NULL. -/
structure FileDescriptor where
  file : Option FileRef
  position : U64
  used : Bool
deriving DecidableEq

/-- An entry that is not in use. -/
def FileDescriptor.free : FileDescriptor := ⟨none, 0#64, false⟩

structure SysState where
  fdTable : Vector FileDescriptor maxFds
  fs : FsState
  kernel : Kernel
  /-- The addresses that the running program has mapped. -/
  mapped : U64 → Bool
  /-- What `keyboard_read_char` is going to return. -/
  keys : List U8
  /-- What was written to the terminal, where there is one. -/
  terminal : Option (List U8)

abbrev SysM := StateT SysState Option

namespace SysState

/-- `fd >= 3 && fd < MAX_FDS && fd_table[fd].used`, and the entry. -/
def inUse? (s : SysState) (fd : U64) : Option FileDescriptor :=
  if fd ≥ 3#64 then s.fdTable[fd.toNat]?.filter FileDescriptor.used else none

/-- Overwrite an entry of the table. -/
def setFd (s : SysState) (fd : Nat) (d : FileDescriptor) : SysState :=
  { s with fdTable := s.fdTable.setIfInBounds fd d }

end SysState

namespace SysM

/-- A call of the file system. -/
def ofFs {α : Type} (x : FsM α) : SysM α := fun s => (x.run s.fs).map fun (a, fs) => (a, { s with fs := fs })

/-- A call that works on physical memory. -/
def ofKern {α : Type} (x : Kern α) : SysM α := fun s =>
  (x.run s.kernel).map fun (a, kernel) => (a, { s with kernel := kernel })

/-- `flanterm_write` -/
def flantermWrite (bytes : List U8) : SysM Unit :=
  modify fun s => { s with terminal := s.terminal.map (· ++ bytes) }

end SysM

open SysM

/-! ## Access to the memory of a program -/

def kernelVmaBase : U64 := 0xffff800000000000#64

/-- `validate_user_memory`; whether the access is a write makes no difference to it. -/
def validateUserMemory (vaddr size : U64) : Bool :=
  if vaddr = 0#64 ∨ size = 0#64 then false
  else if vaddr.toNat + (size - 1#64).toNat ≥ 2 ^ 64 then false
  else !decide (vaddr ≥ kernelVmaBase ∨ vaddr + (size - 1#64) ≥ kernelVmaBase)

/-- The addresses from `vaddr` on are mapped. -/
def SysState.mappedRange (s : SysState) (vaddr : U64) (size : Nat) : Bool :=
  (List.range size).all fun i => s.mapped (vaddr + BitVec.ofNat 64 i)

/-- `copy_from_user` into a buffer of `capacity` bytes: the bytes copied. -/
def copyFromUser (capacity : Nat) (userSrc size : U64) : SysM (Option (List U8)) := do
  if validateUserMemory userSrc size then
    let s ← get
    if s.mappedRange userSrc size.toNat ∧ size.toNat ≤ capacity then
      return some (s.fs.mem.bytes (.addr userSrc) size.toNat)
    else failure
  else return none

/-- `copy_to_user`: whether the bytes were copied. -/
def copyToUser (userDest : U64) (bytes : List U8) : SysM Bool := do
  if validateUserMemory userDest (BitVec.ofNat 64 bytes.length) then
    let s ← get
    if s.mappedRange userDest bytes.length then
      ofFs (FsM.modifyMem fun m =>
        m.blit (.addr userDest) (BitVec.ofNat 64 bytes.length).toNat (bytes.getD · 0#8))
      return true
    else failure
  else return false

/-! ## The calls -/

/-- The digits that the loop of `sys_exit` puts in front of `acc`; a 64-bit number has at most 20. -/
def exitDigits : Nat → U64 → List U8 → List U8
  | 0, _, acc => acc
  | fuel + 1, temp, acc =>
    if temp > 0#64 then exitDigits fuel (temp / 10#64) ((0x30#8 + (temp % 10#64).setWidth 8) :: acc)
    else acc

/-- `exit_msg` -/
def exitMsg : List U8 := "\nProgram exited with code ".toList.map fun c => BitVec.ofNat 8 c.toNat

/-- `sys_exit` -/
def sysExit (code : U64) : SysM U64 := do
  let digits := if code = 0#64 then [0x30#8] else exitDigits 20 code []
  flantermWrite (exitMsg ++ digits ++ [0x0A#8])
  return 0xDEAD#64

/-- At most as many bytes as a buffer of the kernel holds. -/
def capCount (count : U64) : U64 := if count > 4096#64 then 4096#64 else count

/-- `sys_write` -/
def sysWrite (fd bufPtr count : U64) : SysM U64 := do
  if count = 0#64 then return 0#64
  if fd = stdoutFd ∨ fd = stderrFd then
    match ← copyFromUser 4096 bufPtr (capCount count) with
    | none => return -1#64
    | some bytes =>
      flantermWrite bytes
      return BitVec.ofNat 64 bytes.length
  -- writing to a file is not implemented
  return -1#64

/-- The loop of `sys_read` over the keys: the characters of a line, at most as many as asked for, and
the keys that are left. -/
def stdinLoop : List U8 → Nat → Option (List U8 × List U8)
  | keys, 0 => some ([], keys)
  | [], _ + 1 => none
  | c :: keys, room + 1 =>
    if c = 0#8 then stdinLoop keys (room + 1)
    else
      let c := if c = 0x0D#8 then 0x0A#8 else c
      if c = 0x0A#8 then some ([c], keys)
      else (stdinLoop keys room).map fun (line, rest) => (c :: line, rest)

/-- The part of `sys_read` for standard input. -/
def sysReadStdin (bufPtr count : U64) : SysM U64 := do
  let s ← get
  match stdinLoop s.keys (capCount count).toNat with
  | none => failure
  | some (line, rest) =>
    modify fun s => { s with keys := rest }
    if ← copyToUser bufPtr line then return BitVec.ofNat 64 line.length
    else return -1#64

/-- The part of `sys_read` for an entry in use. -/
def sysReadFile (fd : Nat) (d : FileDescriptor) (bufPtr count : U64) : SysM U64 := do
  match d.file with
  | none => return 0#64
  | some file =>
    let bytes ← ofFs (fsRead file d.position (capCount count))
    if bytes.length = 0 then return 0#64
    if bytes.length > 4096 then failure
    if ← copyToUser bufPtr bytes then
      modify fun s => s.setFd fd { d with position := d.position + BitVec.ofNat 64 bytes.length }
      return BitVec.ofNat 64 bytes.length
    else return -1#64

/-- `sys_read` -/
def sysRead (fd bufPtr count : U64) : SysM U64 := do
  if count = 0#64 then return 0#64
  if fd = stdinFd then sysReadStdin bufPtr count
  else
    match (← get).inUse? fd with
    | some d => sysReadFile fd.toNat d bufPtr count
    | none => return -1#64

/-- The first entry from 3 on that is not in use. -/
def freeFd (table : Vector FileDescriptor maxFds) : Option Nat :=
  (List.range maxFds).find? fun i => 3 ≤ i && table[i]?.any fun d => !d.used

/-- `sys_open` -/
def sysOpen (pathPtr : U64) : SysM U64 := do
  let s ← get
  match freeFd s.fdTable with
  | none => return -1#64
  | some fd =>
    match ← copyFromUser 256 pathPtr 255#64 with
    | none => return -1#64
    | some bytes =>
      match CString.read (bytes ++ [0#8]) with
      | none => failure
      | some kpath =>
        if kpath.length ≥ 255 then return -1#64
        match ← ofFs (fsOpen kpath) with
        | none => return -1#64
        | some file =>
          modify fun s => s.setFd fd ⟨some file, 0#64, true⟩
          return BitVec.ofNat 64 fd

/-- `sys_close` -/
def sysClose (fd : U64) : SysM U64 := do
  match (← get).inUse? fd with
  | some _ =>
    modify fun s => s.setFd fd.toNat .free
    return 0#64
  | none => return -1#64

/-- `sizeof(struct dirent)` -/
def direntSize : U64 := 264#64

/-- The bytes of `kdirent`: a name of 256 and a size. -/
def direntBytes (name : CString) (size : U64) : List U8 :=
  (Buf.ofText 256 (name.take 255)).bytes ++ (List.range 8).map (ByteMem.byteOf size)

/-- `sys_readdir` -/
def sysReaddir (index bufPtr bufSize : U64) : SysM U64 := do
  if bufSize < direntSize then return -1#64
  if validateUserMemory bufPtr direntSize then
    let files ← ofFs fsList
    match files[index.toNat]? with
    | none => return 0#64
    | some fileInfo =>
      match fileInfo.name.text with
      | none => failure
      | some name =>
        if ← copyToUser bufPtr (direntBytes name fileInfo.size) then return 1#64 else return -1#64
  else return -1#64

/-! ## The dispatcher -/

inductive SysNum where
  | exit
  | write
  | read
  | open
  | close
  | readdir
  | fork
deriving DecidableEq

/-- The handler of a number: negative numbers and those from `SYSCALL_TABLE_SIZE` on have none. -/
def SysNum.ofNum? (num : U64) : Option SysNum :=
  [SysNum.exit, .write, .read, .open, .close, .readdir, .fork][num.toNat]?

def SysNum.handler (n : SysNum) (arg1 arg2 arg3 : U64) : SysM U64 :=
  match n with
  | .exit => sysExit arg1
  | .write => sysWrite arg1 arg2 arg3
  | .read => sysRead arg1 arg2 arg3
  | .open => sysOpen arg1
  | .close => sysClose arg1
  | .readdir => sysReaddir arg1 arg2 arg3
  | .fork => ofKern sysFork

/-- `syscall` -/
def syscall (num arg1 arg2 arg3 : U64) : SysM U64 := do
  match SysNum.ofNum? num with
  | none => return -1#64
  | some n =>
    let result ← n.handler arg1 arg2 arg3
    if result = 0xDEAD#64 ∧ n = .exit then return 0#64 else return result

/-- `syscall_init` -/
def syscallInit (s : SysState) : SysState :=
  { s with
    fdTable := Vector.replicate maxFds .free
    kernel := { s.kernel with nextPid := 1#64 } }

end PpoOS
