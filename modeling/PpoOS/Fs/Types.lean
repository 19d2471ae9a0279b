import PpoOS.Mm.Paging
import PpoOS.Lib.FaultState
import PpoOS.Str.String

/-!
# The file system's data (`fs.h`)

The tables of `fs.c`, the driver state of `ext2.c` and `initramfs.c`, and the
memory their pointers lead to.  A computation that reads or writes outside of one
of the tables, looks for the end of a text that has none, copies more bytes than the
address space has in a row, divides by zero or does not end has no result.
-/

namespace PpoOS

open ByteMem

/-! ## Memory -/

/-- A pointer into `mem_pool`, as an offset from its start, or to an address outside of it. -/
inductive Ptr where
  | pool (off : U64)
  | addr (a : U64)
deriving DecidableEq

namespace Ptr

def null : Ptr := .addr 0#64

def add : Ptr → U64 → Ptr
  | .pool off, i => .pool (off + i)
  | .addr a, i => .addr (a + i)

end Ptr

/-- The bytes that the offsets from `mem_pool` on lead to, and the bytes outside of the pool.
`poolBase` is the address of `mem_pool`. -/
structure Memory where
  pool : Mem
  other : Mem
  poolBase : U64

namespace Memory

def load (m : Memory) : Ptr → U8
  | .pool off => m.pool off
  | .addr a => m.other a

/-- Little-endian fields. -/
def load16 (m : Memory) (p : Ptr) : U16 := m.load (p.add 1#64) ++ m.load p
def load32 (m : Memory) (p : Ptr) : U32 :=
  m.load (p.add 3#64) ++ m.load (p.add 2#64) ++ m.load (p.add 1#64) ++ m.load p

/-- The `n` bytes from `p` on. -/
def bytes (m : Memory) (p : Ptr) (n : Nat) : List U8 :=
  (List.range n).map fun i => m.load (p.add (BitVec.ofNat 64 i))

/-- Overwrite the `n` bytes from `p` on, byte `i` of the region with `src i`. -/
def blit (m : Memory) (p : Ptr) (n : Nat) (src : Nat → U8) : Memory :=
  match p with
  | .pool off => { m with pool := ByteMem.blit m.pool off n src }
  | .addr a => { m with other := ByteMem.blit m.other a n src }

end Memory

/-- The string at an address outside of the pool, where one of the `fuel` bytes from there on is a
NUL. -/
def cstrAt (m : Memory) (a : U64) : Nat → Option CString
  | 0 => none
  | fuel + 1 =>
    if h : m.other a = 0#8 then some CString.empty
    else (cstrAt m (a + 1#64) fuel).map (CString.cons (m.other a) h)

/-! ## Tables -/

def fsMaxPath : Nat := 128
def fsMaxFiles : Nat := 32
def fsMaxDirs : Nat := 8

inductive FsType where
  | initramfs
  | ext2
  | unknown
deriving DecidableEq

structure FsFile where
  name : Buf 32
  data : Ptr
  size : U64
  capacity : U64
  mode : U16
  isDir : Bool
  fsType : FsType
deriving DecidableEq

/-- All bytes of the structure zero. -/
def FsFile.zero : FsFile where
  name := Buf.zero 32
  data := Ptr.null
  size := 0#64
  capacity := 0#64
  mode := 0#16
  isDir := false
  fsType := .initramfs

structure FsDir where
  name : Buf 32
  path : Buf fsMaxPath
deriving DecidableEq

def FsDir.zero : FsDir := ⟨Buf.zero 32, Buf.zero fsMaxPath⟩

structure FsMount where
  files : Vector FsFile fsMaxFiles
  fileCount : Nat
  dirs : Vector FsDir fsMaxDirs
  dirCount : Nat
  currentDir : Buf fsMaxPath
  activeFs : FsType
deriving DecidableEq

def FsMount.zero : FsMount where
  files := Vector.replicate fsMaxFiles FsFile.zero
  fileCount := 0
  dirs := Vector.replicate fsMaxDirs FsDir.zero
  dirCount := 0
  currentDir := Buf.zero fsMaxPath
  activeFs := .initramfs

/-- The first `file_count` files. -/
def FsMount.liveFiles (fs : FsMount) : List FsFile := fs.files.toList.take fs.fileCount

/-- The first `dir_count` directories. -/
def FsMount.liveDirs (fs : FsMount) : List FsDir := fs.dirs.toList.take fs.dirCount

/-- `struct initramfs_file`; `name` and `data` point into the boot archive. -/
structure RamFile where
  name : U64
  data : U64
  size : U64
deriving DecidableEq

/-- The static variables of `ext2.c`.  `fileCache` is the part of `file_cache` that is in use, and
`opened` the `file` of `ext2_open`.  `stack i` is the byte `i` places behind `block_buffer`. -/
structure Ext2 where
  data : Ptr
  size : U64
  superblock : Ptr
  blockSize : U32
  currentDir : Buf fsMaxPath
  fileCache : List FsFile
  opened : FsFile
  stack : Nat → U8

structure FsState where
  fs : FsMount
  memUsed : U64
  mem : Memory
  /-- The files of `initramfs.c`, as many as its `file_count`. -/
  ramfs : List RamFile
  ext2 : Ext2

/-- All static variables zero, as before the first call, in a memory of zeros. -/
def FsState.zero : FsState where
  fs := FsMount.zero
  memUsed := 0#64
  mem := ⟨fun _ => 0#8, fun _ => 0#8, 0#64⟩
  ramfs := []
  ext2 :=
    { data := Ptr.null
      size := 0#64
      superblock := Ptr.null
      blockSize := 0#32
      currentDir := Buf.zero fsMaxPath
      fileCache := []
      opened := FsFile.zero
      stack := fun _ => 0#8 }

abbrev FsM := StateT FsState Option

/-- A `struct fs_file *` that is not NULL. -/
inductive FileRef where
  /-- `&fs.files[i]` -/
  | slot (i : Nat)
  /-- The `file` of `ext2_open`. -/
  | opened
  /-- `&file_cache[i]` -/
  | cached (i : Nat)
deriving DecidableEq

/-! ## Access to the state -/

namespace FsState

/-- The structure that a file pointer leads to. -/
def file? (s : FsState) : FileRef → Option FsFile
  | .slot i => s.fs.files[i]?
  | .opened => some s.ext2.opened
  | .cached i => s.ext2.fileCache[i]?

def setFile? (s : FsState) (file : FileRef) (f : FsFile) : Option FsState :=
  match file with
  | .slot i =>
    if h : i < fsMaxFiles then some { s with fs := { s.fs with files := s.fs.files.set i f h } }
    else none
  | .opened => some { s with ext2 := { s.ext2 with opened := f } }
  | .cached i =>
    if i < s.ext2.fileCache.length then
      some { s with ext2 := { s.ext2 with fileCache := s.ext2.fileCache.set i f } }
    else none

def setDir? (s : FsState) (i : Nat) (d : FsDir) : Option FsState :=
  if h : i < fsMaxDirs then some { s with fs := { s.fs with dirs := s.fs.dirs.set i d h } }
  else none

end FsState

namespace FsM

/-- A computation on arrays and strings. -/
def ofOption {α : Type} (x : Option α) : FsM α := fun s => x.map fun a => (a, s)

def getFile (file : FileRef) : FsM FsFile := fun s => (s.file? file).map fun f => (f, s)

def putFile (file : FileRef) (f : FsFile) : FsM Unit := fun s => (s.setFile? file f).map fun t => ((), t)

def putDir (i : Nat) (d : FsDir) : FsM Unit := fun s => (s.setDir? i d).map fun t => ((), t)

def modifyFs (g : FsMount → FsMount) : FsM Unit := modify fun s => { s with fs := g s.fs }

def modifyMem (g : Memory → Memory) : FsM Unit := modify fun s => { s with mem := g s.mem }

/-- The canonical addresses are two halves of 2^47 bytes. -/
def copyLimit : Nat := 2 ^ 47

/-- Change `n` bytes in a row.  Where there are more than in a half of the address space, some of them
have no address, and the access to the first one of these faults. -/
def copyMem (n : U64) (g : Memory → Memory) : FsM Unit := fun s =>
  if n.toNat ≤ copyLimit then some ((), { s with mem := g s.mem }) else none

def memset (p : Ptr) (c : U8) (n : U64) : FsM Unit := copyMem n fun m => m.blit p n.toNat fun _ => c

/-- `memcpy` of bytes that the copy does not overwrite. -/
def memcpyIn (p : Ptr) (src : Nat → U8) (n : U64) : FsM Unit :=
  copyMem n fun m => m.blit p n.toNat src

/-- `memcpy` within the memory, between ranges that do not overlap. -/
def memcpy (dest src : Ptr) (n : U64) : FsM Unit :=
  copyMem n fun m => m.blit dest n.toNat fun i => m.load (src.add (BitVec.ofNat 64 i))

end FsM

end PpoOS
