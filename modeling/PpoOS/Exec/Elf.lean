import PpoOS.Mm.Kernel

/-!
# The program file (`elf.h`)

An ELF file as `exec_elf` sees it: the bytes from `data` on and the size the
file system gives.  The bytes are not bounded by the size, so that a read past
the end of the file is a read of what lies behind it.  Each read leaves its
indices in the history field `reads`.
-/

namespace PpoOS

open ByteMem

/-- An open file: `data[i]` for every 64-bit index `i`, and `size`, which fits in the kernel half
where the file lies. -/
structure ElfFile where
  data : U64 → U8
  size : U64
  size_lt : size.toNat < 2 ^ 47

def elfMagic : U32 := 0x464C457F#32
def elfClass64 : U8 := 2#8
def elfData2Lsb : U8 := 1#8
def etExec : U16 := 2#16
def emX86_64 : U16 := 62#16
def evCurrent : U8 := 1#8

def ptLoad : U32 := 1#32
def pfX : U32 := 1#32
def pfW : U32 := 2#32

/-- `sizeof(elf64_header_t)` -/
def elfHeaderSize : U64 := 64#64

/-- `sizeof(elf64_program_header_t)` -/
def phdrSize : U64 := 56#64

namespace ElfFile

def u8 (f : ElfFile) (off : U64) : U8 := f.data off
def u16 (f : ElfFile) (off : U64) : U16 := f.data (off + 1#64) ++ f.data off
def u32 (f : ElfFile) (off : U64) : U32 :=
  f.data (off + 3#64) ++ f.data (off + 2#64) ++ f.data (off + 1#64) ++ f.data off
def u64 (f : ElfFile) (off : U64) : U64 := load64 f.data off

end ElfFile

/-- Remember that the `n` file bytes from `off` on were read. -/
def logReads (off : U64) (n : Nat) : Kern Unit :=
  modify fun k =>
    { k with reads := (List.range n).map (fun i => off + BitVec.ofNat 64 i) ++ k.reads }

def readU8 (f : ElfFile) (off : U64) : Kern U8 := do
  logReads off 1
  return f.u8 off

def readU16 (f : ElfFile) (off : U64) : Kern U16 := do
  logReads off 2
  return f.u16 off

def readU32 (f : ElfFile) (off : U64) : Kern U32 := do
  logReads off 4
  return f.u32 off

def readU64 (f : ElfFile) (off : U64) : Kern U64 := do
  logReads off 8
  return f.u64 off

/-- The fields of a program header that `exec_elf` reads; `p_paddr` and `p_align` it does not. -/
structure Phdr where
  p_type : U32
  p_flags : U32
  p_offset : U64
  p_vaddr : U64
  p_filesz : U64
  p_memsz : U64

/-- The program header at `off`. -/
def ElfFile.phdr (f : ElfFile) (off : U64) : Phdr where
  p_type := f.u32 off
  p_flags := f.u32 (off + 4#64)
  p_offset := f.u64 (off + 8#64)
  p_vaddr := f.u64 (off + 16#64)
  p_filesz := f.u64 (off + 32#64)
  p_memsz := f.u64 (off + 40#64)

/-- Reading `p_vaddr`, `p_memsz`, `p_filesz` and `p_flags` of the program header at `off`. -/
def logSegment (off : U64) : Kern Unit := do
  logReads (off + 16#64) 8
  logReads (off + 40#64) 8
  logReads (off + 32#64) 8
  logReads (off + 4#64) 4

/-- The header check of `exec_elf`, field by field up to the first that is wrong. -/
def elfHeaderOk (f : ElfFile) : Kern Bool := do
  if (← readU32 f 0#64) ≠ elfMagic then return false
  if (← readU8 f 4#64) ≠ elfClass64 then return false
  if (← readU8 f 5#64) ≠ elfData2Lsb then return false
  if (← readU16 f 16#64) ≠ etExec then return false
  if (← readU16 f 18#64) ≠ emX86_64 then return false
  if (← readU8 f 6#64) ≠ evCurrent then return false
  return true

end PpoOS
