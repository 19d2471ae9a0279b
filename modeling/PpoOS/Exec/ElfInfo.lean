import PpoOS.Exec.Elf
import PpoOS.Str.Digits

/-!
# Printing an ELF file (`elf.c`)

`elf_print_info` checks the header that both classes share, and then prints fields of the
header of the class and of the two tables that it leads to.  A read of a byte that is not
below `size` has no result, and neither has a write outside of a local array.
-/

namespace PpoOS

/-! ## Numbers -/

/-- `(remainder < 10) ? (remainder + '0') : (remainder + 'a' - 10)`, stored in a `char` -/
def itoaChar (remainder : BitVec 32) : U8 :=
  (if remainder.slt 10#32 then remainder + 0x30#32 else remainder + 0x61#32 - 10#32).setWidth 8

/-- `n < 0 && base == 10` -/
def itoaNegative (n base : BitVec 32) : Bool := n.slt 0#32 && base == 10#32

/-- `n` after `n = -n`, which wraps around for the smallest number. -/
def itoaNum (n base : BitVec 32) : BitVec 32 := if itoaNegative n base then -n else n

variable {size : Nat}

/-- `while (n != 0) { int remainder = n % base; buffer[i++] = …; n = n / base; }` -/
def myItoaLoop (base : BitVec 32) : Nat → BitVec 32 → Buf size → Nat → Option (Buf size × Nat) :=
  digitLoop (fun n => itoaChar (n.srem base)) (·.sdiv base)

/-- `my_itoa`; the loop tests at most 33 times. -/
def myItoa (n : BitVec 32) (buffer : Buf size) (base : BitVec 32) : Option (Buf size) :=
  if n = 0#32 then do (← buffer.write 0 0x30#8).write 1 0#8
  else do
    let (buffer, i) ← myItoaLoop base 33 (itoaNum n base) buffer 0
    let (buffer, i) ← if itoaNegative n base then do pure (← buffer.write i 0x2D#8, i + 1) else pure (buffer, i)
    let buffer ← buffer.write i 0#8
    buffer.reverseFrom 0 (i - 1)

/-! ## The file -/

/-- `elf_data[i]` for every 64-bit index `i`, and `size`. -/
structure ElfData where
  data : U64 → U8
  size : U64

/-- The place of a field of four or, where it is `wide`, eight bytes. -/
structure ElfField where
  offset : U64
  wide : Bool

namespace ElfData

/-- The `len` bytes from `off` on are bytes of the file. -/
def Has (f : ElfData) (off : U64) (len : Nat) : Prop := ∀ i < len, (off + BitVec.ofNat 64 i).toNat < f.size.toNat

instance (f : ElfData) (off : U64) (len : Nat) : Decidable (f.Has off len) := by unfold Has; infer_instance

def u16 (f : ElfData) (off : U64) : U16 := f.data (off + 1#64) ++ f.data off
def u32 (f : ElfData) (off : U64) : U32 := f.u16 (off + 2#64) ++ f.u16 off
def u64 (f : ElfData) (off : U64) : U64 := f.u32 (off + 4#64) ++ f.u32 off

def read8 (f : ElfData) (off : U64) : Option U8 := if f.Has off 1 then some (f.data off) else none
def read16 (f : ElfData) (off : U64) : Option U16 := if f.Has off 2 then some (f.u16 off) else none
def read32 (f : ElfData) (off : U64) : Option U32 := if f.Has off 4 then some (f.u32 off) else none
def read64 (f : ElfData) (off : U64) : Option U64 := if f.Has off 8 then some (f.u64 off) else none

/-- A field of the structure at `entry`. -/
def readField (f : ElfData) (entry : U64) (x : ElfField) : Option U64 := do
  if x.wide then f.read64 (entry + x.offset) else return (← f.read32 (entry + x.offset)).setWidth 64

end ElfData

/-- `elf_is_valid` -/
def elfIsValid (f : ElfData) : Option Bool := do
  if f.size < 24#64 then return false
  if (← f.read32 0#64) ≠ elfMagic then return false
  let e_class ← f.read8 4#64
  if e_class ≠ 1#8 ∧ e_class ≠ elfClass64 then return false
  let e_data ← f.read8 5#64
  if e_data ≠ elfData2Lsb ∧ e_data ≠ 2#8 then return false
  return (← f.read8 6#64) = evCurrent

/-! ## Names -/

def elfText (s : String) : CString := CString.ofChars s.toList

def elfGetTypeStr (e_type : U16) : CString :=
  match e_type.toNat with
  | 0 => elfText "NONE (No file type)"
  | 1 => elfText "REL (Relocatable file)"
  | 2 => elfText "EXEC (Executable file)"
  | 3 => elfText "DYN (Shared object file)"
  | 4 => elfText "CORE (Core file)"
  | _ => elfText "UNKNOWN"

def elfGetMachineStr (e_machine : U16) : CString :=
  match e_machine.toNat with
  | 3 => elfText "Intel 80386"
  | 40 => elfText "ARM"
  | 62 => elfText "AMD x86-64"
  | 183 => elfText "ARM 64-bits"
  | _ => elfText "Unknown Machine"

def elfGetSectionTypeStr (sh_type : U32) : CString :=
  match sh_type.toNat with
  | 0 => elfText "NULL"
  | 1 => elfText "PROGBITS"
  | 2 => elfText "SYMTAB"
  | 3 => elfText "STRTAB"
  | 4 => elfText "RELA"
  | 5 => elfText "HASH"
  | 6 => elfText "DYNAMIC"
  | 7 => elfText "NOTE"
  | 8 => elfText "NOBITS"
  | 9 => elfText "REL"
  | 10 => elfText "SHLIB"
  | 11 => elfText "DYNSYM"
  | _ => elfText "UNKNOWN"

def elfGetProgramTypeStr (p_type : U32) : CString :=
  match p_type.toNat with
  | 0 => elfText "NULL"
  | 1 => elfText "LOAD"
  | 2 => elfText "DYNAMIC"
  | 3 => elfText "INTERP"
  | 4 => elfText "NOTE"
  | 5 => elfText "SHLIB"
  | 6 => elfText "PHDR"
  | _ => elfText "UNKNOWN"

/-- `str_append` -/
def strAppend (dest : Buf size) (src : CString) : Option (Buf size) :=
  dest.text.bind fun s => dest.put s.length (src.chars ++ [0#8])

/-- `if (flags & bit) str_append(buf, name);` for each name. -/
def appendFlags (flags : U64) (names : List (U64 × CString)) (buf : Buf size) : Option (Buf size) :=
  names.foldlM (fun buf x => if flags &&& x.1 ≠ 0#64 then strAppend buf x.2 else some buf) buf

def elfGetSectionFlagsStr (sh_flags : U64) : Option (Buf 4) :=
  appendFlags sh_flags [(1#64, .ofChars ['W']), (2#64, .ofChars ['A']), (4#64, .ofChars ['X'])] (Buf.zero 4)

def elfGetProgramFlagsStr (p_flags : U32) : Option (Buf 4) :=
  appendFlags (p_flags.setWidth 64) [(4#64, .ofChars ['R']), (2#64, .ofChars ['W']), (1#64, .ofChars ['X'])] (Buf.zero 4)

/-! ## Printing -/

/-- The local array `buffer` of the printer that runs, and the strings given to `elf_print` so far. -/
structure PrintState where
  buffer : Buf 64
  out : List CString

abbrev Printing := StateT PrintState Option

/-- `char buffer[64];`, with whatever the stack held there -/
def localBuffer (buffer : Buf 64) : Printing Unit := modify fun s => { s with buffer := buffer }

def elfPrint (str : CString) : Printing Unit := modify fun s => { s with out := s.out ++ [str] }

/-- `my_itoa(n, buffer, base); elf_print(buffer);` -/
def printItoa (n base : BitVec 32) : Printing Unit := fun s => do
  let buffer ← myItoa n s.buffer base
  return ((), ⟨buffer, s.out ++ [← buffer.text]⟩)

/-- The counts at the end of a header. -/
def printCounts (f : ElfData) (e_phnum e_shnum : U64) : Printing Unit := do
  elfPrint (elfText "  Program headers: ")
  printItoa ((← f.read16 e_phnum).setWidth 32) 10#32
  elfPrint (elfText "\n")
  elfPrint (elfText "  Section headers: ")
  printItoa ((← f.read16 e_shnum).setWidth 32) 10#32
  elfPrint (elfText "\n")

/-- `elf_print_header` -/
def elfPrintHeader (f : ElfData) (buffer : Buf 64) : Printing Unit := do
  localBuffer buffer
  elfPrint (elfText "ELF Header:\n")
  elfPrint (elfText "  Magic:   0x7F ELF\n")
  elfPrint (elfText "  Class:   ")
  elfPrint (if (← f.read8 4#64) = 1#8 then elfText "ELF32" else elfText "ELF64")
  elfPrint (elfText "\n")
  elfPrint (elfText "  Data:    ")
  elfPrint (if (← f.read8 5#64) = elfData2Lsb then elfText "2's complement, little endian"
    else elfText "2's complement, big endian")
  elfPrint (elfText "\n")
  elfPrint (elfText "  Version: 1 (current)\n")
  elfPrint (elfText "  Type:    ")
  elfPrint (elfGetTypeStr (← f.read16 16#64))
  elfPrint (elfText "\n")
  elfPrint (elfText "  Machine: ")
  elfPrint (elfGetMachineStr (← f.read16 18#64))
  elfPrint (elfText "\n")
  if (← f.read8 4#64) = 1#8 then printCounts f 44#64 48#64 else printCounts f 56#64 60#64

/-! ## The tables -/

/-- What is printed of a table: the texts, the fields of the header of the class that lead to the table, the
number of entries that are printed at most, and the fields of an entry; `addrs` are printed in
hexadecimal, each with a text behind it. -/
structure ElfTable where
  nothing : CString
  columns : CString
  e_num : U64
  e_off : ElfField
  e_entsize : U64
  limit : Nat
  type : U64
  typeStr : U32 → CString
  flags : ElfField
  flagsStr : U64 → Option (Buf 4)
  addrs : List (ElfField × CString)

/-- `elf_print("0x"); my_itoa((int)(field & 0xFFFFFFFF), buffer, 16); elf_print(buffer); elf_print(after);` -/
def printAddr (f : ElfData) (entry : U64) (x : ElfField × CString) : Printing Unit := do
  elfPrint (elfText "0x")
  printItoa ((← f.readField entry x.1).setWidth 32) 16#32
  elfPrint x.2

/-- The body of the loop. -/
def printEntry (f : ElfData) (t : ElfTable) (entry : U64) : Printing Unit := do
  elfPrint (elfText "  ")
  elfPrint (t.typeStr (← f.read32 (entry + t.type)))
  elfPrint (elfText "           ")
  let flags ← t.flagsStr (← f.readField entry t.flags)
  elfPrint (← flags.text)
  elfPrint (elfText "    ")
  t.addrs.forM (printAddr f entry)

/-- `for (int i = 0; i < header->e_phnum && i < 10; i++)` from `i` on, with `left` entries up to the limit; the number of
entries is read before the limit is compared. -/
def tableLoop (f : ElfData) (t : ElfTable) : Nat → Nat → Printing Unit
  | 0, _ => do let _ ← f.read16 t.e_num
  | left + 1, i => do
    if i < (← f.read16 t.e_num).toNat then
      let off ← f.readField 0#64 t.e_off
      let entsize ← f.read16 t.e_entsize
      printEntry f t (off + BitVec.ofNat 64 (i * entsize.toNat))
      tableLoop f t left (i + 1)

def printTable (f : ElfData) (t : ElfTable) : Printing Unit := do
  if (← f.read16 t.e_num) = 0#16 then elfPrint t.nothing
  else
    elfPrint t.columns
    tableLoop f t t.limit 0

/-- The branch of `elf_print_program_headers` for `elf64_header_t` and `elf64_program_header_t`. -/
def elf64ProgramHeaders : ElfTable where
  nothing := elfText "  No program headers\n"
  columns := elfText "  Type            Flags   Offset     VirtAddr\n"
  e_num := 56#64
  e_off := ⟨32#64, true⟩
  e_entsize := 54#64
  limit := 10
  type := 0#64
  typeStr := elfGetProgramTypeStr
  flags := ⟨4#64, false⟩
  flagsStr p_flags := elfGetProgramFlagsStr (p_flags.setWidth 32)
  addrs := [(⟨16#64, true⟩, elfText "\n")]

/-- The branch for `elf32_header_t` and `elf32_program_header_t`. -/
def elf32ProgramHeaders : ElfTable where
  nothing := elfText "  No program headers\n"
  columns := elfText "  Type            Flags   Offset     VirtAddr\n"
  e_num := 44#64
  e_off := ⟨28#64, false⟩
  e_entsize := 42#64
  limit := 10
  type := 0#64
  typeStr := elfGetProgramTypeStr
  flags := ⟨24#64, false⟩
  flagsStr p_flags := elfGetProgramFlagsStr (p_flags.setWidth 32)
  addrs := [(⟨8#64, false⟩, elfText "\n")]

/-- The branch of `elf_print_section_headers` for `elf64_header_t` and `elf64_section_header_t`. -/
def elf64SectionHeaders : ElfTable where
  nothing := elfText "  No section headers\n"
  columns := elfText "  Type            Flags   Address    Size\n"
  e_num := 60#64
  e_off := ⟨40#64, true⟩
  e_entsize := 58#64
  limit := 15
  type := 4#64
  typeStr := elfGetSectionTypeStr
  flags := ⟨8#64, true⟩
  flagsStr := elfGetSectionFlagsStr
  addrs := [(⟨16#64, true⟩, elfText "  "), (⟨32#64, true⟩, elfText "\n")]

/-- The branch for `elf32_header_t` and `elf32_section_header_t`. -/
def elf32SectionHeaders : ElfTable where
  nothing := elfText "  No section headers\n"
  columns := elfText "  Type            Flags   Address    Size\n"
  e_num := 48#64
  e_off := ⟨32#64, false⟩
  e_entsize := 46#64
  limit := 15
  type := 4#64
  typeStr := elfGetSectionTypeStr
  flags := ⟨8#64, false⟩
  flagsStr := elfGetSectionFlagsStr
  addrs := [(⟨12#64, false⟩, elfText "  "), (⟨20#64, false⟩, elfText "\n")]

/-- A title, and the branch for the class (`elf_is_64bit`). -/
def printClassTable (f : ElfData) (buffer : Buf 64) (title : CString) (t64 t32 : ElfTable) : Printing Unit := do
  localBuffer buffer
  elfPrint title
  if (← f.read8 4#64) = elfClass64 then printTable f t64 else printTable f t32

/-- `elf_print_program_headers` -/
def elfPrintProgramHeaders (f : ElfData) (buffer : Buf 64) : Printing Unit :=
  printClassTable f buffer (elfText "\nProgram Headers:\n") elf64ProgramHeaders elf32ProgramHeaders

/-- `elf_print_section_headers` -/
def elfPrintSectionHeaders (f : ElfData) (buffer : Buf 64) : Printing Unit :=
  printClassTable f buffer (elfText "\nSection Headers:\n") elf64SectionHeaders elf32SectionHeaders

/-- `elf_print_info`; the arrays are the local ones of the three printers. -/
def elfPrintInfo (f : ElfData) (headerBuffer programBuffer sectionBuffer : Buf 64) : Printing Unit := do
  if ← elfIsValid f then
    elfPrintHeader f headerBuffer
    elfPrintProgramHeaders f programBuffer
    elfPrintSectionHeaders f sectionBuffer
  else elfPrint (elfText "Not a valid ELF file\n")

end PpoOS
