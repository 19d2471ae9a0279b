import PpoOS.Fs.Types

/-!
# The boot archive (`initramfs.c`)

The parser of a cpio archive in the newc format, as the bootloader has placed it
in memory.  Pointers are 64-bit numbers and wrap.
-/

namespace PpoOS

/-- `CPIO_NEWC_MAGIC` -/
def cpioNewcMagic : List U8 := [0x30#8, 0x37#8, 0x30#8, 0x37#8, 0x30#8, 0x31#8]

/-- `"TRAILER!!!"` -/
def trailerName : CString := CString.ofChars ['T', 'R', 'A', 'I', 'L', 'E', 'R', '!', '!', '!']

/-- The value of one character of a hex field; other characters leave the shifted value as it is. -/
def hexStep (v : U32) (c : U8) : U32 :=
  let v := v <<< 4
  if 0x30#8 ≤ c ∧ c ≤ 0x39#8 then v ||| (c.setWidth 32 - 0x30#32)
  else if 0x61#8 ≤ c ∧ c ≤ 0x66#8 then v ||| (c.setWidth 32 - 0x61#32 + 10#32)
  else if 0x41#8 ≤ c ∧ c ≤ 0x46#8 then v ||| (c.setWidth 32 - 0x41#32 + 10#32)
  else v

def hex2u32 (s : List U8) : U32 := s.foldl hexStep 0#32

/-- `memcmp(p, s, sizeof(s)) == 0` -/
def memEq (m : Memory) (p : U64) (s : List U8) : Bool := decide (m.bytes (.addr p) s.length = s)

/-- `strcmp(p, s) == 0` for a pointer `p` and a constant `s`: the comparison does not go on after the
first difference. -/
def strEq (m : Memory) (p : U64) (s : CString) : Bool := memEq m p (s.chars ++ [0#8])

/-- `(a + 3) & ~3` -/
def align4 (a : U64) : U64 := (a + 3#64) &&& ~~~3#64

/-- What the loop of `initramfs_init` stores from the header at `p` on, while `room` of the 16 entries
are free. -/
def initramfsScan (m : Memory) (stop : U64) : Nat → U64 → List RamFile
  | 0, _ => []
  | room + 1, p =>
    if p + 110#64 < stop then
      if memEq m p cpioNewcMagic then
        let namesize := hex2u32 (m.bytes (.addr (p + 94#64)) 8)
        let filesize := hex2u32 (m.bytes (.addr (p + 54#64)) 8)
        let name := p + 110#64
        if namesize > 0#32 ∧ strEq m name trailerName = true then []
        else
          let filedata := align4 (p + 110#64 + namesize.setWidth 64)
          let next := align4 (filedata + filesize.setWidth 64)
          if next > stop then []
          else ⟨name, filedata, filesize.setWidth 64⟩ :: initramfsScan m stop room next
      else []
    else []

def initramfsInit (base len : U64) : FsM Unit :=
  modify fun s => { s with ramfs := initramfsScan s.mem (base + len) 16 base }

/-- `initramfs_list` -/
def initramfsList (idx : Nat) : FsM (Option RamFile) := do return (← get).ramfs[idx]?

end PpoOS
