import PpoOS.Str.Digits

/-!
# Formatted output of the user programs (`limine_libc/stdio.c`)

A format is read as its characters and the NUL behind them: a read of a character that
lies behind the NUL has no result, and neither has a write outside of `buf`.  `%d`
negates in 32 bits, which wraps around for the smallest number.
-/

namespace PpoOS

/-- `va_list`: the words that `va_arg` takes, one after the other, and the string that each pointer leads to. -/
structure VaList where
  word : Nat → U64
  string : U64 → CString

/-- `"(null)"` -/
def nullText : CString := CString.ofChars ['(', 'n', 'u', 'l', 'l', ')']

/-! ## Digits -/

/-- What `do { tmp[j++] = digit(num % base); num /= base; } while (num && j < sizeof(tmp))` stores in `tmp`,
of which `free` bytes are left. -/
def tmpDigits (base : Int) (digit : Int → U8) : Nat → Int → List U8
  | 0, _ => []
  | free + 1, num =>
    digit (num.tmod base) :: if num.tdiv base ≠ 0 then tmpDigits base digit free (num.tdiv base) else []

/-- `'0' + (num % 10)`, of type `char` -/
def decDigit (r : Int) : U8 := BitVec.ofInt 8 (48 + r)

/-- `"0123456789abcdef"[num % 16]` -/
def hexDigit (r : Int) : U8 := hexTable.getD r.toNat 0#8

/-- `sizeof(tmp)` -/
def tmpSize : Nat := 32

/-- `num` of `%d` after `if (neg) num = -num` -/
def decNum (num : BitVec 32) : BitVec 32 := if num.slt 0#32 then -num else num

/-- `tmp` of `%d`, from its last byte on. -/
def decBytes (num : BitVec 32) : List U8 := (tmpDigits 10 decDigit tmpSize (decNum num).toInt).reverse

/-- `tmp` of `%x`, from its last byte on. -/
def hexBytes (num : BitVec 32) : List U8 := (tmpDigits 16 hexDigit tmpSize num.toNat).reverse

/-! ## `vsnprintf` -/

variable {size : Nat}

/-- `buf`, `i` and the number of arguments taken. -/
structure FmtState (size : Nat) where
  buf : Buf size
  i : Nat
  arg : Nat

/-- `i + 1 < size`, computed with 64 bits -/
def FmtState.room (s : FmtState size) : Bool := (s.i + 1) % 2 ^ 64 < size

/-- `buf[i++] = c` -/
def FmtState.put (s : FmtState size) (c : U8) : Option (FmtState size) := do
  return { s with buf := ← s.buf.write s.i c, i := s.i + 1 }

/-- `while (*s && i + 1 < size) buf[i++] = *s++`, and `while (j-- && i + 1 < size) buf[i++] = tmp[j]` -/
def FmtState.putWhile (s : FmtState size) : List U8 → Option (FmtState size)
  | [] => some s
  | c :: l => do if s.room then (← s.put c).putWhile l else return s

/-- What the loop does for a `%` with `d` behind it. -/
def fmtConv (args : VaList) (d : U8) (s : FmtState size) : Option (FmtState size) := do
  let w := args.word s.arg
  let next := { s with arg := s.arg + 1 }
  if d = 0x73#8 then next.putWhile (if w = 0#64 then nullText else args.string w).chars
  else if d = 0x64#8 then
    let num := w.setWidth 32
    let s ← next.putWhile (if num.slt 0#32 then [0x2D#8] else [])
    s.putWhile (decBytes num)
  else if d = 0x78#8 then next.putWhile (hexBytes (w.setWidth 32))
  else if d = 0x63#8 then next.put (w.setWidth 8)
  else
    let s ← s.put 0x25#8
    if d ≠ 0#8 then s.put d else return s

/-- `for (; *fmt && i + 1 < size; fmt++)`, where `fmt` leads to the given bytes. -/
def fmtLoop (args : VaList) : List U8 → FmtState size → Option (FmtState size)
  | [], _ => none
  | c :: fmt, s =>
    if c = 0#8 || !s.room then some s
    else if c ≠ 0x25#8 then (s.put c).bind fun s => fmtLoop args fmt s
    else
      match fmt with
      | [] => none
      | d :: fmt => (fmtConv args d s).bind fun s => fmtLoop args fmt s

/-- `vsnprintf`; `size` is the length of `buf`. -/
def vsnprintf (buf : Buf size) (fmt : CString) (args : VaList) : Option (Buf size × BitVec 32) := do
  let s ← fmtLoop args (fmt.chars ++ [0#8]) ⟨buf, 0, 0⟩
  return (← s.buf.write s.i 0#8, BitVec.ofNat 32 s.i)

/-- `printf`: what it writes to `STDOUT`, and its result; `buf` is its array of 512 bytes. -/
def printf (buf : Buf 512) (fmt : CString) (args : VaList) : Option (List U8 × BitVec 32) := do
  let (buf, len) ← vsnprintf buf fmt args
  return (buf.bytes.take (len.signExtend 64).toNat, len)

end PpoOS
