import PpoOS.Mm.Paging

/-!
# The keyboard (`keyboard.c`)

`keyboard_read_char` waits for a scancode of set 1 and gives the character for it, 0
where there is none.  What it keeps between two calls is which modifiers are down.
-/

namespace PpoOS

def scancodeCtrl : U8 := 0x1D#8
def scancodeLshift : U8 := 0x2A#8
def scancodeRshift : U8 := 0x36#8
def scancodeAlt : U8 := 0x38#8

/-- `key_state` -/
structure KeyState where
  ctrlDown : Bool
  shiftDown : Bool
  altDown : Bool
deriving DecidableEq

/-- `key_state` at first. -/
def KeyState.zero : KeyState := ⟨false, false, false⟩

/-- Characters of a table. -/
def tableChars (s : String) : List U8 := s.toList.map fun c => BitVec.ofNat 8 c.toNat

/-- `scancode_set1`, up to the last entry that is not 0 -/
def scancodeSet1 : List U8 :=
  [0x00#8, 0x1B#8] ++ tableChars "1234567890-=" ++ [0x08#8, 0x09#8] ++ tableChars "qwertyuiop[]" ++
    [0x0A#8, 0x00#8] ++ tableChars "asdfghjkl;'`" ++ [0x00#8] ++ tableChars "\\zxcvbnm,./" ++ [0x00#8] ++
      tableChars "*" ++ [0x00#8] ++ tableChars " "

/-- `scancode_set1_shift`, up to the last entry that is not 0 -/
def scancodeSet1Shift : List U8 :=
  [0x00#8, 0x1B#8] ++ tableChars "!@#$%^&*()_+" ++ [0x08#8, 0x09#8] ++ tableChars "QWERTYUIOP\x7b\x7d" ++
    [0x0A#8, 0x00#8] ++ tableChars "ASDFGHJKL:\x22~" ++ [0x00#8] ++ tableChars "|ZXCVBNM<>?" ++ [0x00#8] ++
      tableChars "*" ++ [0x00#8] ++ tableChars " "

/-- The entry of a table for a scancode. -/
def scancodeChar (table : List U8) (sc : U8) : U8 := table.getD sc.toNat 0#8

/-- `keyboard_read_char` when the scancode `sc` comes. -/
def keyboardReadChar (s : KeyState) (sc : U8) : U8 × KeyState :=
  if sc &&& 0x80#8 ≠ 0#8 then
    let sc := sc &&& 0x7F#8
    if sc = scancodeCtrl then (0#8, { s with ctrlDown := false })
    else if sc = scancodeLshift ∨ sc = scancodeRshift then (0#8, { s with shiftDown := false })
    else if sc = scancodeAlt then (0#8, { s with altDown := false })
    else (0#8, s)
  else if sc = scancodeCtrl then (0#8, { s with ctrlDown := true })
  else if sc = scancodeLshift ∨ sc = scancodeRshift then (0#8, { s with shiftDown := true })
  else if sc = scancodeAlt then (0#8, { s with altDown := true })
  else
    let c := if s.shiftDown then scancodeChar scancodeSet1Shift sc else scancodeChar scancodeSet1 sc
    if s.ctrlDown ∧ c ≥ 0x61#8 ∧ c ≤ 0x7A#8 then (c - 0x61#8 + 1#8, s) else (c, s)

def keyboardCtrlPressed (s : KeyState) : Bool := s.ctrlDown
def keyboardShiftPressed (s : KeyState) : Bool := s.shiftDown
def keyboardAltPressed (s : KeyState) : Bool := s.altDown

end PpoOS
