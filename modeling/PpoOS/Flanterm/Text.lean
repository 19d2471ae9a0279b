import PpoOS.Flanterm.Grid
import PpoOS.Str.Digits

/-!
# Text on a terminal

What text is for, without a screen: rows of characters that are never lost, of which the last ones
are shown.  A row is full after `n` characters, and the text goes on in a new one.  Characters come in
UTF-8, and `ESC [ ... m` sets the colours of those that follow.
-/

namespace PpoOS

open Numeral

/-! ## Characters -/

/-- The characters that go over another one -/
def combines (ucs : U32) : Bool := combining.any fun a => a.1 ≤ ucs && ucs ≤ a.2

/-- The number of columns of a character -/
def charWidth (ucs : U32) : Nat :=
  if ucs = 0#32 then 0
  else if ucs < 32#32 ∨ (ucs ≥ 0x7f#32 ∧ ucs < 0xa0#32) then 1
  else if combines ucs then 0
  else if isWide ucs then 2
  else 1

/-- The bytes of a character in UTF-8 -/
def utf8 (c : Char) : List U8 := (String.utf8EncodeChar c).map UInt8.toBitVec

/-- The glyphs of a character -/
def charGlyphs (c : Char) : List U8 :=
  match unicodeToCp437 (BitVec.ofNat 64 c.toNat) with
  | some glyph => [glyph]
  | none =>
    let width := charWidth (BitVec.ofNat 32 c.toNat)
    if width > 0 then 0xFE#8 :: List.replicate (width - 1) 0x20#8 else []

/-! ## Control sequences -/

/-- A number, or none, in front of `;` -/
def paramText (p : Option Nat) : List U8 := p.elim [] (numeral digitByte 10)

/-- The values of numbers -/
def paramValues (params : List (Option Nat)) : List U32 := params.map fun p => BitVec.ofNat 32 (p.getD 0)

/-- Numbers, each in front of `;` -/
def paramsText (params : List (Option Nat)) : List U8 := params.flatMap fun p => paramText p ++ [charByte ';']

/-- `ESC [`, the numbers, each but the last one in front of `;`, and a last character -/
def sequenceText (params : List (Option Nat)) (last : Option Nat) (c : U8) : List U8 :=
  [0x1B#8, charByte '['] ++ (paramsText params ++ paramText last) ++ [c]

/-- The values that a control sequence finds, where there is room for `n` -/
def sequenceValues (n : Nat) (params : List (Option Nat)) (last : Option Nat) : List U32 :=
  (paramValues params ++ (last.map (BitVec.ofNat 32)).toList).take n

/-! ## Colours -/

structure Style where
  bold : Bool
  fg : Option (Fin 8)
  bg : Option (Fin 8)
deriving DecidableEq

namespace Style

def plain : Style := ⟨false, none, none⟩

/-- One value of `ESC [ ... m` -/
def apply (st : Style) (v : Nat) : Style :=
  if v = 0 then plain
  else if v = 1 then { st with bold := true }
  else if v = 22 then { st with bold := false }
  else if h : 30 ≤ v ∧ v ≤ 37 then { st with fg := some ⟨v - 30, by omega⟩ }
  else if h : 40 ≤ v ∧ v ≤ 47 then { st with bg := some ⟨v - 40, by omega⟩ }
  else if v = 39 then { st with fg := none }
  else if v = 49 then { st with bg := none }
  else st

/-- All the values; none stand for 0. -/
def applyAll (st : Style) (vs : List Nat) : Style := if vs = [] then plain else vs.foldl apply st

/-- A bold text is brighter. -/
def fgColour (st : Style) (colours : Palette) : U32 :=
  match st.fg, st.bold with
  | some n, false => colours.ansiColours[n]
  | some n, true => colours.ansiBrightColours[n]
  | none, false => colours.defaultFg
  | none, true => colours.defaultFgBright

def bgColour (st : Style) (colours : Palette) : U32 :=
  match st.bg with
  | some n => colours.ansiColours[n]
  | none => noColour

end Style

/-- The other values of `ESC [ ... m`, and those that do nothing -/
def SimpleValue (v : Nat) : Prop :=
  v < 90 ∧ v ≠ 5 ∧ v ≠ 7 ∧ v ≠ 25 ∧ v ≠ 27 ∧ v ≠ 38 ∧ v ≠ 48

/-- A table whose text has a style -/
def Grid.styled (g : Grid) (st : Style) : Grid :=
  g.withPen { g.pen with textFg := st.fgColour g.colours, textBg := st.bgColour g.colours }

/-- `ESC [ ... m` with values -/
def styleText (vs : List Nat) : List U8 := sequenceText (vs.dropLast.map some) vs.getLast? (charByte 'm')

/-! ## Rows -/

/-- What is written to a terminal: characters, line feeds and `ESC [ ... m` -/
inductive TextItem where
  | char (c : Char)
  | newline
  | style (vs : List Nat)
deriving DecidableEq

/-- The characters that are written, and the numbers of values of a style -/
def TextItem.Ok (k : Nat) (item : TextItem) : Prop :=
  match item with
  | .char c => 0x20 ≤ c.toNat ∧ c.toNat ≤ 0x7E ∨ 0x80 ≤ c.toNat
  | .newline => True
  | .style vs => (∀ v ∈ vs, SimpleValue v) ∧ vs.length ≤ k

def TextItem.bytes (item : TextItem) : List U8 :=
  match item with
  | .char c => utf8 c
  | .newline => [0x0A#8]
  | .style vs => styleText vs

def textBytes (items : List TextItem) : List U8 := items.flatMap TextItem.bytes

/-- The glyphs of a character, which is its own glyph in ASCII -/
def textGlyphs (c : Char) : List U8 := if c.toNat < 0x80 then [BitVec.ofNat 8 c.toNat] else charGlyphs c

/-- A row of text, and what is right of it -/
structure TextRow where
  fill : FbChar
  text : List FbChar
deriving DecidableEq

def TextRow.at (row : TextRow) (x : Nat) : FbChar := row.text.getD x row.fill

/-- The rows that are done, the one that is written to, and the style of the text -/
structure Transcript where
  done : List TextRow
  row : TextRow
  style : Style
deriving DecidableEq

namespace Transcript

variable (n m : Nat) (colours : Palette) (tr : Transcript)

/-- A screen without text -/
def blank : FbChar := ⟨0x20#8, colours.defaultFg, noColour⟩

/-- A character in the style of the text -/
def glyph (c : U8) : FbChar := ⟨c, tr.style.fgColour colours, tr.style.bgColour colours⟩

def start : Transcript := ⟨[], ⟨blank colours, []⟩, .plain⟩

/-- A new row; where the screen is full it comes up from below, and has the colours of the text. -/
def newline : Transcript :=
  { tr with
    done := tr.done ++ [tr.row]
    row := ⟨if tr.done.length + 1 < m then blank colours else tr.glyph colours 0x20#8, []⟩ }

def put (c : U8) : Transcript :=
  let tr := if tr.row.text.length = n then tr.newline m colours else tr
  { tr with row := { tr.row with text := tr.row.text ++ [tr.glyph colours c] } }

def write (item : TextItem) : Transcript :=
  match item with
  | .char c => (textGlyphs c).foldl (fun tr c => tr.put n m colours c) tr
  | .newline => tr.newline m colours
  | .style vs => { tr with style := tr.style.applyAll vs }

def rows : List TextRow := tr.done ++ [tr.row]

/-- The last rows are on the screen. -/
def cell (p : Nat × Nat) : FbChar := (tr.rows.getD (tr.rows.length - m + p.2) ⟨blank colours, []⟩).at p.1

def cursor : Nat × Nat := (tr.row.text.length, min tr.done.length (m - 1))

/-- The screen with the cursor -/
def shown (p : Nat × Nat) : FbChar :=
  let c := tr.cell m colours p
  if p = tr.cursor m then ⟨c.c, c.bg, c.fg⟩ else c

end Transcript

/-- A text from the start -/
def transcript (n m : Nat) (colours : Palette) (items : List TextItem) : Transcript :=
  items.foldl (fun tr item => tr.write n m colours item) (.start colours)

end PpoOS
