import PpoOS.Flanterm.Text

/-!
# The commands of a terminal

What is written to a terminal are commands: text, and control sequences that move the cursor, erase
and make room.  This is what they mean for a table of `n` columns and `m` rows.  Where a row is full
the cursor is behind its last column, and counts as in it until there is more text.
-/

namespace PpoOS

/-! ## Text -/

namespace Grid

variable (n m : Nat) (g : Grid)

def moveTo (x y : Nat) : Grid := g.withPen { g.pen with cursorX := x, cursorY := y }

/-- The column of the cursor -/
def column : Nat := min g.pen.cursorX (n - 1)

/-- The text moves up by a row. -/
def moveUp : Grid :=
  { g with cells := fun p => if p.1 < n ∧ p.2 < m then if p.2 + 1 < m then g.cells (p.1, p.2 + 1) else g.blank else g.cells p }

/-- The cursor goes to the start of the next row, and where there is none the text moves up. -/
def nextRow : Grid :=
  if g.pen.cursorY + 1 = m then (g.moveUp n m).moveTo 0 g.pen.cursorY else g.moveTo 0 (g.pen.cursorY + 1)

theorem nextRow_colours : (g.nextRow n m).colours = g.colours := by
  rw [nextRow]
  split_ifs <;> rfl

/-- A glyph where the cursor is -/
def glyph (c : U8) : Grid :=
  { g with
    cells := fun p => if p = (g.pen.cursorX, g.pen.cursorY) then ⟨c, g.pen.textFg, g.pen.textBg⟩ else g.cells p
    pen := { g.pen with cursorX := g.pen.cursorX + 1 } }

/-- A full row is followed by the next one. -/
def type (c : U8) : Grid := if g.pen.cursorX = n then (g.nextRow n m).glyph c else g.glyph c

end Grid

/-! ## Moving the cursor -/

/-- The sequences that move a cursor at `x` and `y`, with the values `v` and `w`, and where they move it to -/
def cursorMoves (n m v w x y : Nat) : List (U8 × Nat × Nat) :=
  [(charByte 'A', x, y - v), (charByte 'F', 0, y - v), (charByte 'B', x, min (y + v) (m - 1)),
    (charByte 'e', x, min (y + v) (m - 1)), (charByte 'E', 0, min (y + v) (m - 1)),
    (charByte 'C', min (x + v) (n - 1), y), (charByte 'a', min (x + v) (n - 1), y), (charByte 'D', x - v, y),
    (charByte 'd', x, placeOf v m), (charByte 'G', placeOf v n, y), (0x60#8, placeOf v n, y),
    (charByte 'H', min (w - 1) (n - 1), min (v - 1) (m - 1)), (charByte 'f', min (w - 1) (n - 1), min (v - 1) (m - 1))]

/-! ## Erasing -/

inductive Erasure where
  | display
  | line
  | characters
deriving DecidableEq

namespace Erasure

variable (n m v : Nat) (g : Grid) (e : Erasure)

def final : U8 :=
  match e with
  | .display => charByte 'J'
  | .line => charByte 'K'
  | .characters => charByte 'X'

/-- What is erased for the value `v`: the number of the first place in the order of reading, and how many places there
are.  Behind the last column the first place is the one in the next row. -/
def range : Nat × Nat :=
  let first := g.pen.cursorY * n + g.pen.cursorX
  let here := g.pen.cursorY * n + g.column n
  match e with
  | .display =>
    if v = 0 then (first, m * n - here) else if v = 1 then (0, here + 1) else if v = 2 ∨ v = 3 then (0, m * n) else (0, 0)
  | .line =>
    if v = 0 then (first, n - g.column n) else if v = 1 then (g.pen.cursorY * n, g.column n)
    else if v = 2 then (g.pen.cursorY * n, n) else (0, 0)
  | .characters => (first, min v n)

/-- The spaces are printed, so that the cursor has to go back. -/
def prints : Bool :=
  match e with
  | .display => v < 2
  | .line => v < 3
  | .characters => true

end Erasure

namespace Grid

variable (n m v : Nat) (g : Grid)

/-- The places from the number `r.1` on, `r.2` of them, get a space in the colours of the text. -/
def erase (r : Nat × Nat) : Grid :=
  { g with
    cells := fun p =>
      if (p.1 < n ∧ p.2 < m) ∧ r.1 ≤ p.2 * n + p.1 ∧ p.2 * n + p.1 < r.1 + r.2 then g.blank else g.cells p }

def erased (e : Erasure) : Grid :=
  let g' := g.erase n m (e.range n m v g)
  if e.prints v then g'.moveTo (g.column n) g.pen.cursorY else g'

end Grid

/-! ## Making room -/

inductive TextEdit where
  | insertCharacters
  | deleteCharacters
  | insertLines
  | deleteLines
deriving DecidableEq

namespace TextEdit

variable (n m v x y : Nat) (g : Grid) (e : TextEdit)

def final : U8 :=
  match e with
  | .insertCharacters => charByte '@'
  | .deleteCharacters => charByte 'P'
  | .insertLines => charByte 'L'
  | .deleteLines => charByte 'M'

/-- What is at a place after the value `v`, with the cursor at `x` and `y`.  Characters that are moved by no place are
erased, the places that come free at the end of a row may be left of the cursor, and lines are deleted from the top of
the screen. -/
def cell (p : Nat × Nat) : FbChar :=
  match e with
  | .insertCharacters =>
    if p.2 ≠ y ∨ p.1 < x then g.cells p else if p.1 < x + v ∨ v = 0 then g.blank else g.cells (p.1 - v, y)
  | .deleteCharacters =>
    if p.2 ≠ y then g.cells p else if n ≤ p.1 + v then g.blank
    else if p.1 < x then g.cells p else g.cells (p.1 + v, y)
  | .insertLines => if p.2 < y then g.cells p else if p.2 < y + v then g.blank else g.cells (p.1, p.2 - v)
  | .deleteLines => if p.2 + v < m then g.cells (p.1, p.2 + v) else g.blank

/-- The cursor goes back to where it was. -/
def returns : Bool := e = .insertCharacters || e = .deleteCharacters

end TextEdit

namespace Grid

variable (n m v : Nat) (g : Grid)

/-- The text is edited with the cursor at `x` and `y`. -/
def edit (x y : Nat) (e : TextEdit) : Grid :=
  { g with cells := fun p => if p.1 < n ∧ p.2 < m then e.cell n m v x y g p else g.cells p }

def edited (e : TextEdit) : Grid :=
  let g' := g.edit n m v (g.column n) g.pen.cursorY e
  if e.returns then g'.moveTo (g.column n) g.pen.cursorY else g'

end Grid

/-! ## Commands -/

/-- What a control sequence finds for its number `i` -/
def sequenceValue (n : Nat) (params : List (Option Nat)) (last : Option Nat) (c : U8) (i : Nat) : Nat :=
  ((sequenceValues n params last).getD i (escDefault c)).toNat

/-- Text and sequences with their numbers -/
inductive TerminalCommand where
  | text (item : TextItem)
  | move (c : U8) (params : List (Option Nat)) (last : Option Nat)
  | erase (e : Erasure) (params : List (Option Nat)) (last : Option Nat)
  | edit (e : TextEdit) (params : List (Option Nat)) (last : Option Nat)
deriving DecidableEq

namespace TerminalCommand

variable (n m k : Nat) (cmd : TerminalCommand)

def bytes : List U8 :=
  match cmd with
  | .text item => item.bytes
  | .move c params last => sequenceText params last c
  | .erase e params last => sequenceText params last e.final
  | .edit e params last => sequenceText params last e.final

/-- The sequences that there are; the number of characters to delete counts as one with a sign. -/
def Ok : Prop :=
  match cmd with
  | .text item => item.Ok k
  | .move c _ _ => c ∈ (cursorMoves n m 0 0 0 0).map Prod.fst
  | .erase .. => True
  | .edit e params last => e = .deleteCharacters → sequenceValue k params last e.final 0 ≤ 2 ^ 31

/-- What a command does to a table with text in a style -/
def exec (p : Grid × Style) : Grid × Style :=
  let (g, st) := p
  match cmd with
  | .text (.char c) => ((textGlyphs c).foldl (fun g c => g.type n m c) g, st)
  | .text .newline => (g.nextRow n m, st)
  | .text (.style vs) => (g.styled (st.applyAll vs), st.applyAll vs)
  | .move c params last =>
    let moves := cursorMoves n m (sequenceValue k params last c 0) (sequenceValue k params last c 1) (g.column n)
      g.pen.cursorY
    (((moves.lookup c).map fun place => g.moveTo place.1 place.2).getD g, st)
  | .erase e params last => (g.erased n m (sequenceValue k params last e.final 0) e, st)
  | .edit e params last => (g.edited n m (sequenceValue k params last e.final 0) e, st)

end TerminalCommand

def commandBytes (cmds : List TerminalCommand) : List U8 := cmds.flatMap TerminalCommand.bytes

/-- The table and the style after commands -/
def execAll (n m k : Nat) (cmds : List TerminalCommand) (p : Grid × Style) : Grid × Style :=
  cmds.foldl (fun p cmd => cmd.exec n m k p) p

/-- The table as it is to be seen, with the cursor -/
def Grid.picture (g : Grid) (p : Nat × Nat) : FbChar :=
  let c := g.cells p
  if p = (g.pen.cursorX, g.pen.cursorY) then ⟨c.c, c.bg, c.fg⟩ else c

end PpoOS
