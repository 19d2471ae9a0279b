import PpoOS.Flanterm.Framebuffer

/-!
# A screen of characters

What the framebuffer backend stands for: a table of characters and a pen, without a queue and
without pixels.  A row moves as a whole.  `Grid` is the backend that works on such a table.
-/

namespace PpoOS

structure Grid where
  colours : Palette
  pen : Pen
  cells : Nat × Nat → FbChar

namespace Grid

variable (t : FlantermContext) (g : Grid)

/-- The character that clears a place. -/
def blank : FbChar := ⟨0x20#8, g.pen.textFg, g.pen.textBg⟩

/-- Change places of the screen. -/
def onScreen (f : Nat × Nat → FbChar) : Grid :=
  { g with cells := fun p => if p.1 < t.cols ∧ p.2 < t.rows then f p else g.cells p }

def put (c : FbChar) (x y : Nat) : Grid := g.onScreen t fun p => if p = (x, y) then c else g.cells p

/-- The rows of the scroll region move up. -/
def scroll : Grid := g.onScreen t fun p =>
  if p.2 = t.scrollBottomMargin - 1 then g.blank
  else if t.scrollTopMargin ≤ p.2 ∧ p.2 + 1 < t.scrollBottomMargin then g.cells (p.1, p.2 + 1)
  else g.cells p

/-- The rows of the scroll region move down. -/
def revscroll : Grid := g.onScreen t fun p =>
  if p.2 = t.scrollTopMargin then g.blank
  else if t.scrollTopMargin < p.2 ∧ p.2 < t.scrollBottomMargin then g.cells (p.1, p.2 - 1)
  else g.cells p

def withPen (pen : Pen) : Grid := { g with pen }

def clear (move : Bool) : Grid :=
  let g := g.onScreen t fun _ => g.blank
  if move then g.withPen { g.pen with cursorX := 0, cursorY := 0 } else g

def moveCharacter (newX newY oldX oldY : Nat) : Grid :=
  if oldX < t.cols ∧ oldY < t.rows then g.put t (g.cells (oldX, oldY)) newX newY else g

/-- Where the pen is right of the screen, it goes on in the next line; a line is not below the row `cols - 1`. -/
def wrapLine : Grid :=
  if g.pen.cursorX ≥ t.cols ∧ (g.pen.cursorY < t.scrollBottomMargin - 1 ∨ t.scrollEnabled) then
    if g.pen.cursorY + 1 = t.scrollBottomMargin then
      (g.scroll t).withPen { g.pen with cursorX := 0, cursorY := min g.pen.cursorY (t.cols - 1) }
    else g.withPen { g.pen with cursorX := 0, cursorY := min (g.pen.cursorY + 1) (t.cols - 1) }
  else g

def rawPutchar (c : U8) : Grid :=
  let g := g.wrapLine t
  (g.put t ⟨c, g.pen.textFg, g.pen.textBg⟩ g.pen.cursorX g.pen.cursorY).withPen
    { g.pen with cursorX := g.pen.cursorX + 1 }

/-- A backend on the table. -/
def run (fn : BackendFn) : Option Grid :=
  match fn with
  | .rawPutchar c => some (g.rawPutchar t c)
  | .clear move => some (g.clear t move)
  | .moveCharacter newX newY oldX oldY => some (g.moveCharacter t newX newY oldX oldY)
  | .scroll => some (g.scroll t)
  | .revscroll => some (g.revscroll t)
  | .doubleBufferFlush => some g
  | fn => (penRun g.colours t g.pen fn).map g.withPen

/-- The character under the cursor, where it is to be seen, with its colours swapped. -/
def shown (p : Nat × Nat) : FbChar :=
  let c := g.cells p
  if t.cursorEnabled ∧ p = (g.pen.cursorX, g.pen.cursorY) then ⟨c.c, c.bg, c.fg⟩ else c

end Grid

def gridBackend : Backend Grid := ⟨fun t fn g => g.run t fn, fun t g => flantermFbGetCursorPos t g.pen⟩

end PpoOS
