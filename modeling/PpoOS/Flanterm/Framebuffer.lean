import PpoOS.Flanterm.Flanterm
import PpoOS.Gui.Gui
import PpoOS.Lib.WriteBack

/-!
# The framebuffer backend (`flanterm_fb_backend.c`)

A character that is written to the screen waits in `queue`, and `map` says where; it is drawn when
the queue is flushed, and `grid` is what is drawn.  The three are a `WriteBack`.  The arrays `grid`
and `map` have an element for each place of the screen, the one of column `x` and row `y` at
`y * cols + x`.  The terminal has no canvas, as `flanterm_fb_init` gives it none where it allocates
from the pool.
-/

namespace PpoOS

/-- `struct flanterm_fb_char` -/
structure FbChar where
  c : U8
  fg : U32
  bg : U32
deriving DecidableEq

/-- The amounts by which `convert_colour` shifts -/
structure MaskShifts where
  red : Nat
  green : Nat
  blue : Nat
deriving DecidableEq

/-- `convert_colour`.  C leaves a shift by 32 or more undefined; here it gives 0. -/
def convertColour (shifts : MaskShifts) (colour : U32) : U32 :=
  let r := colour >>> 16 &&& 0xFF#32
  let g := colour >>> 8 &&& 0xFF#32
  let b := colour &&& 0xFF#32
  r <<< shifts.red ||| g <<< shifts.green ||| b <<< shifts.blue

/-- The colours of a terminal -/
structure Palette where
  shifts : MaskShifts
  ansiColours : Vector U32 8
  ansiBrightColours : Vector U32 8
  defaultBg : U32
  defaultFg : U32
  defaultBgBright : U32
  defaultFgBright : U32
deriving DecidableEq

/-- The colours of the next character and its place, and what `save_state` saves of them. -/
structure Pen where
  textFg : U32
  textBg : U32
  cursorX : Nat
  cursorY : Nat
  savedTextFg : U32
  savedTextBg : U32
  savedCursorX : Nat
  savedCursorY : Nat
deriving DecidableEq

/-! ## Functions that change the pen -/

/-- `flanterm_fb_save_state` -/
def flantermFbSaveState (pen : Pen) : Pen :=
  { pen with
    savedTextFg := pen.textFg
    savedTextBg := pen.textBg
    savedCursorX := pen.cursorX
    savedCursorY := pen.cursorY }

/-- `flanterm_fb_restore_state` -/
def flantermFbRestoreState (pen : Pen) : Pen :=
  { pen with
    textFg := pen.savedTextFg
    textBg := pen.savedTextBg
    cursorX := pen.savedCursorX
    cursorY := pen.savedCursorY }

/-- `flanterm_fb_swap_palette` -/
def flantermFbSwapPalette (pen : Pen) : Pen := { pen with textFg := pen.textBg, textBg := pen.textFg }

/-- `if (x >= size) { if ((int)x < 0) x = 0; else x = size - 1; }` -/
def clampPos (x : U64) (size : Nat) : Nat :=
  if x.toNat ≥ size then if (x.setWidth 32).msb then 0 else size - 1 else x.toNat

/-- `flanterm_fb_set_cursor_pos` -/
def flantermFbSetCursorPos (t : FlantermContext) (x y : U64) (pen : Pen) : Pen :=
  { pen with cursorX := clampPos x t.cols, cursorY := clampPos y t.rows }

/-- `flanterm_fb_get_cursor_pos` -/
def flantermFbGetCursorPos (t : FlantermContext) (pen : Pen) : Nat × Nat :=
  (if pen.cursorX ≥ t.cols then t.cols - 1 else pen.cursorX,
    if pen.cursorY ≥ t.rows then t.rows - 1 else pen.cursorY)

/-- `text_fg = colour` -/
def Pen.setFg (pen : Pen) (colour : U32) : Pen := { pen with textFg := colour }

/-- `text_bg = colour` -/
def Pen.setBg (pen : Pen) (colour : U32) : Pen := { pen with textBg := colour }

/-- The background where the pen has none: `default_bg` -/
def noColour : U32 := 0xFFFFFFFF#32

/-- The functions of the backend that change the pen and nothing else. -/
def penRun (colours : Palette) (t : FlantermContext) (pen : Pen) : BackendFn → Option Pen
  | .saveState => some (flantermFbSaveState pen)
  | .restoreState => some (flantermFbRestoreState pen)
  | .swapPalette => some (flantermFbSwapPalette pen)
  | .setCursorPos x y => some (flantermFbSetCursorPos t x y pen)
  | .setTextFg fg => colours.ansiColours[fg]?.map pen.setFg
  | .setTextBg bg => colours.ansiColours[bg]?.map pen.setBg
  | .setTextFgBright fg => colours.ansiBrightColours[fg]?.map pen.setFg
  | .setTextBgBright bg => colours.ansiBrightColours[bg]?.map pen.setBg
  | .setTextFgRgb fg => some (pen.setFg (convertColour colours.shifts fg))
  | .setTextBgRgb bg => some (pen.setBg (convertColour colours.shifts bg))
  | .setTextFgDefault => some (pen.setFg colours.defaultFg)
  | .setTextBgDefault => some (pen.setBg noColour)
  | .setTextFgDefaultBright => some (pen.setFg colours.defaultFgBright)
  | .setTextBgDefaultBright => some (pen.setBg colours.defaultBgBright)
  | .rawPutchar _ | .clear _ | .moveCharacter .. | .scroll | .revscroll | .doubleBufferFlush => some pen

/-! ## Drawing -/

/-- Where the pixels of the terminal are, in a framebuffer of `pixels` pixels of 4 bytes.  The terminal starts at
the pixel `origin`; `cells` is the number of elements of `grid`, of `queue` and of `map`. -/
structure FbScreen where
  pixels : Nat
  origin : Nat
  width : Nat
  height : Nat
  pitch : Nat
  fontWidth : Nat
  fontHeight : Nat
  fontScaleX : Nat
  fontScaleY : Nat
  glyphWidth : Nat
  glyphHeight : Nat
  offsetX : Nat
  offsetY : Nat
  fontBoolSize : Nat
  fontBool : Nat → Bool
  cells : Nat
  scaled : Bool

/-- `struct flanterm_fb_context` -/
structure FbContext where
  colours : Palette
  screen : FbScreen
  pen : Pen
  oldCursorX : Nat
  oldCursorY : Nat
  buffer : WriteBack (Nat × Nat) FbChar
  framebuffer : Nat → U32

namespace FbScreen

variable (g : FbScreen)

/-- `framebuffer[i] = colour` -/
def setPixel (i : Nat) (colour : U32) (fb : Nat → U32) : Option (Nat → U32) :=
  if i < g.pixels then some (Function.update fb i colour) else none

/-- `*glyph_pointer`, at column `fx` and row `fy` of the glyph of `c` -/
def glyphBit (c : U8) (fx fy : Nat) : Option Bool :=
  let i := c.toNat * g.fontHeight * g.fontWidth + fy * g.fontWidth + fx
  if i < g.fontBoolSize then some (g.fontBool i) else none

/-- The pixel in column `x` and row `y` of the terminal -/
def pixelAt (x y : Nat) : Nat := g.origin + x + y * (g.pitch / 4)

end FbScreen

/-- `plot_char_scaled_uncanvas` -/
def plotCharScaledUncanvas (colours : Palette) (g : FbScreen) (t : FlantermContext) (c : FbChar) (x y : Nat)
    (fb : Nat → U32) : Option (Nat → U32) :=
  if x ≥ t.cols ∨ y ≥ t.rows then some fb
  else
    let bg := if c.bg = noColour then colours.defaultBg else c.bg
    let fg := if c.fg = noColour then colours.defaultBg else c.fg
    let x := g.offsetX + x * g.glyphWidth
    let y := g.offsetY + y * g.glyphHeight
    (List.range g.glyphHeight).foldlM (fun fb gy =>
      let fy := gy / g.fontScaleY % 2 ^ 8
      let line := g.pixelAt x (y + gy)
      (List.range g.fontWidth).foldlM (fun fb fx =>
        (List.range g.fontScaleX).foldlM (fun fb i => do
          let gx := g.fontScaleX * fx + i
          let bit ← g.glyphBit c.c fx fy
          g.setPixel (line + gx) (if bit then fg else bg) fb) fb) fb) fb

/-- `plot_char_unscaled_uncanvas` -/
def plotCharUnscaledUncanvas (colours : Palette) (g : FbScreen) (t : FlantermContext) (c : FbChar) (x y : Nat)
    (fb : Nat → U32) : Option (Nat → U32) :=
  if x ≥ t.cols ∨ y ≥ t.rows then some fb
  else
    let bg := if c.bg = noColour then colours.defaultBg else c.bg
    let fg := if c.fg = noColour then colours.defaultBg else c.fg
    let x := g.offsetX + x * g.glyphWidth
    let y := g.offsetY + y * g.glyphHeight
    (List.range g.glyphHeight).foldlM (fun fb gy =>
      let line := g.pixelAt x (y + gy)
      (List.range g.fontWidth).foldlM (fun fb fx => do
        let bit ← g.glyphBit c.c fx gy
        g.setPixel (line + fx) (if bit then fg else bg) fb) fb) fb

namespace FbContext

variable (t : FlantermContext)

/-- `plot_char` -/
def plotChar (c : FbChar) (x y : Nat) (s : FbContext) : Option FbContext :=
  (if s.screen.scaled then plotCharScaledUncanvas s.colours s.screen t c x y s.framebuffer
    else plotCharUnscaledUncanvas s.colours s.screen t c x y s.framebuffer).map
    fun framebuffer => { s with framebuffer }

/-- `push_to_queue` -/
def pushToQueue (c : FbChar) (x y : Nat) (s : FbContext) : Option FbContext :=
  if x ≥ t.cols ∨ y ≥ t.rows then some s
  else if y * t.cols + x < s.screen.cells then
    (s.buffer.push s.screen.cells (x, y) c).map fun buffer => { s with buffer }
  else none

/-- `q != NULL ? q->c : grid[i]`, where `q` is `map[i]` -/
def charAt (i : Nat) (s : FbContext) : Option FbChar :=
  if i < s.screen.cells then s.buffer.read (i % t.cols, i / t.cols) else none

/-- `empty` -/
def empty (s : FbContext) : FbChar := ⟨0x20#8, s.pen.textFg, s.pen.textBg⟩

/-- Clear the row `y`. -/
def clearRow (y : Nat) (s : FbContext) : Option FbContext :=
  (List.range t.cols).foldlM (fun s i => pushToQueue t s.empty i y s) s

end FbContext

open FbContext

section Functions

variable (t : FlantermContext)

/-- `flanterm_fb_revscroll`; its loop goes down, and stops at the latest at 0. -/
def flantermFbRevscroll (s : FbContext) : Option FbContext := do
  let first := t.scrollTopMargin * t.cols
  let s ← (List.range' first ((t.scrollBottomMargin - 1) * t.cols - first)).reverse.foldlM (fun s i => do
    pushToQueue t (← charAt t i s) ((i + t.cols) % t.cols) ((i + t.cols) / t.cols) s) s
  clearRow t t.scrollTopMargin s

/-- `flanterm_fb_scroll` -/
def flantermFbScroll (s : FbContext) : Option FbContext := do
  let first := (t.scrollTopMargin + 1) * t.cols
  let s ← (List.range' first (t.scrollBottomMargin * t.cols - first)).foldlM (fun s i => do
    pushToQueue t (← charAt t i s) ((i - t.cols) % t.cols) ((i - t.cols) / t.cols) s) s
  clearRow t (t.scrollBottomMargin - 1) s

/-- `flanterm_fb_clear` -/
def flantermFbClear (move : Bool) (s : FbContext) : Option FbContext := do
  let s ← (List.range (t.rows * t.cols)).foldlM (fun s i => pushToQueue t s.empty (i % t.cols) (i / t.cols) s) s
  return if move then { s with pen := { s.pen with cursorX := 0, cursorY := 0 } } else s

/-- `flanterm_fb_move_character` -/
def flantermFbMoveCharacter (newX newY oldX oldY : Nat) (s : FbContext) : Option FbContext :=
  if oldX ≥ t.cols ∨ oldY ≥ t.rows ∨ newX ≥ t.cols ∨ newY ≥ t.rows then some s
  else do pushToQueue t (← charAt t (oldX + oldY * t.cols) s) newX newY s

/-- `draw_cursor` -/
def drawCursor (s : FbContext) : Option FbContext :=
  if s.pen.cursorX ≥ t.cols ∨ s.pen.cursorY ≥ t.rows then some s
  else do
    let c ← charAt t (s.pen.cursorX + s.pen.cursorY * t.cols) s
    let s ← plotChar t ⟨c.c, c.bg, c.fg⟩ s.pen.cursorX s.pen.cursorY s
    let place := (s.pen.cursorX, s.pen.cursorY)
    return if s.buffer.slot place = none then s else { s with buffer := s.buffer.settle place c }

/-- An item of the queue in `flanterm_fb_double_buffer_flush` -/
def flushItem (s : FbContext) (item : (Nat × Nat) × FbChar) : Option FbContext :=
  if item.1.2 * t.cols + item.1.1 < s.screen.cells then
    if s.buffer.slot item.1 = none then some s
    else do
      let s ← plotChar t item.2 item.1.1 item.1.2 s
      return { s with buffer := s.buffer.settle item.1 item.2 }
  else none

/-- The character under the old cursor is drawn as it is. -/
def eraseOldCursor (s : FbContext) : Option FbContext :=
  if (s.oldCursorX ≠ s.pen.cursorX ∨ s.oldCursorY ≠ s.pen.cursorY) ∨ t.cursorEnabled = false then
    if s.oldCursorX < t.cols ∧ s.oldCursorY < t.rows then
      if s.oldCursorX + s.oldCursorY * t.cols < s.screen.cells then
        plotChar t (s.buffer.base (s.oldCursorX, s.oldCursorY)) s.oldCursorX s.oldCursorY s
      else none
    else some s
  else some s

/-- `flanterm_fb_double_buffer_flush` -/
def flantermFbDoubleBufferFlush (s : FbContext) : Option FbContext := do
  let s ← (if t.cursorEnabled then drawCursor t s else some s)
  let s ← s.buffer.queue.foldlM (flushItem t) s
  let s ← eraseOldCursor t s
  return { s with oldCursorX := s.pen.cursorX, oldCursorY := s.pen.cursorY, buffer := s.buffer.reset }

/-- The pen goes to the next line where it is right of the screen. -/
def wrapLine (s : FbContext) : Option FbContext :=
  if s.pen.cursorX ≥ t.cols ∧ (s.pen.cursorY < t.scrollBottomMargin - 1 ∨ t.scrollEnabled) then do
    let s := { s with pen := { s.pen with cursorX := 0, cursorY := s.pen.cursorY + 1 } }
    let s ← if s.pen.cursorY = t.scrollBottomMargin then
        flantermFbScroll t { s with pen := { s.pen with cursorY := s.pen.cursorY - 1 } }
      else some s
    return if s.pen.cursorY ≥ t.cols then { s with pen := { s.pen with cursorY := t.cols - 1 } } else s
  else some s

/-- `flanterm_fb_raw_putchar` -/
def flantermFbRawPutchar (c : U8) (s : FbContext) : Option FbContext := do
  let s ← wrapLine t s
  let s ← pushToQueue t ⟨c, s.pen.textFg, s.pen.textBg⟩ s.pen.cursorX s.pen.cursorY s
  return { s with pen := { s.pen with cursorX := s.pen.cursorX + 1 } }

/-- `flanterm_fb_full_refresh` -/
def flantermFbFullRefresh (s : FbContext) : Option FbContext := do
  let g := s.screen
  let framebuffer ← (List.range g.height).foldlM (fun fb y =>
    (List.range g.width).foldlM (fun fb x => g.setPixel (g.pixelAt x y) s.colours.defaultBg fb) fb) s.framebuffer
  let s := { s with framebuffer }
  let s ← (List.range (t.rows * t.cols)).foldlM (fun s i =>
    if i < s.screen.cells then plotChar t (s.buffer.base (i % t.cols, i / t.cols)) (i % t.cols) (i / t.cols) s
    else none) s
  if t.cursorEnabled then drawCursor t s else some s

end Functions

/-- The functions of the backend. -/
def fbRun (t : FlantermContext) (fn : BackendFn) (s : FbContext) : Option FbContext :=
  match fn with
  | .rawPutchar c => flantermFbRawPutchar t c s
  | .clear move => flantermFbClear t move s
  | .moveCharacter newX newY oldX oldY => flantermFbMoveCharacter t newX newY oldX oldY s
  | .scroll => flantermFbScroll t s
  | .revscroll => flantermFbRevscroll t s
  | .doubleBufferFlush => flantermFbDoubleBufferFlush t s
  | fn => (penRun s.colours t s.pen fn).map fun pen => { s with pen }

def fbBackend : Backend FbContext := ⟨fbRun, fun t s => flantermFbGetCursorPos t s.pen⟩

end PpoOS
