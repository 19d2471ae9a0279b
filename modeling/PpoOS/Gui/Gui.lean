import PpoOS.Mm.Paging

/-!
# Windows on the framebuffer (`gui.c`)

Everything is drawn by `gui_fill_rect` into the array `gui_backbuffer`, and
`gui_flush` copies the array to the screen.  A drawing function is the list of the
accesses to the array that it makes, one after the other.  `int` is 32 bits wide and
wraps around.
-/

namespace PpoOS

def guiMaxWidth : Nat := 1920
def guiMaxHeight : Nat := 1200

/-- The entries of `gui_backbuffer`. -/
def guiBackbufferLen : Nat := guiMaxWidth * guiMaxHeight

/-- `int` -/
abbrev I32 := BitVec 32

/-- What the bootloader says of the framebuffer. -/
structure LimineFramebuffer where
  address : U64
  width : U64
  height : U64
  pitch : U64

/-- `struct Framebuffer` -/
structure Framebuffer where
  baseAddress : U64
  width : U32
  height : U32
  pixelsPerScanLine : U32

/-- `fb_struct` of `kmain` -/
def kmainFramebuffer (fb : LimineFramebuffer) : Framebuffer :=
  ⟨fb.address, fb.width.setWidth 32, fb.height.setWidth 32, (fb.pitch / 4).setWidth 32⟩

/-- `struct gui_context`; `backbuffer` is null or `gui_backbuffer`. -/
structure GuiContext where
  fb : U64
  backbuffer : Bool
  width : U32
  height : U32
  pitch : U32

/-- `gui_init` -/
def guiInit (fb : Framebuffer) : GuiContext := ⟨fb.baseAddress, true, fb.width, fb.height, fb.pixelsPerScanLine⟩

/-- An access to `gui_backbuffer` at an index: a store, or a load that is copied to an index of the screen. -/
inductive GuiAccess where
  | store (index : Int) (color : U32)
  | load (index : Int) (dest : Nat)
deriving DecidableEq

def GuiAccess.index : GuiAccess → Int
  | store index _ => index
  | load index _ => index

/-! ## Rectangles -/

/-- The values of `i` in `for (int i = 0; i < n; i++)` with `if (!ok) break` in front of the body. -/
def loopWhile (n : I32) (ok : I32 → Bool) : List I32 :=
  ((List.range n.toInt.toNat).map fun i => BitVec.ofNat 32 i).takeWhile ok

/-- The points that `gui_fill_rect` stores to. -/
def fillPixels (ctx : GuiContext) (x y w h : I32) : List (I32 × I32) :=
  (loopWhile h fun j => y + j < ctx.height).flatMap fun j =>
    (loopWhile w fun i => x + i < ctx.width).map fun i => (x + i, y + j)

/-- `row[x]` where `row` is `backbuffer + y * width`: the product is unsigned, and `x` is not. -/
def pixelIndex (ctx : GuiContext) (p : I32 × I32) : Int := ((p.2 * ctx.width).toNat : Int) + p.1.toInt

/-- `gui_fill_rect` -/
def guiFillRect (ctx : GuiContext) (x y w h : I32) (color : U32) : List GuiAccess :=
  if !ctx.backbuffer then []
  else (fillPixels ctx x y w h).map fun p => .store (pixelIndex ctx p) color

/-- `gui_draw_window` with `radius` within the half of width and height. -/
def drawRounded (ctx : GuiContext) (x y w h : I32) (bg border : U32) (radius : I32) : List GuiAccess :=
  guiFillRect ctx (x + radius) y (w - 2 * radius) radius border ++
  guiFillRect ctx (x + radius) (y + h - radius) (w - 2 * radius) radius border ++
  guiFillRect ctx x (y + radius) radius (h - 2 * radius) border ++
  guiFillRect ctx (x + w - radius) (y + radius) radius (h - 2 * radius) border ++
  guiFillRect ctx (x + radius) (y + radius) (w - 2 * radius) (h - 2 * radius) bg ++
  (loopWhile radius fun _ => true).flatMap fun j => (loopWhile radius fun _ => true).flatMap fun i =>
    let dx := radius - 1 - i
    let dy := radius - 1 - j
    let color := if (radius * radius).sle (dx * dx + dy * dy) then border else bg
    guiFillRect ctx (x + i) (y + j) 1 1 color ++
    guiFillRect ctx (x + w - 1 - i) (y + j) 1 1 color ++
    guiFillRect ctx (x + i) (y + h - 1 - j) 1 1 color ++
    guiFillRect ctx (x + w - 1 - i) (y + h - 1 - j) 1 1 color

/-- `gui_draw_window` -/
def guiDrawWindow (ctx : GuiContext) (x y w h : I32) (bg border : U32) (radius : I32) : List GuiAccess :=
  if w.sle 2 || h.sle 2 then []
  else if radius.sle 0 then
    guiFillRect ctx x y w 1 border ++
    guiFillRect ctx x (y + h - 1) w 1 border ++
    guiFillRect ctx x y 1 h border ++
    guiFillRect ctx (x + w - 1) y 1 h border ++
    guiFillRect ctx (x + 1) (y + 1) (w - 2) (h - 2) bg
  else
    let radius := if w.slt (radius * 2) then w.sdiv 2 else radius
    let radius := if h.slt (radius * 2) then h.sdiv 2 else radius
    drawRounded ctx x y w h bg border radius

/-- `gui_draw_desktop` -/
def guiDrawDesktop (ctx : GuiContext) : List GuiAccess :=
  guiFillRect ctx 0 0 ctx.width ctx.height 0x002244#32 ++
  guiDrawWindow ctx 50 50 (ctx.width / 2) (ctx.height / 2) 0xcccccc#32 0x000000#32 8

/-- `arrow` -/
def arrow : List U8 :=
  [0b10000000#8, 0b11000000#8, 0b10100000#8, 0b10010000#8, 0b10001000#8, 0b10000100#8, 0b10000010#8, 0b11111111#8]

/-- `gui_draw_cursor` -/
def guiDrawCursor (ctx : GuiContext) (x y : I32) (color : U32) : List GuiAccess :=
  arrow.zipIdx.flatMap fun (bits, j) => (List.range 8).flatMap fun i =>
    if bits &&& (0x80#8 >>> i) ≠ 0#8 then guiFillRect ctx (x + BitVec.ofNat 32 i) (y + BitVec.ofNat 32 j) 1 1 color
    else []

/-- `gui_flush` -/
def guiFlush (ctx : GuiContext) : List GuiAccess :=
  if ctx.fb = 0#64 || !ctx.backbuffer then []
  else (List.range ctx.height.toNat).flatMap fun j =>
    let row := (BitVec.ofNat 32 j * ctx.width).toNat
    let dest := (BitVec.ofNat 32 j * ctx.pitch).toNat
    (List.range ctx.width.toNat).map fun i => .load (row + i : Nat) (dest + i)

/-! ## Windows -/

/-- `enum gui_window_state` -/
inductive GuiWindowState where
  | normal
  | minimized
  | maximized
  | closed
deriving DecidableEq

/-- `struct gui_window` -/
structure GuiWindow where
  x : I32
  y : I32
  w : I32
  h : I32
  state : GuiWindowState
deriving DecidableEq

/-- The rectangle of a window. -/
structure GuiFrame where
  x : I32
  y : I32
  w : I32
  h : I32

/-- `x`, `y`, `w` and `h` of `gui_draw_window_ex`, from the state of the window. -/
def GuiWindow.frame (ctx : GuiContext) (win : GuiWindow) : GuiFrame :=
  match win.state with
  | .maximized => ⟨0, 0, ctx.width, ctx.height⟩
  | .minimized => ⟨win.x, win.y, win.w, 20⟩
  | _ => ⟨win.x, win.y, win.w, win.h⟩

/-- `gui_draw_window_ex` -/
def guiDrawWindowEx (ctx : GuiContext) (win : GuiWindow) (bg border : U32) : List GuiAccess :=
  if win.state = .closed then []
  else
    let f := win.frame ctx
    guiDrawWindow ctx f.x f.y f.w f.h bg border 8 ++
    guiFillRect ctx (f.x + f.w - 45) (f.y + 2) 12 12 0x666666#32 ++
    guiFillRect ctx (f.x + f.w - 30) (f.y + 2) 12 12 0x666666#32 ++
    guiFillRect ctx (f.x + f.w - 15) (f.y + 2) 12 12 0x666666#32

/-- `gui_window_handle_click` -/
def guiWindowHandleClick (win : GuiWindow) (x y : I32) : Bool × GuiWindow :=
  if win.state = .closed then (false, win)
  else if x.slt win.x || (win.x + win.w).sle x || y.slt win.y || (win.y + 20).sle y then (false, win)
  else
    let rel := x - win.x
    if (win.w - 45).sle rel && rel.slt (win.w - 30) then (true, { win with state := .minimized })
    else if (win.w - 30).sle rel && rel.slt (win.w - 15) then
      (true, { win with state := if win.state = .maximized then .normal else .maximized })
    else if (win.w - 15).sle rel then (true, { win with state := .closed })
    else (false, win)

end PpoOS
