import PpoOS.Flanterm.Framebuffer

/-!
# Setting up the terminal (`flanterm_fb_init`)

The kernel gives `flanterm_fb_init` no `_malloc` and no font, so the terminal is allocated from a pool
of a fixed size, is at most 1920 pixels wide and 1200 high, and has the font `builtin_font`.
-/

namespace PpoOS

/-! ## The pool -/

/-- `bump_alloc_pool`, at an address, and the static variables of its functions -/
structure BumpPool where
  address : Nat
  ptr : Nat
  baseOffsetAdded : Bool
  allocatedInstance : Bool
deriving DecidableEq

/-- `FLANTERM_FB_BUMP_ALLOC_POOL_SIZE` -/
def bumpAllocPoolSize : Nat := 873000

/-- A number of bytes that is a multiple of 16 -/
def roundTo16 (s : Nat) : Nat := if s % 16 ≠ 0 then (s + 16) / 16 * 16 else s

/-- `bump_alloc`: whether there was room for `s` bytes -/
def bumpAlloc (s : Nat) : StateM BumpPool Bool := fun pool =>
  let pool :=
    if pool.baseOffsetAdded then pool
    else { pool with
      ptr := if pool.address % 16 ≠ 0 then pool.ptr + (16 - pool.address % 16) else pool.ptr
      baseOffsetAdded := true }
  let nextPtr := pool.ptr + roundTo16 s
  if nextPtr > bumpAllocPoolSize then (false, pool) else (true, { pool with ptr := nextPtr })

/-! ## The terminal -/

/-- The arguments of `flanterm_fb_init`, without those for an allocator, a canvas and a font; `none` for a pointer
that is null. -/
structure FbArgs where
  width : Nat
  height : Nat
  pitch : Nat
  redMaskSize : U8
  redMaskShift : U8
  greenMaskSize : U8
  greenMaskShift : U8
  blueMaskSize : U8
  blueMaskShift : U8
  ansiColours : Option (Vector U32 8)
  ansiBrightColours : Option (Vector U32 8)
  defaultBg : Option U32
  defaultFg : Option U32
  defaultBgBright : Option U32
  defaultFgBright : Option U32
  fontScaleX : Nat
  fontScaleY : Nat
  margin : Nat
deriving DecidableEq

/-- The sizes of the types that the headers of the terminal define, and that of a pointer -/
structure FbSizes where
  context : Nat
  char : Nat
  queueItem : Nat
  pointer : Nat

namespace FbArgs

variable (a : FbArgs)

/-- The scale of the font, chosen by the size of the framebuffer where there is none -/
def fontScale : Nat × Nat :=
  if a.fontScaleX = 0 ∨ a.fontScaleY = 0 then
    if a.width ≥ 3840 + 3840 / 3 ∧ a.height ≥ 2160 + 2160 / 3 then (4, 4)
    else if a.width ≥ 1920 + 1920 / 3 ∧ a.height ≥ 1080 + 1080 / 3 then (2, 2)
    else (1, 1)
  else (a.fontScaleX, a.fontScaleY)

/-- `red_mask_size < 8 || red_mask_size != green_mask_size || red_mask_size != blue_mask_size` -/
def badMasks : Bool :=
  a.redMaskSize < 8#8 || a.redMaskSize != a.greenMaskSize || a.redMaskSize != a.blueMaskSize

/-- The shifts of `convert_colour`: 16, 8 and 0 where the kernel calls; a caller may give any byte, also
one of 32 and more (see `convertColour`). -/
def maskShifts : MaskShifts where
  red := (a.redMaskShift + (a.redMaskSize - 8#8)).toNat
  green := (a.greenMaskShift + (a.greenMaskSize - 8#8)).toNat
  blue := (a.blueMaskShift + (a.blueMaskSize - 8#8)).toNat

def colours : Palette where
  shifts := a.maskShifts
  ansiColours := (a.ansiColours.getD #v[0x00000000#32, 0x00aa0000#32, 0x0000aa00#32, 0x00aa5500#32, 0x000000aa#32,
    0x00aa00aa#32, 0x0000aaaa#32, 0x00aaaaaa#32]).map (convertColour a.maskShifts)
  ansiBrightColours := (a.ansiBrightColours.getD #v[0x00555555#32, 0x00ff5555#32, 0x0055ff55#32, 0x00ffff55#32,
    0x005555ff#32, 0x00ff55ff#32, 0x0055ffff#32, 0x00ffffff#32]).map (convertColour a.maskShifts)
  defaultBg := (a.defaultBg.map (convertColour a.maskShifts)).getD 0x00000000#32
  defaultFg := convertColour a.maskShifts (a.defaultFg.getD 0x00aaaaaa#32)
  defaultBgBright := convertColour a.maskShifts (a.defaultBgBright.getD 0x00555555#32)
  defaultFgBright := convertColour a.maskShifts (a.defaultFgBright.getD 0x00ffffff#32)

/-- `FLANTERM_FB_WIDTH_LIMIT` and `FLANTERM_FB_HEIGHT_LIMIT` -/
def widthLimit : Nat := min a.width 1920

def heightLimit : Nat := min a.height 1200

/-- The first pixel of a terminal in the middle of a framebuffer that is larger -/
def origin : Nat :=
  ((a.height / 2 - a.heightLimit / 2) * a.pitch + (a.width / 2 - a.widthLimit / 2) * 4) / 4

def glyphWidth : Nat := (8 + 1) * a.fontScale.1

def glyphHeight : Nat := 16 * a.fontScale.2

def cols : Nat := (a.widthLimit - a.margin * 2) / a.glyphWidth

def rows : Nat := (a.heightLimit - a.margin * 2) / a.glyphHeight

end FbArgs

/-- `font_bool[offset]`: the glyphs are 8 dots wide, and what is right of them continues some of them. -/
def fontBool (builtinFont : Nat → U8) (offset : Nat) : Bool :=
  let i := offset / (16 * 9)
  let glyphRow := builtinFont (offset / 9)
  let x := offset % 9
  if x < 8 then glyphRow &&& (0x80#8 >>> x) ≠ 0#8
  else if i ≥ 0xc0 ∧ i ≤ 0xdf then glyphRow &&& 1#8 ≠ 0#8
  else false

/-- The screen of a terminal in a framebuffer of `pixels` pixels -/
def fbScreen (builtinFont : Nat → U8) (a : FbArgs) (pixels : Nat) : FbScreen where
  pixels := pixels
  origin := a.origin
  width := a.widthLimit
  height := a.heightLimit
  pitch := a.pitch
  fontWidth := 8 + 1
  fontHeight := 16
  fontScaleX := a.fontScale.1
  fontScaleY := a.fontScale.2
  glyphWidth := a.glyphWidth
  glyphHeight := a.glyphHeight
  offsetX := a.margin + (a.widthLimit - a.margin * 2) % a.glyphWidth / 2
  offsetY := a.margin + (a.heightLimit - a.margin * 2) % a.glyphHeight / 2
  fontBoolSize := 256 * 16 * (8 + 1)
  fontBool := fontBool builtinFont
  cells := a.rows * a.cols
  scaled := ¬(a.fontScale.1 = 1 ∧ a.fontScale.2 = 1)

/-- The context that is all zero, and what `flanterm_context_reinit` leaves of it -/
def initialContext (a : FbArgs) (maxEscValues : Nat) : FlantermContext :=
  flantermContextReinit {
    cols := a.cols
    rows := a.rows
    tabSize := 0
    autoflush := false
    cursorEnabled := false
    scrollEnabled := false
    controlSequence := false
    escape := false
    osc := false
    oscEscape := false
    rrr := false
    discardNext := false
    bold := false
    bgBold := false
    reverseVideo := false
    decPrivate := false
    insertMode := false
    codePoint := 0#64
    unicodeRemaining := 0
    gSelect := 0
    charsets := #v[.default, .default]
    currentCharset := 0
    escapeOffset := 0
    escValues := List.replicate maxEscValues 0#32
    escValuesI := 0
    savedCursorX := 0
    savedCursorY := 0
    currentPrimary := some 0
    currentBg := some 0
    scrollTopMargin := 0
    scrollBottomMargin := 0
    onlcr := false
    saved := ⟨false, false, false, 0, some 0, some 0⟩ }

/-- The pen of a new terminal -/
def initialPen (colours : Palette) : Pen := ⟨colours.defaultFg, noColour, 0, 0, 0#32, 0#32, 0, 0⟩

/-- `flanterm_fb_init`, with `FLANTERM_MAX_ESC_VALUES` values in a control sequence; there is no terminal where an
allocation fails. -/
def flantermFbInit (sizes : FbSizes) (maxEscValues : Nat) (builtinFont : Nat → U8) (a : FbArgs) (pixels : Nat)
    (framebuffer : Nat → U32) : StateT BumpPool Option (Option (FlantermContext × FbContext)) := fun pool => do
  if a.badMasks ∨ pool.allocatedInstance then return (none, pool)
  else
    let (allocated, pool) := bumpAlloc sizes.context pool
    if ¬allocated then return (none, pool)
    else
      let cells := a.rows * a.cols
      let (allocated, pool) := ([8 * 16 * 256 / 8, 256 * 16 * (8 + 1), cells * sizes.char, cells * sizes.queueItem,
        cells * sizes.pointer].allM bumpAlloc) pool
      if ¬allocated then return (none, { pool with ptr := 0 })
      else
        let t := initialContext a maxEscValues
        let pen := initialPen a.colours
        let s ← flantermFbFullRefresh t {
          colours := a.colours
          screen := fbScreen builtinFont a pixels
          pen := pen
          oldCursorX := 0
          oldCursorY := 0
          buffer := .init fun _ => ⟨0x20#8, pen.textFg, pen.textBg⟩
          framebuffer := framebuffer }
        return (some (t, s), { pool with allocatedInstance := true })

/-- The arguments with which `kernel` calls `flanterm_fb_init` -/
def kernelFbArgs (fb : Framebuffer) : FbArgs where
  width := fb.width.toNat
  height := fb.height.toNat
  pitch := (fb.pixelsPerScanLine * 4#32).toNat
  redMaskSize := 8#8
  redMaskShift := 16#8
  greenMaskSize := 8#8
  greenMaskShift := 8#8
  blueMaskSize := 8#8
  blueMaskShift := 0#8
  ansiColours := none
  ansiBrightColours := none
  defaultBg := none
  defaultFg := none
  defaultBgBright := none
  defaultFgBright := none
  fontScaleX := 0
  fontScaleY := 0
  margin := 0

end PpoOS
