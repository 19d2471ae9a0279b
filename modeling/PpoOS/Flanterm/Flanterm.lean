import PpoOS.Flanterm.Tables
import PpoOS.Lib.Trace

/-!
# The terminal (`flanterm.c`)

`flanterm_putchar` takes the bytes that are written to the terminal one by one, and calls the
functions of a backend.  All it ever learns from the backend is where the cursor is, so what it
does for a byte is a list of calls, each with the context that the backend finds.  No callback is
set, and of `oob_output` only the bit `FLANTERM_OOB_OUTPUT_ONLCR` is looked at.  The array
`esc_values` has `FLANTERM_MAX_ESC_VALUES` elements.
-/

namespace PpoOS

inductive Charset where
  | default
  | decSpecial
deriving DecidableEq

/-- The fields of the context that `save_state` saves; a colour that is not set is `(size_t)-1` -/
structure SavedState where
  bold : Bool
  bgBold : Bool
  reverseVideo : Bool
  currentCharset : Nat
  currentPrimary : Option Nat
  currentBg : Option Nat
deriving DecidableEq

/-- `struct flanterm_context`, without the functions of the backend. -/
structure FlantermContext where
  cols : Nat
  rows : Nat
  tabSize : Nat
  autoflush : Bool
  cursorEnabled : Bool
  scrollEnabled : Bool
  controlSequence : Bool
  escape : Bool
  osc : Bool
  oscEscape : Bool
  rrr : Bool
  discardNext : Bool
  bold : Bool
  bgBold : Bool
  reverseVideo : Bool
  decPrivate : Bool
  insertMode : Bool
  codePoint : U64
  unicodeRemaining : Nat
  gSelect : Nat
  charsets : Vector Charset 2
  currentCharset : Nat
  escapeOffset : Nat
  escValues : List U32
  escValuesI : Nat
  savedCursorX : Nat
  savedCursorY : Nat
  currentPrimary : Option Nat
  currentBg : Option Nat
  scrollTopMargin : Nat
  scrollBottomMargin : Nat
  onlcr : Bool
  saved : SavedState
deriving DecidableEq

/-- The functions of the backend, with their arguments. -/
inductive BackendFn where
  | rawPutchar (c : U8)
  | clear (move : Bool)
  | setCursorPos (x y : U64)
  | setTextFg (fg : Nat)
  | setTextBg (bg : Nat)
  | setTextFgBright (fg : Nat)
  | setTextBgBright (bg : Nat)
  | setTextFgRgb (fg : U32)
  | setTextBgRgb (bg : U32)
  | setTextFgDefault
  | setTextBgDefault
  | setTextFgDefaultBright
  | setTextBgDefaultBright
  | moveCharacter (newX newY oldX oldY : Nat)
  | scroll
  | revscroll
  | swapPalette
  | saveState
  | restoreState
  | doubleBufferFlush
deriving DecidableEq

/-- A call of the backend. -/
structure BackendCall where
  ctx : FlantermContext
  fn : BackendFn
deriving DecidableEq

/-- A part of `flanterm.c`: the calls that it makes, and the context that it leaves. -/
abbrev Front := Traced BackendCall FlantermContext

namespace Front

def ctx : Front FlantermContext := fun t => ([], some (t, t))

def update (f : FlantermContext → FlantermContext) : Front Unit := fun t => ([], some ((), f t))

def call (fn : BackendFn) : Front Unit := fun t => ([⟨t, fn⟩], some ((), t))

/-- A value that is only there where an access stays within its array. -/
def value {α : Type} (x : Option α) : Front α := fun t => ([], x.map fun a => (a, t))

def whenever (c : Bool) (x : Front Unit) : Front Unit := if c then x else pure ()

/-- `for (size_t i = 0; i < n; i++)` -/
def times (n : Nat) (x : Front Unit) : Front Unit := (List.range n).forM fun _ => x

/-- `for (size_t i = ...; ; i--) { ...; if (i == stop) break; }`, which never ends where it comes to 0 first. -/
def downTo (stop : Nat) (body : Nat → Front Unit) : Nat → Front Unit
  | 0 => do
    body 0
    if stop = 0 then pure () else Traced.fault
  | i + 1 => do
    body (i + 1)
    if i + 1 = stop then pure () else downTo stop body i

end Front

open Front

/-- `size_t` -/
def sizeT (n : Nat) : U64 := BitVec.ofNat 64 n

/-- `flanterm_context_reinit` -/
def flantermContextReinit (t : FlantermContext) : FlantermContext :=
  { t with
    tabSize := 8
    autoflush := true
    cursorEnabled := true
    scrollEnabled := true
    controlSequence := false
    escape := false
    osc := false
    oscEscape := false
    rrr := false
    discardNext := false
    bold := false
    bgBold := false
    reverseVideo := false
    decPrivate := false
    insertMode := false
    unicodeRemaining := 0
    gSelect := 0
    charsets := #v[.default, .decSpecial]
    currentCharset := 0
    escapeOffset := 0
    escValuesI := 0
    savedCursorX := 0
    savedCursorY := 0
    currentPrimary := none
    currentBg := none
    scrollTopMargin := 0
    scrollBottomMargin := t.rows
    onlcr := true }

/-! ## Colours (`sgr`) -/

/-- Value 0, and no value at all -/
def sgrReset : Front Unit := do
  let t ← ctx
  whenever t.reverseVideo do
    update fun t => { t with reverseVideo := false }
    call .swapPalette
  update fun t => { t with bold := false, bgBold := false, currentPrimary := none, currentBg := none }
  call .setTextBgDefault
  call .setTextFgDefault

/-- Values 1 and 22: the text in the colour that is set, bright or not. -/
def sgrBold (bright : Bool) : Front Unit := do
  update fun t => { t with bold := bright }
  let t ← ctx
  call <| match t.currentPrimary, t.reverseVideo, bright with
    | some n, false, true => .setTextFgBright n
    | some n, true, true => .setTextBgBright n
    | none, false, true => .setTextFgDefaultBright
    | none, true, true => .setTextBgDefaultBright
    | some n, false, false => .setTextFg n
    | some n, true, false => .setTextBg n
    | none, false, false => .setTextFgDefault
    | none, true, false => .setTextBgDefault

/-- Values 5 and 25: the background. -/
def sgrBgBold (bright : Bool) : Front Unit := do
  update fun t => { t with bgBold := bright }
  let t ← ctx
  call <| match t.currentBg, t.reverseVideo, bright with
    | some n, false, true => .setTextBgBright n
    | some n, true, true => .setTextFgBright n
    | none, false, true => .setTextBgDefaultBright
    | none, true, true => .setTextFgDefaultBright
    | some n, false, false => .setTextBg n
    | some n, true, false => .setTextFg n
    | none, false, false => .setTextBgDefault
    | none, true, false => .setTextFgDefault

/-- The label `set_fg` -/
def sgrSetFg (n : Nat) : Front Unit := do
  let t ← ctx
  call (if t.bold && !t.reverseVideo || t.bgBold && t.reverseVideo then .setTextFgBright n else .setTextFg n)

/-- The label `set_bg` -/
def sgrSetBg (n : Nat) : Front Unit := do
  let t ← ctx
  call (if t.bold && t.reverseVideo || t.bgBold && !t.reverseVideo then .setTextBgBright n else .setTextBg n)

/-- Values 30 to 37 -/
def sgrPrimary (n : Nat) : Front Unit := do
  update fun t => { t with currentPrimary := some n }
  let t ← ctx
  if t.reverseVideo then sgrSetBg n else sgrSetFg n

/-- Values 40 to 47 -/
def sgrBackground (n : Nat) : Front Unit := do
  update fun t => { t with currentBg := some n }
  let t ← ctx
  if t.reverseVideo then sgrSetFg n else sgrSetBg n

/-- Values 90 to 97 -/
def sgrPrimaryBright (n : Nat) : Front Unit := do
  update fun t => { t with currentPrimary := some n }
  let t ← ctx
  call (if t.reverseVideo then .setTextBgBright n else .setTextFgBright n)

/-- Values 100 to 107 -/
def sgrBackgroundBright (n : Nat) : Front Unit := do
  update fun t => { t with currentBg := some n }
  let t ← ctx
  call (if t.reverseVideo then .setTextFgBright n else .setTextBgBright n)

/-- Value 39 -/
def sgrPrimaryDefault : Front Unit := do
  update fun t => { t with currentPrimary := none }
  let t ← ctx
  whenever t.reverseVideo (call .swapPalette)
  call (if t.bold then .setTextFgDefaultBright else .setTextFgDefault)
  whenever t.reverseVideo (call .swapPalette)

/-- Value 49 -/
def sgrBackgroundDefault : Front Unit := do
  update fun t => { t with currentBg := none }
  let t ← ctx
  whenever t.reverseVideo (call .swapPalette)
  call (if t.bgBold then .setTextBgDefaultBright else .setTextBgDefault)
  whenever t.reverseVideo (call .swapPalette)

/-- Values 7 and 27 -/
def sgrReverse (set : Bool) : Front Unit := do
  let t ← ctx
  whenever (t.reverseVideo != set) do
    update fun t => { t with reverseVideo := set }
    call .swapPalette

/-- The value `v`, other than 38 and 48. -/
def sgrValue (v : Nat) : Front Unit :=
  if v = 0 then sgrReset
  else if v = 1 then sgrBold true
  else if v = 5 then sgrBgBold true
  else if v = 22 then sgrBold false
  else if v = 25 then sgrBgBold false
  else if 30 ≤ v ∧ v ≤ 37 then sgrPrimary (v - 30)
  else if 40 ≤ v ∧ v ≤ 47 then sgrBackground (v - 40)
  else if 90 ≤ v ∧ v ≤ 97 then sgrPrimaryBright (v - 90)
  else if 100 ≤ v ∧ v ≤ 107 then sgrBackgroundBright (v - 100)
  else if v = 39 then sgrPrimaryDefault
  else if v = 49 then sgrBackgroundDefault
  else if v = 7 then sgrReverse true
  else if v = 27 then sgrReverse false
  else pure ()

/-- An RGB colour. -/
def sgrRgb (fg : Bool) (r g b : U32) : Front Unit :=
  let rgb := r <<< 16 ||| g <<< 8 ||| b
  call (if fg then .setTextFgRgb rgb else .setTextBgRgb rgb)

/-- A colour of the 256. -/
def sgr256 (fg : Bool) (col : U32) : Front Unit :=
  if col < 8#32 then call (if fg then .setTextFg col.toNat else .setTextBg col.toNat)
  else if col < 16#32 then
    call (if fg then .setTextFgBright (col - 8#32).toNat else .setTextBgBright (col - 8#32).toNat)
  else if col < 256#32 then do
    let rgb ← value col256[(col - 16#32).toNat]?
    call (if fg then .setTextFgRgb rgb else .setTextBgRgb rgb)
  else pure ()

/-- The loop of `sgr` over the values that are left. -/
def sgrLoop : List U32 → Front Unit
  | [] => pure ()
  | v :: vs =>
    if v = 38#32 ∨ v = 48#32 then
      match vs with
      | [] => pure ()
      | kind :: vs =>
        if kind = 2#32 then
          match vs with
          | r :: g :: b :: vs => do
            sgrRgb (v = 38#32) r g b
            sgrLoop vs
          | _ => pure ()
        else if kind = 5#32 then
          match vs with
          | col :: vs => do
            sgr256 (v = 38#32) col
            sgrLoop vs
          | [] => pure ()
        else sgrLoop vs
    else do
      sgrValue v.toNat
      sgrLoop vs

/-- `sgr` -/
def sgr : Front Unit := do
  let t ← ctx
  if t.escValuesI = 0 then sgrReset else sgrLoop (t.escValues.take t.escValuesI)

/-! ## Control sequences -/

/-- `esc_values[i]` -/
def escValue (i : Nat) : Front Nat := do
  let t ← ctx
  return (← value t.escValues[i]?).toNat

/-- `dec_private_parse` -/
def decPrivateParse (c : U8) : Front Unit := do
  update fun t => { t with decPrivate := false }
  let t ← ctx
  if t.escValuesI ≠ 0 ∧ (c = charByte 'h' ∨ c = charByte 'l') then do
    if (← escValue 0) = 25 then update fun t => { t with cursorEnabled := c = charByte 'h' }
    else pure ()
  else pure ()

/-- `mode_toggle`, where `c` is `'h'` or `'l'` -/
def modeToggle (set : Bool) : Front Unit := do
  let t ← ctx
  if t.escValuesI ≠ 0 then do
    if (← escValue 0) = 4 then update fun t => { t with insertMode := set }
    else pure ()
  else pure ()

/-- `'A'` and `'F'`: up, and not across the margin of the scroll region that lies on the way. -/
def cursorUp (x y : Nat) : Front Unit := do
  let t ← ctx
  let destY := y - min (← escValue 0) y
  let crosses := destY ≤ t.scrollTopMargin ∧ t.scrollTopMargin ≤ y ∨
    destY ≤ t.scrollBottomMargin ∧ t.scrollBottomMargin ≤ y
  let destY := if crosses ∧ destY < t.scrollTopMargin then t.scrollTopMargin else destY
  call (.setCursorPos (sizeT x) (sizeT destY))

/-- `'B'`, `'e'` and `'E'` -/
def cursorDown (x y : Nat) : Front Unit := do
  let t ← ctx
  let v ← escValue 0
  let destY := y + if y + v > t.rows - 1 then t.rows - 1 - y else v
  let crosses := y ≤ t.scrollTopMargin ∧ t.scrollTopMargin ≤ destY ∨
    y ≤ t.scrollBottomMargin ∧ t.scrollBottomMargin ≤ destY
  let destY := if crosses ∧ destY ≥ t.scrollBottomMargin then t.scrollBottomMargin - 1 else destY
  call (.setCursorPos (sizeT x) (sizeT destY))

/-- `'C'` and `'a'` -/
def cursorForward (x y : Nat) : Front Unit := do
  let t ← ctx
  let v ← escValue 0
  let n := if x + v > t.cols - 1 then t.cols - 1 - x else v
  call (.setCursorPos (sizeT (x + n)) (sizeT y))

/-- `'D'` -/
def cursorBack (x y : Nat) : Front Unit := do
  let v ← escValue 0
  call (.setCursorPos (sizeT (x - min v x)) (sizeT y))

/-- `'d'` and `'G'`: a place less than `size` for a value that counts from 1, subtracted with 32 bits. -/
def placeOf (v size : Nat) : Nat :=
  let v := (BitVec.ofNat 32 v - 1#32).toNat
  if v ≥ size then size - 1 else v

def cursorRow (x : Nat) : Front Unit := do
  let t ← ctx
  call (.setCursorPos (sizeT x) (sizeT (placeOf (← escValue 0) t.rows)))

def cursorColumn (y : Nat) : Front Unit := do
  let t ← ctx
  call (.setCursorPos (sizeT (placeOf (← escValue 0) t.cols)) (sizeT y))

/-- `'H'` and `'f'` -/
def cursorPosition : Front Unit := do
  let t ← ctx
  let row := (← escValue 0) - 1
  let col := (← escValue 1) - 1
  let col := if col ≥ t.cols then t.cols - 1 else col
  let row := if row ≥ t.rows then t.rows - 1 else row
  call (.setCursorPos (sizeT col) (sizeT row))

/-- `'M'` -/
def deleteLines : Front Unit := do
  let t ← ctx
  times (min (← escValue 0) t.rows) (call .scroll)

/-- `'L'` -/
def insertLines (y : Nat) : Front Unit := do
  let t ← ctx
  update fun t => { t with scrollTopMargin := y }
  times (min (← escValue 0) t.rows) (call .revscroll)
  update fun t' => { t' with scrollTopMargin := t.scrollTopMargin }

/-- `raw_putchar(' ')` -/
def putBlank : Front Unit := call (.rawPutchar 0x20#8)

/-- `'J'` -/
def eraseDisplay (x y : Nat) : Front Unit := do
  let t ← ctx
  let v ← escValue 0
  if v = 0 then do
    times ((t.rows - (y + 1)) * t.cols + (t.cols - (x + 1)) + 1) putBlank
    call (.setCursorPos (sizeT x) (sizeT y))
  else if v = 1 then do
    call (.setCursorPos 0#64 0#64)
    discard <| (List.range t.rows).allM fun yc => (List.range t.cols).allM fun xc => do
      putBlank
      if xc = x ∧ yc = y then do
        call (.setCursorPos (sizeT x) (sizeT y))
        return false
      else return true
  else if v = 2 ∨ v = 3 then call (.clear false)
  else pure ()

/-- `'@'` -/
def insertCharacters (x y : Nat) : Front Unit := do
  let t ← ctx
  let v ← escValue 0
  downTo x (fun i => do
    call (.moveCharacter (i + v) y i y)
    call (.setCursorPos (sizeT i) (sizeT y))
    putBlank) (t.cols - 1)
  call (.setCursorPos (sizeT x) (sizeT y))

/-- `'X'` -/
def eraseCharacters (x y : Nat) : Front Unit := do
  let t ← ctx
  times (min (← escValue 0) t.cols) putBlank
  call (.setCursorPos (sizeT x) (sizeT y))

/-- `'P'` -/
def deleteCharacters (x y : Nat) : Front Unit := do
  let t ← ctx
  let v ← escValue 0
  (List.range' (x + v) (t.cols - (x + v))).forM fun i => call (.moveCharacter (i - v) y i y)
  call (.setCursorPos (sizeT t.cols - sizeT v) (sizeT y))
  eraseCharacters x y

/-- `'K'` -/
def eraseLine (x y : Nat) : Front Unit := do
  let t ← ctx
  let v ← escValue 0
  if v = 0 then do
    times (t.cols - x) putBlank
    call (.setCursorPos (sizeT x) (sizeT y))
  else if v = 1 then do
    call (.setCursorPos 0#64 (sizeT y))
    times x putBlank
  else if v = 2 then do
    call (.setCursorPos 0#64 (sizeT y))
    times t.cols putBlank
    call (.setCursorPos (sizeT x) (sizeT y))
  else pure ()

/-- `'r'`: the margins, of the whole screen where those that are asked for are not right. -/
def scrollRegion : Front Unit := do
  let first ← escValue 0
  let last ← escValue 1
  update fun t =>
    let top := if t.escValuesI > 0 then (if first = 0 then 1 else first) - 1 else 0
    let bottom := if t.escValuesI > 1 then (if last = 0 then 1 else last) else t.rows
    if top ≥ t.rows ∨ bottom > t.rows ∨ top ≥ bottom - 1 then
      { t with scrollTopMargin := 0, scrollBottomMargin := t.rows }
    else { t with scrollTopMargin := top, scrollBottomMargin := bottom }
  call (.setCursorPos 0#64 0#64)

/-- `'s'` and `'u'` -/
def saveCursor (x y : Nat) : Front Unit := update fun t => { t with savedCursorX := x, savedCursorY := y }

def restoreCursor : Front Unit := do
  let t ← ctx
  call (.setCursorPos (sizeT t.savedCursorX) (sizeT t.savedCursorY))

/-- The cases of the final character, with the cursor at `x` and `y`; the others call at most the callback. -/
def controlCases (x y : Nat) : List (U8 × Front Unit) :=
  [(charByte 'F', cursorUp 0 y), (charByte 'A', cursorUp x y), (charByte 'E', cursorDown 0 y),
    (charByte 'e', cursorDown x y), (charByte 'B', cursorDown x y), (charByte 'a', cursorForward x y),
    (charByte 'C', cursorForward x y), (charByte 'D', cursorBack x y), (charByte 'd', cursorRow x),
    (charByte 'G', cursorColumn y), (0x60#8, cursorColumn y), (charByte 'H', cursorPosition),
    (charByte 'f', cursorPosition), (charByte 'M', deleteLines), (charByte 'L', insertLines y),
    (charByte 'J', eraseDisplay x y), (charByte '@', insertCharacters x y), (charByte 'P', deleteCharacters x y),
    (charByte 'X', eraseCharacters x y), (charByte 'm', sgr), (charByte 's', saveCursor x y),
    (charByte 'u', restoreCursor), (charByte 'K', eraseLine x y), (charByte 'r', scrollRegion),
    (charByte 'l', modeToggle false), (charByte 'h', modeToggle true)]

/-- The label `cleanup` -/
def endSequence : Front Unit := update fun t => { t with controlSequence := false, escape := false }

/-- `esc_default` -/
def escDefault (c : U8) : U32 :=
  if c = charByte 'J' ∨ c = charByte 'K' ∨ c = charByte 'q' then 0#32 else 1#32

/-- `control_sequence_parse` from the final character on. -/
def controlFinal (c : U8) (x y : Nat) : Front Unit := do
  update fun t => if t.rrr then { t with escValuesI := t.escValuesI + 1, rrr := false } else t
  update fun t => { t with
    escValues := t.escValues.take t.escValuesI ++
      List.replicate (t.escValues.length - t.escValuesI) (escDefault c) }
  let t ← ctx
  if t.decPrivate then do
    decPrivateParse c
    endSequence
  else do
    update fun t => { t with scrollEnabled := false }
    ((controlCases x y).lookup c).getD (pure ())
    update fun t' => { t' with scrollEnabled := t.scrollEnabled }
    endSequence

def isDigit (c : U8) : Bool := charByte '0' ≤ c && c ≤ charByte '9'

/-- `esc_values[esc_values_i] = f(esc_values[esc_values_i])` -/
def updateEsc (f : U32 → U32) : Front Unit := do
  let t ← ctx
  let v ← value t.escValues[t.escValuesI]?
  update fun t => { t with escValues := t.escValues.set t.escValuesI (f v) }

/-- `control_sequence_parse` -/
def controlSequenceParse (c : U8) (x y : Nat) : Front Unit := do
  let t ← ctx
  if t.escapeOffset = 2 ∧ c = charByte '[' then do
    update fun t => { t with discardNext := true }
    endSequence
  else if t.escapeOffset = 2 ∧ c = charByte '?' then update fun t => { t with decPrivate := true }
  else if isDigit c then
    if t.escValuesI = t.escValues.length then pure ()
    else do
      update fun t => { t with rrr := true }
      updateEsc fun v => v * 10#32 + (c - charByte '0').setWidth 32
  else if t.rrr ∧ c = charByte ';' then update fun t => { t with escValuesI := t.escValuesI + 1, rrr := false }
  else if c = charByte ';' then
    if t.escValuesI = t.escValues.length then pure ()
    else do
      updateEsc fun _ => 0#32
      update fun t => { t with escValuesI := t.escValuesI + 1 }
  else controlFinal c x y

/-! ## Escape sequences -/

/-- `osc_parse` -/
def oscParse (c : U8) : Front Unit :=
  update fun t =>
    if ¬(t.oscEscape ∧ c = 0x5C#8) ∧ c = 0x1B#8 then { t with oscEscape := true }
    else { t with oscEscape := false, osc := false, escape := false }

/-- `save_state` -/
def saveState : Front Unit := do
  call .saveState
  update fun t => { t with
    saved := ⟨t.bold, t.bgBold, t.reverseVideo, t.currentCharset, t.currentPrimary, t.currentBg⟩ }

/-- `restore_state` -/
def restoreState : Front Unit := do
  update fun t => { t with
    bold := t.saved.bold
    bgBold := t.saved.bgBold
    reverseVideo := t.saved.reverseVideo
    currentCharset := t.saved.currentCharset
    currentPrimary := t.saved.currentPrimary
    currentBg := t.saved.currentBg }
  call .restoreState

/-- A line feed to column `x`, at the row `y`. -/
def lineFeed (x y : Nat) : Front Unit := do
  let t ← ctx
  if y + 1 = t.scrollBottomMargin then do
    call .scroll
    call (.setCursorPos (sizeT x) (sizeT y))
  else call (.setCursorPos (sizeT x) (sizeT (y + 1)))

/-- `'M'` of an escape sequence -/
def reverseLineFeed (y : Nat) : Front Unit := do
  let t ← ctx
  if y = t.scrollTopMargin then do
    call .revscroll
    call (.setCursorPos 0#64 (sizeT y))
  else call (.setCursorPos 0#64 (sizeT y - 1#64))

/-- The cases of a character that ends an escape sequence. -/
def escapeCases (x y : Nat) : List (U8 × Front Unit) :=
  [(charByte '7', saveState), (charByte '8', restoreState),
    (charByte 'c', do
      update flantermContextReinit
      call (.clear true)),
    (charByte 'D', lineFeed x y), (charByte 'E', lineFeed 0 y), (charByte 'M', reverseLineFeed y),
    (charByte '(', update fun t => { t with gSelect := 1 }), (charByte ')', update fun t => { t with gSelect := 2 })]

/-- `escape_parse` -/
def escapeParse (c : U8) (x y : Nat) : Front Unit := do
  update fun t => { t with escapeOffset := t.escapeOffset + 1 }
  let t ← ctx
  if t.osc then oscParse c
  else if t.controlSequence then controlSequenceParse c x y
  else if c = charByte ']' then update fun t => { t with oscEscape := false, osc := true }
  else if c = charByte '[' then
    update fun t => { t with
      escValues := List.replicate t.escValues.length 0#32, escValuesI := 0, rrr := false, controlSequence := true }
  else do
    ((escapeCases x y).lookup c).getD (pure ())
    update fun t => { t with escape := false }

/-! ## Characters -/

/-- The glyph of a character, or a box as wide as the character where there is none. -/
def putCodePoint (codePoint : U64) : Front Unit :=
  match unicodeToCp437 codePoint with
  | some glyph => call (.rawPutchar glyph)
  | none => do
    let width ← value (mkWcwidth (codePoint.setWidth 32))
    whenever (width > 0) (call (.rawPutchar 0xFE#8))
    times (width - 1) putBlank

/-- A byte `10xxxxxx` of a character that is not complete. -/
def unicodeContinue (c : U8) : Front Unit := do
  update fun t => { t with
    unicodeRemaining := t.unicodeRemaining - 1
    codePoint := t.codePoint ||| (c &&& 0x3F#8).setWidth 64 <<< (6 * (t.unicodeRemaining - 1)) }
  let t ← ctx
  if t.unicodeRemaining ≠ 0 then pure () else putCodePoint t.codePoint

/-- The first byte of a character that has more. -/
def unicodeStart (c : U8) : Front Unit :=
  update fun t =>
    if c ≤ 0xDF#8 then { t with unicodeRemaining := 1, codePoint := (c &&& 0x1F#8).setWidth 64 <<< 6 }
    else if c ≤ 0xEF#8 then { t with unicodeRemaining := 2, codePoint := (c &&& 0x0F#8).setWidth 64 <<< 12 }
    else { t with unicodeRemaining := 3, codePoint := (c &&& 0x07#8).setWidth 64 <<< 18 }

/-- `charsets[g_select]` -/
def setCharset (g : Nat) (charset : Charset) : Front Unit := do
  let t ← ctx
  discard (value t.charsets[g]?)
  update fun t => { t with charsets := t.charsets.setIfInBounds g charset }

/-- The character after `ESC (` or `ESC )` -/
def selectCharset (c : U8) : Front Unit := do
  let t ← ctx
  whenever (c = charByte 'B') (setCharset (t.gSelect - 1) .default)
  whenever (c = charByte '0') (setCharset (t.gSelect - 1) .decSpecial)
  update fun t => { t with gSelect := 0 }

/-- `for (size_t i = ctx->cols - 1; ; i--)` of the insert mode -/
def makeRoom (x y : Nat) : Front Unit := do
  let t ← ctx
  whenever t.insertMode (downTo x (fun i => call (.moveCharacter (i + 1) y i y)) (t.cols - 1))

/-- A character of the text. -/
def printChar (c : U8) (x y : Nat) : Front Unit := do
  makeRoom x y
  let t ← ctx
  let charset ← value t.charsets[t.currentCharset]?
  match (if charset = .decSpecial then decSpecialPrint c else none) with
  | some glyph => call (.rawPutchar glyph)
  | none => call (.rawPutchar (if 0x20#8 ≤ c ∧ c ≤ 0x7E#8 then c else 0xFE#8))

/-- A control character, or one of the text. -/
def putControl (c : U8) (x y : Nat) : Front Unit := do
  let t ← ctx
  if c = 0x00#8 ∨ c = 0x7F#8 then pure ()
  else if c = 0x1B#8 then update fun t => { t with escapeOffset := 0, escape := true }
  else if c = 0x09#8 then
    if x / t.tabSize + 1 ≥ t.cols then call (.setCursorPos (sizeT (t.cols - 1)) (sizeT y))
    else call (.setCursorPos (sizeT ((x / t.tabSize + 1) * t.tabSize)) (sizeT y))
  else if c = 0x0B#8 ∨ c = 0x0C#8 ∨ c = 0x0A#8 then lineFeed (if t.onlcr then 0 else x) y
  else if c = 0x08#8 then call (.setCursorPos (sizeT x - 1#64) (sizeT y))
  else if c = 0x0D#8 then call (.setCursorPos 0#64 (sizeT y))
  else if c = 0x07#8 then pure ()
  else if c = 14#8 then update fun t => { t with currentCharset := 1 }
  else if c = 15#8 then update fun t => { t with currentCharset := 0 }
  else printChar c x y

/-- The label `unicode_error`, for a byte that does not belong to a character before it. -/
def putByte (c : U8) (x y : Nat) : Front Unit := do
  update fun t => { t with unicodeRemaining := 0 }
  if 0xC0#8 ≤ c ∧ c ≤ 0xF7#8 then unicodeStart c
  else do
    let t ← ctx
    if t.escape then escapeParse c x y
    else if t.gSelect ≠ 0 then selectCharset c
    else putControl c x y

/-- `flanterm_putchar`, with the cursor at `x` and `y` -/
def putchar (c : U8) (x y : Nat) : Front Unit := do
  let t ← ctx
  if t.discardNext ∨ c = 0x18#8 ∨ c = 0x1A#8 then
    update fun t => { t with
      discardNext := false, escape := false, controlSequence := false, unicodeRemaining := 0, osc := false,
      oscEscape := false, gSelect := 0 }
  else if t.unicodeRemaining ≠ 0 ∧ c &&& 0xC0#8 = 0x80#8 then unicodeContinue c
  else putByte c x y

/-! ## A terminal -/

/-- A backend with states `σ`; a call that leaves an array of the backend has no result. -/
structure Backend (σ : Type) where
  run : FlantermContext → BackendFn → σ → Option σ
  getCursorPos : FlantermContext → σ → Nat × Nat

section Terminal

variable {σ : Type} (B : Backend σ)

/-- The calls of the backend, one after the other. -/
def Backend.runCalls (calls : List BackendCall) (s : σ) : Option σ := calls.foldlM (fun s call => B.run call.ctx call.fn s) s

/-- `flanterm_putchar` -/
def flantermPutchar (c : U8) : StateT (FlantermContext × σ) Option Unit := fun (t, s) => do
  let pos := B.getCursorPos t s
  let (calls, result) := putchar c pos.1 pos.2 t
  let (_, t') ← result
  return ((), (t', ← B.runCalls calls s))

/-- `flanterm_flush` -/
def flantermFlush : StateT (FlantermContext × σ) Option Unit := fun (t, s) => do
  return ((), (t, ← B.run t .doubleBufferFlush s))

/-- `flanterm_write` -/
def Backend.flantermWrite (bytes : List U8) : StateT (FlantermContext × σ) Option Unit := do
  bytes.forM (flantermPutchar B)
  let (t, _) ← get
  if t.autoflush then flantermFlush B else pure ()

end Terminal

end PpoOS
