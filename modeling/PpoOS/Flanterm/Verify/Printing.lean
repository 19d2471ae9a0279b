import PpoOS.Flanterm.Commands
import PpoOS.Flanterm.Verify.Style
import PpoOS.Flanterm.Verify.Utf8

/-!
# Text on a table

A character, a line feed and `ESC [ ... m` on the table of a terminal whose whole screen scrolls.  A
row that follows a full one is never below the row `cols - 1`, so the screen must not be higher than
it is wide.
-/

namespace PpoOS

open Front

/-- The text has a style, and the cursor is on the screen or behind the last column. -/
structure Grid.Inside (n m : Nat) (st : Style) (g : Grid) : Prop where
  column : g.pen.cursorX ≤ n
  row : g.pen.cursorY < m
  style : g.styled st = g

section Printing

variable {n m k : Nat} {st : Style} {t : FlantermContext} {g : Grid}

/-! ## Bytes -/

/-- A byte on a table -/
theorem Does.byte {c : U8} {t' : FlantermContext} {g' : Grid}
    (h : Draw (putchar c (gridBackend.getCursorPos t g).1 (gridBackend.getCursorPos t g).2) t g t' g') :
    ([c].forM (flantermPutchar gridBackend)).run (t, g) = some ((), t', g') := by
  rw [List.forM_eq_forM, List.forM_cons, List.forM_nil, bind_pure_unit, flantermPutchar_eq, h.front]

/-- A character of the text -/
theorem printChar_eq (ht : t.Ready n m k st) {c : U8} (hc : Printable c) (x y : Nat) :
    printChar c x y t = ([⟨t, .rawPutchar c⟩], some ((), t)) := by
  have hroom : makeRoom x y t = ([], some ((), t)) := by
    change whenever t.insertMode _ t = _
    rw [ht.insertMode]
    rfl
  rw [printChar, Traced.bind_of_some hroom, ctx_bind_apply, ht.charset]
  change (([⟨t, .rawPutchar (if 0x20#8 ≤ c ∧ c ≤ 0x7E#8 then c else 0xFE#8)⟩], some ((), t)) :
    List BackendCall × Option (Unit × FlantermContext)) = _
  rw [if_pos ⟨hc.1, hc.2⟩]

theorem putchar_printable (ht : t.Ready n m k st) {c : U8} (hc : Printable c) (x y : Nat) :
    putchar c x y t = ([⟨t, .rawPutchar c⟩], some ((), t)) := by
  have hne : ∀ d, d < 0x20#8 → c ≠ d := fun d hd => hc.ne hd
  have hdelete : c ≠ 0x7F#8 := by
    rintro rfl
    exact absurd hc.2 (by decide)
  rw [putchar_byte x y ht.text.discardNext ht.text.unicodeRemaining (hne _ (by decide)) (hne _ (by decide))
    hc.not_start, ht.text.escape, if_neg Bool.false_ne_true, if_neg (not_not.mpr ht.text.gSelect), putControl,
    ctx_bind_apply, if_neg (by simp [hne, hdelete]), if_neg (hne _ (by decide)), if_neg (hne _ (by decide)),
    if_neg (by simp [hne]), if_neg (hne _ (by decide)), if_neg (hne _ (by decide)), if_neg (hne _ (by decide)),
    if_neg (hne _ (by decide)), if_neg (hne _ (by decide))]
  exact printChar_eq ht hc x y

theorem putchar_newline (ht : t.Ready n m k st) (x y : Nat) : putchar 0x0A#8 x y t = lineFeed 0 y t := by
  rw [putchar_byte x y ht.text.discardNext ht.text.unicodeRemaining (by decide) (by decide) (by decide), ht.text.escape,
    if_neg Bool.false_ne_true, if_neg (not_not.mpr ht.text.gSelect)]
  change lineFeed (if t.onlcr then 0 else x) y t = _
  rw [if_pos ht.onlcr]

/-- A place that is on the screen -/
theorem clampPos_sizeT {v size : Nat} (hv : v < size) (hsize : size ≤ 2 ^ 64) : clampPos (sizeT v) size = v := by
  have hval : (sizeT v).toNat = v := by
    rw [sizeT, BitVec.toNat_ofNat, Nat.mod_eq_of_lt (Nat.lt_of_lt_of_le hv hsize)]
  rw [clampPos, hval, if_neg (Nat.not_le.mpr hv)]

/-! ## Rows -/

theorem column_lt (hn : 0 < n) : g.column n < n := by
  rw [Grid.column]
  omega

theorem cursor_place (ht : t.Ready n m k st) (hrow : g.pen.cursorY < m) (hcolumn : g.pen.cursorX ≤ n) (hn : 0 < n) :
    gridBackend.getCursorPos t g = (g.column n, g.pen.cursorY) := by
  change flantermFbGetCursorPos t g.pen = _
  rw [flantermFbGetCursorPos, ht.cols, ht.rows, if_neg (Nat.not_le_of_lt hrow), Grid.column]
  split_ifs
  · rw [show min g.pen.cursorX (n - 1) = n - 1 by omega]
  · rw [show min g.pen.cursorX (n - 1) = g.pen.cursorX by omega]

theorem scroll_moveUp (ht : t.Ready n m k st) : g.scroll t = g.moveUp n m := by
  rw [Grid.scroll, Grid.onScreen, ht.cols, ht.rows, ht.top, ht.bottom, Grid.moveUp]
  refine congrArg (Grid.mk g.colours g.pen) (funext fun p => ?_)
  by_cases hin : p.1 < n ∧ p.2 < m
  · rw [if_pos hin, if_pos hin]
    by_cases hlast : p.2 = m - 1
    · rw [if_pos hlast, if_neg (by omega)]
    · rw [if_neg hlast, if_pos (by omega), if_pos (by omega)]
  · rw [if_neg hin, if_neg hin]

theorem Grid.Inside.nextRow (h : g.Inside n m st) : (g.nextRow n m).Inside n m st := by
  have hrow := h.row
  rw [Grid.nextRow]
  split_ifs with hlast
  · exact ⟨Nat.zero_le n, hrow, by rw [← h.style]; rfl⟩
  · exact ⟨Nat.zero_le n, by change g.pen.cursorY + 1 < m; omega, by rw [← h.style]; rfl⟩

theorem Grid.nextRow_column (n m : Nat) (g : Grid) : (g.nextRow n m).pen.cursorX = 0 := by
  rw [Grid.nextRow]
  split_ifs <;> rfl

/-- The row below the cursor -/
theorem lineFeed_draw (ht : t.Ready n m k st) (h : g.Inside n m st) (hn : 0 < n) (hn' : n ≤ 2 ^ 64) (hm' : m ≤ 2 ^ 64) :
    Draw (lineFeed 0 g.pen.cursorY) t g t (g.nextRow n m) := by
  have hrow := h.row
  have hpos : ∀ y < m, flantermFbSetCursorPos t (sizeT 0) (sizeT y) g.pen = { g.pen with cursorX := 0, cursorY := y } := by
    intro y hy
    rw [flantermFbSetCursorPos, ht.cols, ht.rows, clampPos_sizeT hn hn', clampPos_sizeT hy hm']
  refine Does.ctx_bind ?_
  rw [Grid.nextRow, ht.bottom]
  split_ifs with hlast
  · refine Draw.bind (Does.call (congrArg some (scroll_moveUp ht))) ?_
    have hcall : (g.moveUp n m).run t (.setCursorPos (sizeT 0) (sizeT g.pen.cursorY)) =
        some ((g.moveUp n m).moveTo 0 g.pen.cursorY) := congrArg some (congrArg (g.moveUp n m).withPen (hpos _ hrow))
    exact Does.call hcall
  · exact Does.call (congrArg some (congrArg g.withPen (hpos _ (by omega))))

/-! ## Glyphs -/

/-- A full row is followed by the next one. -/
theorem wrapLine_eq (ht : t.Ready n m k st) (h : g.Inside n m st) (hmn : m ≤ n) :
    g.wrapLine t = if g.pen.cursorX = n then g.nextRow n m else g := by
  have hrow := h.row
  have hcolumn := h.column
  rw [Grid.wrapLine, ht.scrollEnabled, ht.cols, ht.bottom, scroll_moveUp ht]
  by_cases hfull : g.pen.cursorX = n
  · rw [if_pos ⟨Nat.le_of_eq hfull.symm, Or.inr rfl⟩, if_pos hfull, Grid.nextRow]
    split_ifs with hlast
    · rw [show min g.pen.cursorY (n - 1) = g.pen.cursorY by omega]
      rfl
    · rw [show min (g.pen.cursorY + 1) (n - 1) = g.pen.cursorY + 1 by omega]
      rfl
  · rw [if_neg (by omega), if_neg hfull]

theorem putGlyph_eq (ht : t.Ready n m k st) (hx : g.pen.cursorX < n) (hy : g.pen.cursorY < m) (c : U8) :
    (g.put t ⟨c, g.pen.textFg, g.pen.textBg⟩ g.pen.cursorX g.pen.cursorY).withPen
      { g.pen with cursorX := g.pen.cursorX + 1 } = g.glyph c := by
  refine congrArg (Grid.mk g.colours { g.pen with cursorX := g.pen.cursorX + 1 }) (funext fun p => ?_)
  change (if p.1 < t.cols ∧ p.2 < t.rows then if p = (g.pen.cursorX, g.pen.cursorY) then _ else g.cells p else g.cells p) =
    if p = (g.pen.cursorX, g.pen.cursorY) then (⟨c, g.pen.textFg, g.pen.textBg⟩ : FbChar) else g.cells p
  rw [ht.cols, ht.rows]
  by_cases hp : p = (g.pen.cursorX, g.pen.cursorY)
  · rw [if_pos (by rw [hp]; exact ⟨hx, hy⟩)]
  · rw [if_neg hp]
    exact ite_self _

theorem rawPutchar_type (ht : t.Ready n m k st) (h : g.Inside n m st) (hmn : m ≤ n) (c : U8) :
    g.rawPutchar t c = g.type n m c := by
  have hrow := h.row
  have hcolumn := h.column
  rw [Grid.rawPutchar, wrapLine_eq ht h hmn, Grid.type]
  by_cases hfull : g.pen.cursorX = n
  · have hnext := h.nextRow
    rw [if_pos hfull, if_pos hfull]
    refine putGlyph_eq ht ?_ hnext.row c
    rw [Grid.nextRow_column]
    omega
  · rw [if_neg hfull, if_neg hfull]
    exact putGlyph_eq ht (by omega) hrow c

theorem Grid.Inside.type (h : g.Inside n m st) (hn : 0 < n) (c : U8) : (g.type n m c).Inside n m st := by
  have hcolumn := h.column
  rw [Grid.type]
  split_ifs with hfull
  · refine ⟨?_, h.nextRow.row, by rw [← h.nextRow.style]; rfl⟩
    change (g.nextRow n m).pen.cursorX + 1 ≤ n
    rw [Grid.nextRow_column]
    exact hn
  · exact ⟨by change g.pen.cursorX + 1 ≤ n; omega, h.row, by rw [← h.style]; rfl⟩

theorem Grid.type_colours (n m : Nat) (g : Grid) (c : U8) : (g.type n m c).colours = g.colours := by
  rw [Grid.type]
  split_ifs
  · exact g.nextRow_colours n m
  · rfl

/-- Glyphs one after the other -/
theorem glyphs_run (ht : t.Ready n m k st) (h : g.Inside n m st) (hmn : m ≤ n) (glyphs : List U8) :
    gridBackend.runCalls (glyphs.map fun glyph => ⟨t, .rawPutchar glyph⟩) g =
        some (glyphs.foldl (fun g c => g.type n m c) g) ∧
      (glyphs.foldl (fun g c => g.type n m c) g).Inside n m st ∧
      (glyphs.foldl (fun g c => g.type n m c) g).colours = g.colours := by
  induction glyphs generalizing g with
  | nil => exact ⟨rfl, h, rfl⟩
  | cons c glyphs ih =>
    obtain ⟨hrun, hinside, hcolours⟩ := ih (h.type (Nat.lt_of_lt_of_le (Nat.zero_lt_of_lt h.row) hmn) c)
    refine ⟨?_, hinside, hcolours.trans (g.type_colours n m c)⟩
    have hfirst : gridBackend.runCalls ((c :: glyphs).map fun glyph => ⟨t, .rawPutchar glyph⟩) g =
        gridBackend.runCalls (glyphs.map fun glyph => ⟨t, .rawPutchar glyph⟩) (g.rawPutchar t c) := rfl
    rw [hfirst, rawPutchar_type ht h hmn]
    exact hrun

/-! ## Items -/

/-- An item of the text -/
theorem item_run (ht : t.Ready n m k st) (h : g.Inside n m st) (hmn : m ≤ n) (hn : n ≤ 2 ^ 64) {item : TextItem}
    (hitem : item.Ok k) :
    ∃ t', (item.bytes.forM (flantermPutchar gridBackend)).run (t, g) =
        some ((), t', ((TerminalCommand.text item).exec n m k (g, st)).1) ∧
      t'.Ready n m k ((TerminalCommand.text item).exec n m k (g, st)).2 ∧
      ((TerminalCommand.text item).exec n m k (g, st)).1.Inside n m ((TerminalCommand.text item).exec n m k (g, st)).2 ∧
      ((TerminalCommand.text item).exec n m k (g, st)).1.colours = g.colours := by
  have hpos : 0 < n := Nat.lt_of_lt_of_le (Nat.zero_lt_of_lt h.row) hmn
  cases item with
  | char c =>
    rw [TextItem.bytes, TerminalCommand.exec, textGlyphs]
    rcases hitem with ⟨hlow, hhigh⟩ | hwide
    · have hbytes : utf8 c = [BitVec.ofNat 8 c.toNat] := by
        rw [utf8, String.utf8EncodeChar, if_pos (show c.val.toNat ≤ 0x7F from Nat.le_succ_of_le hhigh)]
        rfl
      have hprint : Printable (BitVec.ofNat 8 c.toNat) := ⟨by bv_omega, by bv_omega⟩
      rw [hbytes, if_pos (by omega)]
      refine ⟨t, Does.byte ⟨_, putchar_printable ht hprint _ _, ?_⟩, ht, h.type hpos _, g.type_colours n m _⟩
      exact congrArg some (rawPutchar_type ht h hmn _)
    · rw [if_neg (by omega), utf8_run gridBackend ht.text c hwide]
      have ht' : (decoding t 0 c.toNat).Ready n m k st := { ht with
        text := { ht.text with unicodeRemaining := rfl }
        style := congrArg (decoding · 0 c.toNat) ht.style }
      obtain ⟨hrun, hinside, hcolours⟩ := glyphs_run ht' h hmn (charGlyphs c)
      exact ⟨decoding t 0 c.toNat, by rw [hrun]; rfl, ht', hinside, hcolours⟩
  | newline =>
    refine ⟨t, Does.byte ?_, ht, h.nextRow, g.nextRow_colours n m⟩
    obtain ⟨calls, hcalls, hrun⟩ := lineFeed_draw ht h hpos hn (Nat.le_trans hmn hn)
    exact ⟨calls, by rw [cursor_place ht h.row h.column hpos, putchar_newline ht, hcalls], hrun⟩
  | style vs =>
    obtain ⟨t', hrun, ht'⟩ := style_run ht hitem.1 hitem.2 g
    rw [h.style] at hrun
    exact ⟨t', hrun, ht', ⟨h.column, h.row, rfl⟩, rfl⟩

end Printing

end PpoOS
