import PpoOS.Flanterm.Commands

/-!
# A transcript on the screen

A table keeps step with the rows of the text: what is printed goes to the end of the last row, and a
row that comes up from below moves the others by one.
-/

namespace PpoOS

/-- On a screen of `n` columns and `m` rows, `g` shows the end of the text. -/
structure Transcript.Shown (n m : Nat) (tr : Transcript) (g : Grid) : Prop where
  cells : ∀ x < n, ∀ y < m, g.cells (x, y) = tr.cell m g.colours (x, y)
  cursor : (g.pen.cursorX, g.pen.cursorY) = tr.cursor m
  width : tr.row.text.length ≤ n
  style : g.styled tr.style = g

section Rows

variable {n m : Nat} {colours : Palette} {tr : Transcript} {p : Nat × Nat}

theorem Transcript.rows_getD (tr : Transcript) (row : TextRow) (i : Nat) :
    tr.rows.getD i row = if i < tr.done.length then tr.done.getD i row else if i = tr.done.length then tr.row else row := by
  rw [Transcript.rows, List.getD_eq_getElem?_getD, List.getD_eq_getElem?_getD, List.getElem?_append]
  split_ifs with hlt heq
  · rfl
  · rw [heq, Nat.sub_self]
    rfl
  · rw [List.getElem?_eq_none (by simp only [List.length_singleton]; omega)]
    rfl

theorem Transcript.length_rows (tr : Transcript) : tr.rows.length = tr.done.length + 1 := by
  rw [Transcript.rows, List.length_append, List.length_singleton]

/-- The row of the cursor is the last one. -/
theorem Transcript.cell_cursor (tr : Transcript) (hm : 0 < m) {y : Nat} (hy : y = (tr.cursor m).2) (x : Nat) :
    tr.cell m colours (x, y) = tr.row.at x := by
  rw [Transcript.cell, Transcript.length_rows, Transcript.rows_getD]
  rw [Transcript.cursor] at hy
  dsimp only at hy ⊢
  rw [if_neg (by omega), if_pos (by omega)]

/-- The other rows are done, or empty. -/
theorem Transcript.cell_other (tr : Transcript) {y : Nat} (hy : y ≠ (tr.cursor m).2) (x : Nat) :
    tr.cell m colours (x, y) =
      (if tr.done.length + 1 - m + y < tr.done.length then tr.done.getD (tr.done.length + 1 - m + y) ⟨blank colours, []⟩
        else ⟨blank colours, []⟩).at x := by
  rw [Transcript.cell, Transcript.length_rows, Transcript.rows_getD]
  rw [Transcript.cursor] at hy
  dsimp only at hy ⊢
  split_ifs with hlt heq
  · rfl
  · omega
  · rfl

/-- A new row has no text. -/
theorem Transcript.newline_row (tr : Transcript) (x : Nat) : (tr.newline m colours).row.at x =
    if tr.done.length + 1 < m then blank colours else tr.glyph colours 0x20#8 := rfl

/-- The screen after a line feed -/
theorem Transcript.cell_newline (tr : Transcript) (x y : Nat) :
    (tr.newline m colours).cell m colours (x, y) =
      if tr.done.length + 2 - m + y = tr.done.length + 1 then
        if tr.done.length + 1 < m then blank colours else tr.glyph colours 0x20#8
      else (tr.rows.getD (tr.done.length + 2 - m + y) ⟨blank colours, []⟩).at x := by
  have hdone : (tr.newline m colours).done = tr.rows := rfl
  rw [Transcript.cell, Transcript.length_rows, Transcript.rows_getD, hdone, Transcript.length_rows]
  dsimp only
  rcases Nat.lt_trichotomy (tr.done.length + 2 - m + y) (tr.done.length + 1) with hlt | heq | hgt
  · rw [if_pos hlt, if_neg (Nat.ne_of_lt hlt)]
  · rw [if_neg (Nat.not_lt.mpr (Nat.le_of_eq heq.symm)), if_pos heq, if_pos heq]
    exact tr.newline_row x
  · rw [if_neg (Nat.lt_asymm hgt), if_neg (Nat.ne_of_gt hgt), if_neg (Nat.ne_of_gt hgt), List.getD_eq_getElem?_getD,
      List.getElem?_eq_none (by rw [Transcript.length_rows]; exact Nat.le_of_lt hgt), Option.getD_none]

end Rows

/-! ## Line feeds -/

section Step

variable {n m : Nat} {tr : Transcript} {g : Grid}

theorem Transcript.Shown.blank (h : tr.Shown n m g) : g.blank = tr.glyph g.colours 0x20#8 := by
  rw [← h.style]
  rfl

theorem Transcript.Shown.nextRow (h : tr.Shown n m g) (hm : 0 < m) :
    (tr.newline m g.colours).Shown n m (g.nextRow n m) := by
  have hcy : g.pen.cursorY = min tr.done.length (m - 1) := (Prod.mk.inj h.cursor).2
  rw [Grid.nextRow]
  split_ifs with hlast
  · refine ⟨fun x hx y hy => ?_, ?_, Nat.zero_le n, ?_⟩
    · change (if x < n ∧ y < m then if y + 1 < m then g.cells (x, y + 1) else g.blank else g.cells (x, y)) =
        (tr.newline m g.colours).cell m g.colours (x, y)
      rw [if_pos ⟨hx, hy⟩, Transcript.cell_newline]
      rcases Nat.lt_or_ge (y + 1) m with hup | hnew
      · have hindex : tr.done.length + 2 - m + y = tr.done.length + 1 - m + (y + 1) := by omega
        rw [if_pos hup, if_neg (by omega), h.cells x hx (y + 1) hup, Transcript.cell, Transcript.length_rows, hindex]
      · rw [if_neg (Nat.not_lt_of_le hnew), if_pos (by omega), if_neg (by omega)]
        exact h.blank
    · rw [Transcript.cursor]
      change (0, g.pen.cursorY) = (0, min tr.rows.length (m - 1))
      rw [Transcript.length_rows, Prod.mk.injEq]
      omega
    · rw [← h.style]
      rfl
  · refine ⟨fun x hx y hy => ?_, ?_, Nat.zero_le n, ?_⟩
    · change g.cells (x, y) = (tr.newline m g.colours).cell m g.colours (x, y)
      have hroom : tr.done.length + 1 < m := by omega
      have hindex : tr.done.length + 2 - m + y = tr.done.length + 1 - m + y := by omega
      rw [Transcript.cell_newline, h.cells x hx y hy, Transcript.cell, Transcript.length_rows, hindex]
      dsimp only
      split_ifs with hnew
      · rw [hnew, List.getD_eq_getElem?_getD, List.getElem?_eq_none (by rw [Transcript.length_rows]), Option.getD_none]
        rfl
      · rfl
    · rw [Transcript.cursor]
      change (0, g.pen.cursorY + 1) = (0, min tr.rows.length (m - 1))
      rw [Transcript.length_rows, Prod.mk.injEq]
      omega
    · rw [← h.style]
      rfl

/-! ## Characters -/

/-- The last row with one more character -/
def Transcript.push (tr : Transcript) (c : FbChar) : Transcript :=
  { tr with row := { tr.row with text := tr.row.text ++ [c] } }

theorem Transcript.push_row (tr : Transcript) (c : FbChar) (x : Nat) :
    (tr.push c).row.at x = if x = tr.row.text.length then c else tr.row.at x := by
  rw [TextRow.at, TextRow.at, Transcript.push, List.getD_eq_getElem?_getD, List.getD_eq_getElem?_getD]
  dsimp only
  split_ifs with heq
  · rw [heq, List.getElem?_concat_length, Option.getD_some]
  · rcases Nat.lt_or_gt_of_ne heq with hlt | hgt
    · rw [List.getElem?_append_left hlt]
    · rw [List.getElem?_eq_none (by rw [List.length_append]; exact hgt), List.getElem?_eq_none (Nat.le_of_lt hgt)]

theorem Transcript.Shown.push (h : tr.Shown n m g) (hm : 0 < m) (hlt : tr.row.text.length < n) (c : U8) :
    (tr.push (tr.glyph g.colours c)).Shown n m (g.glyph c) := by
  obtain ⟨hcx, hcy⟩ : g.pen.cursorX = tr.row.text.length ∧ g.pen.cursorY = (tr.cursor m).2 := Prod.mk.inj h.cursor
  refine ⟨fun x hx y hy => ?_, ?_, ?_, ?_⟩
  · have hglyph : (⟨c, g.pen.textFg, g.pen.textBg⟩ : FbChar) = tr.glyph g.colours c := by
      rw [← h.style]
      rfl
    change (if (x, y) = (g.pen.cursorX, g.pen.cursorY) then _ else g.cells (x, y)) =
      (tr.push (tr.glyph g.colours c)).cell m g.colours (x, y)
    rw [hglyph, h.cells x hx y hy]
    by_cases hrow : y = (tr.cursor m).2
    · rw [tr.cell_cursor hm hrow, (tr.push (tr.glyph g.colours c)).cell_cursor hm hrow, Transcript.push_row, hcx, hcy, hrow]
      simp only [Prod.mk.injEq, and_true]
    · have hne : (x, y) ≠ (g.pen.cursorX, g.pen.cursorY) := by
        rw [hcy]
        exact fun heq => hrow (Prod.mk.inj heq).2
      rw [if_neg hne, tr.cell_other hrow, (tr.push (tr.glyph g.colours c)).cell_other hrow]
      rfl
  · change (g.pen.cursorX + 1, g.pen.cursorY) = ((tr.row.text ++ [_]).length, (tr.cursor m).2)
    rw [hcx, hcy, List.length_append, List.length_singleton]
  · change (tr.row.text ++ [_]).length ≤ n
    rw [List.length_append, List.length_singleton]
    exact hlt
  · rw [← h.style]
    rfl

/-- A glyph that is printed -/
theorem Transcript.Shown.put (h : tr.Shown n m g) (hm : 0 < m) (hn : 0 < n) (c : U8) :
    (tr.put n m g.colours c).Shown n m (g.type n m c) ∧ (g.type n m c).colours = g.colours ∧
      (tr.put n m g.colours c).style = tr.style := by
  have hcx : g.pen.cursorX = tr.row.text.length := (Prod.mk.inj h.cursor).1
  rw [Grid.type, Transcript.put, hcx]
  by_cases hfull : tr.row.text.length = n
  · have hpush := (h.nextRow hm).push hm hn c
    rw [Grid.nextRow_colours] at hpush
    rw [if_pos hfull, if_pos hfull]
    exact ⟨hpush, g.nextRow_colours n m, rfl⟩
  · rw [if_neg hfull, if_neg hfull]
    exact ⟨h.push hm (Nat.lt_of_le_of_ne h.width hfull) c, rfl, rfl⟩

/-- Glyphs one after the other -/
theorem Transcript.Shown.puts (h : tr.Shown n m g) (hm : 0 < m) (hn : 0 < n) (glyphs : List U8) :
    (glyphs.foldl (fun tr c => tr.put n m g.colours c) tr).Shown n m (glyphs.foldl (fun g c => g.type n m c) g) ∧
      (glyphs.foldl (fun g c => g.type n m c) g).colours = g.colours ∧
      (glyphs.foldl (fun tr c => tr.put n m g.colours c) tr).style = tr.style := by
  induction glyphs generalizing tr g with
  | nil => exact ⟨h, rfl, rfl⟩
  | cons c glyphs ih =>
    obtain ⟨hput, hcolours, hstyle⟩ := h.put hm hn c
    obtain ⟨hshown, hcolours', hstyle'⟩ := ih hput
    rw [hcolours] at hshown hcolours' hstyle'
    exact ⟨hshown, hcolours', hstyle'.trans hstyle⟩

/-! ## Items -/

/-- One item of the text -/
theorem Transcript.Shown.write {k : Nat} (h : tr.Shown n m g) (hm : 0 < m) (hn : 0 < n) (item : TextItem) :
    (tr.write n m g.colours item).Shown n m ((TerminalCommand.text item).exec n m k (g, tr.style)).1 ∧
      ((TerminalCommand.text item).exec n m k (g, tr.style)).2 = (tr.write n m g.colours item).style ∧
      ((TerminalCommand.text item).exec n m k (g, tr.style)).1.colours = g.colours := by
  cases item with
  | char c =>
    obtain ⟨hshown, hcolours, hstyle⟩ := h.puts hm hn (textGlyphs c)
    exact ⟨hshown, hstyle.symm, hcolours⟩
  | newline => exact ⟨h.nextRow hm, rfl, g.nextRow_colours n m⟩
  | style vs => exact ⟨⟨h.cells, h.cursor, h.width, rfl⟩, rfl, rfl⟩

/-- A text on a table -/
theorem Transcript.Shown.text {k : Nat} (h : tr.Shown n m g) (hm : 0 < m) (hn : 0 < n) (items : List TextItem) :
    (items.foldl (fun tr item => tr.write n m g.colours item) tr).Shown n m
        (execAll n m k (items.map .text) (g, tr.style)).1 ∧
      (execAll n m k (items.map .text) (g, tr.style)).1.colours = g.colours := by
  induction items generalizing tr g with
  | nil => exact ⟨h, rfl⟩
  | cons item items ih =>
    obtain ⟨hwrite, hstyle, hcolours⟩ := h.write (k := k) hm hn item
    have hrest := ih hwrite
    rw [hcolours, ← hstyle] at hrest
    exact hrest

end Step

end PpoOS
