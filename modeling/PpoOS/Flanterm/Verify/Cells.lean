import Mathlib.Data.Finset.Prod
import PpoOS.Flanterm.Grid
import PpoOS.Lib.Ends
import PpoOS.Lib.TableMove

/-!
# The queue and the table of characters

What the functions of the framebuffer backend do to the queue, seen through it: the loops of
`flanterm_fb_scroll` and `flanterm_fb_revscroll` read each character before they replace it, so they
move whole rows.  `ShowsGrid` relates the backend to a `Grid`; nothing is drawn before a flush.
-/

namespace PpoOS

/-- The places of a screen of `n` columns and `m` rows -/
def places (n m : Nat) : Finset (Nat × Nat) := Finset.range n ×ˢ Finset.range m

theorem mem_places {n m : Nat} {p : Nat × Nat} : p ∈ places n m ↔ p.1 < n ∧ p.2 < m := by
  rw [places, Finset.mem_product, Finset.mem_range, Finset.mem_range]

theorem card_places (n m : Nat) : (places n m).card = m * n := by
  rw [places, Finset.card_product, Finset.card_range, Finset.card_range, Nat.mul_comm]

/-- The elements of two places are two. -/
theorem index_lt {n m x y : Nat} (hx : x < n) (hy : y < m) : y * n + x < m * n := by
  calc y * n + x < y * n + n := by omega
    _ = (y + 1) * n := (Nat.succ_mul y n).symm
    _ ≤ m * n := Nat.mul_le_mul_right n hy

/-- The context of a call. -/
structure Sized (t : FlantermContext) : Prop where
  cols_pos : 0 < t.cols
  top : t.scrollTopMargin < t.rows
  bottom_pos : 0 < t.scrollBottomMargin
  bottom : t.scrollBottomMargin ≤ t.rows

/-- What no function changes before the next flush. -/
structure Drawing where
  screen : FbScreen
  colours : Palette
  grid : Nat × Nat → FbChar
  framebuffer : Nat → U32
  oldCursor : Nat × Nat

def FbContext.drawing (s : FbContext) : Drawing :=
  ⟨s.screen, s.colours, s.buffer.base, s.framebuffer, (s.oldCursorX, s.oldCursorY)⟩

/-- On a screen of `n` columns and `m` rows `s` is `g`, and `d` of it is drawn. -/
structure ShowsGrid (n m : Nat) (d : Drawing) (s : FbContext) (g : Grid) : Prop where
  cells : s.screen.cells = m * n
  ok : s.buffer.Ok (places n m)
  view : s.buffer.view = g.cells
  pen : s.pen = g.pen
  colours : s.colours = g.colours
  drawing : s.drawing = d

section ShowsGrid

variable {d : Drawing} {s : FbContext} {g : Grid} {t : FlantermContext}

theorem Grid.onScreen_eq {f f' : Nat × Nat → FbChar} (hon : ∀ p, p.1 < t.cols → p.2 < t.rows → f p = f' p)
    (hoff : ∀ p, ¬(p.1 < t.cols ∧ p.2 < t.rows) → g.cells p = f' p) : g.onScreen t f = { g with cells := f' } := by
  refine congrArg (Grid.mk g.colours g.pen) (funext fun p => ?_)
  by_cases h : p.1 < t.cols ∧ p.2 < t.rows
  · rw [if_pos h]
    exact hon p h.1 h.2
  · rw [if_neg h]
    exact hoff p h

theorem Grid.put_cells (c : FbChar) {x y : Nat} (hx : x < t.cols) (hy : y < t.rows) :
    g.put t c x y = { g with cells := Function.update g.cells (x, y) c } := by
  refine Grid.onScreen_eq (fun p _ _ => (Function.update_apply ..).symm) fun p hp => ?_
  rw [Function.update_of_ne]
  rintro rfl
  exact hp ⟨hx, hy⟩

theorem Grid.put_off (c : FbChar) {x y : Nat} (h : x ≥ t.cols ∨ y ≥ t.rows) : g.put t c x y = g := by
  refine Grid.onScreen_eq (fun p hx hy => if_neg ?_) fun p _ => rfl
  rintro rfl
  omega

/-- The pen moves over the table. -/
theorem ShowsGrid.withPen {n m : Nat} (h : ShowsGrid n m d s g) (pen : Pen) : ShowsGrid n m d { s with pen } (g.withPen pen) :=
  ⟨h.cells, h.ok, h.view, rfl, h.colours, h.drawing⟩

theorem ShowsGrid.empty {n m : Nat} (h : ShowsGrid n m d s g) : s.empty = g.blank := by
  rw [FbContext.empty, Grid.blank, h.pen]

/-- A character is put in the queue. -/
theorem ShowsGrid.push (h : ShowsGrid t.cols t.rows d s g) (c : FbChar) (x y : Nat) :
    Ends (s.pushToQueue t c x y) (ShowsGrid t.cols t.rows d · (g.put t c x y)) := by
  rw [FbContext.pushToQueue]
  refine Ends.ite (fun hoff => ?_) fun hon => ?_
  · rw [Grid.put_off c hoff]
    exact Ends.pure h
  · have hx : x < t.cols := by omega
    have hy : y < t.rows := by omega
    rw [Grid.put_cells c hx hy, h.cells, if_pos (index_lt hx hy)]
    obtain ⟨b, hb, hok, hbase, hview⟩ := h.ok.push (card_places t.cols t.rows).le
      (mem_places.mpr (show (x, y).1 < t.cols ∧ (x, y).2 < t.rows from ⟨hx, hy⟩)) c
    rw [hb]
    refine Ends.pure ⟨h.cells, hok, by rw [hview, h.view], h.pen, h.colours, ?_⟩
    rw [← h.drawing, FbContext.drawing, hbase]
    rfl

/-- The place of an element -/
def placeAt (n i : Nat) : Nat × Nat := (i % n, i / n)

theorem placeAt_inj {n i j : Nat} (h : placeAt n i = placeAt n j) : i = j := by
  rw [← Nat.div_add_mod i n, ← Nat.div_add_mod j n, (Prod.mk.inj h).1, (Prod.mk.inj h).2]

theorem placeAt_index {n x y : Nat} (hx : x < n) : placeAt n (y * n + x) = (x, y) := by
  rw [placeAt, Nat.mul_comm, Nat.mul_add_mod, Nat.mod_eq_of_lt hx, Nat.mul_add_div (by omega), Nat.div_eq_of_lt hx,
    Nat.add_zero]

theorem placeAt_mem {n m i : Nat} (hn : 0 < n) (h : i < m * n) : i % n < n ∧ i / n < m :=
  ⟨Nat.mod_lt i hn, (Nat.div_lt_iff_lt_mul hn).mpr h⟩

/-- A character is read through the queue. -/
theorem ShowsGrid.charAt (h : ShowsGrid t.cols t.rows d s g) {i : Nat} (hi : i < t.rows * t.cols) :
    s.charAt t i = some (g.cells (placeAt t.cols i)) := by
  rw [FbContext.charAt, h.cells, if_pos hi, h.ok.read, h.view, placeAt]

/-! ## Loops over the places -/

/-- The characters move one after the other. -/
theorem ShowsGrid.move {is : List Nat} {dst : Nat → Nat} (h : ShowsGrid t.cols t.rows d s g) (hn : 0 < t.cols)
    (hsrc : ∀ i ∈ is, i < t.rows * t.cols) (hdst : ∀ i ∈ is, dst i < t.rows * t.cols) :
    Ends (is.foldlM (fun s i => do s.pushToQueue t (← s.charAt t i) (dst i % t.cols) (dst i / t.cols)) s)
      (ShowsGrid t.cols t.rows d ·
        { g with cells := TableMove.move (placeAt t.cols) (fun i => placeAt t.cols (dst i)) is g.cells }) := by
  have hloop : ∀ g : Grid,
      is.foldl (fun g i => g.put t (g.cells (placeAt t.cols i)) (dst i % t.cols) (dst i / t.cols)) g =
        { g with cells := TableMove.move (placeAt t.cols) (fun i => placeAt t.cols (dst i)) is g.cells } := by
    clear hsrc
    induction is with
    | nil => exact fun _ => rfl
    | cons i is ih =>
      intro g
      have hplace := placeAt_mem hn (hdst i List.mem_cons_self)
      rw [List.foldl_cons, Grid.put_cells _ hplace.1 hplace.2, ih fun j hj => hdst j (List.mem_cons_of_mem i hj)]
      rfl
  rw [← hloop]
  refine Ends.foldlM (R := fun s g => ShowsGrid t.cols t.rows d s g) (fun i hi s g h => ?_) h
  rw [h.charAt (hsrc i hi)]
  exact h.push _ _ _

/-- The same character is put at several places. -/
theorem ShowsGrid.fill {is : List Nat} {x y : Nat → Nat} (h : ShowsGrid t.cols t.rows d s g)
    (hon : ∀ i ∈ is, x i < t.cols ∧ y i < t.rows) :
    Ends (is.foldlM (fun s i => s.pushToQueue t s.empty (x i) (y i)) s)
      (ShowsGrid t.cols t.rows d · { g with cells := TableMove.fill (fun i => (x i, y i)) g.blank is g.cells }) := by
  have hloop : ∀ g : Grid, is.foldl (fun g i => g.put t g.blank (x i) (y i)) g =
      { g with cells := TableMove.fill (fun i => (x i, y i)) g.blank is g.cells } := by
    induction is with
    | nil => exact fun _ => rfl
    | cons i is ih =>
      intro g
      have hplace := hon i List.mem_cons_self
      rw [List.foldl_cons, Grid.put_cells _ hplace.1 hplace.2, ih fun j hj => hon j (List.mem_cons_of_mem i hj)]
      rfl
  rw [← hloop]
  refine Ends.foldlM (R := fun s g => ShowsGrid t.cols t.rows d s g) (fun i _ s g h => ?_) h
  rw [h.empty]
  exact h.push _ _ _

/-- A row is cleared. -/
theorem ShowsGrid.clearRow (h : ShowsGrid t.cols t.rows d s g) {y : Nat} (hy : y < t.rows) :
    Ends (s.clearRow t y)
      (ShowsGrid t.cols t.rows d · (g.onScreen t fun p => if p.2 = y then g.blank else g.cells p)) := by
  have hcells : (g.onScreen t fun p => if p.2 = y then g.blank else g.cells p) =
      { g with cells := TableMove.fill (fun i => (i, y)) g.blank (List.range t.cols) g.cells } := by
    have hoff : ∀ p : Nat × Nat, ¬(p.1 < t.cols ∧ p.2 = y) → ∀ i ∈ List.range t.cols, (i, y) ≠ p := by
      rintro p hp i hi rfl
      exact hp ⟨List.mem_range.mp hi, rfl⟩
    refine Grid.onScreen_eq (fun p hx _ => ?_) fun p hp => ?_
    · by_cases hpy : p.2 = y
      · rw [if_pos hpy, TableMove.fill_of_mem ⟨p.1, List.mem_range.mpr hx, by rw [← hpy]⟩]
      · rw [if_neg hpy, TableMove.fill_of_ne (hoff p fun h => hpy h.2)]
    · rw [TableMove.fill_of_ne (hoff p fun h => hp ⟨h.1, h.2 ▸ hy⟩)]
  rw [hcells]
  exact h.fill fun i hi => ⟨List.mem_range.mp hi, hy⟩

/-- A loop that moves the elements of whole rows: the row `back y` to the row `y`, where `Q y`. -/
structure RowLoop (n m : Nat) (is : List Nat) (dst : Nat → Nat) (Q : Nat → Prop) (back : Nat → Nat) : Prop where
  mem : ∀ i, i ∈ is ↔ ∃ x y, x < n ∧ Q y ∧ i = back y * n + x
  lands : ∀ x y, x < n → Q y → dst (back y * n + x) = y * n + x
  distinct : is.Pairwise fun i j => dst i ≠ dst j
  fresh : is.Pairwise fun i j => dst i ≠ j
  inside : ∀ y, Q y → y < m ∧ back y < m

theorem ShowsGrid.moveRows {is : List Nat} {dst : Nat → Nat} {Q : Nat → Prop} [DecidablePred Q] {back : Nat → Nat}
    (h : ShowsGrid t.cols t.rows d s g) (hn : 0 < t.cols) (hloop : RowLoop t.cols t.rows is dst Q back) :
    Ends (is.foldlM (fun s i => do s.pushToQueue t (← s.charAt t i) (dst i % t.cols) (dst i / t.cols)) s)
      (ShowsGrid t.cols t.rows d ·
        (g.onScreen t fun p => if Q p.2 then g.cells (p.1, back p.2) else g.cells p)) := by
  have hcells : (g.onScreen t fun p => if Q p.2 then g.cells (p.1, back p.2) else g.cells p) =
      { g with cells := TableMove.move (placeAt t.cols) (fun i => placeAt t.cols (dst i)) is g.cells } := by
    have hoff : ∀ p : Nat × Nat, (p.1 < t.cols → ¬Q p.2) → ∀ i ∈ is, placeAt t.cols (dst i) ≠ p := by
      rintro p hp i hi rfl
      obtain ⟨x, y, hx, hy, rfl⟩ := (hloop.mem i).mp hi
      rw [hloop.lands x y hx hy, placeAt_index hx] at hp
      exact hp hx hy
    refine Grid.onScreen_eq (fun p hx _ => ?_) fun p hp => ?_
    · by_cases hQ : Q p.2
      · have hmove := TableMove.move_of_mem (placeAt t.cols) (fun i => placeAt t.cols (dst i)) g.cells
          (hloop.distinct.imp fun hne heq => hne (placeAt_inj heq)) (hloop.fresh.imp fun hne heq => hne (placeAt_inj heq))
          ((hloop.mem _).mpr ⟨p.1, p.2, hx, hQ, rfl⟩)
        simp only [hloop.lands p.1 p.2 hx hQ, placeAt_index hx] at hmove
        rw [if_pos hQ, hmove]
      · rw [if_neg hQ, TableMove.move_of_ne (hoff p fun _ => hQ)]
    · rw [TableMove.move_of_ne (hoff p fun hx hQ => hp ⟨hx, (hloop.inside p.2 hQ).1⟩)]
  rw [hcells]
  refine h.move hn (fun i hi => ?_) fun i hi => ?_
  · obtain ⟨x, y, hx, hy, rfl⟩ := (hloop.mem i).mp hi
    exact index_lt hx (hloop.inside y hy).2
  · obtain ⟨x, y, hx, hy, rfl⟩ := (hloop.mem i).mp hi
    rw [hloop.lands x y hx hy]
    exact index_lt hx (hloop.inside y hy).1

/-- Rows are moved, and one is cleared. -/
theorem Grid.clear_moved (t : FlantermContext) (g : Grid) (Q : Nat → Prop) [DecidablePred Q] (back : Nat → Nat)
    (y : Nat) {g' : Grid} (hg' : g' = g.onScreen t fun p => if Q p.2 then g.cells (p.1, back p.2) else g.cells p) :
    (g'.onScreen t fun p => if p.2 = y then g'.blank else g'.cells p) = g.onScreen t fun p =>
      if p.2 = y then g.blank else if Q p.2 then g.cells (p.1, back p.2) else g.cells p := by
  subst hg'
  simp only [Grid.onScreen, Grid.mk.injEq, true_and]
  funext p
  by_cases hon : p.1 < t.cols ∧ p.2 < t.rows
  · simp only [if_pos hon]
    rfl
  · simp only [if_neg hon]

/-! ## The functions of the backend -/

/-- The elements of the rows from `lo` up to `hi` -/
theorem mem_rows {n lo hi i : Nat} (hn : 0 < n) :
    i ∈ List.range' (lo * n) (hi * n - lo * n) ↔ ∃ x y, x < n ∧ (lo ≤ y ∧ y < hi) ∧ i = y * n + x := by
  rw [List.mem_range'_1]
  constructor
  · intro h
    refine ⟨i % n, i / n, Nat.mod_lt i hn, ⟨(Nat.le_div_iff_mul_le hn).mpr h.1, ?_⟩, ?_⟩
    · rw [Nat.div_lt_iff_lt_mul hn]
      omega
    · rw [Nat.mul_comm, Nat.div_add_mod]
  · rintro ⟨x, y, hx, ⟨hlo, hhi⟩, rfl⟩
    have hle := Nat.mul_le_mul_right n hlo
    have hlt := index_lt hx hhi
    omega

/-- `flanterm_fb_scroll` -/
theorem ShowsGrid.scroll (h : ShowsGrid t.cols t.rows d s g) (ht : Sized t) :
    Ends (flantermFbScroll t s) (ShowsGrid t.cols t.rows d · (g.scroll t)) := by
  have hloop : RowLoop t.cols t.rows
      (List.range' ((t.scrollTopMargin + 1) * t.cols) (t.scrollBottomMargin * t.cols - (t.scrollTopMargin + 1) * t.cols))
      (· - t.cols) (fun y => t.scrollTopMargin ≤ y ∧ y + 1 < t.scrollBottomMargin) (· + 1) := by
    have hback : ∀ x y, (y + 1) * t.cols + x - t.cols = y * t.cols + x := by
      intro x y
      rw [Nat.succ_mul]
      omega
    constructor
    · intro i
      rw [mem_rows ht.cols_pos]
      constructor
      · rintro ⟨x, y, hx, hy, rfl⟩
        exact ⟨x, y - 1, hx, by omega, by rw [Nat.sub_add_cancel (by omega)]⟩
      · rintro ⟨x, y, hx, hy, rfl⟩
        exact ⟨x, y + 1, hx, by omega, rfl⟩
    · exact fun x y _ _ => hback x y
    · refine List.Pairwise.imp_of_mem (fun {i j} hi hj hlt => ?_) (List.pairwise_lt_range' 1)
      obtain ⟨x, y, -, hy, rfl⟩ := (mem_rows ht.cols_pos).mp hi
      have hle : t.cols ≤ y * t.cols := Nat.le_mul_of_pos_left _ (by omega)
      omega
    · exact List.Pairwise.imp (fun {i j} hlt => by omega) (List.pairwise_lt_range' 1)
    · intro y hy
      have hbottom := ht.bottom
      constructor <;> omega
  have hrow : t.scrollBottomMargin - 1 < t.rows := by
    have hbottom := ht.bottom
    have hpos := ht.bottom_pos
    omega
  refine (h.moveRows ht.cols_pos hloop).bind fun s' h' => (h'.clearRow hrow).mono fun u hu => ?_
  have hgrid := Grid.clear_moved t g (fun y => t.scrollTopMargin ≤ y ∧ y + 1 < t.scrollBottomMargin) (· + 1)
    (t.scrollBottomMargin - 1) rfl
  rwa [hgrid] at hu

/-- `flanterm_fb_revscroll` -/
theorem ShowsGrid.revscroll (h : ShowsGrid t.cols t.rows d s g) (ht : Sized t) :
    Ends (flantermFbRevscroll t s) (ShowsGrid t.cols t.rows d · (g.revscroll t)) := by
  have hloop : RowLoop t.cols t.rows
      (List.range' (t.scrollTopMargin * t.cols) ((t.scrollBottomMargin - 1) * t.cols - t.scrollTopMargin * t.cols)).reverse
      (· + t.cols) (fun y => t.scrollTopMargin < y ∧ y < t.scrollBottomMargin) (· - 1) := by
    constructor
    · intro i
      rw [List.mem_reverse, mem_rows ht.cols_pos]
      constructor
      · rintro ⟨x, y, hx, hy, rfl⟩
        exact ⟨x, y + 1, hx, by omega, rfl⟩
      · rintro ⟨x, y, hx, hy, rfl⟩
        exact ⟨x, y - 1, hx, by omega, rfl⟩
    · intro x y _ hy
      have hmul : y * t.cols = (y - 1) * t.cols + t.cols := by
        rw [← Nat.succ_mul, Nat.succ_eq_add_one, Nat.sub_add_cancel (by omega)]
      omega
    · refine List.pairwise_reverse.mpr ?_
      exact List.Pairwise.imp (fun {i j} hlt => by omega) (List.pairwise_lt_range' 1)
    · refine List.pairwise_reverse.mpr ?_
      exact List.Pairwise.imp (fun {i j} hlt => by omega) (List.pairwise_lt_range' 1)
    · intro y hy
      have hbottom := ht.bottom
      constructor <;> omega
  refine (h.moveRows ht.cols_pos hloop).bind fun s' h' => (h'.clearRow ht.top).mono fun u hu => ?_
  have hgrid := Grid.clear_moved t g (fun y => t.scrollTopMargin < y ∧ y < t.scrollBottomMargin) (· - 1)
    t.scrollTopMargin rfl
  rwa [hgrid] at hu

/-- `flanterm_fb_clear` -/
theorem ShowsGrid.clear (h : ShowsGrid t.cols t.rows d s g) (hn : 0 < t.cols) (move : Bool) :
    Ends (flantermFbClear t move s) (ShowsGrid t.cols t.rows d · (g.clear t move)) := by
  have hcells : (g.onScreen t fun _ => g.blank) =
      { g with cells := TableMove.fill (placeAt t.cols) g.blank (List.range (t.rows * t.cols)) g.cells } := by
    refine Grid.onScreen_eq (fun p hx hy => ?_) fun p hp => ?_
    · rw [TableMove.fill_of_mem ⟨p.2 * t.cols + p.1, List.mem_range.mpr (index_lt hx hy), placeAt_index hx⟩]
    · rw [TableMove.fill_of_ne]
      rintro i hi rfl
      exact hp (placeAt_mem hn (List.mem_range.mp hi))
  refine (h.fill fun i hi => placeAt_mem hn (List.mem_range.mp hi)).bind fun s' h' => Ends.pure ?_
  rw [Grid.clear, hcells]
  cases move with
  | false => exact h'
  | true =>
    dsimp only
    rw [if_pos rfl, if_pos rfl, h'.pen]
    exact h'.withPen _

/-- `flanterm_fb_move_character` -/
theorem ShowsGrid.moveCharacter (h : ShowsGrid t.cols t.rows d s g) (newX newY oldX oldY : Nat) :
    Ends (flantermFbMoveCharacter t newX newY oldX oldY s)
      (ShowsGrid t.cols t.rows d · (g.moveCharacter t newX newY oldX oldY)) := by
  rw [flantermFbMoveCharacter, Grid.moveCharacter]
  by_cases hold : oldX < t.cols ∧ oldY < t.rows
  · rw [if_pos hold]
    refine Ends.ite (fun hoff => ?_) fun hon => ?_
    · rw [Grid.put_off _ (by omega)]
      exact Ends.pure h
    · have hchar := h.charAt (index_lt hold.1 hold.2)
      rw [placeAt_index hold.1, Nat.add_comm] at hchar
      rw [hchar]
      exact h.push _ _ _
  · rw [if_neg hold, if_pos (by omega)]
    exact Ends.pure h

theorem ShowsGrid.wrapLine (h : ShowsGrid t.cols t.rows d s g) (ht : Sized t) :
    Ends (PpoOS.wrapLine t s) (ShowsGrid t.cols t.rows d · (g.wrapLine t)) := by
  have hclamp : ∀ {s : FbContext} {g : Grid}, ShowsGrid t.cols t.rows d s g → g.pen.cursorX = 0 →
      ShowsGrid t.cols t.rows d
        (if s.pen.cursorY ≥ t.cols then { s with pen := { s.pen with cursorY := t.cols - 1 } } else s)
        (g.withPen { g.pen with cursorX := 0, cursorY := min g.pen.cursorY (t.cols - 1) }) := by
    intro s g h hx
    have hpos := ht.cols_pos
    by_cases hy : s.pen.cursorY ≥ t.cols
    · have hmin : min g.pen.cursorY (t.cols - 1) = t.cols - 1 := by
        rw [h.pen] at hy
        omega
      rw [if_pos hy, hmin, ← hx, h.pen]
      exact h.withPen _
    · have hmin : min g.pen.cursorY (t.cols - 1) = g.pen.cursorY := by
        rw [h.pen] at hy
        omega
      rw [if_neg hy, hmin, ← hx]
      exact h
  rw [PpoOS.wrapLine, Grid.wrapLine, h.pen]
  refine Ends.ite (fun hright => ?_) fun hin => ?_
  · rw [if_pos hright]
    by_cases hbottom : g.pen.cursorY + 1 = t.scrollBottomMargin
    · rw [if_pos hbottom]
      dsimp only
      rw [if_pos hbottom]
      refine ((h.withPen _).scroll ht).bind fun s' h' => Ends.pure ?_
      have hshows := hclamp h' rfl
      exact hshows
    · rw [if_neg hbottom]
      dsimp only
      rw [if_neg hbottom]
      exact Ends.pure (hclamp (h.withPen { g.pen with cursorX := 0, cursorY := g.pen.cursorY + 1 }) rfl)
  · rw [if_neg hin]
    exact Ends.pure h

/-- `flanterm_fb_raw_putchar` -/
theorem ShowsGrid.rawPutchar (h : ShowsGrid t.cols t.rows d s g) (ht : Sized t) (c : U8) :
    Ends (flantermFbRawPutchar t c s) (ShowsGrid t.cols t.rows d · (g.rawPutchar t c)) := by
  refine (h.wrapLine ht).bind fun s' h' => ?_
  rw [h'.pen]
  refine (h'.push _ _ _).bind fun u hu => Ends.pure ?_
  rw [hu.pen]
  exact hu.withPen _

end ShowsGrid

end PpoOS
