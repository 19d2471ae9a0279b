import PpoOS.Flanterm.Verify.Printing

/-!
# Control sequences on a table

A control sequence that erases prints spaces, and as nothing scrolls meanwhile the spaces go from
place to place in the order of reading (`Blanked.step`).  One that makes room moves a character, or a
row, at a time.  What each of them does to the table is said in one go: `move_run`, `erase_run` and
`edit_run`.
-/

namespace PpoOS

open Front

/-! ## Loops -/

section Loops

variable {t : FlantermContext} {g g' : Grid} {P : Nat → Grid → Prop}

/-- A loop goes on after some rounds. -/
theorem Does.allM_range' {body : Nat → Front Bool} (s len : Nat)
    (hstep : ∀ i g, s ≤ i → i < s + len → P i g → ∃ g', Does (body i) t g true t g' ∧ P (i + 1) g') (hg : P s g) :
    ∃ g', P (s + len) g' ∧ ∀ {rest : List Nat} {b : Bool} {u : FlantermContext} {g'' : Grid},
      Does (rest.allM body) t g' b u g'' → Does ((List.range' s len ++ rest).allM body) t g b u g'' := by
  induction len generalizing s g with
  | zero => exact ⟨g, hg, id⟩
  | succ len ih =>
    obtain ⟨g₁, hbody, hg₁⟩ := hstep s g (Nat.le_refl s) (by omega) hg
    obtain ⟨g₂, hg₂, hrest⟩ := ih (s + 1) (fun i g hi hlt => hstep i g (by omega) (by omega)) hg₁
    refine ⟨g₂, ?_, fun h => ?_⟩
    · rwa [show s + (len + 1) = s + 1 + len by omega]
    · rw [List.range'_succ, List.cons_append, List.allM_cons]
      exact Does.bind hbody (hrest h)

theorem Does.forM_range' {body : Nat → Front Unit} (s len : Nat)
    (hstep : ∀ i g, s ≤ i → i < s + len → P i g → ∃ g', Draw (body i) t g t g' ∧ P (i + 1) g') (hg : P s g) :
    ∃ g', Draw ((List.range' s len).forM body) t g t g' ∧ P (s + len) g' := by
  induction len generalizing s g with
  | zero => exact ⟨g, Does.pure () t g, hg⟩
  | succ len ih =>
    obtain ⟨g₁, hbody, hg₁⟩ := hstep s g (Nat.le_refl s) (by omega) hg
    obtain ⟨g₂, hrest, hg₂⟩ := ih (s + 1) (fun i g hi hlt => hstep i g (by omega) (by omega)) hg₁
    refine ⟨g₂, ?_, ?_⟩
    · rw [List.range'_succ, List.forM_eq_forM, List.forM_cons]
      exact Draw.bind hbody hrest
    · rwa [show s + (len + 1) = s + 1 + len by omega]

theorem Does.times {x : Front Unit} (len : Nat)
    (hstep : ∀ i g, i < len → P i g → ∃ g', Draw x t g t g' ∧ P (i + 1) g') (hg : P 0 g) :
    ∃ g', Draw (times len x) t g t g' ∧ P len g' := by
  rw [Front.times, List.range_eq_range']
  have hloop := Does.forM_range' 0 len (fun i g _ hi => hstep i g (by omega)) hg
  rwa [Nat.zero_add] at hloop

/-- A loop that counts down -/
theorem Does.downTo (stop start : Nat) (body : Nat → Front Unit) (hstart : stop ≤ start)
    (hstep : ∀ i g, stop ≤ i → i ≤ start → P (i + 1) g → ∃ g', Draw (body i) t g t g' ∧ P i g') (hg : P (start + 1) g) :
    ∃ g', Draw (downTo stop body start) t g t g' ∧ P stop g' := by
  induction start generalizing g with
  | zero =>
    have hzero : stop = 0 := by omega
    subst hzero
    obtain ⟨g₁, hbody, hg₁⟩ := hstep 0 g (Nat.le_refl 0) (Nat.le_refl 0) hg
    exact ⟨g₁, Draw.bind hbody (Does.pure () t g₁), hg₁⟩
  | succ start ih =>
    obtain ⟨g₁, hbody, hg₁⟩ := hstep (start + 1) g hstart (Nat.le_refl _) hg
    rw [Front.downTo]
    by_cases hlast : start + 1 = stop
    · subst hlast
      refine ⟨g₁, Draw.bind hbody ?_, hg₁⟩
      rw [if_pos rfl]
      exact Does.pure () t g₁
    · obtain ⟨g₂, hrest, hg₂⟩ := ih (by omega) (fun i g hi hle => hstep i g hi (by omega)) hg₁
      refine ⟨g₂, Draw.bind hbody ?_, hg₂⟩
      rw [if_neg hlast]
      exact hrest

end Loops

/-! ## Values and the cursor -/

section Editing

variable {n m k : Nat} {st : Style} {c : U8} {values : List U32} {t : FlantermContext} {g g' : Grid}

/-- A value that has been given, or the default -/
theorem escValue_does (ht : t.escValues = values ++ List.replicate (k - values.length) (escDefault c))
    (hfit : values.length ≤ k) {i : Nat} (hi : i < k) (g : Grid) :
    Does (escValue i) t g (values.getD i (escDefault c)).toNat t g := by
  have hvalue : t.escValues[i]? = some (values.getD i (escDefault c)) := by
    rw [ht, List.getD_eq_getElem?_getD]
    by_cases hgiven : i < values.length
    · rw [List.getElem?_append_left hgiven, List.getElem?_eq_getElem hgiven]
      rfl
    · rw [List.getElem?_append_right (by omega), List.getElem?_replicate, if_pos (by omega),
        List.getElem?_eq_none (by omega)]
      rfl
  refine ⟨[], ?_, rfl⟩
  change Traced.andThen ([], t.escValues[i]?.map fun a => (a, t)) _ = _
  rw [hvalue]
  rfl

theorem Does.escValue_bind (ht : t.escValues = values ++ List.replicate (k - values.length) (escDefault c))
    (hfit : values.length ≤ k) {i : Nat} (hi : i < k) {f : Nat → Front Unit} {t' : FlantermContext}
    (h : Draw (f (values.getD i (escDefault c)).toNat) t g t' g') : Draw (escValue i >>= f) t g t' g' :=
  Does.bind (escValue_does ht hfit hi g) h

/-- The cursor is put to a place of the screen. -/
theorem setCursorPos_draw (ht : t.Editing n m k st c values) (hmn : m ≤ n) (hn : n ≤ 2 ^ 64) {x y : Nat} (hx : x < n)
    (hy : y < m) (g : Grid) : Draw (call (.setCursorPos (sizeT x) (sizeT y))) t g t (g.moveTo x y) := by
  refine Does.pen rfl (congrArg some ?_)
  rw [flantermFbSetCursorPos, ht.cols, ht.rows, clampPos_sizeT hx hn, clampPos_sizeT hy (Nat.le_trans hmn hn)]

/-- The screen has a column for the cursor. -/
theorem column_inside (hmn : m ≤ n) (hy : g.pen.cursorY < m) : g.column n < n :=
  column_lt (Nat.lt_of_lt_of_le (Nat.zero_lt_of_lt hy) hmn)

end Editing

/-! ## Spaces -/

section Blanks

variable {n m k : Nat} {st : Style} {c : U8} {values : List U32} {t : FlantermContext} {g g' : Grid} {i j : Nat}

/-- Spaces have been printed on `j` places from the `i`-th one on. -/
structure Blanked (n m i j : Nat) (g g' : Grid) : Prop where
  colours : g'.colours = g.colours
  cells : g'.cells = (g.erase n m (i, j)).cells
  pen : g'.pen = { g.pen with cursorX := g'.pen.cursorX, cursorY := g'.pen.cursorY }
  cursor : g'.pen.cursorY * n + g'.pen.cursorX = i + j
  row : g'.pen.cursorY < m
  column : g'.pen.cursorX ≤ n ∨ g'.pen.cursorY = m - 1

/-- Before the first one -/
theorem Blanked.start (g : Grid) {x y : Nat} (hx : x ≤ n) (hy : y < m) : Blanked n m (y * n + x) 0 g (g.moveTo x y) := by
  refine ⟨rfl, ?_, rfl, rfl, hy, Or.inl hx⟩
  funext p
  exact (if_neg (by omega)).symm

/-- Where the cursor is -/
theorem Blanked.here (hx : g.pen.cursorX ≤ n) (hy : g.pen.cursorY < m) :
    Blanked n m (g.pen.cursorY * n + g.pen.cursorX) 0 g g := Blanked.start g hx hy

/-- The cursor leaves the last of them. -/
theorem Blanked.moveTo (h : Blanked n m i j g g') (x y : Nat) : g'.moveTo x y = (g.erase n m (i, j)).moveTo x y := by
  obtain ⟨colours, pen, cells⟩ := g'
  obtain ⟨hcolours, hcells, hpen, -, -, -⟩ := h
  cases hcolours
  cases hcells
  dsimp only at hpen
  rw [Grid.moveTo, Grid.withPen]
  dsimp only
  rw [hpen]
  rfl

theorem place_inj {p q : Nat × Nat} (hp : p.1 < n) (hq : q.1 < n) (h : p.2 * n + p.1 = q.2 * n + q.1) : p = q := by
  have hplace := congrArg (placeAt n) h
  rwa [placeAt_index hp, placeAt_index hq] at hplace

/-- In the row of the first place the cursor is behind the last one. -/
theorem Blanked.cursor_eq {x y : Nat} (hpos : 0 < x) (hx : x < n) (hy : y < m) (h : Blanked n m (y * n) x g g') :
    (g'.pen.cursorX, g'.pen.cursorY) = (x, y) := by
  have hcursor := h.cursor
  by_cases hin : g'.pen.cursorX < n
  · exact place_inj (p := (g'.pen.cursorX, g'.pen.cursorY)) (q := (x, y)) hin hx hcursor
  · rcases h.column with hend | hlast
    · have hnext : (g'.pen.cursorY + 1) * n + 0 = y * n + x := by
        rw [Nat.succ_mul]
        omega
      have hplace := place_inj (p := (0, g'.pen.cursorY + 1)) (q := (x, y)) (Nat.zero_lt_of_lt hx) hx hnext
      exact absurd (congrArg Prod.fst hplace) (Nat.ne_of_lt hpos)
    · have hlt := index_lt hx hy
      have hrow : m = g'.pen.cursorY + 1 := by omega
      rw [← hcursor, hrow, Nat.succ_mul] at hlt
      omega

/-- The places of the screen are told apart by their numbers, also from the place behind the last row. -/
theorem place_iff {cx cy number : Nat} (hnumber : cy * n + cx = number) (hcolumn : cx < n ∨ cy = m - 1) {p : Nat × Nat}
    (hin : p.1 < n ∧ p.2 < m) : p = (cx, cy) ↔ p.2 * n + p.1 = number := by
  constructor
  · rintro rfl
    exact hnumber
  · intro heq
    rcases Nat.lt_or_ge cx n with hlt | hge
    · exact place_inj (q := (cx, cy)) hin.1 hlt (heq.trans hnumber.symm)
    · -- the number is behind the last place
      have hlt := index_lt hin.1 hin.2
      have hlast : cy + 1 = m := by omega
      rw [heq, ← hlast, Nat.succ_mul] at hlt
      omega

/-- Where the next space goes -/
theorem Blanked.next (ht : t.Editing n m k st c values) (hmn : m ≤ n) (h : Blanked n m i j g g') : ∃ cx cy,
    g'.wrapLine t = g'.moveTo cx cy ∧ cy * n + cx = i + j ∧ cy < m ∧ (cx < n ∨ cy = m - 1) := by
  have hrow := h.row
  have hcolumn := h.column
  have hcursor := h.cursor
  rw [Grid.wrapLine, ht.cols, ht.bottom, ht.scrollEnabled]
  by_cases hover : g'.pen.cursorX ≥ n ∧ g'.pen.cursorY < m - 1
  · refine ⟨0, g'.pen.cursorY + 1, ?_, ?_, by omega, by omega⟩
    · rw [if_pos ⟨hover.1, Or.inl hover.2⟩, if_neg (by omega),
        show min (g'.pen.cursorY + 1) (n - 1) = g'.pen.cursorY + 1 by omega]
      rfl
    · rw [Nat.succ_mul]
      omega
  · refine ⟨g'.pen.cursorX, g'.pen.cursorY, ?_, hcursor, hrow, by omega⟩
    rw [if_neg fun hc => hover ⟨hc.1, hc.2.resolve_right Bool.false_ne_true⟩]
    rfl

/-- One more place is erased. -/
theorem erase_succ {cx cy : Nat} (hnumber : cy * n + cx = i + j) (hcolumn : cx < n ∨ cy = m - 1) (p : Nat × Nat) :
    (if p.1 < n ∧ p.2 < m then if p = (cx, cy) then g.blank else (g.erase n m (i, j)).cells p
      else (g.erase n m (i, j)).cells p) = (g.erase n m (i, j + 1)).cells p := by
  dsimp only [Grid.erase]
  by_cases hin : p.1 < n ∧ p.2 < m
  · have hiff := place_iff hnumber hcolumn hin
    rw [if_pos hin]
    by_cases hp : p = (cx, cy)
    · have hat := hiff.mp hp
      rw [if_pos hp, if_pos ⟨hin, by omega⟩]
    · have hne := mt hiff.mpr hp
      rw [if_neg hp]
      exact if_congr (by omega) rfl rfl
  · rw [if_neg hin, if_neg fun hp => hin hp.1, if_neg fun hp => hin hp.1]

/-- One more space -/
theorem Blanked.step (ht : t.Editing n m k st c values) (hmn : m ≤ n) (h : Blanked n m i j g g') :
    Blanked n m i (j + 1) g (g'.rawPutchar t 0x20#8) := by
  obtain ⟨cx, cy, hwrap, hnumber, hrow, hcolumn⟩ := h.next ht hmn
  have hblank : (⟨0x20#8, g'.pen.textFg, g'.pen.textBg⟩ : FbChar) = g.blank := by
    rw [h.pen]
    rfl
  rw [Grid.rawPutchar, hwrap]
  refine ⟨h.colours, ?_, ?_, ?_, hrow, ?_⟩
  · funext p
    change (if p.1 < t.cols ∧ p.2 < t.rows then
      if p = (cx, cy) then (⟨0x20#8, g'.pen.textFg, g'.pen.textBg⟩ : FbChar) else g'.cells p else g'.cells p) = _
    rw [ht.cols, ht.rows, hblank, h.cells]
    exact erase_succ hnumber hcolumn p
  · change { g'.pen with cursorX := cx + 1, cursorY := cy } = _
    rw [h.pen]
    rfl
  · change cy * n + (cx + 1) = i + (j + 1)
    omega
  · change cx + 1 ≤ n ∨ cy = m - 1
    omega

theorem putBlank_draw (ht : t.Editing n m k st c values) (hmn : m ≤ n) (h : Blanked n m i j g g') :
    ∃ g'', Draw putBlank t g' t g'' ∧ Blanked n m i (j + 1) g g'' :=
  ⟨g'.rawPutchar t 0x20#8, Does.call rfl, h.step ht hmn⟩

/-- A run of spaces -/
theorem putBlanks_draw (ht : t.Editing n m k st c values) (hmn : m ≤ n) (h : Blanked n m i 0 g g') (j : Nat) :
    ∃ g'', Draw (times j putBlank) t g' t g'' ∧ Blanked n m i j g g'' :=
  Does.times (P := fun j g' => Blanked n m i j g g') j (fun _ _ _ h => putBlank_draw ht hmn h) h

end Blanks

/-! ## Erasing -/

theorem range_split {a n : Nat} (h : a < n) :
    List.range n = List.range' 0 a ++ a :: List.range' (a + 1) (n - (a + 1)) := by
  have happend := List.range'_append_1 (s := 0) (m := a) (n := n - a)
  rw [Nat.zero_add, Nat.add_sub_cancel' (Nat.le_of_lt h)] at happend
  rw [← List.range'_succ, List.range_eq_range', show n - (a + 1) + 1 = n - a by omega, happend]

/-- A place before that of the cursor, or this one -/
def eraseUpTo (x y yc xc : Nat) : Front Bool := do
  putBlank
  if xc = x ∧ yc = y then do
    call (.setCursorPos (sizeT x) (sizeT y))
    return false
  else return true

section Erase

variable {n m k : Nat} {st : Style} {c : U8} {values : List U32} {t : FlantermContext} {g g' : Grid} {x y i : Nat}
  (ht : t.Editing n m k st c values) (hfit : values.length ≤ k) (hk : 0 < k) (hmn : m ≤ n) (hn : n ≤ 2 ^ 64)

include ht hmn

theorem eraseUpTo_before {yc xc : Nat} (hne : xc = x → yc ≠ y) {j : Nat} (h : Blanked n m 0 j g g') :
    ∃ g'', Does (eraseUpTo x y yc xc) t g' true t g'' ∧ Blanked n m 0 (j + 1) g g'' := by
  obtain ⟨g'', hrun, hblanked⟩ := putBlank_draw ht hmn h
  refine ⟨g'', Draw.bind hrun ?_, hblanked⟩
  rw [if_neg fun h => hne h.1 h.2]
  exact Does.pure true t g''

theorem eraseUpTo_row {yc : Nat} (hne : yc ≠ y) (h : Blanked n m 0 (yc * n) g g') :
    ∃ g'', Does ((List.range n).allM (eraseUpTo x y yc)) t g' true t g'' ∧ Blanked n m 0 ((yc + 1) * n) g g'' := by
  obtain ⟨g'', hblanked, hrun⟩ := Does.allM_range' (P := fun xc g' => Blanked n m 0 (yc * n + xc) g g') 0 n
    (fun xc g' _ _ h => eraseUpTo_before ht hmn (fun _ => hne) h) h
  refine ⟨g'', ?_, ?_⟩
  · have hall : Does ((List.range' 0 n ++ []).allM (eraseUpTo x y yc)) t g' true t g'' := hrun (Does.pure true t g'')
    rwa [List.append_nil, ← List.range_eq_range'] at hall
  · rw [Nat.succ_mul]
    rwa [Nat.zero_add] at hblanked

include hn

/-- Spaces, and then the cursor goes to a place -/
theorem spaces_draw (hx : x < n) (hy : y < m) (h : Blanked n m i 0 g g') (j : Nat) :
    Draw (do
      times j putBlank
      call (.setCursorPos (sizeT x) (sizeT y))) t g' t ((g.erase n m (i, j)).moveTo x y) := by
  obtain ⟨g'', hrun, hblanked⟩ := putBlanks_draw ht hmn h j
  rw [← hblanked.moveTo]
  exact Draw.bind hrun (setCursorPos_draw ht hmn hn hx hy g'')

theorem eraseUpTo_last (hx : x < n) (hy : y < m) (h : Blanked n m 0 (y * n) g g') :
    Does ((List.range n).allM (eraseUpTo x y y)) t g' false t ((g.erase n m (0, y * n + x + 1)).moveTo x y) := by
  have hstep : ∀ xc g', 0 ≤ xc → xc < 0 + x → Blanked n m 0 (y * n + xc) g g' →
      ∃ g'', Does (eraseUpTo x y y xc) t g' true t g'' ∧ Blanked n m 0 (y * n + (xc + 1)) g g'' :=
    fun xc g' _ hlt h => eraseUpTo_before ht hmn (fun heq => absurd heq (by omega)) h
  obtain ⟨g₁, hblanked, hrun⟩ := Does.allM_range' (P := fun xc g' => Blanked n m 0 (y * n + xc) g g') 0 _ hstep h
  rw [Nat.zero_add] at hblanked
  obtain ⟨g₂, hput, hblanked₂⟩ := putBlank_draw ht hmn hblanked
  have hback := setCursorPos_draw ht hmn hn hx hy g₂
  rw [hblanked₂.moveTo, Nat.add_assoc] at hback
  rw [range_split hx]
  refine hrun ?_
  rw [List.allM_cons]
  refine Does.bind (a := false) (Draw.bind hput ?_) (Does.pure false t _)
  rw [if_pos ⟨rfl, rfl⟩]
  exact Draw.bind hback (Does.pure false t _)

/-- The rows above the cursor, and its own row up to the cursor -/
theorem eraseUpTo_draw (hx : x < n) (hy : y < m) : Draw (do
    call (.setCursorPos 0#64 0#64)
    discard <| (List.range m).allM fun yc => (List.range n).allM fun xc => eraseUpTo x y yc xc)
      t g t ((g.erase n m (0, y * n + x + 1)).moveTo x y) := by
  have hcall := setCursorPos_draw ht hmn hn (Nat.zero_lt_of_lt hx) (Nat.zero_lt_of_lt hy) g
  have hstart : Blanked n m 0 (0 * n) g (g.moveTo 0 0) := by
    have hblanked := Blanked.start g (n := n) (Nat.zero_le n) (Nat.zero_lt_of_lt hy)
    rw [Nat.zero_mul] at hblanked ⊢
    exact hblanked
  obtain ⟨g₁, hblanked, hrun⟩ := Does.allM_range' (P := fun yc g' => Blanked n m 0 (yc * n) g g') 0 y
    (fun yc g' _ hlt h => eraseUpTo_row (x := x) (y := y) ht hmn (by omega) h) hstart
  rw [Nat.zero_add] at hblanked
  have hall : Does ((List.range m).allM fun yc => (List.range n).allM (eraseUpTo x y yc)) t (g.moveTo 0 0)
      false t ((g.erase n m (0, y * n + x + 1)).moveTo x y) := by
    rw [range_split hy]
    refine hrun ?_
    rw [List.allM_cons]
    exact Does.bind (eraseUpTo_last ht hmn hn hx hy hblanked) (Does.pure false t _)
  exact Draw.bind hcall (Does.bind hall (Does.pure () t _))

/-- The row up to the cursor -/
theorem eraseBefore_draw (hx : x < n) (hy : y < m) : Draw (do
    call (.setCursorPos 0#64 (sizeT y))
    times x putBlank) t g t ((g.erase n m (y * n, x)).moveTo x y) := by
  have hcall := setCursorPos_draw ht hmn hn (Nat.zero_lt_of_lt hx) hy g
  have hstart : Blanked n m (y * n) 0 g (g.moveTo 0 y) := Blanked.start g (Nat.zero_le n) hy
  refine Draw.bind hcall ?_
  rcases Nat.eq_zero_or_pos x with rfl | hpos
  · rw [← hstart.moveTo]
    exact Does.pure () t _
  · obtain ⟨g₁, hrun, hblanked⟩ := putBlanks_draw ht hmn hstart x
    obtain ⟨hcx, hcy⟩ := Prod.mk.inj (hblanked.cursor_eq hpos hx hy)
    have hend : g₁ = g₁.moveTo x y := by
      rw [← hcx, ← hcy]
      rfl
    rw [← hblanked.moveTo, ← hend]
    exact hrun

omit ht hmn hn in
theorem Grid.erase_none (n m : Nat) (g : Grid) : g.erase n m (0, 0) = g := by
  rw [Grid.erase]
  refine congrArg (Grid.mk g.colours g.pen) (funext fun p => if_neg ?_)
  rintro ⟨-, -, hlt⟩
  exact absurd hlt (Nat.not_lt_zero _)

include hfit hk

/-- `ESC [ J` -/
theorem eraseDisplay_draw (hx : g.pen.cursorX ≤ n) (hy : g.pen.cursorY < m) :
    Draw (eraseDisplay (g.column n) g.pen.cursorY) t g t (g.erased n m (values.getD 0 (escDefault c)).toNat .display) := by
  have hcolumn : g.column n < n := column_inside hmn hy
  refine Does.ctx_bind (Does.escValue_bind ht.values hfit hk ?_)
  generalize (values.getD 0 (escDefault c)).toNat = v
  rw [Grid.erased, Erasure.range, Erasure.prints]
  by_cases h0 : v = 0
  · have hcount : (t.rows - (g.pen.cursorY + 1)) * t.cols + (t.cols - (g.column n + 1)) + 1 =
        m * n - (g.pen.cursorY * n + g.column n) := by
      obtain ⟨r, hr⟩ : ∃ r, m = g.pen.cursorY + 1 + r := ⟨m - (g.pen.cursorY + 1), by omega⟩
      rw [ht.rows, ht.cols, hr, Nat.add_sub_cancel_left, Nat.add_mul, Nat.succ_mul]
      omega
    rw [if_pos h0, if_pos h0, hcount, if_pos (by rw [h0]; rfl)]
    exact spaces_draw ht hmn hn hcolumn hy (Blanked.here hx hy) _
  rw [if_neg h0, if_neg h0]
  by_cases h1 : v = 1
  · rw [if_pos h1, if_pos h1, ht.rows, ht.cols, if_pos (by rw [h1]; rfl)]
    exact eraseUpTo_draw ht hmn hn hcolumn hy
  have hstay : ¬decide (v < 2) = true := by
    rw [decide_eq_true_iff]
    omega
  rw [if_neg h1, if_neg h1, if_neg hstay]
  by_cases h23 : v = 2 ∨ v = 3
  · rw [if_pos h23, if_pos h23]
    refine Does.call (congrArg some ?_)
    rw [Grid.clear, Grid.onScreen, Grid.erase, ht.cols, ht.rows]
    refine congrArg (Grid.mk g.colours g.pen) (funext fun p => if_congr ?_ rfl rfl)
    exact ⟨fun hp => ⟨hp, Nat.zero_le _, (Nat.zero_add (m * n)).symm ▸ index_lt hp.1 hp.2⟩, And.left⟩
  · rw [if_neg h23, if_neg h23, Grid.erase_none]
    exact Does.pure () t g

/-- `ESC [ K` -/
theorem eraseLine_draw (hx : g.pen.cursorX ≤ n) (hy : g.pen.cursorY < m) :
    Draw (eraseLine (g.column n) g.pen.cursorY) t g t (g.erased n m (values.getD 0 (escDefault c)).toNat .line) := by
  have hcolumn : g.column n < n := column_inside hmn hy
  refine Does.ctx_bind (Does.escValue_bind ht.values hfit hk ?_)
  generalize (values.getD 0 (escDefault c)).toNat = v
  rw [Grid.erased, Erasure.range, Erasure.prints, ht.cols]
  by_cases h0 : v = 0
  · rw [if_pos h0, if_pos h0, if_pos (by rw [h0]; rfl)]
    exact spaces_draw ht hmn hn hcolumn hy (Blanked.here hx hy) _
  rw [if_neg h0, if_neg h0]
  by_cases h1 : v = 1
  · rw [if_pos h1, if_pos h1, if_pos (by rw [h1]; rfl)]
    exact eraseBefore_draw ht hmn hn hcolumn hy
  rw [if_neg h1, if_neg h1]
  by_cases h2 : v = 2
  · rw [if_pos h2, if_pos h2, if_pos (by rw [h2]; rfl)]
    have hcall := setCursorPos_draw ht hmn hn (Nat.zero_lt_of_lt hcolumn) hy g
    exact Draw.bind hcall (spaces_draw ht hmn hn hcolumn hy (Blanked.start g (Nat.zero_le n) hy) n)
  · have hstay : ¬decide (v < 3) = true := by
      rw [decide_eq_true_iff]
      omega
    rw [if_neg h2, if_neg h2, Grid.erase_none, if_neg hstay]
    exact Does.pure () t g

/-- `ESC [ X` -/
theorem eraseCharacters_draw (hx : g.pen.cursorX ≤ n) (hy : g.pen.cursorY < m) :
    Draw (eraseCharacters (g.column n) g.pen.cursorY) t g t
      (g.erased n m (values.getD 0 (escDefault c)).toNat .characters) := by
  have hcolumn : g.column n < n := column_inside hmn hy
  refine Does.ctx_bind (Does.escValue_bind ht.values hfit hk ?_)
  rw [ht.cols]
  exact spaces_draw ht hmn hn hcolumn hy (Blanked.here hx hy) _

end Erase

/-! ## Making room -/

section Edit

variable {n m k : Nat} {st : Style} {c : U8} {values : List U32} {t : FlantermContext} {g g' : Grid}
  {x y : Nat} (ht : t.Editing n m k st c values) (hfit : values.length ≤ k) (hk : 0 < k)

theorem Grid.edit_zero {e : TextEdit} (h : ∀ p, p.2 < m → e.cell n m 0 x y g p = g.cells p) : g.edit n m 0 x y e = g := by
  refine congrArg (Grid.mk g.colours g.pen) (funext fun p => ?_)
  split_ifs with hin
  · exact h p hin.2
  · rfl

include ht

/-- One line more -/
theorem edit_scroll (v : Nat) : (g.edit n m v x y .deleteLines).scroll t = g.edit n m (v + 1) x y .deleteLines := by
  rw [Grid.scroll, Grid.onScreen, ht.cols, ht.rows, ht.top, ht.bottom]
  refine congrArg (Grid.mk g.colours g.pen) (funext fun p => ?_)
  by_cases hin : p.1 < n ∧ p.2 < m
  · rw [if_pos hin, if_pos hin]
    dsimp only [Grid.edit, TextEdit.cell]
    by_cases hlast : p.2 = m - 1
    · rw [if_pos hlast, if_neg (by omega)]
      rfl
    · rw [if_neg hlast, if_pos (by omega), if_pos (by omega), show p.2 + 1 + v = p.2 + (v + 1) by omega]
  · dsimp only [Grid.edit]
    rw [if_neg hin, if_neg hin, if_neg hin]

theorem edit_revscroll (v : Nat) :
    (g.edit n m v x y .insertLines).revscroll { t with scrollTopMargin := y } = g.edit n m (v + 1) x y .insertLines := by
  rw [Grid.revscroll, Grid.onScreen]
  dsimp only
  rw [ht.cols, ht.rows, ht.bottom]
  refine congrArg (Grid.mk g.colours g.pen) (funext fun p => ?_)
  by_cases hin : p.1 < n ∧ p.2 < m
  · rw [if_pos hin, if_pos hin]
    dsimp only [Grid.edit, TextEdit.cell]
    obtain ⟨hx, hy⟩ := hin
    rcases Nat.lt_trichotomy p.2 y with habove | hat | hbelow
    · rw [if_neg (Nat.ne_of_lt habove), if_neg fun h => absurd h.1 (Nat.not_lt_of_lt habove), if_pos ⟨hx, hy⟩,
        if_pos habove, if_pos habove]
    · have hnext : p.2 < y + (v + 1) := by omega
      rw [if_pos hat, if_neg (Nat.not_lt_of_le (Nat.le_of_eq hat.symm)), if_pos hnext]
      rfl
    · have hrow : p.2 - 1 < m := by omega
      have hnot : ¬p.2 - 1 < y := by omega
      have hiff : p.2 - 1 < y + v ↔ p.2 < y + (v + 1) := by omega
      rw [if_neg (Nat.ne_of_gt hbelow), if_pos ⟨hbelow, hy⟩, if_pos ⟨hx, hrow⟩, if_neg hnot,
        if_neg (Nat.not_lt_of_lt hbelow), if_congr hiff rfl rfl, Nat.sub_sub, Nat.add_comm 1 v]
  · dsimp only [Grid.edit]
    rw [if_neg hin, if_neg hin, if_neg hin]

omit ht in
/-- No more lines move than there are. -/
theorem edit_min {e : TextEdit} (h : e = .insertLines ∨ e = .deleteLines) (v : Nat) :
    g.edit n m (min v m) x y e = g.edit n m v x y e := by
  refine congrArg (Grid.mk g.colours g.pen) (funext fun p => ?_)
  by_cases hin : p.1 < n ∧ p.2 < m
  · rw [if_pos hin, if_pos hin]
    rcases Nat.le_total v m with hle | hge
    · rw [Nat.min_eq_left hle]
    · rw [Nat.min_eq_right hge]
      rcases h with rfl | rfl
      · have hiff : p.2 < y + m ↔ p.2 < y + v := by omega
        dsimp only [TextEdit.cell]
        rw [if_congr hiff rfl rfl]
        split_ifs
        · rfl
        · rfl
        · omega
      · dsimp only [TextEdit.cell]
        rw [if_neg (by omega), if_neg (by omega)]
  · rw [if_neg hin, if_neg hin]

include hfit hk

/-- `ESC [ M` -/
theorem deleteLines_draw : Draw deleteLines t g t (g.edit n m (values.getD 0 (escDefault c)).toNat x y .deleteLines) := by
  refine Does.ctx_bind (Does.escValue_bind ht.values hfit hk ?_)
  generalize (values.getD 0 (escDefault c)).toNat = v
  have hzero : g.edit n m 0 x y .deleteLines = g := Grid.edit_zero fun _ hp => if_pos hp
  obtain ⟨g', hrun, rfl⟩ := Does.times (P := fun j g' => g' = g.edit n m j x y .deleteLines) (t := t) (x := call .scroll)
    (min v m) (fun j g' _ hg' => ⟨_, Does.call rfl, (congrArg (Grid.scroll t) hg').trans (edit_scroll ht j)⟩) hzero.symm
  rw [ht.rows, ← edit_min (.inr rfl) v]
  exact hrun

/-- `ESC [ L` -/
theorem insertLines_draw : Draw (insertLines y) t g t
    (g.edit n m (values.getD 0 (escDefault c)).toNat x y .insertLines) := by
  refine Does.ctx_bind (Does.update_bind (Does.escValue_bind (t := { t with scrollTopMargin := y }) ht.values hfit hk ?_))
  generalize (values.getD 0 (escDefault c)).toNat = v
  have hzero : g.edit n m 0 x y .insertLines = g := Grid.edit_zero fun p hp => by
    rw [TextEdit.cell]
    split_ifs
    · rfl
    · omega
    · rfl
  obtain ⟨g', hrun, rfl⟩ := Does.times (P := fun j g' => g' = g.edit n m j x y .insertLines)
    (t := { t with scrollTopMargin := y }) (x := call .revscroll) (min v t.rows)
    (fun j g' _ hg' => ⟨_, Does.call rfl, (congrArg (Grid.revscroll _) hg').trans (edit_revscroll ht j)⟩) hzero.symm
  have hall : g.edit n m (min v t.rows) x y .insertLines = g.edit n m v x y .insertLines := by
    rw [ht.rows, edit_min (.inl rfl)]
  rw [← hall]
  exact Draw.bind hrun (Does.update (fun u => { u with scrollTopMargin := t.scrollTopMargin })
    { t with scrollTopMargin := y } _)

end Edit

/-! ## Characters that move -/

section Move

variable {n m k : Nat} {st : Style} {c : U8} {values : List U32} {t : FlantermContext} {g g' : Grid} {v i x y : Nat}
  (ht : t.Editing n m k st c values) (hfit : values.length ≤ k) (hk : 0 < k) (hmn : m ≤ n) (hn : n ≤ 2 ^ 31)
  (hx : x < n) (hy : y < m)

/-- A character on the screen goes to its place. -/
theorem Grid.rawPutchar_inside {t : FlantermContext} {g : Grid} (hx : g.pen.cursorX < t.cols) (c : U8) :
    g.rawPutchar t c = (g.put t ⟨c, g.pen.textFg, g.pen.textBg⟩ g.pen.cursorX g.pen.cursorY).withPen
      { g.pen with cursorX := g.pen.cursorX + 1 } := by
  rw [Grid.rawPutchar, Grid.wrapLine, if_neg fun h => absurd h.1 (Nat.not_le_of_lt hx)]

/-- The characters from `i` on have moved to the right. -/
def Inserting (n m v y i : Nat) (g g' : Grid) : Prop := ∃ cx cy, g' = (g.edit n m v i y .insertCharacters).moveTo cx cy

theorem Grid.moveCharacter_eq (t : FlantermContext) (g : Grid) (newX newY oldX oldY : Nat) :
    g.moveCharacter t newX newY oldX oldY = ⟨g.colours, g.pen, (g.moveCharacter t newX newY oldX oldY).cells⟩ := by
  rw [Grid.moveCharacter]
  split_ifs <;> rfl

include ht

/-- A character of the screen is copied to a place of the screen. -/
theorem moveCharacter_cells {newX newY oldX oldY : Nat} (hx : oldX < n) (hy : oldY < m) (p : Nat × Nat) :
    (g.moveCharacter t newX newY oldX oldY).cells p =
      if (p.1 < n ∧ p.2 < m) ∧ p = (newX, newY) then g.cells (oldX, oldY) else g.cells p := by
  rw [Grid.moveCharacter, if_pos ⟨ht.cols ▸ hx, ht.rows ▸ hy⟩, ite_and, ← ht.cols, ← ht.rows]
  rfl

/-- The character at `i` moves to the right, and a space takes its place. -/
theorem insertStep_eq (cx cy : Nat) (hi : i < n) (hy : y < m) :
    (((((g.edit n m v (i + 1) y .insertCharacters).moveTo cx cy).moveCharacter t (i + v) y i y).moveTo i y).rawPutchar t
      0x20#8) = (g.edit n m v i y .insertCharacters).moveTo (i + 1) y := by
  rw [Grid.moveCharacter_eq, Grid.rawPutchar_inside (show i < t.cols from ht.cols ▸ hi)]
  refine congrArg (Grid.mk g.colours { g.pen with cursorX := i + 1, cursorY := y }) (funext fun p => ?_)
  change (if p.1 < t.cols ∧ p.2 < t.rows then if p = (i, y) then g.blank else Grid.cells _ p else Grid.cells _ p) = _
  dsimp only [Grid.moveTo, Grid.withPen]
  rw [ht.cols, ht.rows, moveCharacter_cells ht hi hy]
  obtain ⟨px, py⟩ := p
  dsimp only [Grid.edit, TextEdit.cell]
  simp only [Prod.mk.injEq]
  grind

include hmn hn

theorem insertStep_draw (hi : i < n) (hy : y < m) (h : Inserting n m v y (i + 1) g g') :
    ∃ g'', Draw (do
      call (.moveCharacter (i + v) y i y)
      call (.setCursorPos (sizeT i) (sizeT y))
      putBlank) t g' t g'' ∧ Inserting n m v y i g g'' := by
  obtain ⟨cx, cy, rfl⟩ := h
  have hback := setCursorPos_draw ht hmn (Nat.le_trans hn (by decide)) hi hy
    (((g.edit n m v (i + 1) y .insertCharacters).moveTo cx cy).moveCharacter t (i + v) y i y)
  refine ⟨(g.edit n m v i y .insertCharacters).moveTo (i + 1) y, ?_, i + 1, y, rfl⟩
  rw [← insertStep_eq ht cx cy hi hy]
  exact Draw.bind (Does.call rfl) (Draw.bind hback (Does.call rfl))

include hfit hk hx hy

/-- `ESC [ @` -/
theorem insertCharacters_draw : Draw (insertCharacters x y) t g t
    ((g.edit n m (values.getD 0 (escDefault c)).toNat x y .insertCharacters).moveTo x y) := by
  refine Does.ctx_bind (Does.escValue_bind ht.values hfit hk ?_)
  generalize (values.getD 0 (escDefault c)).toNat = v
  have hstart : g.edit n m v (n - 1 + 1) y .insertCharacters = g := by
    refine congrArg (Grid.mk g.colours g.pen) (funext fun p => ?_)
    by_cases hin : p.1 < n ∧ p.2 < m
    · rw [if_pos hin, TextEdit.cell, if_pos (Or.inr (by omega))]
    · rw [if_neg hin]
  obtain ⟨g', hrun, cx, cy, rfl⟩ := Does.downTo (P := fun i g' => Inserting n m v y i g g') x (n - 1) _ (by omega)
    (fun i g' _ hle h => insertStep_draw ht hmn hn (by omega) hy h) ⟨g.pen.cursorX, g.pen.cursorY, hstart.symm⟩
  rw [ht.cols]
  exact Draw.bind hrun (setCursorPos_draw ht hmn (Nat.le_trans hn (by decide)) hx hy _)

omit ht hfit hk hmn hn hx hy

/-- The places of a row, from the column `a` on -/
theorem row_places {a b : Nat} (hab : a + b ≤ n) {p : Nat × Nat} (hp : p.1 < n) :
    y * n + a ≤ p.2 * n + p.1 ∧ p.2 * n + p.1 < y * n + a + b ↔ p.2 = y ∧ a ≤ p.1 ∧ p.1 < a + b := by
  rcases Nat.lt_trichotomy p.2 y with hlt | heq | hgt
  · have hle : (p.2 + 1) * n ≤ y * n := Nat.mul_le_mul_right n hlt
    rw [Nat.succ_mul] at hle
    omega
  · rw [heq]
    omega
  · have hle : (y + 1) * n ≤ p.2 * n := Nat.mul_le_mul_right n hgt
    rw [Nat.succ_mul] at hle
    omega

theorem clampPos_lt {x : U64} (hn : 0 < n) : clampPos x n < n := by
  rw [clampPos]
  split_ifs <;> omega

/-- Places counted from the end of a row; a place left of the row becomes its first one. -/
theorem clampPos_back (hv : v ≤ 2 ^ 31) (hn : n ≤ 2 ^ 31) (hpos : 0 < v) (hn' : 0 < n) :
    clampPos (sizeT n - sizeT v) n = n - v := by
  have hval : (sizeT n - sizeT v).toNat = if v ≤ n then n - v else 2 ^ 64 - (v - n) := by
    rw [BitVec.toNat_sub, sizeT, sizeT, BitVec.toNat_ofNat, BitVec.toNat_ofNat]
    split_ifs <;> omega
  rw [clampPos, hval]
  by_cases hle : v ≤ n
  · rw [if_pos hle, if_neg (by omega)]
  · have hmsb : ((sizeT n - sizeT v).setWidth 32).msb = true := by
      rw [BitVec.msb_eq_decide, BitVec.toNat_setWidth, hval, if_neg hle, decide_eq_true_iff]
      omega
    rw [if_neg hle, if_pos (by omega), hmsb, if_pos rfl]
    omega

include ht

/-- The characters up to `i` have moved to the left. -/
theorem deleteStep (hi : i < n) (hy : y < m) {cells : Nat × Nat → FbChar} (hxi : x + v ≤ i)
    (hcells : ∀ p, cells p = if (p.1 < n ∧ p.2 < m) ∧ p.2 = y ∧ x ≤ p.1 ∧ p.1 + v < i then g.cells (p.1 + v, y)
      else g.cells p) (p : Nat × Nat) :
    (Grid.moveCharacter t ⟨g.colours, g.pen, cells⟩ (i - v) y i y).cells p =
      if (p.1 < n ∧ p.2 < m) ∧ p.2 = y ∧ x ≤ p.1 ∧ p.1 + v < i + 1 then g.cells (p.1 + v, y) else g.cells p := by
  rw [moveCharacter_cells ht hi hy]
  dsimp only
  rw [hcells, hcells]
  obtain ⟨px, py⟩ := p
  simp only [Prod.mk.injEq]
  grind

/-- The characters up to `i` have moved to the left. -/
def Deleting (n m v x y i : Nat) (g g' : Grid) : Prop :=
  ∃ cells, g' = ⟨g.colours, g.pen, cells⟩ ∧ ∀ p, cells p =
    if (p.1 < n ∧ p.2 < m) ∧ p.2 = y ∧ x ≤ p.1 ∧ p.1 + v < i then g.cells (p.1 + v, y) else g.cells p

omit ht in
/-- The places that come free at the end of the row are cleared. -/
theorem Deleting.erase (hv : v ≤ 2 ^ 31) (hn : n ≤ 2 ^ 31) (hx : x < n)
    (h : Deleting n m v x y (x + v + (n - (x + v))) g g') :
    g'.erase n m (y * n + clampPos (sizeT n - sizeT v) n, min v n) = g.edit n m v x y .deleteCharacters := by
  obtain ⟨cells, rfl, hcells⟩ := h
  refine congrArg (Grid.mk g.colours g.pen) (funext fun p => ?_)
  change (if (p.1 < n ∧ p.2 < m) ∧ _ ∧ _ then g.blank else cells p) = _
  by_cases hin : p.1 < n ∧ p.2 < m
  · have hfree : y * n + clampPos (sizeT n - sizeT v) n ≤ p.2 * n + p.1 ∧
        p.2 * n + p.1 < y * n + clampPos (sizeT n - sizeT v) n + min v n ↔ p.2 = y ∧ n ≤ p.1 + v := by
      rcases Nat.eq_zero_or_pos v with rfl | hpos
      · omega
      · rw [clampPos_back hv hn hpos (Nat.zero_lt_of_lt hx), row_places (by omega) hin.1]
        omega
    rw [if_pos hin, hcells, TextEdit.cell]
    by_cases hrow : p.2 = y
    · rw [if_neg (not_not_intro hrow)]
      by_cases hend : n ≤ p.1 + v
      · rw [if_pos ⟨hin, hfree.mpr ⟨hrow, hend⟩⟩, if_pos hend]
      · rw [if_neg fun h => hend (hfree.mp h.2).2, if_neg hend]
        by_cases hbefore : p.1 < x
        · rw [if_pos hbefore, if_neg fun h => absurd hbefore (Nat.not_lt_of_le h.2.2.1)]
        · have hmoved : p.1 + v < x + v + (n - (x + v)) := by omega
          rw [if_neg hbefore, if_pos ⟨hin, hrow, Nat.le_of_not_lt hbefore, hmoved⟩]
    · rw [if_neg fun h => hrow (hfree.mp h.2).1, if_neg fun h => hrow h.2.1, if_pos hrow]
  · rw [if_neg fun h => hin h.1, if_neg hin, hcells, if_neg fun h => hin h.1]

include hfit hk hmn hn hx hy

/-- `ESC [ P` -/
theorem deleteCharacters_draw (hv : (values.getD 0 (escDefault c)).toNat ≤ 2 ^ 31) : Draw (deleteCharacters x y) t g t
    ((g.edit n m (values.getD 0 (escDefault c)).toNat x y .deleteCharacters).moveTo x y) := by
  have hn' : n ≤ 2 ^ 64 := Nat.le_trans hn (by decide)
  refine Does.ctx_bind (Does.escValue_bind ht.values hfit hk ?_)
  generalize hvalue : (values.getD 0 (escDefault c)).toNat = v at hv
  rw [ht.cols]
  have hstep : ∀ i g', x + v ≤ i → i < x + v + (n - (x + v)) → Deleting n m v x y i g g' →
      ∃ g'', Draw (call (.moveCharacter (i - v) y i y)) t g' t g'' ∧ Deleting n m v x y (i + 1) g g'' := by
    rintro i g' hi hlt ⟨cells, rfl, hcells⟩
    exact ⟨_, Does.call rfl, _, Grid.moveCharacter_eq .., deleteStep ht (by omega) hy hi hcells⟩
  have hstart : Deleting n m v x y (x + v) g g := by
    refine ⟨g.cells, rfl, fun p => (if_neg ?_).symm⟩
    omega
  obtain ⟨g', hrun, hdeleting⟩ := Does.forM_range' (P := fun i g' => Deleting n m v x y i g g') (x + v) (n - (x + v))
    hstep hstart
  have hplace : clampPos (sizeT n - sizeT v) n < n := clampPos_lt (Nat.zero_lt_of_lt hx)
  have hset : Draw (call (.setCursorPos (sizeT n - sizeT v) (sizeT y))) t g' t
      (g'.moveTo (clampPos (sizeT n - sizeT v) n) y) := by
    refine Does.pen rfl (congrArg some ?_)
    rw [flantermFbSetCursorPos, ht.cols, ht.rows, clampPos_sizeT hy (Nat.le_trans hmn hn')]
  have hspaces := spaces_draw ht hmn hn' hx hy (Blanked.start g' (Nat.le_of_lt hplace) hy) (min v n)
  rw [hdeleting.erase hv hn hx] at hspaces
  refine Draw.bind hrun (Draw.bind hset (Does.ctx_bind (Does.escValue_bind ht.values hfit hk ?_)))
  rw [hvalue, ht.cols]
  exact hspaces

end Move

/-! ## Moving the cursor -/

section Cursor

variable {n m k : Nat} {st : Style} {c : U8} {values : List U32} {t : FlantermContext} {g : Grid} {x y : Nat}
  (ht : t.Editing n m k st c values) (hfit : values.length ≤ k) (hk : 1 < k) (hmn : m ≤ n) (hn : n ≤ 2 ^ 64)
  (hx : x < n) (hy : y < m)

include ht hmn hn hfit hk hx hy

theorem cursorUp_draw : Draw (cursorUp x y) t g t
    (g.moveTo x (y - (values.getD 0 (escDefault c)).toNat)) := by
  refine Does.ctx_bind (Does.escValue_bind ht.values hfit (Nat.zero_lt_of_lt hk) ?_)
  generalize (values.getD 0 (escDefault c)).toNat = v
  dsimp only
  rw [ht.top, if_neg fun h => absurd h.2 (Nat.not_lt_zero _), show y - min v y = y - v by omega]
  exact setCursorPos_draw ht hmn hn hx (by omega) g

theorem cursorDown_draw : Draw (cursorDown x y) t g t
    (g.moveTo x (min (y + (values.getD 0 (escDefault c)).toNat) (m - 1))) := by
  refine Does.ctx_bind (Does.escValue_bind ht.values hfit (Nat.zero_lt_of_lt hk) ?_)
  generalize (values.getD 0 (escDefault c)).toNat = v
  have hdest : (y + if y + v > t.rows - 1 then t.rows - 1 - y else v) = min (y + v) (m - 1) := by
    rw [ht.rows]
    split_ifs <;> omega
  dsimp only
  rw [hdest, ht.bottom, if_neg fun h => absurd h.2 (by omega)]
  exact setCursorPos_draw ht hmn hn hx (by omega) g

theorem cursorForward_draw : Draw (cursorForward x y) t g t
    (g.moveTo (min (x + (values.getD 0 (escDefault c)).toNat) (n - 1)) y) := by
  refine Does.ctx_bind (Does.escValue_bind ht.values hfit (Nat.zero_lt_of_lt hk) ?_)
  generalize (values.getD 0 (escDefault c)).toNat = v
  have hdest : (x + if x + v > t.cols - 1 then t.cols - 1 - x else v) = min (x + v) (n - 1) := by
    rw [ht.cols]
    split_ifs <;> omega
  dsimp only
  rw [hdest]
  exact setCursorPos_draw ht hmn hn (by omega) hy g

theorem cursorBack_draw : Draw (cursorBack x y) t g t
    (g.moveTo (x - (values.getD 0 (escDefault c)).toNat) y) := by
  refine Does.escValue_bind ht.values hfit (Nat.zero_lt_of_lt hk) ?_
  generalize (values.getD 0 (escDefault c)).toNat = v
  rw [show x - min v x = x - v by omega]
  exact setCursorPos_draw ht hmn hn (by omega) hy g

omit ht hmn hn hfit hk hy in
theorem placeOf_lt (v : Nat) : placeOf v n < n := by
  rw [placeOf]
  split_ifs <;> omega

theorem cursorRow_draw : Draw (cursorRow x) t g t
    (g.moveTo x (placeOf (values.getD 0 (escDefault c)).toNat m)) := by
  refine Does.ctx_bind (Does.escValue_bind ht.values hfit (Nat.zero_lt_of_lt hk) ?_)
  rw [ht.rows]
  exact setCursorPos_draw ht hmn hn hx (placeOf_lt hy _) g

theorem cursorColumn_draw : Draw (cursorColumn y) t g t
    (g.moveTo (placeOf (values.getD 0 (escDefault c)).toNat n) y) := by
  refine Does.ctx_bind (Does.escValue_bind ht.values hfit (Nat.zero_lt_of_lt hk) ?_)
  rw [ht.cols]
  exact setCursorPos_draw ht hmn hn (placeOf_lt hx _) hy g

theorem cursorPosition_draw : Draw cursorPosition t g t
    (g.moveTo (min ((values.getD 1 (escDefault c)).toNat - 1) (n - 1))
      (min ((values.getD 0 (escDefault c)).toNat - 1) (m - 1))) := by
  refine Does.ctx_bind (Does.escValue_bind ht.values hfit (Nat.zero_lt_of_lt hk)
    (Does.escValue_bind ht.values hfit hk ?_))
  generalize (values.getD 0 (escDefault c)).toNat - 1 = row
  generalize (values.getD 1 (escDefault c)).toNat - 1 = col
  have hcol : (if col ≥ t.cols then t.cols - 1 else col) = min col (n - 1) := by
    rw [ht.cols]
    split_ifs <;> omega
  have hrow : (if row ≥ t.rows then t.rows - 1 else row) = min row (m - 1) := by
    rw [ht.rows]
    split_ifs <;> omega
  dsimp only
  rw [hcol, hrow]
  exact setCursorPos_draw ht hmn hn (by omega) (by omega) g

end Cursor

/-! ## Sequences -/

section Sequences

variable {n m k : Nat} {st : Style} {t : FlantermContext} {g g' : Grid} (ht : t.Ready n m k st) (h : g.Inside n m st)
  (hmn : m ≤ n)

theorem Erasure.final_ends (e : Erasure) : Final e.final := by
  cases e <;> exact ⟨by decide, by decide, by decide⟩

theorem TextEdit.final_ends (e : TextEdit) : Final e.final := by
  cases e <;> exact ⟨by decide, by decide, by decide⟩

include ht h hmn

/-- A control sequence that changes the table, or the place of the cursor -/
theorem sequence_run (params : List (Option Nat)) (last : Option Nat) {c : U8} (hc : Final c)
    {f : Nat → Nat → Front Unit} (hcase : ∀ x y, (controlCases x y).lookup c = some (f x y))
    (hdraw : ∀ u : FlantermContext, u.Editing n m k st c (sequenceValues k params last) →
      Draw (f (g.column n) g.pen.cursorY) u g u g') :
    ∃ t', ((sequenceText params last c).forM (flantermPutchar gridBackend)).run (t, g) = some ((), t', g') ∧
      t'.Ready n m k st := by
  have hn : 0 < n := Nat.lt_of_lt_of_le (Nat.zero_lt_of_lt h.row) hmn
  refine control_run ht params last hc hcase fun u hu => ?_
  rw [cursor_place ht h.row h.column hn, hu.style]
  exact hdraw u hu

/-- A sequence that moves the cursor puts it to a place of the screen, and changes nothing else. -/
theorem move_run (hk : 1 < k) (hn : n ≤ 2 ^ 64) (params : List (Option Nat)) (last : Option Nat) {c : U8} {x y : Nat}
    (hmove : (c, x, y) ∈ cursorMoves n m (sequenceValue k params last c 0) (sequenceValue k params last c 1)
      (g.column n) g.pen.cursorY) :
    ∃ t', ((sequenceText params last c).forM (flantermPutchar gridBackend)).run (t, g) = some ((), t', g.moveTo x y) ∧
      t'.Ready n m k st := by
  have hfit : (sequenceValues k params last).length ≤ k := List.length_take_le _ _
  have hy := h.row
  have h0 : 0 < n := Nat.lt_of_lt_of_le (Nat.zero_lt_of_lt hy) hmn
  have hx : g.column n < n := column_lt h0
  simp only [cursorMoves, List.mem_cons, List.not_mem_nil, or_false, Prod.mk.injEq] at hmove
  rcases hmove with ⟨rfl, rfl, rfl⟩ | ⟨rfl, rfl, rfl⟩ | ⟨rfl, rfl, rfl⟩ | ⟨rfl, rfl, rfl⟩ | ⟨rfl, rfl, rfl⟩ | ⟨rfl, rfl, rfl⟩ |
    ⟨rfl, rfl, rfl⟩ | ⟨rfl, rfl, rfl⟩ | ⟨rfl, rfl, rfl⟩ | ⟨rfl, rfl, rfl⟩ | ⟨rfl, rfl, rfl⟩ | ⟨rfl, rfl, rfl⟩ |
    ⟨rfl, rfl, rfl⟩ <;> refine sequence_run ht h hmn params last ⟨by decide, by decide, by decide⟩ (fun _ _ => rfl)
      fun u hu => ?_
  · exact cursorUp_draw hu hfit hk hmn hn hx hy
  · exact cursorUp_draw hu hfit hk hmn hn h0 hy
  · exact cursorDown_draw hu hfit hk hmn hn hx hy
  · exact cursorDown_draw hu hfit hk hmn hn hx hy
  · exact cursorDown_draw hu hfit hk hmn hn h0 hy
  · exact cursorForward_draw hu hfit hk hmn hn hx hy
  · exact cursorForward_draw hu hfit hk hmn hn hx hy
  · exact cursorBack_draw hu hfit hk hmn hn hx hy
  · exact cursorRow_draw hu hfit hk hmn hn hx hy
  · exact cursorColumn_draw hu hfit hk hmn hn hx hy
  · exact cursorColumn_draw hu hfit hk hmn hn hx hy
  · exact cursorPosition_draw hu hfit hk hmn hn hx hy
  · exact cursorPosition_draw hu hfit hk hmn hn hx hy

/-- A sequence that erases puts spaces where it should. -/
theorem erase_run (hk : 0 < k) (hn : n ≤ 2 ^ 64) (params : List (Option Nat)) (last : Option Nat) (e : Erasure) :
    ∃ t', ((sequenceText params last e.final).forM (flantermPutchar gridBackend)).run (t, g) =
        some ((), t', g.erased n m (sequenceValue k params last e.final 0) e) ∧ t'.Ready n m k st := by
  have hfit : (sequenceValues k params last).length ≤ k := List.length_take_le _ _
  cases e with
  | display =>
    exact sequence_run ht h hmn params last (Erasure.final_ends _) (fun _ _ => rfl) fun u hu =>
      eraseDisplay_draw hu hfit hk hmn hn h.column h.row
  | line =>
    exact sequence_run ht h hmn params last (Erasure.final_ends _) (fun _ _ => rfl) fun u hu =>
      eraseLine_draw hu hfit hk hmn hn h.column h.row
  | characters =>
    exact sequence_run ht h hmn params last (Erasure.final_ends _) (fun _ _ => rfl) fun u hu =>
      eraseCharacters_draw hu hfit hk hmn hn h.column h.row

/-- A sequence that makes room or takes text away moves the text as it should. -/
theorem edit_run (hk : 0 < k) (hn : n ≤ 2 ^ 31) (params : List (Option Nat)) (last : Option Nat) (e : TextEdit)
    (hv : e = .deleteCharacters → sequenceValue k params last e.final 0 ≤ 2 ^ 31) :
    ∃ t', ((sequenceText params last e.final).forM (flantermPutchar gridBackend)).run (t, g) =
        some ((), t', g.edited n m (sequenceValue k params last e.final 0) e) ∧ t'.Ready n m k st := by
  have hfit : (sequenceValues k params last).length ≤ k := List.length_take_le _ _
  have hcolumn : g.column n < n := column_inside hmn h.row
  cases e with
  | insertCharacters =>
    exact sequence_run ht h hmn params last (TextEdit.final_ends _) (fun _ _ => rfl) fun u hu =>
      insertCharacters_draw hu hfit hk hmn hn hcolumn h.row
  | deleteCharacters =>
    exact sequence_run ht h hmn params last (TextEdit.final_ends _) (fun _ _ => rfl) fun u hu =>
      deleteCharacters_draw hu hfit hk hmn hn hcolumn h.row (hv rfl)
  | insertLines =>
    exact sequence_run ht h hmn params last (TextEdit.final_ends _) (fun _ _ => rfl) fun u hu =>
      insertLines_draw hu hfit hk
  | deleteLines =>
    exact sequence_run ht h hmn params last (TextEdit.final_ends _) (fun _ _ => rfl) fun u hu =>
      deleteLines_draw hu hfit hk

end Sequences

end PpoOS
