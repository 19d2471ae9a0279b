import PpoOS.Gui.Gui
import Mathlib.Data.List.TakeWhile

/-!
# Clicks on the buttons of a window

`gui_draw_window_ex` puts the three buttons at the right of the rectangle that it
draws, and `gui_window_handle_click` looks for them at the right of the rectangle that
is stored.  **`buttons_agree_iff`**: a click on any point of a button does what the
button says exactly where the window is not maximized, or its stored rectangle ends at
most three points left of the right edge of the screen and starts near its top.
-/

namespace PpoOS

variable {ctx : GuiContext} {win : GuiWindow} {f : GuiFrame} {x y w h n : I32} {p : I32 × I32}

/-! ## Buttons -/

inductive GuiButton where
  | minimise
  | maximise
  | close
deriving DecidableEq

/-- How far the button is from the right edge. -/
def GuiButton.offset : GuiButton → I32
  | minimise => 45
  | maximise => 30
  | close => 15

/-- The window after a click on the button. -/
def GuiWindow.press (win : GuiWindow) : GuiButton → GuiWindow
  | .minimise => { win with state := .minimized }
  | .maximise => { win with state := if win.state = .maximized then .normal else .maximized }
  | .close => { win with state := .closed }

/-- The points of a button, as they are drawn. -/
def buttonPixels (ctx : GuiContext) (win : GuiWindow) (b : GuiButton) : List (I32 × I32) :=
  fillPixels ctx ((win.frame ctx).x + (win.frame ctx).w - b.offset) ((win.frame ctx).y + 2) 12 12

/-- **The points of the buttons are what is drawn** after the window. -/
theorem guiDrawWindowEx_buttons (hbuf : ctx.backbuffer = true) (hopen : win.state ≠ .closed) (bg border : U32) :
    guiDrawWindowEx ctx win bg border =
      guiDrawWindow ctx (win.frame ctx).x (win.frame ctx).y (win.frame ctx).w (win.frame ctx).h bg border 8 ++
        [GuiButton.minimise, .maximise, .close].flatMap fun b =>
          (buttonPixels ctx win b).map fun p => .store (pixelIndex ctx p) 0x666666#32 := by
  rw [guiDrawWindowEx, if_neg hopen]
  simp only [guiFillRect, hbuf, Bool.not_true, Bool.false_eq_true, if_false, List.flatMap_cons, List.flatMap_nil,
    List.append_assoc, List.append_nil]
  rfl

/-! ## Points of a rectangle -/

/-- The bounds of `int`. -/
theorem toInt_bounds (a : I32) : -2147483648 ≤ a.toInt ∧ a.toInt < 2147483648 :=
  ⟨BitVec.le_toInt a, BitVec.toInt_lt⟩

/-- A sum that does not overflow. -/
theorem toInt_add_of_bounds {a b : I32} (h : -2147483648 ≤ a.toInt + b.toInt) (h' : a.toInt + b.toInt < 2147483648) :
    (a + b).toInt = a.toInt + b.toInt := by
  rw [BitVec.toInt_add, Int.bmod_def]
  omega

theorem toInt_sub_of_bounds {a b : I32} (h : -2147483648 ≤ a.toInt - b.toInt) (h' : a.toInt - b.toInt < 2147483648) :
    (a - b).toInt = a.toInt - b.toInt := by
  rw [BitVec.toInt_sub, Int.bmod_def]
  omega

theorem mem_takeWhile_range {α : Type} {ok : α → Bool} {g : Nat → α} {m : Nat} {a : α} :
    a ∈ ((List.range m).map g).takeWhile ok ↔ ∃ k < m, a = g k ∧ ∀ l ≤ k, ok (g l) = true := by
  induction m generalizing g with
  | zero => simp
  | succ m ih =>
    rw [List.range_succ_eq_map, List.map_cons, List.map_map]
    by_cases hok : ok (g 0) = true
    · rw [List.takeWhile_cons_of_pos hok, List.mem_cons, ih]
      constructor
      · rintro (rfl | ⟨k, hk, rfl, hall⟩)
        · exact ⟨0, Nat.succ_pos m, rfl, fun l hl => by rw [Nat.le_zero.mp hl]; exact hok⟩
        · refine ⟨k + 1, Nat.succ_lt_succ hk, rfl, fun l hl => ?_⟩
          cases l with
          | zero => exact hok
          | succ l => exact hall l (Nat.le_of_succ_le_succ hl)
      · rintro ⟨k, hk, rfl, hall⟩
        cases k with
        | zero => exact .inl rfl
        | succ k => exact .inr ⟨k, Nat.lt_of_succ_lt_succ hk, rfl, fun l hl => hall (l + 1) (Nat.succ_le_succ hl)⟩
    · rw [List.takeWhile_cons_of_neg hok]
      refine ⟨fun h => (nomatch h), fun ⟨k, _, _, hall⟩ => absurd (hall 0 (Nat.zero_le k)) hok⟩

/-- The values of a loop variable. -/
theorem mem_loopWhile {i : I32} {ok : I32 → Bool} : i ∈ loopWhile n ok ↔
    ∃ k : Nat, k < n.toInt.toNat ∧ i = BitVec.ofNat 32 k ∧ ∀ l ≤ k, ok (BitVec.ofNat 32 l) = true :=
  mem_takeWhile_range

/-- The rectangle of a window is on the screen, and its buttons are inside of it. -/
structure GuiFrame.OnScreen (ctx : GuiContext) (f : GuiFrame) : Prop where
  left : 0 ≤ f.x.toInt
  right : f.x.toInt + f.w.toInt ≤ ctx.width.toNat
  top : 0 ≤ f.y.toInt
  bottom : f.y.toInt + f.h.toInt ≤ ctx.height.toNat
  width : 45 ≤ f.w.toInt
  height : 14 ≤ f.h.toInt

/-- An `int` that is not negative, as an `unsigned int`. -/
theorem toNat_of_nonneg {a : I32} (h : 0 ≤ a.toInt) : (a.toNat : Int) = a.toInt ∧ a.toNat < 2147483648 := by
  have hlt := a.isLt
  rw [BitVec.toInt_eq_toNat_cond] at h ⊢
  split at h
  · rename_i hsmall
    rw [if_pos hsmall]
    omega
  · omega

theorem GuiButton.offset_bounds (b : GuiButton) :
    15 ≤ b.offset.toNat ∧ b.offset.toNat ≤ 45 ∧ b.offset.toInt = b.offset.toNat := by
  cases b <;> decide

/-- All points of a button are drawn. -/
theorem mem_buttonPixels {b : GuiButton} (h : (win.frame ctx).OnScreen ctx) : p ∈ buttonPixels ctx win b ↔
    ∃ i < 12, ∃ j < 12, p = ((win.frame ctx).x + (win.frame ctx).w - b.offset + BitVec.ofNat 32 i,
      (win.frame ctx).y + 2 + BitVec.ofNat 32 j) := by
  obtain ⟨hx, hxlt⟩ := toNat_of_nonneg h.left
  obtain ⟨hw, hwlt⟩ := toNat_of_nonneg (Int.le_trans (by decide) h.width)
  obtain ⟨hy, hylt⟩ := toNat_of_nonneg h.top
  obtain ⟨hleft, hright, htop, hbottom, hwidth, hheight⟩ := h
  have hW := ctx.width.isLt
  have hcol : ∀ i < 12, (win.frame ctx).x + (win.frame ctx).w - b.offset + BitVec.ofNat 32 i < ctx.width := by
    intro i hi
    obtain ⟨hoff, hoff', -⟩ := b.offset_bounds
    rw [BitVec.lt_def, BitVec.toNat_add, BitVec.toNat_sub, BitVec.toNat_add, BitVec.toNat_ofNat]
    omega
  have hrow : ∀ j < 12, (win.frame ctx).y + 2 + BitVec.ofNat 32 j < ctx.height := by
    intro j hj
    have htwo : (2 : I32).toNat = 2 := rfl
    rw [BitVec.lt_def, BitVec.toNat_add, BitVec.toNat_add, BitVec.toNat_ofNat]
    omega
  rw [buttonPixels, fillPixels, List.mem_flatMap]
  constructor
  · rintro ⟨j', hj', hp⟩
    obtain ⟨j, hj, rfl, -⟩ := mem_loopWhile.mp hj'
    obtain ⟨i', hi', rfl⟩ := List.mem_map.mp hp
    obtain ⟨i, hi, rfl, -⟩ := mem_loopWhile.mp hi'
    exact ⟨i, hi, j, hj, rfl⟩
  · rintro ⟨i, hi, j, hj, rfl⟩
    refine ⟨BitVec.ofNat 32 j, mem_loopWhile.mpr ⟨j, hj, rfl, fun l hl => ?_⟩, List.mem_map.mpr
      ⟨BitVec.ofNat 32 i, mem_loopWhile.mpr ⟨i, hi, rfl, fun l hl => ?_⟩, rfl⟩⟩
    · exact decide_eq_true (hrow l (by omega))
    · exact decide_eq_true (hcol l (by omega))

theorem forall_buttonPixels {P : I32 → I32 → Prop} {b : GuiButton} (h : (win.frame ctx).OnScreen ctx) :
    (∀ p ∈ buttonPixels ctx win b, P p.1 p.2) ↔ ∀ i < 12, ∀ j < 12,
      P ((win.frame ctx).x + (win.frame ctx).w - b.offset + BitVec.ofNat 32 i)
        ((win.frame ctx).y + 2 + BitVec.ofNat 32 j) := by
  constructor
  · intro hp i hi j hj
    exact hp _ ((mem_buttonPixels h).mpr ⟨i, hi, j, hj, rfl⟩)
  · intro hp p hmem
    obtain ⟨i, hi, j, hj, rfl⟩ := (mem_buttonPixels h).mp hmem
    exact hp i hi j hj

/-! ## Clicks -/

/-- The range of a sum of two `int`s, one of which is not negative: it is exact, or wraps to a negative number. -/
theorem toInt_add_cases {a b : I32} (hb : 0 ≤ b.toInt) : (a.toInt + b.toInt < 2147483648 ∧
    (a + b).toInt = a.toInt + b.toInt) ∨ (2147483648 ≤ a.toInt + b.toInt ∧ (a + b).toInt < a.toInt ∧ (a + b).toInt < 0) := by
  have ha := toInt_bounds a
  have hb' := toInt_bounds b
  rw [BitVec.toInt_add, Int.bmod_def]
  omega

/-- The button that leads to a state. -/
def GuiWindowState.button : GuiWindowState → GuiButton
  | .minimized => .minimise
  | .closed => .close
  | .normal => .maximise
  | .maximized => .maximise

theorem press_button (win : GuiWindow) (b : GuiButton) : (win.press b).state.button = b := by
  cases b with
  | minimise => rfl
  | close => rfl
  | maximise =>
    rw [GuiWindow.press]
    by_cases hmax : win.state = .maximized
    · rw [if_pos hmax]
      rfl
    · rw [if_neg hmax]
      rfl

theorem press_inj {b c : GuiButton} : win.press b = win.press c ↔ b = c := by
  constructor
  · intro h
    rw [← press_button win b, h, press_button]
  · exact fun h => h ▸ rfl

/-- A distance from the right edge. -/
theorem toInt_sub_offset (hw : 45 ≤ win.w.toInt) (b : GuiButton) : (win.w - b.offset).toInt = win.w.toInt - b.offset.toInt := by
  have hwb := toInt_bounds win.w
  obtain ⟨hoff, hoff', hint⟩ := b.offset_bounds
  apply toInt_sub_of_bounds <;> omega

/-- **What a click does**: the regions of the buttons are 15 points wide and cover 20 rows. -/
theorem click_eq_press_iff (hopen : win.state ≠ .closed) (hw : 45 ≤ win.w.toInt) (b : GuiButton) :
    guiWindowHandleClick win x y = (true, win.press b) ↔
      win.x.toInt + win.w.toInt < 2147483648 ∧ win.y.toInt + 20 < 2147483648 ∧
        win.x.toInt + win.w.toInt - b.offset.toInt ≤ x.toInt ∧
          x.toInt < win.x.toInt + win.w.toInt - b.offset.toInt + 15 ∧
            win.y.toInt ≤ y.toInt ∧ y.toInt < win.y.toInt + 20 := by
  have hxb := toInt_bounds x
  have hwxb := toInt_bounds win.x
  have hwb := toInt_bounds win.w
  have h45 : (win.w - 45).toInt = win.w.toInt - 45 := toInt_sub_offset hw .minimise
  have h30 : (win.w - 30).toInt = win.w.toInt - 30 := toInt_sub_offset hw .maximise
  have h15 : (win.w - 15).toInt = win.w.toInt - 15 := toInt_sub_offset hw .close
  have hsum := toInt_add_cases (a := win.x) (b := win.w) (by omega)
  have hrow : (win.y.toInt + 20 < 2147483648 ∧ (win.y + 20).toInt = win.y.toInt + 20) ∨
      (2147483648 ≤ win.y.toInt + 20 ∧ (win.y + 20).toInt < win.y.toInt ∧ (win.y + 20).toInt < 0) :=
    toInt_add_cases (a := win.y) (b := 20) (by decide)
  obtain ⟨hoff, hoff', hoffint⟩ := b.offset_bounds
  rw [guiWindowHandleClick, if_neg hopen]
  simp only [BitVec.slt_eq_decide, BitVec.sle_eq_decide, Bool.or_eq_true, Bool.and_eq_true, decide_eq_true_eq, h45, h30,
    h15]
  split
  · rename_i hout
    refine ⟨fun h => (nomatch h), fun h => ?_⟩
    omega
  · rename_i hin
    -- within the title bar nothing overflows
    have hrel : (x - win.x).toInt = x.toInt - win.x.toInt := by
      apply toInt_sub_of_bounds <;> omega
    rw [hrel]
    have hpress : ∀ c : GuiButton, (true, win.press c) = (true, win.press b) ↔ c = b := fun c => by
      rw [Prod.mk.injEq, press_inj]
      exact and_iff_right rfl
    split
    · refine (hpress .minimise).trans ?_
      cases b <;> simp [GuiButton.offset] <;> omega
    split
    · refine (hpress .maximise).trans ?_
      cases b <;> simp [GuiButton.offset] <;> omega
    split
    · refine (hpress .close).trans ?_
      cases b <;> simp [GuiButton.offset] <;> omega
    · refine ⟨fun h => (nomatch h), fun h => ?_⟩
      omega

/-! ## When the buttons agree -/

/-- The stored rectangle does not leave the range of `int`, and where the window is maximized its buttons are
where they are drawn. -/
structure ButtonsAgree (ctx : GuiContext) (win : GuiWindow) : Prop where
  right : win.x.toInt + win.w.toInt < 2147483648
  bottom : win.y.toInt + 20 < 2147483648
  maximized : win.state = .maximized → win.x.toInt + win.w.toInt ≤ ctx.width.toNat ∧
    ctx.width.toNat ≤ win.x.toInt + win.w.toInt + 3 ∧ -6 ≤ win.y.toInt ∧ win.y.toInt ≤ 2

/-- The coordinates of a point of a button. -/
theorem button_point (h : f.OnScreen ctx) (hright : f.x.toInt + f.w.toInt < 2147483648)
    (hbottom : f.y.toInt + 20 < 2147483648) (b : GuiButton) {i j : Nat} (hi : i < 12) (hj : j < 12) :
    (f.x + f.w - b.offset + BitVec.ofNat 32 i).toInt = f.x.toInt + f.w.toInt - b.offset.toInt + i ∧
      (f.y + 2 + BitVec.ofNat 32 j).toInt = f.y.toInt + 2 + j := by
  obtain ⟨hoff, hoff', hoffint⟩ := b.offset_bounds
  have hx := h.left
  have hw := h.width
  have hy := h.top
  have hnat : ∀ k < 12, (BitVec.ofNat 32 k).toInt = k := fun k hk => by
    rw [BitVec.toInt_ofNat', Int.bmod_def]
    omega
  have hsum : (f.x + f.w).toInt = f.x.toInt + f.w.toInt := by apply toInt_add_of_bounds <;> omega
  have hleft : (f.x + f.w - b.offset).toInt = f.x.toInt + f.w.toInt - b.offset.toInt := by
    rw [← hsum]
    apply toInt_sub_of_bounds <;> omega
  have hrow : (f.y + 2).toInt = f.y.toInt + 2 := by
    apply toInt_add_of_bounds (b := 2)
    · change _ ≤ _ + (2 : Int)
      omega
    · change _ + (2 : Int) < _
      omega
  have hin := hnat i hi
  have hjn := hnat j hj
  constructor
  · rw [← hleft, ← hin]
    apply toInt_add_of_bounds <;> omega
  · rw [← hrow, ← hjn]
    apply toInt_add_of_bounds <;> omega

/-- Clicks on the buttons of a rectangle `f` do what they say where the stored rectangle ends at most three points
left of it and starts near its top. -/
theorem points_press_iff (hopen : win.state ≠ .closed) (hw : 45 ≤ win.w.toInt) (hon : f.OnScreen ctx)
    (hright : f.x.toInt + f.w.toInt < 2147483648) (hbottom : f.y.toInt + 20 < 2147483648) :
    (∀ b : GuiButton, ∀ i < 12, ∀ j < 12, guiWindowHandleClick win (f.x + f.w - b.offset + BitVec.ofNat 32 i)
        (f.y + 2 + BitVec.ofNat 32 j) = (true, win.press b)) ↔
      (win.x.toInt + win.w.toInt < 2147483648 ∧ win.y.toInt + 20 < 2147483648) ∧
        (win.x.toInt + win.w.toInt ≤ f.x.toInt + f.w.toInt ∧ f.x.toInt + f.w.toInt ≤ win.x.toInt + win.w.toInt + 3) ∧
          f.y.toInt - 6 ≤ win.y.toInt ∧ win.y.toInt ≤ f.y.toInt + 2 := by
  constructor
  · intro h
    -- the corners of a button are enough
    obtain ⟨hx, hy⟩ := button_point hon hright hbottom .close (i := 0) (j := 0) (by decide) (by decide)
    obtain ⟨hx', hy'⟩ := button_point hon hright hbottom .close (i := 11) (j := 11) (by decide) (by decide)
    have hfirst := (click_eq_press_iff hopen hw .close).mp (h .close 0 (by decide) 0 (by decide))
    have hlast := (click_eq_press_iff hopen hw .close).mp (h .close 11 (by decide) 11 (by decide))
    rw [hx, hy] at hfirst
    rw [hx', hy'] at hlast
    omega
  · intro h b i hi j hj
    obtain ⟨hx, hy⟩ := button_point hon hright hbottom b hi hj
    refine (click_eq_press_iff hopen hw b).mpr ?_
    rw [hx, hy]
    omega

/-- **A click on any point of a button does what the button says** exactly where the buttons of the stored
rectangle are where the buttons are drawn. -/
theorem buttons_agree_iff (hopen : win.state ≠ .closed) (hw : 45 ≤ win.w.toInt) (hon : (win.frame ctx).OnScreen ctx) :
    (∀ b, ∀ p ∈ buttonPixels ctx win b, guiWindowHandleClick win p.1 p.2 = (true, win.press b)) ↔
      ButtonsAgree ctx win := by
  have hpoints := fun b => forall_buttonPixels (P := fun x y => guiWindowHandleClick win x y = (true, win.press b))
    (b := b) hon
  rw [forall_congr' hpoints]
  by_cases hmax : win.state = .maximized
  · -- drawn from the size of the screen
    have hframe : (win.frame ctx).x.toInt = 0 ∧ (win.frame ctx).y.toInt = 0 ∧ (win.frame ctx).w = ctx.width := by
      rw [GuiWindow.frame, hmax]
      exact ⟨rfl, rfl, rfl⟩
    obtain ⟨hx, hy, hwidth⟩ := hframe
    have hW : (ctx.width.toNat : Int) = (win.frame ctx).w.toInt ∧ (win.frame ctx).w.toInt < 2147483648 := by
      rw [hwidth]
      have hpos : 0 ≤ ctx.width.toInt := by
        rw [← hwidth]
        exact Int.le_trans (by decide) hon.width
      exact ⟨(toNat_of_nonneg hpos).1, (toInt_bounds _).2⟩
    rw [points_press_iff hopen hw hon (by omega) (by omega)]
    constructor
    · rintro ⟨⟨hright, hbottom⟩, hcols, hrows⟩
      exact ⟨hright, hbottom, fun _ => by omega⟩
    · rintro ⟨hright, hbottom, hall⟩
      have hall := hall hmax
      omega
  · have hframe : (win.frame ctx).x = win.x ∧ (win.frame ctx).y = win.y ∧ (win.frame ctx).w = win.w := by
      unfold GuiWindow.frame
      split
      · exact absurd ‹_› hmax
      · exact ⟨rfl, rfl, rfl⟩
      · exact ⟨rfl, rfl, rfl⟩
    obtain ⟨hx, hy, hwidth⟩ := hframe
    constructor
    · intro h
      obtain ⟨hright, hbottom, -⟩ := (click_eq_press_iff hopen hw .close).mp (h .close 0 (by decide) 0 (by decide))
      exact ⟨hright, hbottom, fun hm => absurd hm hmax⟩
    · rintro ⟨hright, hbottom, -⟩
      refine (points_press_iff hopen hw hon ?_ ?_).mpr ?_
      · rw [hx, hwidth]
        exact hright
      · rw [hy]
        exact hbottom
      · rw [hx, hy, hwidth]
        omega

/-! ## The window of the demo -/

/-- A screen of 800 times 600 points. -/
def smallScreen : GuiContext := ⟨0xFFFF8000FD000000#64, true, 800, 600, 800⟩

def demoWindow (state : GuiWindowState) : GuiWindow := ⟨50, 50, 400, 300, state⟩

theorem demoWindow_onScreen (state : GuiWindowState) : ((demoWindow state).frame smallScreen).OnScreen smallScreen := by
  cases state <;> exact ⟨by decide, by decide, by decide, by decide, by decide, by decide⟩

theorem buttons_agree_demo : ButtonsAgree smallScreen (demoWindow .normal) ∧
    ∀ b, ∀ p ∈ buttonPixels smallScreen (demoWindow .normal) b,
      guiWindowHandleClick (demoWindow .normal) p.1 p.2 = (true, (demoWindow .normal).press b) := by
  have hagree : ButtonsAgree smallScreen (demoWindow .normal) := ⟨by decide, by decide, nofun⟩
  exact ⟨hagree, (buttons_agree_iff (by decide) (by decide) (demoWindow_onScreen .normal)).mpr hagree⟩

/-- Maximized, the window covers the screen, but a click on the first point of its close button is not taken. -/
theorem demoWindow_not_closed : ((demoWindow .maximized).frame smallScreen).OnScreen smallScreen ∧
    (785, 2) ∈ buttonPixels smallScreen (demoWindow .maximized) .close ∧
      guiWindowHandleClick (demoWindow .maximized) 785 2 = (false, demoWindow .maximized) :=
  ⟨demoWindow_onScreen .maximized, by decide +kernel⟩

end PpoOS
