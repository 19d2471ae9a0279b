import PpoOS.Gui.Verify.Paint

/-!
# How a window is painted

`Paints ctx A pat l`: the accesses `l` store the colours `pat` to the points of `A` on the screen, and
nothing else.  The strips, the centre and the corners of a window are painted in one pattern, which depends on the
distances of a point to the nearer sides of the rectangle (`windowPattern`), so they tile the rectangle and the
pattern is symmetric (`guiDrawWindow_painted`).
-/

namespace PpoOS

variable {ctx : GuiContext} {A B : Int → Int → Prop} {pat : Int → Int → U32} {l l' : List GuiAccess} {mem : Int → U32}
  {px py X Y W H : Int} {x y w h radius : I32} {bg border c : U32}

/-! ## Painted areas -/

/-- A point of the screen. -/
def OnScreen (ctx : GuiContext) (px py : Int) : Prop :=
  (0 ≤ px ∧ px < ctx.width.toNat) ∧ 0 ≤ py ∧ py < ctx.height.toNat

/-- A point of a rectangle. -/
def InRect (X Y W H px py : Int) : Prop := (X ≤ px ∧ px < X + W) ∧ Y ≤ py ∧ py < Y + H

theorem inClip_iff : InClip ctx X Y W H px py ↔ InRect X Y W H px py ∧ OnScreen ctx px py := by
  constructor
  · rintro ⟨hleft, hright, htop, hbottom⟩
    unfold InRect OnScreen
    omega
  · rintro ⟨⟨⟨hleft, hright⟩, htop, hbottom⟩, ⟨hleft', hright'⟩, htop', hbottom'⟩
    exact ⟨by omega, by omega, by omega, by omega⟩

/-- The accesses paint the area in a pattern, as far as it is on the screen. -/
structure Paints (ctx : GuiContext) (A : Int → Int → Prop) (pat : Int → Int → U32) (l : List GuiAccess) : Prop where
  only : ∀ a ∈ l, ∃ px py, A px py ∧ OnScreen ctx px py ∧ a = .store (pointIndex ctx px py) (pat px py)
  all : ∀ px py, A px py → OnScreen ctx px py → .store (pointIndex ctx px py) (pat px py) ∈ l

namespace Paints

theorem append (h : Paints ctx A pat l) (h' : Paints ctx B pat l') :
    Paints ctx (fun px py => A px py ∨ B px py) pat (l ++ l') := by
  constructor
  · intro a ha
    rcases List.mem_append.mp ha with ha | ha
    · obtain ⟨px, py, hA, hrest⟩ := h.only a ha
      exact ⟨px, py, .inl hA, hrest⟩
    · obtain ⟨px, py, hB, hrest⟩ := h'.only a ha
      exact ⟨px, py, .inr hB, hrest⟩
  · rintro px py (hA | hB) hon
    · exact List.mem_append_left _ (h.all px py hA hon)
    · exact List.mem_append_right _ (h'.all px py hB hon)

/-- A loop paints the union of the areas of its steps. -/
theorem flatMap {ι : Type} {is : List ι} {f : ι → List GuiAccess} {A : ι → Int → Int → Prop}
    (h : ∀ i ∈ is, Paints ctx (A i) pat (f i)) :
    Paints ctx (fun px py => ∃ i ∈ is, A i px py) pat (is.flatMap f) := by
  constructor
  · intro a ha
    obtain ⟨i, hi, ha⟩ := List.mem_flatMap.mp ha
    obtain ⟨px, py, hA, hrest⟩ := (h i hi).only a ha
    exact ⟨px, py, ⟨i, hi, hA⟩, hrest⟩
  · rintro px py ⟨i, hi, hA⟩ hon
    exact List.mem_flatMap.mpr ⟨i, hi, (h i hi).all px py hA hon⟩

theorem congr (h : Paints ctx A pat l) (hAB : ∀ px py, A px py ↔ B px py) : Paints ctx B pat l := by
  obtain rfl : A = B := funext fun px => funext fun py => propext (hAB px py)
  exact h

/-- A point of the area gets its colour. -/
theorem paint_eq (h : Paints ctx A pat l) (hA : A px py) (hon : OnScreen ctx px py) :
    paint l mem (pointIndex ctx px py) = pat px py := by
  refine paint_of_stored ⟨_, h.all px py hA hon⟩ fun c hc => ?_
  obtain ⟨qx, qy, -, hon', heq⟩ := h.only _ hc
  obtain ⟨hidx, rfl⟩ := GuiAccess.store.inj heq
  obtain ⟨rfl, rfl⟩ := pointIndex_inj hon.1 hon'.1 hidx
  rfl

/-- Everything else keeps its value. -/
theorem paint_keep (h : Paints ctx A pat l) {idx : Int}
    (hidx : ∀ px py, A px py → OnScreen ctx px py → idx ≠ pointIndex ctx px py) : paint l mem idx = mem idx := by
  refine paint_of_unstored fun c hc => ?_
  obtain ⟨px, py, hA, hon, heq⟩ := h.only _ hc
  exact hidx px py hA hon (GuiAccess.store.inj heq).1

/-- A fill paints its rectangle in one colour. -/
theorem fill (hsmall : ctx.Small) (hbuf : ctx.backbuffer = true) (hx : x.toInt = X) (hy : y.toInt = Y) (hw : w.toInt = W)
    (hh : h.toInt = H) (h0 : 0 ≤ X ∧ 0 ≤ Y) (hlt : X + W < 2147483648 ∧ Y + H < 2147483648)
    (hpat : ∀ px py, InRect X Y W H px py → pat px py = c) :
    Paints ctx (InRect X Y W H) pat (guiFillRect ctx x y w h c) := by
  subst hx hy hw hh
  constructor
  · intro a ha
    obtain ⟨-, -, px, py, hclip, rfl⟩ := (mem_guiFillRect_iff hsmall hlt.1 hlt.2).mp ha
    obtain ⟨hrect, hon⟩ := inClip_iff.mp hclip
    exact ⟨px, py, hrect, hon, by rw [hpat px py hrect]⟩
  · intro px py hrect hon
    rw [hpat px py hrect]
    exact (mem_guiFillRect_iff hsmall hlt.1 hlt.2).mpr ⟨hbuf, h0, px, py, inClip_iff.mpr ⟨hrect, hon⟩, rfl⟩

end Paints

/-! ## The pattern of a window -/

/-- The distance to the nearer one of two sides. -/
def sideDist (X W px : Int) : Int := min (px - X) (X + W - 1 - px)

theorem le_sideDist {r : Int} : r ≤ sideDist X W px ↔ X + r ≤ px ∧ px < X + W - r := by
  unfold sideDist
  omega

theorem sideDist_eq_iff {i : Int} (hi : 2 * i < W) : sideDist X W px = i ↔ px = X + i ∨ px = X + W - 1 - i := by
  unfold sideDist
  omega

theorem sideDist_mirror (X W px : Int) : sideDist X W (2 * X + W - 1 - px) = sideDist X W px := by
  unfold sideDist
  omega

/-- A pattern given by the distances to the nearer sides. -/
def windowPattern (X Y W H : Int) (style : Int → Int → U32) (px py : Int) : U32 :=
  style (sideDist X W px) (sideDist Y H py)

/-- Without a radius: a border of one point. -/
def squareStyle (bg border : U32) (a b : Int) : U32 := if 1 ≤ a ∧ 1 ≤ b then bg else border

/-- With a radius: strips as wide as the radius, and corners that are cut by a circle. -/
def roundedStyle (r : Int) (bg border : U32) (a b : Int) : U32 :=
  if r ≤ a ∧ r ≤ b then bg
  else if r ≤ a ∨ r ≤ b then border
  else if r * r ≤ (r - 1 - a) * (r - 1 - a) + (r - 1 - b) * (r - 1 - b) then border else bg

/-- The pattern is the same from the left and from the right. -/
theorem windowPattern_left_right (X Y W H : Int) (style : Int → Int → U32) (px py : Int) :
    windowPattern X Y W H style (2 * X + W - 1 - px) py = windowPattern X Y W H style px py := by
  rw [windowPattern, windowPattern, sideDist_mirror]

theorem windowPattern_top_bottom (X Y W H : Int) (style : Int → Int → U32) (px py : Int) :
    windowPattern X Y W H style px (2 * Y + H - 1 - py) = windowPattern X Y W H style px py := by
  rw [windowPattern, windowPattern, sideDist_mirror]

/-- A point at one of the sides has the colour of the border. -/
theorem squarePattern_line (h : (px < X + 1 ∨ X + W - 1 ≤ px) ∨ py < Y + 1 ∨ Y + H - 1 ≤ py) :
    windowPattern X Y W H (squareStyle bg border) px py = border := by
  refine if_neg fun hin => ?_
  rw [le_sideDist, le_sideDist] at hin
  omega

/-- A point that is near to two opposite sides only has the colour of the border. -/
theorem roundedPattern_strip {r : Int} (h : (r ≤ sideDist X W px ∧ (py < Y + r ∨ Y + H - r ≤ py)) ∨
    (px < X + r ∨ X + W - r ≤ px) ∧ r ≤ sideDist Y H py) :
    windowPattern X Y W H (roundedStyle r bg border) px py = border := by
  have hnear : ∀ {Z L p}, (p < Z + r ∨ Z + L - r ≤ p) → ¬r ≤ sideDist Z L p := fun hp hin => by
    rw [le_sideDist] at hin
    omega
  rcases h with ⟨hx, hy⟩ | ⟨hx, hy⟩
  · exact (if_neg fun hin => hnear hy hin.2).trans (if_pos (.inl hx))
  · exact (if_neg fun hin => hnear hx hin.1).trans (if_pos (.inr hy))

/-! ## Tilings -/

/-- The points of the rectangle that are not near to its sides. -/
theorem inRect_inset {r : Int} : InRect (X + r) (Y + r) (W - 2 * r) (H - 2 * r) px py ↔
    r ≤ sideDist X W px ∧ r ≤ sideDist Y H py := by
  rw [le_sideDist, le_sideDist]
  unfold InRect
  omega

theorem inRect_point : InRect X Y 1 1 px py ↔ px = X ∧ py = Y := by
  unfold InRect
  omega

/-- The lines and the inside are the rectangle. -/
theorem inRect_lines (hw : 2 < W) (hh : 2 < H) : ((((InRect X Y W 1 px py ∨ InRect X (Y + H - 1) W 1 px py) ∨
    InRect X Y 1 H px py) ∨ InRect (X + W - 1) Y 1 H px py) ∨
      InRect (X + 1) (Y + 1) (W - 2 * 1) (H - 2 * 1) px py) ↔ InRect X Y W H px py := by
  unfold InRect
  omega

/-- The strips and the centre are the points of the rectangle that are not near to two sides. -/
theorem inRect_strips {r : Int} (hr : 1 ≤ r) (hw : 2 * r ≤ W) (hh : 2 * r ≤ H) :
    ((((InRect (X + r) Y (W - 2 * r) r px py ∨ InRect (X + r) (Y + H - r) (W - 2 * r) r px py) ∨
      InRect X (Y + r) r (H - 2 * r) px py) ∨ InRect (X + W - r) (Y + r) r (H - 2 * r) px py) ∨
      InRect (X + r) (Y + r) (W - 2 * r) (H - 2 * r) px py) ↔
    InRect X Y W H px py ∧ (r ≤ sideDist X W px ∨ r ≤ sideDist Y H py) := by
  rw [le_sideDist, le_sideDist]
  unfold InRect
  omega

/-- The points with given distances to the nearer sides. -/
theorem inRect_corners {i j : Int} (hi : 2 * i < W) (hj : 2 * j < H) :
    (((InRect (X + i) (Y + j) 1 1 px py ∨ InRect (X + W - 1 - i) (Y + j) 1 1 px py) ∨
      InRect (X + i) (Y + H - 1 - j) 1 1 px py) ∨ InRect (X + W - 1 - i) (Y + H - 1 - j) 1 1 px py) ↔
    sideDist X W px = i ∧ sideDist Y H py = j := by
  rw [sideDist_eq_iff hi, sideDist_eq_iff hj, inRect_point, inRect_point, inRect_point, inRect_point]
  omega

/-! ## The parts of a window -/

theorem toInt_two_mul {a : I32} (h : 0 ≤ a.toInt) (h' : a.toInt < 2 ^ 15) : (2 * a).toInt = 2 * a.toInt := by
  have htwo : (2 : I32).toInt = 2 := rfl
  rw [BitVec.toInt_mul, htwo, Int.bmod_def]
  omega

/-- The square of a short length. -/
theorem toInt_mul_self {a : I32} (h : 0 ≤ a.toInt) (h' : a.toInt < 2 ^ 14) :
    (a * a).toInt = a.toInt * a.toInt ∧ 0 ≤ a.toInt * a.toInt ∧ a.toInt * a.toInt ≤ 2 ^ 28 := by
  have hle : a.toInt * a.toInt ≤ 2 ^ 14 * 2 ^ 14 := Int.mul_le_mul (by omega) (by omega) h (by omega)
  have hnonneg : 0 ≤ a.toInt * a.toInt := Int.mul_nonneg h h
  refine ⟨?_, hnonneg, hle⟩
  rw [BitVec.toInt_mul, Int.bmod_def]
  omega

/-- The values of a loop variable that runs to the end. -/
theorem mem_loopWhile_true {n i : I32} : i ∈ loopWhile n (fun _ => true) ↔ 0 ≤ i.toInt ∧ i.toInt < n.toInt := by
  have hn := toInt_bounds n
  rw [mem_loopWhile]
  constructor
  · rintro ⟨k, hk, rfl, -⟩
    have hint : (BitVec.ofNat 32 k).toInt = k := by
      rw [BitVec.toInt_eq_toNat_of_lt] <;> rw [BitVec.toNat_ofNat] <;> omega
    omega
  · rintro ⟨h0, hlt⟩
    have hnat := toNat_of_nonneg h0
    exact ⟨i.toNat, by omega, by simp, fun _ _ => rfl⟩

section Parts

variable (hsmall : ctx.Small) (hbuf : ctx.backbuffer = true) (hx : 0 ≤ x.toInt ∧ x.toInt < 2 ^ 15)
  (hy : 0 ≤ y.toInt ∧ y.toInt < 2 ^ 15) (hw : 2 < w.toInt ∧ w.toInt < 2 ^ 15) (hh : 2 < h.toInt ∧ h.toInt < 2 ^ 15)

include hsmall hbuf hx hy hw hh

/-- The four lines of the border and the inside. -/
theorem paints_square : Paints ctx (InRect x.toInt y.toInt w.toInt h.toInt)
    (windowPattern x.toInt y.toInt w.toInt h.toInt (squareStyle bg border))
    (guiFillRect ctx x y w 1 border ++ guiFillRect ctx x (y + h - 1) w 1 border ++ guiFillRect ctx x y 1 h border ++
      guiFillRect ctx (x + w - 1) y 1 h border ++ guiFillRect ctx (x + 1) (y + 1) (w - 2) (h - 2) bg) := by
  have hone : (1 : I32).toInt = 1 := rfl
  have htwo : (2 : I32).toInt = 2 := rfl
  have hxw : (x + w).toInt = x.toInt + w.toInt := toInt_add_of_bounds (by omega) (by omega)
  have hyh : (y + h).toInt = y.toInt + h.toInt := toInt_add_of_bounds (by omega) (by omega)
  have hright : (x + w - 1).toInt = x.toInt + w.toInt - 1 := by rw [toInt_sub_of_bounds] <;> omega
  have hbottom : (y + h - 1).toInt = y.toInt + h.toInt - 1 := by rw [toInt_sub_of_bounds] <;> omega
  have hx1 : (x + 1).toInt = x.toInt + 1 := by rw [toInt_add_of_bounds] <;> omega
  have hy1 : (y + 1).toInt = y.toInt + 1 := by rw [toInt_add_of_bounds] <;> omega
  have hw2 : (w - 2).toInt = w.toInt - 2 * 1 := by rw [toInt_sub_of_bounds] <;> omega
  have hh2 : (h - 2).toInt = h.toInt - 2 * 1 := by rw [toInt_sub_of_bounds] <;> omega
  obtain ⟨pat, hpat⟩ : ∃ pat, pat = windowPattern x.toInt y.toInt w.toInt h.toInt (squareStyle bg border) := ⟨_, rfl⟩
  have hline : ∀ {px py}, (px < x.toInt + 1 ∨ x.toInt + w.toInt - 1 ≤ px) ∨
      py < y.toInt + 1 ∨ y.toInt + h.toInt - 1 ≤ py → pat px py = border := fun hnear => by
    rw [hpat]
    exact squarePattern_line hnear
  have top : Paints ctx (InRect x.toInt y.toInt w.toInt 1) pat (guiFillRect ctx x y w 1 border) :=
    .fill hsmall hbuf rfl rfl rfl hone (by omega) (by omega) fun _ _ hp => hline (.inr (.inl hp.2.2))
  have bottom : Paints ctx (InRect x.toInt (y.toInt + h.toInt - 1) w.toInt 1) pat
      (guiFillRect ctx x (y + h - 1) w 1 border) :=
    .fill hsmall hbuf rfl hbottom rfl hone (by omega) (by omega) fun _ _ hp => hline (.inr (.inr hp.2.1))
  have left : Paints ctx (InRect x.toInt y.toInt 1 h.toInt) pat (guiFillRect ctx x y 1 h border) :=
    .fill hsmall hbuf rfl rfl hone rfl (by omega) (by omega) fun _ _ hp => hline (.inl (.inl hp.1.2))
  have right : Paints ctx (InRect (x.toInt + w.toInt - 1) y.toInt 1 h.toInt) pat
      (guiFillRect ctx (x + w - 1) y 1 h border) :=
    .fill hsmall hbuf hright rfl hone rfl (by omega) (by omega) fun _ _ hp => hline (.inl (.inr hp.1.1))
  have inside : Paints ctx (InRect (x.toInt + 1) (y.toInt + 1) (w.toInt - 2 * 1) (h.toInt - 2 * 1)) pat
      (guiFillRect ctx (x + 1) (y + 1) (w - 2) (h - 2) bg) :=
    .fill hsmall hbuf hx1 hy1 hw2 hh2 (by omega) (by omega) fun _ _ hp => by
      rw [hpat]
      exact if_pos (inRect_inset.mp hp)
  rw [← hpat]
  exact ((((top.append bottom).append left).append right).append inside).congr fun px py => inRect_lines hw.1 hh.1

variable (hr : 1 ≤ radius.toInt) (hrw : 2 * radius.toInt ≤ w.toInt) (hrh : 2 * radius.toInt ≤ h.toInt)

include hr hrw hrh

variable (bg border) in
/-- The strips and the centre are the points that are not near to two sides. -/
theorem paints_strips : Paints ctx (fun px py => InRect x.toInt y.toInt w.toInt h.toInt px py ∧
      (radius.toInt ≤ sideDist x.toInt w.toInt px ∨ radius.toInt ≤ sideDist y.toInt h.toInt py))
    (windowPattern x.toInt y.toInt w.toInt h.toInt (roundedStyle radius.toInt bg border))
    (guiFillRect ctx (x + radius) y (w - 2 * radius) radius border ++
      guiFillRect ctx (x + radius) (y + h - radius) (w - 2 * radius) radius border ++
      guiFillRect ctx x (y + radius) radius (h - 2 * radius) border ++
      guiFillRect ctx (x + w - radius) (y + radius) radius (h - 2 * radius) border ++
      guiFillRect ctx (x + radius) (y + radius) (w - 2 * radius) (h - 2 * radius) bg) := by
  have hxw : (x + w).toInt = x.toInt + w.toInt := toInt_add_of_bounds (by omega) (by omega)
  have hyh : (y + h).toInt = y.toInt + h.toInt := toInt_add_of_bounds (by omega) (by omega)
  have hxr : (x + radius).toInt = x.toInt + radius.toInt := toInt_add_of_bounds (by omega) (by omega)
  have hyr : (y + radius).toInt = y.toInt + radius.toInt := toInt_add_of_bounds (by omega) (by omega)
  have hright : (x + w - radius).toInt = x.toInt + w.toInt - radius.toInt := by rw [toInt_sub_of_bounds] <;> omega
  have hbottom : (y + h - radius).toInt = y.toInt + h.toInt - radius.toInt := by rw [toInt_sub_of_bounds] <;> omega
  have htwice := toInt_two_mul (a := radius) (by omega) (by omega)
  have hw2 : (w - 2 * radius).toInt = w.toInt - 2 * radius.toInt := by rw [toInt_sub_of_bounds] <;> omega
  have hh2 : (h - 2 * radius).toInt = h.toInt - 2 * radius.toInt := by rw [toInt_sub_of_bounds] <;> omega
  obtain ⟨pat, hpat⟩ : ∃ pat,
      pat = windowPattern x.toInt y.toInt w.toInt h.toInt (roundedStyle radius.toInt bg border) := ⟨_, rfl⟩
  rw [← hpat]
  -- a strip along two opposite sides, and one along the other two
  have hrow : ∀ {px py}, x.toInt + radius.toInt ≤ px ∧ px < x.toInt + radius.toInt + (w.toInt - 2 * radius.toInt) →
      py < y.toInt + radius.toInt ∨ y.toInt + h.toInt - radius.toInt ≤ py → pat px py = border := fun hin hnear => by
    rw [hpat]
    exact roundedPattern_strip (.inl ⟨le_sideDist.mpr (by omega), hnear⟩)
  have hcolumn : ∀ {px py}, px < x.toInt + radius.toInt ∨ x.toInt + w.toInt - radius.toInt ≤ px →
      y.toInt + radius.toInt ≤ py ∧ py < y.toInt + radius.toInt + (h.toInt - 2 * radius.toInt) →
        pat px py = border := fun hnear hin => by
    rw [hpat]
    exact roundedPattern_strip (.inr ⟨hnear, le_sideDist.mpr (by omega)⟩)
  have top : Paints ctx (InRect (x.toInt + radius.toInt) y.toInt (w.toInt - 2 * radius.toInt) radius.toInt) pat
      (guiFillRect ctx (x + radius) y (w - 2 * radius) radius border) :=
    .fill hsmall hbuf hxr rfl hw2 rfl (by omega) (by omega) fun _ _ hp => hrow hp.1 (.inl hp.2.2)
  have bottom : Paints ctx (InRect (x.toInt + radius.toInt) (y.toInt + h.toInt - radius.toInt)
      (w.toInt - 2 * radius.toInt) radius.toInt) pat
      (guiFillRect ctx (x + radius) (y + h - radius) (w - 2 * radius) radius border) :=
    .fill hsmall hbuf hxr hbottom hw2 rfl (by omega) (by omega) fun _ _ hp => hrow hp.1 (.inr hp.2.1)
  have left : Paints ctx (InRect x.toInt (y.toInt + radius.toInt) radius.toInt (h.toInt - 2 * radius.toInt)) pat
      (guiFillRect ctx x (y + radius) radius (h - 2 * radius) border) :=
    .fill hsmall hbuf rfl hyr rfl hh2 (by omega) (by omega) fun _ _ hp => hcolumn (.inl hp.1.2) hp.2
  have right : Paints ctx (InRect (x.toInt + w.toInt - radius.toInt) (y.toInt + radius.toInt) radius.toInt
      (h.toInt - 2 * radius.toInt)) pat
      (guiFillRect ctx (x + w - radius) (y + radius) radius (h - 2 * radius) border) :=
    .fill hsmall hbuf hright hyr rfl hh2 (by omega) (by omega) fun _ _ hp => hcolumn (.inr hp.1.1) hp.2
  have centre : Paints ctx (InRect (x.toInt + radius.toInt) (y.toInt + radius.toInt) (w.toInt - 2 * radius.toInt)
      (h.toInt - 2 * radius.toInt)) pat
      (guiFillRect ctx (x + radius) (y + radius) (w - 2 * radius) (h - 2 * radius) bg) :=
    .fill hsmall hbuf hxr hyr hw2 hh2 (by omega) (by omega) fun _ _ hp => by
      rw [hpat]
      exact if_pos (inRect_inset.mp hp)
  exact ((((top.append bottom).append left).append right).append centre).congr fun px py => inRect_strips hr hrw hrh

variable (bg border) in
/-- The four points of a step of the corner loops. -/
theorem paints_corner {i j : I32} (hi : 0 ≤ i.toInt ∧ i.toInt < radius.toInt)
    (hj : 0 ≤ j.toInt ∧ j.toInt < radius.toInt)
    (hc : c = if radius.toInt * radius.toInt ≤ (radius.toInt - 1 - i.toInt) * (radius.toInt - 1 - i.toInt) +
      (radius.toInt - 1 - j.toInt) * (radius.toInt - 1 - j.toInt) then border else bg) :
    Paints ctx (fun px py => sideDist x.toInt w.toInt px = i.toInt ∧ sideDist y.toInt h.toInt py = j.toInt)
      (windowPattern x.toInt y.toInt w.toInt h.toInt (roundedStyle radius.toInt bg border))
      (guiFillRect ctx (x + i) (y + j) 1 1 c ++ guiFillRect ctx (x + w - 1 - i) (y + j) 1 1 c ++
        guiFillRect ctx (x + i) (y + h - 1 - j) 1 1 c ++ guiFillRect ctx (x + w - 1 - i) (y + h - 1 - j) 1 1 c) := by
  have hone : (1 : I32).toInt = 1 := rfl
  have hxw : (x + w).toInt = x.toInt + w.toInt := toInt_add_of_bounds (by omega) (by omega)
  have hyh : (y + h).toInt = y.toInt + h.toInt := toInt_add_of_bounds (by omega) (by omega)
  have hxi : (x + i).toInt = x.toInt + i.toInt := toInt_add_of_bounds (by omega) (by omega)
  have hyj : (y + j).toInt = y.toInt + j.toInt := toInt_add_of_bounds (by omega) (by omega)
  have hxw1 : (x + w - 1).toInt = x.toInt + w.toInt - 1 := by rw [toInt_sub_of_bounds] <;> omega
  have hyh1 : (y + h - 1).toInt = y.toInt + h.toInt - 1 := by rw [toInt_sub_of_bounds] <;> omega
  have hxwi : (x + w - 1 - i).toInt = x.toInt + w.toInt - 1 - i.toInt := by rw [toInt_sub_of_bounds] <;> omega
  have hyhj : (y + h - 1 - j).toInt = y.toInt + h.toInt - 1 - j.toInt := by rw [toInt_sub_of_bounds] <;> omega
  have hiw : 2 * i.toInt < w.toInt := by omega
  have hjh : 2 * j.toInt < h.toInt := by omega
  -- a point with these distances
  have hpoint : ∀ {X Y : Int} {a b : I32}, a.toInt = X → b.toInt = Y →
      (X = x.toInt + i.toInt ∨ X = x.toInt + w.toInt - 1 - i.toInt) →
      (Y = y.toInt + j.toInt ∨ Y = y.toInt + h.toInt - 1 - j.toInt) →
        Paints ctx (InRect X Y 1 1)
          (windowPattern x.toInt y.toInt w.toInt h.toInt (roundedStyle radius.toInt bg border))
          (guiFillRect ctx a b 1 1 c) := fun {X Y a b} ha hb hX hY => by
    refine .fill hsmall hbuf ha hb hone hone (by omega) (by omega) fun px py hp => ?_
    obtain ⟨rfl, rfl⟩ := inRect_point.mp hp
    rw [windowPattern, (sideDist_eq_iff hiw).mpr hX, (sideDist_eq_iff hjh).mpr hY, roundedStyle, if_neg (by omega),
      if_neg (by omega), hc]
  have topLeft := hpoint hxi hyj (.inl rfl) (.inl rfl)
  have topRight := hpoint hxwi hyj (.inr rfl) (.inl rfl)
  have bottomLeft := hpoint hxi hyhj (.inl rfl) (.inr rfl)
  have bottomRight := hpoint hxwi hyhj (.inr rfl) (.inr rfl)
  exact (((topLeft.append topRight).append bottomLeft).append bottomRight).congr fun px py => inRect_corners hiw hjh

/-- The strips, the centre and the corners. -/
theorem paints_rounded : Paints ctx (InRect x.toInt y.toInt w.toInt h.toInt)
    (windowPattern x.toInt y.toInt w.toInt h.toInt (roundedStyle radius.toInt bg border))
    (drawRounded ctx x y w h bg border radius) := by
  have hone : (1 : I32).toInt = 1 := rfl
  have hr1 : (radius - 1).toInt = radius.toInt - 1 := by rw [toInt_sub_of_bounds] <;> omega
  have hsquare := toInt_mul_self (a := radius) (by omega) (by omega)
  have hlen : ∀ i : I32, i ∈ loopWhile radius (fun _ => true) →
      (radius - 1 - i).toInt = radius.toInt - 1 - i.toInt := fun i hi => by
    have hi := mem_loopWhile_true.mp hi
    rw [toInt_sub_of_bounds] <;> omega
  -- the comparison does not overflow
  have hcolor : ∀ i j : I32, i ∈ loopWhile radius (fun _ => true) → j ∈ loopWhile radius (fun _ => true) →
      ((radius * radius).sle ((radius - 1 - i) * (radius - 1 - i) + (radius - 1 - j) * (radius - 1 - j)) = true ↔
        radius.toInt * radius.toInt ≤ (radius.toInt - 1 - i.toInt) * (radius.toInt - 1 - i.toInt) +
          (radius.toInt - 1 - j.toInt) * (radius.toInt - 1 - j.toInt)) := fun i j hi hj => by
    have hdx := hlen i hi
    have hdy := hlen j hj
    have hi := mem_loopWhile_true.mp hi
    have hj := mem_loopWhile_true.mp hj
    obtain ⟨hx2, hx0, hxle⟩ := toInt_mul_self (a := radius - 1 - i) (by omega) (by omega)
    obtain ⟨hy2, hy0, hyle⟩ := toInt_mul_self (a := radius - 1 - j) (by omega) (by omega)
    rw [BitVec.sle, decide_eq_true_eq, hsquare.1, toInt_add_of_bounds (by omega) (by omega), hx2, hy2, hdx, hdy]
  have hstrips := paints_strips bg border hsmall hbuf hx hy hw hh hr hrw hrh
  have hcorners := Paints.flatMap fun j hj => Paints.flatMap fun i hi => paints_corner bg border
    hsmall hbuf hx hy hw hh hr hrw hrh (mem_loopWhile_true.mp hi) (mem_loopWhile_true.mp hj)
      (if_congr (hcolor i j hi hj) (Eq.refl border) (Eq.refl bg))
  refine (hstrips.append hcorners).congr fun px py => ?_
  constructor
  · rintro (⟨hrect, -⟩ | ⟨j, hj, i, hi, hpx, hpy⟩)
    · exact hrect
    · have hi := mem_loopWhile_true.mp hi
      have hj := mem_loopWhile_true.mp hj
      have hpx := le_sideDist.mp (Int.le_of_eq hpx.symm)
      have hpy := le_sideDist.mp (Int.le_of_eq hpy.symm)
      unfold InRect
      omega
  · intro hrect
    by_cases hnear : radius.toInt ≤ sideDist x.toInt w.toInt px ∨ radius.toInt ≤ sideDist y.toInt h.toInt py
    · exact .inl ⟨hrect, hnear⟩
    · have hx0 : 0 ≤ sideDist x.toInt w.toInt px := le_sideDist.mpr (by unfold InRect at hrect; omega)
      have hy0 : 0 ≤ sideDist y.toInt h.toInt py := le_sideDist.mpr (by unfold InRect at hrect; omega)
      have hi := toInt_ofInt_of_bounds (n := sideDist x.toInt w.toInt px) (by omega) (by omega)
      have hj := toInt_ofInt_of_bounds (n := sideDist y.toInt h.toInt py) (by omega) (by omega)
      exact .inr ⟨_, mem_loopWhile_true.mpr (by rw [hj]; omega), _, mem_loopWhile_true.mpr (by rw [hi]; omega),
        hi.symm, hj.symm⟩

end Parts

/-! ## Windows -/

/-- One clamp of the radius. -/
theorem toInt_clamp (n radius : I32) (hn : 2 < n.toInt) (hr : 1 ≤ radius.toInt) (hlt : radius.toInt < 2 ^ 15) :
    (if n.slt (radius * 2) then n.sdiv 2 else radius).toInt = min radius.toInt (n.toInt / 2) := by
  have htwo : (2 : I32).toInt = 2 := rfl
  have hbounds := toInt_bounds n
  have htwice : (radius * 2).toInt = 2 * radius.toInt := by rw [BitVec.mul_comm, toInt_two_mul (by omega) hlt]
  have hhalf : (n.sdiv 2).toInt = n.toInt / 2 := by
    rw [BitVec.toInt_sdiv, htwo, Int.tdiv_eq_ediv_of_nonneg (by omega), Int.bmod_def]
    omega
  rw [BitVec.slt, htwice]
  split
  · rename_i hclamp
    have := of_decide_eq_true hclamp
    rw [hhalf]
    omega
  · rename_i hkeep
    have : ¬n.toInt < 2 * radius.toInt := fun h => hkeep (decide_eq_true h)
    omega

/-- A window is painted in a pattern. -/
theorem guiDrawWindow_paints (bg border : U32) (hsmall : ctx.Small) (hbuf : ctx.backbuffer = true)
    (hx : 0 ≤ x.toInt ∧ x.toInt < 2 ^ 15) (hy : 0 ≤ y.toInt ∧ y.toInt < 2 ^ 15) (hw : 2 < w.toInt ∧ w.toInt < 2 ^ 15)
    (hh : 2 < h.toInt ∧ h.toInt < 2 ^ 15) (hradius : radius.toInt < 2 ^ 15) :
    ∃ style : Int → Int → U32, (∀ a b, style a b = border ∨ style a b = bg) ∧
      Paints ctx (InRect x.toInt y.toInt w.toInt h.toInt) (windowPattern x.toInt y.toInt w.toInt h.toInt style)
        (guiDrawWindow ctx x y w h bg border radius) := by
  have htwo : (2 : I32).toInt = 2 := rfl
  have hzero : (0 : I32).toInt = 0 := rfl
  have hlarge : ¬(w.sle 2 || h.sle 2) = true := by
    simp only [BitVec.sle, htwo, Bool.or_eq_true, decide_eq_true_eq]
    omega
  rw [guiDrawWindow, if_neg hlarge]
  by_cases hflat : radius.toInt ≤ 0
  · rw [if_pos (by rw [BitVec.sle, hzero]; exact decide_eq_true hflat)]
    refine ⟨squareStyle bg border, fun a b => ?_, paints_square hsmall hbuf hx hy hw hh⟩
    unfold squareStyle
    split
    · exact .inr rfl
    · exact .inl rfl
  · rw [if_neg (by rw [BitVec.sle, hzero]; exact fun h => hflat (of_decide_eq_true h))]
    have h1 := toInt_clamp w radius hw.1 (by omega) hradius
    dsimp only
    generalize (if w.slt (radius * 2) then w.sdiv 2 else radius) = radius₁ at h1 ⊢
    have h2 := toInt_clamp h radius₁ hh.1 (by omega) (by omega)
    generalize (if h.slt (radius₁ * 2) then h.sdiv 2 else radius₁) = radius₂ at h2 ⊢
    refine ⟨roundedStyle radius₂.toInt bg border, fun a b => ?_,
      paints_rounded hsmall hbuf hx hy hw hh (by omega) (by omega) (by omega)⟩
    unfold roundedStyle
    split_ifs <;> simp

/-- The points of the window on the screen get one of the two colours and nothing else changes; where all of
the window is on the screen, the pattern is its own reflection. -/
def WindowPainted (ctx : GuiContext) (x y w h : I32) (bg border : U32) (radius : I32) : Prop :=
  ctx.backbuffer = true → ∀ mem : Int → U32,
    let after := fun px py => paint (guiDrawWindow ctx x y w h bg border radius) mem (pointIndex ctx px py)
    (∀ px py, InClip ctx x.toInt y.toInt w.toInt h.toInt px py → after px py = border ∨ after px py = bg) ∧
    (∀ idx, (∀ px py, InClip ctx x.toInt y.toInt w.toInt h.toInt px py → idx ≠ pointIndex ctx px py) →
      paint (guiDrawWindow ctx x y w h bg border radius) mem idx = mem idx) ∧
    (x.toInt + w.toInt ≤ ctx.width.toNat → y.toInt + h.toInt ≤ ctx.height.toNat → border ≠ bg →
      ∀ px py, InRect x.toInt y.toInt w.toInt h.toInt px py →
        after (2 * x.toInt + w.toInt - 1 - px) py = after px py ∧
          after px (2 * y.toInt + h.toInt - 1 - py) = after px py)

theorem guiDrawWindow_painted (hsmall : ctx.Small) (hx : 0 ≤ x.toInt ∧ x.toInt < 2 ^ 15)
    (hy : 0 ≤ y.toInt ∧ y.toInt < 2 ^ 15) (hw : 2 < w.toInt ∧ w.toInt < 2 ^ 15) (hh : 2 < h.toInt ∧ h.toInt < 2 ^ 15)
    (hradius : radius.toInt < 2 ^ 15) (bg border : U32) : WindowPainted ctx x y w h bg border radius := by
  intro hbuf mem
  obtain ⟨style, hstyle, hpaints⟩ := guiDrawWindow_paints bg border hsmall hbuf hx hy hw hh hradius
  refine ⟨fun px py hclip => ?_, fun idx hidx => ?_, fun hright hbottom _ px py hrect => ?_⟩
  · obtain ⟨hrect, hon⟩ := inClip_iff.mp hclip
    dsimp only
    rw [hpaints.paint_eq hrect hon]
    exact hstyle _ _
  · exact hpaints.paint_keep fun px py hrect hon => hidx px py (inClip_iff.mpr ⟨hrect, hon⟩)
  · have hpoint : ∀ {px py}, InRect x.toInt y.toInt w.toInt h.toInt px py →
        paint (guiDrawWindow ctx x y w h bg border radius) mem (pointIndex ctx px py) =
          windowPattern x.toInt y.toInt w.toInt h.toInt style px py := fun {px py} hrect =>
      hpaints.paint_eq hrect (by unfold InRect at hrect; unfold OnScreen; omega)
    dsimp only
    rw [hpoint hrect, hpoint (by unfold InRect at hrect ⊢; omega), hpoint (by unfold InRect at hrect ⊢; omega)]
    exact ⟨windowPattern_left_right _ _ _ _ style px py, windowPattern_top_bottom _ _ _ _ style px py⟩

theorem guiDrawWindow_painted_tiny : WindowPainted tinyScreen 1 1 6 5 0xcccccc#32 0x000000#32 2 :=
  guiDrawWindow_painted ⟨by decide, by decide⟩ ⟨by decide, by decide⟩ ⟨by decide, by decide⟩ ⟨by decide, by decide⟩
    ⟨by decide, by decide⟩ (by decide) 0xcccccc#32 0x000000#32

end PpoOS
