import PpoOS.Gui.Verify.Clicks

/-!
# What a filled rectangle changes

The stores of a drawing function are made one after the other (`paint`), so a point
has the colour of the last store to it.  `gui_fill_rect` stores its colour to the points
of the rectangle that are on the screen, if the rectangle does not begin to the left of the screen or above
it, and otherwise stores nothing (`mem_fillPixels_iff`); so the fill is the intersection of the rectangle with the
screen exactly where nothing is lost by that (`clippedFill_iff`).
-/

namespace PpoOS

variable {ctx : GuiContext} {x y w h : I32} {p : I32 × I32} {a : GuiAccess} {l : List GuiAccess}
  {mem : Int → U32} {idx px py : Int} {c color : U32}

/-! ## Memory -/

/-- The array after an access. -/
def GuiAccess.apply (mem : Int → U32) : GuiAccess → Int → U32
  | store index color => Function.update mem index color
  | load _ _ => mem

/-- The array after the accesses. -/
def paint (l : List GuiAccess) (mem : Int → U32) : Int → U32 := l.foldl GuiAccess.apply mem

/-- An entry without a store keeps its value. -/
theorem paint_of_unstored (h : ∀ c, GuiAccess.store idx c ∉ l) : paint l mem idx = mem idx := by
  induction l generalizing mem with
  | nil => rfl
  | cons a l ih =>
    have hrest : ∀ c, GuiAccess.store idx c ∉ l := fun c hc => h c (List.mem_cons_of_mem _ hc)
    rw [paint, List.foldl_cons]
    refine (ih hrest).trans ?_
    cases a with
    | load index dest => rfl
    | store index color =>
      have hne : idx ≠ index := by
        rintro rfl
        exact h color List.mem_cons_self
      exact Function.update_of_ne hne _ _

/-- An entry to which only one colour is stored gets it. -/
theorem paint_of_stored (hex : ∃ c, GuiAccess.store idx c ∈ l) (h : ∀ c', GuiAccess.store idx c' ∈ l → c' = c) :
    paint l mem idx = c := by
  induction l generalizing mem with
  | nil =>
    obtain ⟨c', hc'⟩ := hex
    cases hc'
  | cons a l ih =>
    have hrest : ∀ c', GuiAccess.store idx c' ∈ l → c' = c := fun c' hc' => h c' (List.mem_cons_of_mem _ hc')
    by_cases hlater : ∃ c', GuiAccess.store idx c' ∈ l
    · exact ih hlater hrest
    · -- the last store to the entry is the first access
      obtain ⟨c', hc'⟩ := hex
      have hhead : GuiAccess.store idx c' = a := (List.mem_cons.mp hc').resolve_right fun hm => hlater ⟨c', hm⟩
      obtain rfl := hhead
      rw [paint, List.foldl_cons]
      refine (paint_of_unstored fun c'' hc'' => hlater ⟨c'', hc''⟩).trans ?_
      rw [GuiAccess.apply, Function.update_self]
      exact h c' hc'

/-! ## Rectangles -/

/-- A point of a rectangle that is on the screen. -/
structure InClip (ctx : GuiContext) (x y w h : Int) (px py : Int) : Prop where
  left : max 0 x ≤ px
  right : px < min (ctx.width.toNat : Int) (x + w)
  top : max 0 y ≤ py
  bottom : py < min (ctx.height.toNat : Int) (y + h)

/-- The entry of a point. -/
def pointIndex (ctx : GuiContext) (px py : Int) : Int := py * ctx.width.toNat + px

/-- Points of the screen have entries of their own. -/
theorem pointIndex_inj {qx qy : Int} (hp : 0 ≤ px ∧ px < ctx.width.toNat) (hq : 0 ≤ qx ∧ qx < ctx.width.toNat)
    (h : pointIndex ctx px py = pointIndex ctx qx qy) : px = qx ∧ py = qy := by
  unfold pointIndex at h
  have hrow : py = qy := by
    have hdiv : (py * ctx.width.toNat + px) / (ctx.width.toNat : Int) =
        (qy * ctx.width.toNat + qx) / ctx.width.toNat := by rw [h]
    rwa [Int.add_comm, Int.add_mul_ediv_right _ _ (by omega), Int.ediv_eq_zero_of_lt hp.1 hp.2, Int.add_comm (_ * _),
      Int.add_mul_ediv_right _ _ (by omega), Int.ediv_eq_zero_of_lt hq.1 hq.2, Int.zero_add, Int.zero_add] at hdiv
  exact ⟨by rw [hrow] at h; omega, hrow⟩

/-! ## Columns and rows -/

theorem toInt_add_ofNat {x : I32} {k : Nat} (hx : 0 ≤ x.toInt) (h : x.toInt + k < 2147483648) :
    (x + BitVec.ofNat 32 k).toInt = x.toInt + k := by
  have hk : (BitVec.ofNat 32 k).toInt = k := by
    rw [BitVec.toInt_eq_toNat_of_lt] <;> rw [BitVec.toNat_ofNat] <;> omega
  rw [toInt_add_of_bounds (by rw [hk]; omega) (by rw [hk]; exact h), hk]

/-- The columns that a row stores to, and the rows. -/
theorem mem_columns {x w px : I32} {W : U32} (hx : 0 ≤ x.toInt) (hlt : x.toInt + w.toInt < 2147483648) :
    (∃ i ∈ loopWhile w fun i => x + i < W, x + i = px) ↔
      x.toInt ≤ px.toInt ∧ px.toInt < min (W.toNat : Int) (x.toInt + w.toInt) := by
  constructor
  · rintro ⟨i, hi, rfl⟩
    obtain ⟨k, hk, rfl, hall⟩ := mem_loopWhile.mp hi
    have hsum := toInt_add_ofNat (k := k) hx (by omega)
    have hok := of_decide_eq_true (hall k (Nat.le_refl k))
    rw [BitVec.lt_def] at hok
    have hnat := (toNat_of_nonneg (a := x + BitVec.ofNat 32 k) (by omega)).1
    omega
  · rintro ⟨hle, hmin⟩
    have hpx := (toNat_of_nonneg (a := px) (by omega)).1
    have hlast := toInt_add_ofNat (k := (px.toInt - x.toInt).toNat) hx (by omega)
    refine ⟨BitVec.ofNat 32 (px.toInt - x.toInt).toNat, mem_loopWhile.mpr ⟨_, by omega, rfl, fun m hm => ?_⟩,
      BitVec.eq_of_toInt_eq (by omega)⟩
    have hsum := toInt_add_ofNat (k := m) hx (by omega)
    have hnat := (toNat_of_nonneg (a := x + BitVec.ofNat 32 m) (by omega)).1
    refine decide_eq_true ?_
    rw [BitVec.lt_def]
    omega

/-- In front of the first column of the screen nothing is stored. -/
theorem columns_neg {x w : I32} {W : U32} (hx : x.toInt < 0) (hW : W.toNat < 2147483648) :
    loopWhile w (fun i => x + i < W) = [] := by
  refine List.eq_nil_iff_forall_not_mem.mpr fun i hi => ?_
  obtain ⟨k, -, -, hall⟩ := mem_loopWhile.mp hi
  have hok := of_decide_eq_true (hall 0 (Nat.zero_le k))
  have hzero : x + BitVec.ofNat 32 0 = x := by simp
  rw [hzero, BitVec.lt_def] at hok
  have hlt := x.isLt
  rw [BitVec.toInt_eq_toNat_cond] at hx
  split at hx <;> omega

/-- The points that are stored to. -/
theorem mem_fillPixels_iff (hwidth : ctx.width.toNat < 2147483648) (hheight : ctx.height.toNat < 2147483648)
    (hx : x.toInt + w.toInt < 2147483648) (hy : y.toInt + h.toInt < 2147483648) : p ∈ fillPixels ctx x y w h ↔
      (0 ≤ x.toInt ∧ 0 ≤ y.toInt) ∧ InClip ctx x.toInt y.toInt w.toInt h.toInt p.1.toInt p.2.toInt := by
  have hmem : p ∈ fillPixels ctx x y w h ↔ (∃ j ∈ loopWhile h fun j => y + j < ctx.height, y + j = p.2) ∧
      ∃ i ∈ loopWhile w fun i => x + i < ctx.width, x + i = p.1 := by
    simp only [fillPixels, List.mem_flatMap, List.mem_map, Prod.ext_iff]
    constructor
    · rintro ⟨j, hj, i, hi, hx, hy⟩
      exact ⟨⟨j, hj, hy⟩, i, hi, hx⟩
    · rintro ⟨⟨j, hj, hy⟩, i, hi, hx⟩
      exact ⟨j, hj, i, hi, hx, hy⟩
  rw [hmem]
  rcases Int.lt_or_le x.toInt 0 with hx0 | hx0
  · rw [columns_neg hx0 hwidth]
    constructor
    · rintro ⟨-, i, hi, -⟩
      cases hi
    · rintro ⟨h0, -⟩
      exact absurd h0.1 (by omega)
  rcases Int.lt_or_le y.toInt 0 with hy0 | hy0
  · rw [columns_neg hy0 hheight]
    constructor
    · rintro ⟨⟨j, hj, -⟩, -⟩
      cases hj
    · rintro ⟨h0, -⟩
      exact absurd h0.2 (by omega)
  rw [mem_columns hx0 hx, mem_columns hy0 hy]
  constructor
  · rintro ⟨⟨htop, hbottom⟩, hleft, hright⟩
    exact ⟨⟨hx0, hy0⟩, by omega, hright, by omega, hbottom⟩
  · rintro ⟨-, hleft, hright, htop, hbottom⟩
    exact ⟨⟨by omega, hbottom⟩, by omega, hright⟩

theorem toInt_ofInt_of_bounds {n : Int} (h : -2147483648 ≤ n) (h' : n < 2147483648) : (BitVec.ofInt 32 n).toInt = n := by
  rw [BitVec.toInt_ofInt, Int.bmod_def]
  omega

/-- On a screen of fewer than `2 ^ 15` columns and rows. -/
structure GuiContext.Small (ctx : GuiContext) : Prop where
  width : ctx.width.toNat < 2 ^ 15
  height : ctx.height.toNat < 2 ^ 15

/-- The entry of a point of the screen, as the code computes it. -/
theorem pixelIndex_eq (hsmall : ctx.Small) (hy : 0 ≤ p.2.toInt) (hp : p.2.toInt < ctx.height.toNat) :
    pixelIndex ctx p = pointIndex ctx p.1.toInt p.2.toInt := by
  obtain ⟨hW, hH⟩ := hsmall
  have hrow := (toNat_of_nonneg hy).1
  have hprod : p.2.toNat * ctx.width.toNat < 2 ^ 15 * 2 ^ 15 := Nat.mul_lt_mul'' (by omega) hW
  rw [pixelIndex, pointIndex, BitVec.toNat_mul, Nat.mod_eq_of_lt (by omega), Int.natCast_mul, hrow]

/-- The accesses of a fill. -/
theorem mem_guiFillRect_iff (hsmall : ctx.Small) (hx : x.toInt + w.toInt < 2147483648)
    (hy : y.toInt + h.toInt < 2147483648) :
    a ∈ guiFillRect ctx x y w h color ↔ ctx.backbuffer = true ∧ (0 ≤ x.toInt ∧ 0 ≤ y.toInt) ∧
      ∃ px py, InClip ctx x.toInt y.toInt w.toInt h.toInt px py ∧ a = .store (pointIndex ctx px py) color := by
  obtain ⟨hW, hH⟩ := hsmall
  have hpix : ∀ p, p ∈ fillPixels ctx x y w h ↔ _ := fun p => mem_fillPixels_iff (by omega) (by omega) hx hy
  unfold guiFillRect
  cases hbuf : ctx.backbuffer with
  | false => simp
  | true =>
    rw [Bool.not_true, if_neg Bool.false_ne_true, List.mem_map]
    constructor
    · rintro ⟨p, hp, rfl⟩
      obtain ⟨h0, hclip⟩ := (hpix p).mp hp
      have hbottom := hclip.bottom
      refine ⟨rfl, h0, p.1.toInt, p.2.toInt, hclip, ?_⟩
      rw [pixelIndex_eq ⟨hW, hH⟩ (by have := hclip.top; omega) (by omega)]
    · rintro ⟨-, h0, px, py, hclip, rfl⟩
      obtain ⟨hleft, hright, htop, hbottom⟩ := hclip
      have hpx := toInt_ofInt_of_bounds (n := px) (by omega) (by omega)
      have hpy := toInt_ofInt_of_bounds (n := py) (by omega) (by omega)
      refine ⟨(BitVec.ofInt 32 px, BitVec.ofInt 32 py), (hpix _).mpr ⟨h0, ?_⟩, ?_⟩
      · rw [hpx, hpy]
        exact ⟨hleft, hright, htop, hbottom⟩
      · rw [pixelIndex_eq ⟨hW, hH⟩ (by rw [hpy]; omega) (by rw [hpy]; omega), hpx, hpy]

/-! ## Clipping -/

/-- The points of the rectangle on the screen get the colour, and nothing else changes. -/
def ClippedFill (ctx : GuiContext) (x y w h : I32) (color : U32) : Prop :=
  ctx.backbuffer = true → ∀ mem : Int → U32,
    (∀ px py, InClip ctx x.toInt y.toInt w.toInt h.toInt px py →
      paint (guiFillRect ctx x y w h color) mem (pointIndex ctx px py) = color) ∧
    ∀ idx, (∀ px py, InClip ctx x.toInt y.toInt w.toInt h.toInt px py → idx ≠ pointIndex ctx px py) →
      paint (guiFillRect ctx x y w h color) mem idx = mem idx

/-- A coordinate or a length of fewer than 16 bits. -/
def Short (a : I32) : Prop := -2 ^ 15 < a.toInt ∧ a.toInt < 2 ^ 15

/-- The fill is the intersection exactly where the rectangle begins on the screen, or has no point of it. -/
theorem clippedFill_iff (hsmall : ctx.Small) (hx : Short x) (hy : Short y) (hw : Short w) (hh : Short h) (color : U32) :
    ClippedFill ctx x y w h color ↔ ctx.backbuffer = false ∨ (0 ≤ x.toInt ∧ 0 ≤ y.toInt) ∨
      min (ctx.width.toNat : Int) (x.toInt + w.toInt) ≤ max 0 x.toInt ∨
      min (ctx.height.toNat : Int) (y.toInt + h.toInt) ≤ max 0 y.toInt := by
  unfold Short at hx hy hw hh
  have hmem : ∀ a, a ∈ guiFillRect ctx x y w h color ↔ _ := fun a => mem_guiFillRect_iff hsmall (by omega) (by omega)
  constructor
  · intro hfill
    by_contra hnot
    simp only [not_or, Bool.not_eq_false] at hnot
    obtain ⟨hbuf, hneg, hcols, hrows⟩ := hnot
    -- a point of the intersection, which has another colour
    have hclip : InClip ctx x.toInt y.toInt w.toInt h.toInt (max 0 x.toInt) (max 0 y.toInt) :=
      ⟨Int.le_refl _, by omega, Int.le_refl _, by omega⟩
    have hset := (hfill hbuf fun _ => color + 1).1 _ _ hclip
    rw [paint_of_unstored fun c hc => hneg ((hmem _).mp hc).2.1] at hset
    have hone : color + 1 ≠ color := fun h => by simp at h
    exact hone hset
  · intro hcond hbuf mem
    constructor
    · intro px py hclip
      have h0 : 0 ≤ x.toInt ∧ 0 ≤ y.toInt := by
        obtain ⟨hleft, hright, htop, hbottom⟩ := hclip
        rcases hcond with hnull | h0 | hcols | hrows
        · rw [hbuf] at hnull
          cases hnull
        · exact h0
        · omega
        · omega
      refine paint_of_stored ⟨color, (hmem _).mpr ⟨hbuf, h0, px, py, hclip, rfl⟩⟩ fun c' hc' => ?_
      obtain ⟨-, -, qx, qy, -, heq⟩ := (hmem _).mp hc'
      exact (GuiAccess.store.inj heq).2
    · intro idx hidx
      refine paint_of_unstored fun c hc => ?_
      obtain ⟨-, -, px, py, hclip, heq⟩ := (hmem _).mp hc
      exact hidx px py hclip (GuiAccess.store.inj heq).1

/-- A screen of 8 times 8 points. -/
def tinyScreen : GuiContext := ⟨0xFFFF8000FD000000#64, true, 8, 8, 8⟩

theorem clippedFill_iff_tiny : ClippedFill tinyScreen 6 6 4 4 0xFFFFFF#32 ↔ tinyScreen.backbuffer = false ∨
    ((0 : Int) ≤ (6 : I32).toInt ∧ (0 : Int) ≤ (6 : I32).toInt) ∨
      min (tinyScreen.width.toNat : Int) ((6 : I32).toInt + (4 : I32).toInt) ≤ max 0 (6 : I32).toInt ∨
      min (tinyScreen.height.toNat : Int) ((6 : I32).toInt + (4 : I32).toInt) ≤ max 0 (6 : I32).toInt :=
  clippedFill_iff ⟨by decide, by decide⟩ ⟨by decide, by decide⟩ ⟨by decide, by decide⟩ ⟨by decide, by decide⟩
    ⟨by decide, by decide⟩ 0xFFFFFF#32

/-- A rectangle that begins one column to the left of the screen is not drawn. -/
theorem not_clippedFill_left : ¬ClippedFill tinyScreen (-1) 0 4 4 0xFFFFFF#32 := by
  intro hfill
  have hset := (hfill rfl fun _ => 0#32).1 0 0 ⟨by decide, by decide, by decide, by decide⟩
  have hnone : guiFillRect tinyScreen (-1) 0 4 4 0xFFFFFF#32 = [] := by decide
  rw [hnone] at hset
  exact absurd hset (by decide)

end PpoOS
