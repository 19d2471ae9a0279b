import PpoOS.Flanterm.Verify.Cells
import PpoOS.Lib.Paint

/-!
# The picture of a table of characters

`picture` is what the screen has to look like: each pixel is one of the glyph of its character, or of
the border.  A character that is plotted changes the picture at its place and nowhere else, however
the glyphs are scaled; the plain loop and the loop for scaled glyphs draw the same.
-/

namespace PpoOS

/-- The pixels of `n` columns and `m` rows of glyphs lie within the terminal, and the terminal within the
framebuffer. -/
structure FbScreen.Fits (n m : Nat) (g : FbScreen) : Prop where
  cells : g.cells = m * n
  scaleX : 0 < g.fontScaleX
  scaleY : 0 < g.fontScaleY
  unscaled : g.scaled = false → g.fontScaleX = 1 ∧ g.fontScaleY = 1
  fontWidth : 0 < g.fontWidth
  fontHeight : 0 < g.fontHeight
  rows_lt : g.fontHeight ≤ 2 ^ 8
  font : 2 ^ 8 * g.fontHeight * g.fontWidth ≤ g.fontBoolSize
  glyphWidth : g.glyphWidth = g.fontWidth * g.fontScaleX
  glyphHeight : g.glyphHeight = g.fontHeight * g.fontScaleY
  right : g.offsetX + n * g.glyphWidth ≤ g.width
  bottom : g.offsetY + m * g.glyphHeight ≤ g.height
  line : g.width ≤ g.pitch / 4
  memory : ∀ x < g.width, ∀ y < g.height, g.pixelAt x y < g.pixels

/-- The colour of a pixel of a character -/
def glyphColour (colours : Palette) (g : FbScreen) (c : FbChar) (gx gy : Nat) : U32 :=
  let colour :=
    if g.fontBool (c.c.toNat * g.fontHeight * g.fontWidth + gy / g.fontScaleY * g.fontWidth + gx / g.fontScaleX) then c.fg
    else c.bg
  if colour = noColour then colours.defaultBg else colour

/-- The colour of the pixel in column `x` and row `y` of a terminal that shows `cells` -/
def picture (colours : Palette) (g : FbScreen) (n m : Nat) (cells : Nat × Nat → FbChar) (x y : Nat) : U32 :=
  let column := (x - g.offsetX) / g.glyphWidth
  let row := (y - g.offsetY) / g.glyphHeight
  if g.offsetX ≤ x ∧ column < n ∧ g.offsetY ≤ y ∧ row < m then
    glyphColour colours g (cells (column, row)) ((x - g.offsetX) % g.glyphWidth) ((y - g.offsetY) % g.glyphHeight)
  else colours.defaultBg

section Plot

variable {n m : Nat} {g : FbScreen} (hfit : g.Fits n m) (colours : Palette)

/-- Different pixels have different addresses. -/
theorem FbScreen.pixelAt_inj {x y x' y' : Nat} (hx : x < g.pitch / 4) (hx' : x' < g.pitch / 4)
    (h : g.pixelAt x y = g.pixelAt x' y') : x = x' ∧ y = y' := by
  rw [FbScreen.pixelAt, FbScreen.pixelAt] at h
  have hrow : y * (g.pitch / 4) + x = y' * (g.pitch / 4) + x' := by omega
  have hplace := congrArg (placeAt (g.pitch / 4)) hrow
  rw [placeAt_index hx, placeAt_index hx'] at hplace
  exact Prod.mk.inj hplace

/-- The pixels of a place -/
def placePixels (g : FbScreen) (x y i : Nat) : Prop :=
  ∃ gx < g.glyphWidth, ∃ gy < g.glyphHeight,
    i = g.pixelAt (g.offsetX + x * g.glyphWidth + gx) (g.offsetY + y * g.glyphHeight + gy)

/-- The colours of the pixels of a place, by their addresses -/
def placeColour (colours : Palette) (g : FbScreen) (c : FbChar) (x y i : Nat) : U32 :=
  let j := i - g.pixelAt (g.offsetX + x * g.glyphWidth) (g.offsetY + y * g.glyphHeight)
  glyphColour colours g c (j % (g.pitch / 4)) (j / (g.pitch / 4))

theorem pixelAt_add (g : FbScreen) (x y dx dy : Nat) :
    g.pixelAt (x + dx) (y + dy) = g.pixelAt x y + (dy * (g.pitch / 4) + dx) := by
  rw [FbScreen.pixelAt, FbScreen.pixelAt, Nat.add_mul]
  omega

theorem plot_colour (c : FbChar) {gx gy fx fy : Nat} (hfx : gx / g.fontScaleX = fx) (hfy : gy / g.fontScaleY = fy) :
    (if g.fontBool (c.c.toNat * g.fontHeight * g.fontWidth + fy * g.fontWidth + fx) then
        (if c.fg = noColour then colours.defaultBg else c.fg)
      else if c.bg = noColour then colours.defaultBg else c.bg) = glyphColour colours g c gx gy := by
  rw [glyphColour, hfx, hfy]
  cases g.fontBool (c.c.toNat * g.fontHeight * g.fontWidth + fy * g.fontWidth + fx) <;> rfl

include hfit

theorem glyph_right {x : Nat} (hx : x < n) : g.offsetX + x * g.glyphWidth + g.glyphWidth ≤ g.width := by
  have hle := Nat.mul_le_mul_right g.glyphWidth (Nat.succ_le_of_lt hx)
  rw [Nat.succ_mul] at hle
  have hright := hfit.right
  omega

theorem glyph_bottom {y : Nat} (hy : y < m) : g.offsetY + y * g.glyphHeight + g.glyphHeight ≤ g.height := by
  have hle := Nat.mul_le_mul_right g.glyphHeight (Nat.succ_le_of_lt hy)
  rw [Nat.succ_mul] at hle
  have hbottom := hfit.bottom
  omega

theorem placeColour_at (c : FbChar) {x y gx gy : Nat} (hx : x < n) (hgx : gx < g.glyphWidth) :
    placeColour colours g c x y (g.pixelAt (g.offsetX + x * g.glyphWidth + gx) (g.offsetY + y * g.glyphHeight + gy)) =
      glyphColour colours g c gx gy := by
  have hline := hfit.line
  have hright := glyph_right hfit hx
  rw [placeColour, pixelAt_add, Nat.add_sub_cancel_left]
  have hplace := placeAt_index (n := g.pitch / 4) (x := gx) (y := gy) (by omega)
  rw [placeAt] at hplace
  rw [(Prod.mk.inj hplace).1, (Prod.mk.inj hplace).2]

theorem glyph_bit (c : U8) {fx fy : Nat} (hx : fx < g.fontWidth) (hy : fy < g.fontHeight) :
    g.glyphBit c fx fy = some (g.fontBool (c.toNat * g.fontHeight * g.fontWidth + fy * g.fontWidth + fx)) := by
  refine if_pos (Nat.lt_of_lt_of_le ?_ hfit.font)
  have hc := c.isLt
  have hrow : c.toNat * g.fontHeight + fy < 2 ^ 8 * g.fontHeight := index_lt hy hc
  have hbit := index_lt hx hrow
  rw [Nat.add_mul] at hbit
  exact hbit

/-- One pixel is set. -/
theorem pixel_paints (c : FbChar) {x y gx gy : Nat} (hx : x < n) (hy : y < m) (hgx : gx < g.glyphWidth)
    (hgy : gy < g.glyphHeight) (fb : Nat → U32) (colour : U32) (hcolour : colour = glyphColour colours g c gx gy) :
    PaintsOver (placeColour colours g c x y)
      (· = g.pixelAt (g.offsetX + x * g.glyphWidth + gx) (g.offsetY + y * g.glyphHeight + gy)) fb
      (g.setPixel (g.pixelAt (g.offsetX + x * g.glyphWidth + gx) (g.offsetY + y * g.glyphHeight + gy)) colour fb) := by
  have hright := glyph_right hfit hx
  have hbottom := glyph_bottom hfit hy
  rw [FbScreen.setPixel, if_pos (hfit.memory _ (by omega) _ (by omega))]
  refine PaintsOver.write ?_
  rw [placeColour_at hfit colours c hx hgx, hcolour]

/-- `plot_char_scaled_uncanvas` -/
theorem plotCharScaled_paints {t : FlantermContext} (c : FbChar) {x y : Nat} (hcols : t.cols = n) (hrows : t.rows = m)
    (hx : x < n) (hy : y < m) (fb : Nat → U32) :
    PaintsOver (placeColour colours g c x y) (placePixels g x y) fb (plotCharScaledUncanvas colours g t c x y fb) := by
  rw [plotCharScaledUncanvas, if_neg (by omega)]
  refine PaintsOver.congr (PaintsOver.foldlM fun gy hgy fb => PaintsOver.foldlM fun fx hfx fb => PaintsOver.foldlM fun i hi fb => ?_)
    (W := fun k => ∃ gy ∈ List.range g.glyphHeight, ∃ fx ∈ List.range g.fontWidth, ∃ i ∈ List.range g.fontScaleX,
      k = g.pixelAt (g.offsetX + x * g.glyphWidth + (g.fontScaleX * fx + i)) (g.offsetY + y * g.glyphHeight + gy))
    fun k => ?_
  · rw [List.mem_range] at hgy hfx hi
    have hgy' := hgy
    rw [hfit.glyphHeight] at hgy'
    have hfy : gy / g.fontScaleY < g.fontHeight := (Nat.div_lt_iff_lt_mul hfit.scaleY).mpr hgy'
    have hfy' : gy / g.fontScaleY % 2 ^ 8 = gy / g.fontScaleY := Nat.mod_eq_of_lt (Nat.lt_of_lt_of_le hfy hfit.rows_lt)
    have hgx : g.fontScaleX * fx + i < g.glyphWidth := by
      rw [hfit.glyphWidth, Nat.mul_comm]
      exact index_lt hi hfx
    have hfx' : (g.fontScaleX * fx + i) / g.fontScaleX = fx := by
      rw [Nat.mul_add_div hfit.scaleX, Nat.div_eq_of_lt hi, Nat.add_zero]
    have hpixel := pixel_paints hfit colours c hx hy hgx hgy fb _ (plot_colour colours c hfx' rfl)
    dsimp only
    rw [hfy', glyph_bit hfit c.c hfx hfy]
    have hat : g.pixelAt (g.offsetX + x * g.glyphWidth) (g.offsetY + y * g.glyphHeight + gy) + (g.fontScaleX * fx + i) =
        g.pixelAt (g.offsetX + x * g.glyphWidth + (g.fontScaleX * fx + i)) (g.offsetY + y * g.glyphHeight + gy) := by
      rw [FbScreen.pixelAt, FbScreen.pixelAt]
      omega
    rw [hat]
    exact hpixel
  · constructor
    · rintro ⟨gy, hgy, fx, hfx, i, hi, rfl⟩
      rw [List.mem_range] at hgy hfx hi
      refine ⟨g.fontScaleX * fx + i, ?_, gy, hgy, rfl⟩
      rw [hfit.glyphWidth, Nat.mul_comm]
      exact index_lt hi hfx
    · rintro ⟨gx, hgx, gy, hgy, rfl⟩
      rw [hfit.glyphWidth] at hgx
      refine ⟨gy, List.mem_range.mpr hgy, gx / g.fontScaleX,
        List.mem_range.mpr ((Nat.div_lt_iff_lt_mul hfit.scaleX).mpr hgx), gx % g.fontScaleX,
        List.mem_range.mpr (Nat.mod_lt _ hfit.scaleX), ?_⟩
      rw [Nat.div_add_mod]

/-- `plot_char_unscaled_uncanvas` -/
theorem plotCharUnscaled_paints {t : FlantermContext} (c : FbChar) {x y : Nat} (hcols : t.cols = n) (hrows : t.rows = m)
    (hscaled : g.scaled = false) (hx : x < n) (hy : y < m) (fb : Nat → U32) :
    PaintsOver (placeColour colours g c x y) (placePixels g x y) fb (plotCharUnscaledUncanvas colours g t c x y fb) := by
  obtain ⟨hscaleX, hscaleY⟩ := hfit.unscaled hscaled
  have hwidth : g.glyphWidth = g.fontWidth := by rw [hfit.glyphWidth, hscaleX, Nat.mul_one]
  have hheight : g.glyphHeight = g.fontHeight := by rw [hfit.glyphHeight, hscaleY, Nat.mul_one]
  rw [plotCharUnscaledUncanvas, if_neg (by omega)]
  refine PaintsOver.congr (PaintsOver.foldlM fun gy hgy fb => PaintsOver.foldlM fun fx hfx fb => ?_)
    (W := fun k => ∃ gy ∈ List.range g.glyphHeight, ∃ fx ∈ List.range g.fontWidth,
      k = g.pixelAt (g.offsetX + x * g.glyphWidth + fx) (g.offsetY + y * g.glyphHeight + gy)) fun k => ?_
  · rw [List.mem_range] at hgy hfx
    have hpixel := pixel_paints hfit colours c hx hy (hwidth.symm ▸ hfx) hgy fb _
      (plot_colour colours c (by rw [hscaleX, Nat.div_one]) (by rw [hscaleY, Nat.div_one]))
    rw [glyph_bit hfit c.c hfx (hheight ▸ hgy)]
    have hat : g.pixelAt (g.offsetX + x * g.glyphWidth) (g.offsetY + y * g.glyphHeight + gy) + fx =
        g.pixelAt (g.offsetX + x * g.glyphWidth + fx) (g.offsetY + y * g.glyphHeight + gy) := by
      rw [FbScreen.pixelAt, FbScreen.pixelAt]
      omega
    rw [hat]
    exact hpixel
  · constructor
    · rintro ⟨gy, hgy, fx, hfx, rfl⟩
      exact ⟨fx, hwidth ▸ List.mem_range.mp hfx, gy, List.mem_range.mp hgy, rfl⟩
    · rintro ⟨gx, hgx, gy, hgy, rfl⟩
      exact ⟨gy, List.mem_range.mpr hgy, gx, List.mem_range.mpr (hwidth ▸ hgx), rfl⟩

end Plot

/-! ## The framebuffer and the picture -/

/-- `fb` shows `cells` where the terminal is, and elsewhere is `fb₀`. -/
structure Draws (colours : Palette) (g : FbScreen) (n m : Nat) (fb₀ : Nat → U32) (cells : Nat × Nat → FbChar)
    (fb : Nat → U32) : Prop where
  inside : ∀ x < g.width, ∀ y < g.height, fb (g.pixelAt x y) = picture colours g n m cells x y
  outside : ∀ i, (∀ x < g.width, ∀ y < g.height, i ≠ g.pixelAt x y) → fb i = fb₀ i

section Draws

variable {n m : Nat} {g : FbScreen} {colours : Palette} {fb₀ fb : Nat → U32} {cells : Nat × Nat → FbChar}

/-- A pixel of a place -/
theorem picture_at {x y gx gy : Nat} (hx : x < n) (hy : y < m) (hgx : gx < g.glyphWidth) (hgy : gy < g.glyphHeight) :
    picture colours g n m cells (g.offsetX + x * g.glyphWidth + gx) (g.offsetY + y * g.glyphHeight + gy) =
      glyphColour colours g (cells (x, y)) gx gy := by
  have hcolumn := placeAt_index (n := g.glyphWidth) (x := gx) (y := x) hgx
  have hrow := placeAt_index (n := g.glyphHeight) (x := gy) (y := y) hgy
  rw [placeAt, Prod.mk.injEq] at hcolumn hrow
  have hx' : g.offsetX + x * g.glyphWidth + gx - g.offsetX = x * g.glyphWidth + gx := by omega
  have hy' : g.offsetY + y * g.glyphHeight + gy - g.offsetY = y * g.glyphHeight + gy := by omega
  rw [picture, hx', hy', hcolumn.1, hcolumn.2, hrow.1, hrow.2]
  exact if_pos ⟨by omega, hx, by omega, hy⟩

/-- A pixel of no place -/
theorem picture_border {x y : Nat} (hgw : 0 < g.glyphWidth) (hgh : 0 < g.glyphHeight)
    (h : ∀ cx < n, ∀ cy < m, ¬∃ gx < g.glyphWidth, ∃ gy < g.glyphHeight,
      x = g.offsetX + cx * g.glyphWidth + gx ∧ y = g.offsetY + cy * g.glyphHeight + gy) :
    picture colours g n m cells x y = colours.defaultBg := by
  refine if_neg fun hin => h _ hin.2.1 _ hin.2.2.2 ⟨(x - g.offsetX) % g.glyphWidth, Nat.mod_lt _ hgw,
    (y - g.offsetY) % g.glyphHeight, Nat.mod_lt _ hgh, ?_, ?_⟩
  · have hdiv := Nat.div_add_mod (x - g.offsetX) g.glyphWidth
    rw [Nat.mul_comm] at hdiv
    omega
  · have hdiv := Nat.div_add_mod (y - g.offsetY) g.glyphHeight
    rw [Nat.mul_comm] at hdiv
    omega

variable (hfit : g.Fits n m)

include hfit

theorem glyphWidth_pos : 0 < g.glyphWidth := by
  rw [hfit.glyphWidth]
  exact Nat.mul_pos hfit.fontWidth hfit.scaleX

theorem glyphHeight_pos : 0 < g.glyphHeight := by
  rw [hfit.glyphHeight]
  exact Nat.mul_pos hfit.fontHeight hfit.scaleY

/-- Every pixel is one of a place or none. -/
theorem picture_update {c : FbChar} {x y px py : Nat} (hx : x < n) (hy : y < m)
    (hnot : ¬∃ gx < g.glyphWidth, ∃ gy < g.glyphHeight,
      px = g.offsetX + x * g.glyphWidth + gx ∧ py = g.offsetY + y * g.glyphHeight + gy) :
    picture colours g n m (Function.update cells (x, y) c) px py = picture colours g n m cells px py := by
  by_cases hplace : ∃ cx < n, ∃ cy < m, ∃ gx < g.glyphWidth, ∃ gy < g.glyphHeight,
      px = g.offsetX + cx * g.glyphWidth + gx ∧ py = g.offsetY + cy * g.glyphHeight + gy
  · obtain ⟨cx, hcx, cy, hcy, gx, hgx, gy, hgy, rfl, rfl⟩ := hplace
    have hne : (cx, cy) ≠ (x, y) := by
      rintro heq
      obtain ⟨rfl, rfl⟩ := Prod.mk.inj heq
      exact hnot ⟨gx, hgx, gy, hgy, rfl, rfl⟩
    rw [picture_at hcx hcy hgx hgy, picture_at hcx hcy hgx hgy, Function.update_of_ne hne]
  · have hborder : ∀ cx < n, ∀ cy < m, ¬∃ gx < g.glyphWidth, ∃ gy < g.glyphHeight,
        px = g.offsetX + cx * g.glyphWidth + gx ∧ py = g.offsetY + cy * g.glyphHeight + gy := by
      rintro cx hcx cy hcy ⟨gx, hgx, gy, hgy, hpx, hpy⟩
      exact hplace ⟨cx, hcx, cy, hcy, gx, hgx, gy, hgy, hpx, hpy⟩
    rw [picture_border (glyphWidth_pos hfit) (glyphHeight_pos hfit) hborder,
      picture_border (glyphWidth_pos hfit) (glyphHeight_pos hfit) hborder]

/-- A character that is plotted is shown at its place. -/
theorem Draws.plot {fb' : Nat → U32} (h : Draws colours g n m fb₀ cells fb) {c : FbChar} {x y : Nat} (hx : x < n)
    (hy : y < m) (hfb : ∀ i, (placePixels g x y i → fb' i = placeColour colours g c x y i) ∧
      (¬placePixels g x y i → fb' i = fb i)) : Draws colours g n m fb₀ (Function.update cells (x, y) c) fb' := by
  have hline := hfit.line
  have hright := glyph_right hfit hx
  have hbottom := glyph_bottom hfit hy
  refine ⟨fun px hpx py hpy => ?_, fun i hi => ?_⟩
  · by_cases hin : ∃ gx < g.glyphWidth, ∃ gy < g.glyphHeight,
        px = g.offsetX + x * g.glyphWidth + gx ∧ py = g.offsetY + y * g.glyphHeight + gy
    · obtain ⟨gx, hgx, gy, hgy, rfl, rfl⟩ := hin
      rw [(hfb _).1 ⟨gx, hgx, gy, hgy, rfl⟩, placeColour_at hfit colours c hx hgx, picture_at hx hy hgx hgy,
        Function.update_self]
    · rw [picture_update hfit hx hy hin, ← h.inside px hpx py hpy]
      refine (hfb _).2 ?_
      rintro ⟨gx, hgx, gy, hgy, heq⟩
      have hsame := FbScreen.pixelAt_inj (by omega) (by omega) heq
      exact hin ⟨gx, hgx, gy, hgy, hsame⟩
  · rw [← h.outside i hi]
    refine (hfb i).2 ?_
    rintro ⟨gx, hgx, gy, hgy, rfl⟩
    exact hi _ (by omega) _ (by omega) rfl

end Draws

/-- `plot_char` -/
theorem plotChar_paints {n m : Nat} {t : FlantermContext} {s : FbContext} (hfit : s.screen.Fits n m) (hcols : t.cols = n)
    (hrows : t.rows = m) (c : FbChar) {x y : Nat} (hx : x < n) (hy : y < m) :
    ∃ fb, s.plotChar t c x y = some { s with framebuffer := fb } ∧
      ∀ i, (placePixels s.screen x y i → fb i = placeColour s.colours s.screen c x y i) ∧
        (¬placePixels s.screen x y i → fb i = s.framebuffer i) := by
  rw [FbContext.plotChar]
  cases hscaled : s.screen.scaled with
  | true =>
    obtain ⟨fb, hfb, hpaints⟩ := plotCharScaled_paints hfit s.colours c hcols hrows hx hy s.framebuffer
    rw [if_pos rfl, hfb]
    exact ⟨fb, rfl, hpaints⟩
  | false =>
    obtain ⟨fb, hfb, hpaints⟩ := plotCharUnscaled_paints hfit s.colours c hcols hrows hscaled hx hy s.framebuffer
    rw [if_neg Bool.false_ne_true, hfb]
    exact ⟨fb, rfl, hpaints⟩

/-- A character is plotted in a framebuffer that shows others. -/
theorem Draws.plotChar {n m : Nat} {g : FbScreen} {colours : Palette} {fb₀ : Nat → U32} {cells : Nat × Nat → FbChar}
    {t : FlantermContext} {s : FbContext} (hfit : g.Fits n m) (hscreen : s.screen = g) (hcolours : s.colours = colours)
    (h : Draws colours g n m fb₀ cells s.framebuffer) (hcols : t.cols = n) (hrows : t.rows = m) (c : FbChar) {x y : Nat}
    (hx : x < n) (hy : y < m) :
    ∃ fb, s.plotChar t c x y = some { s with framebuffer := fb } ∧
      Draws colours g n m fb₀ (Function.update cells (x, y) c) fb := by
  subst hscreen hcolours
  obtain ⟨fb, hfb, hpaints⟩ := plotChar_paints hfit hcols hrows c hx hy
  exact ⟨fb, hfb, h.plot hfit hx hy hpaints⟩

end PpoOS
