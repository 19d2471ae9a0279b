import PpoOS.Flanterm.Verify.Runs

/-!
# A new terminal

`flanterm_fb_init` finds room in its pool for the table of any framebuffer, as it bounds the number of
pixels, and leaves a terminal that shows an empty table.
-/

namespace PpoOS

section Init

variable {a : FbArgs} {pixels : Nat} (builtinFont : Nat → U8)

/-- A framebuffer with room for a glyph: its lines lie one after the other within the memory. -/
structure FbArgs.Fits (pixels : Nat) (a : FbArgs) : Prop where
  pitch : a.pitch % 4 = 0
  line : a.width ≤ a.pitch / 4
  memory : a.pitch / 4 * a.height ≤ pixels
  wide : a.margin * 2 + a.glyphWidth ≤ a.widthLimit
  high : a.margin * 2 + a.glyphHeight ≤ a.heightLimit

theorem fontScale_pos (a : FbArgs) : 0 < a.fontScale.1 ∧ 0 < a.fontScale.2 := by
  rw [FbArgs.fontScale]
  split_ifs
  · exact ⟨by decide, by decide⟩
  · exact ⟨by decide, by decide⟩
  · exact ⟨by decide, by decide⟩
  · dsimp only
    omega

theorem glyph_pos (a : FbArgs) : 0 < a.glyphWidth ∧ 0 < a.glyphHeight := by
  have hscale := fontScale_pos a
  exact ⟨Nat.mul_pos (by decide) hscale.1, Nat.mul_pos (by decide) hscale.2⟩

/-- What is left of a length is on both sides. -/
theorem centred_le {margin size glyph : Nat} (h : margin * 2 ≤ size) :
    margin + (size - margin * 2) % glyph / 2 + (size - margin * 2) / glyph * glyph ≤ size := by
  have hdiv := Nat.div_add_mod (size - margin * 2) glyph
  rw [Nat.mul_comm] at hdiv
  omega

/-- The terminal lies in the middle of the framebuffer. -/
theorem origin_memory (h : a.Fits pixels) {x y : Nat} (hx : x < a.widthLimit) (hy : y < a.heightLimit) :
    a.origin + x + y * (a.pitch / 4) < pixels := by
  have hline := h.line
  have hmem := h.memory
  have hpitch : a.pitch = a.pitch / 4 * 4 := by
    have hmod := h.pitch
    omega
  have horigin : a.origin =
      (a.height / 2 - a.heightLimit / 2) * (a.pitch / 4) + (a.width / 2 - a.widthLimit / 2) := by
    rw [FbArgs.origin]
    generalize a.pitch / 4 = line at hpitch
    rw [hpitch, ← Nat.mul_assoc, ← Nat.add_mul, Nat.mul_div_cancel _ (by decide)]
  have hwide : a.widthLimit ≤ a.width := Nat.min_le_left _ _
  have hhigh : a.heightLimit ≤ a.height := Nat.min_le_left _ _
  have hrow : a.height / 2 - a.heightLimit / 2 + y + 1 ≤ a.height := by omega
  have hcolumn : a.width / 2 - a.widthLimit / 2 + x < a.pitch / 4 := by omega
  rw [horigin]
  calc (a.height / 2 - a.heightLimit / 2) * (a.pitch / 4) + (a.width / 2 - a.widthLimit / 2) + x + y * (a.pitch / 4)
      = (a.height / 2 - a.heightLimit / 2 + y) * (a.pitch / 4) + (a.width / 2 - a.widthLimit / 2 + x) := by
        rw [Nat.add_mul]
        omega
    _ < (a.height / 2 - a.heightLimit / 2 + y + 1) * (a.pitch / 4) := by
        rw [Nat.succ_mul]
        omega
    _ ≤ a.height * (a.pitch / 4) := Nat.mul_le_mul_right _ hrow
    _ = a.pitch / 4 * a.height := Nat.mul_comm _ _
    _ ≤ pixels := hmem

theorem fbScreen_fits (h : a.Fits pixels) : (fbScreen builtinFont a pixels).Fits a.cols a.rows := by
  have hscale := fontScale_pos a
  have hwide := h.wide
  have hhigh := h.high
  have hline := h.line
  exact {
    cells := rfl
    scaleX := hscale.1
    scaleY := hscale.2
    unscaled := fun hnot => not_not.mp (of_decide_eq_false hnot)
    fontWidth := Nat.succ_pos 8
    fontHeight := Nat.succ_pos 15
    rows_lt := show 16 ≤ 2 ^ 8 from by decide
    font := Nat.le_refl _
    glyphWidth := rfl
    glyphHeight := rfl
    right := centred_le (by omega)
    bottom := centred_le (by omega)
    line := Nat.le_trans (Nat.min_le_left _ _) hline
    memory := fun x hx y hy => origin_memory h hx hy }

theorem initialContext_ok (h : a.Fits pixels) {maxEscValues : Nat} (hmax : 2 ≤ maxEscValues) :
    (initialContext a maxEscValues).Ok a.cols a.rows := by
  have hwide := h.wide
  have hhigh := h.high
  have hglyph := glyph_pos a
  have hcols : 0 < a.cols := Nat.div_pos (by omega) hglyph.1
  have hrows : 0 < a.rows := Nat.div_pos (by omega) hglyph.2
  exact {
    cols := rfl
    rows := rfl
    cols_pos := hcols
    top := hrows
    bottom_pos := hrows
    bottom := Nat.le_refl _
    autoflush := rfl
    tab := rfl
    room := (List.length_replicate (n := maxEscValues)).symm ▸ hmax
    values := Nat.zero_le _
    digit := fun hnot => absurd hnot Bool.false_ne_true
    select := Nat.zero_le _
    charset := Nat.zero_lt_two
    primary := fun c hc => absurd hc (Option.not_mem_none c)
    bg := fun c hc => absurd hc (Option.not_mem_none c)
    savedCharset := Nat.zero_lt_two
    savedPrimary := fun c hc => by cases hc; decide
    savedBg := fun c hc => by cases hc; decide }

/-! ## The pool -/

/-- The pool has `k` bytes left, whatever the place of its first multiple of 16. -/
def BumpPool.Room (k : Nat) (pool : BumpPool) : Prop :=
  (if pool.baseOffsetAdded then pool.ptr else pool.ptr + 15) + k ≤ bumpAllocPoolSize

theorem bumpAlloc_room {s k : Nat} {pool : BumpPool} (h : pool.Room (roundTo16 s + k)) :
    ∃ pool', bumpAlloc s pool = (true, pool') ∧ pool'.Room k := by
  rw [BumpPool.Room] at h
  rw [bumpAlloc]
  generalize hadded : (if pool.baseOffsetAdded then pool
    else { pool with
      ptr := if pool.address % 16 ≠ 0 then pool.ptr + (16 - pool.address % 16) else pool.ptr
      baseOffsetAdded := true }) = pool₁
  have hbase : pool₁.baseOffsetAdded = true ∧ pool₁.ptr + (roundTo16 s + k) ≤ bumpAllocPoolSize := by
    subst hadded
    split_ifs at h ⊢ with hbase halign
    · exact ⟨hbase, h⟩
    · refine ⟨rfl, ?_⟩
      dsimp only
      omega
    · refine ⟨rfl, ?_⟩
      dsimp only
      omega
  refine ⟨{ pool₁ with ptr := pool₁.ptr + roundTo16 s }, ?_, ?_⟩
  · exact if_neg (by omega)
  · rw [BumpPool.Room, if_pos hbase.1]
    dsimp only
    omega

/-- One allocation after the other -/
theorem bumpAllocs_room {sizes : List Nat} {k : Nat} {pool : BumpPool} (h : pool.Room ((sizes.map roundTo16).sum + k)) :
    ∃ pool', sizes.allM bumpAlloc pool = (true, pool') ∧ pool'.Room k := by
  induction sizes generalizing pool with
  | nil => exact ⟨pool, rfl, by rwa [List.map_nil, List.sum_nil, Nat.zero_add] at h⟩
  | cons s sizes ih =>
    rw [List.map_cons, List.sum_cons, Nat.add_assoc] at h
    obtain ⟨pool₁, halloc, hroom⟩ := bumpAlloc_room h
    obtain ⟨pool₂, hallocs, hroom₂⟩ := ih hroom
    refine ⟨pool₂, ?_, hroom₂⟩
    rw [List.allM]
    simp only [bind, StateT.bind, halloc]
    exact hallocs

/-- The sizes of the types on this machine -/
structure FbSizes.Fit (sizes : FbSizes) : Prop where
  context : sizes.context ≤ 1296
  char : sizes.char ≤ 12
  queueItem : sizes.queueItem ≤ 32
  pointer : sizes.pointer ≤ 8

theorem roundTo16_le {s k : Nat} (h : s ≤ k * 16) : roundTo16 s ≤ k * 16 := by
  rw [roundTo16]
  split_ifs <;> omega

/-- A terminal that is at most 1920 pixels wide and 1200 high -/
theorem cells_le (a : FbArgs) : a.rows * a.cols ≤ 75 * 213 := by
  have hscale := fontScale_pos a
  have hwidth : 9 ≤ a.glyphWidth := Nat.le_mul_of_pos_right 9 hscale.1
  have hheight : 16 ≤ a.glyphHeight := Nat.le_mul_of_pos_right 16 hscale.2
  have hrows : a.rows ≤ 1200 / 16 :=
    Nat.div_le_div (Nat.le_trans (Nat.sub_le _ _) (Nat.min_le_right _ _)) hheight (by decide)
  have hcols : a.cols ≤ 1920 / 9 :=
    Nat.div_le_div (Nat.le_trans (Nat.sub_le _ _) (Nat.min_le_right _ _)) hwidth (by decide)
  exact Nat.mul_le_mul hrows hcols

/-- The display of a terminal in a framebuffer -/
def fbDisplay (builtinFont : Nat → U8) (a : FbArgs) (pixels : Nat) (framebuffer : Nat → U32) : Display :=
  ⟨fbScreen builtinFont a pixels, a.colours, framebuffer⟩

/-- The first refresh draws an empty table. -/
theorem initial_synced (h : a.Fits pixels) {maxEscValues : Nat} (hmax : 2 ≤ maxEscValues) (framebuffer : Nat → U32) :
    ∃ s, flantermFbFullRefresh (initialContext a maxEscValues) {
        colours := a.colours
        screen := fbScreen builtinFont a pixels
        pen := initialPen a.colours
        oldCursorX := 0
        oldCursorY := 0
        buffer := .init fun _ => ⟨0x20#8, (initialPen a.colours).textFg, (initialPen a.colours).textBg⟩
        framebuffer := framebuffer } = some s ∧
      Synced a.cols a.rows (fbDisplay builtinFont a pixels framebuffer) (initialContext a maxEscValues) s (initialGrid a) := by
  have ht := initialContext_ok h hmax
  obtain ⟨s', hs', hsame, hdraws⟩ := fullRefresh_draws (t := initialContext a maxEscValues) (g := initialGrid a)
    (s := {
      colours := a.colours
      screen := fbScreen builtinFont a pixels
      pen := initialPen a.colours
      oldCursorX := 0
      oldCursorY := 0
      buffer := .init fun _ => ⟨0x20#8, (initialPen a.colours).textFg, (initialPen a.colours).textBg⟩
      framebuffer := framebuffer }) (fbScreen_fits builtinFont h) ht.cols_pos rfl rfl
  refine ⟨s', hs', ?_⟩
  rw [hsame]
  exact ⟨fbScreen_fits builtinFont h, rfl, rfl, rfl, rfl, rfl, rfl, hdraws⟩

/-- A new terminal shows an empty table. -/
theorem flantermFbInit_synced (h : a.Fits pixels) (hmasks : a.badMasks = false) {sizes : FbSizes} (hsizes : sizes.Fit)
    {maxEscValues : Nat} (hmax : 2 ≤ maxEscValues) (framebuffer : Nat → U32) {pool : BumpPool} (hptr : pool.ptr = 0)
    (hinstance : pool.allocatedInstance = false) :
    ∃ s pool', flantermFbInit sizes maxEscValues builtinFont a pixels framebuffer pool =
        some (some (initialContext a maxEscValues, s), pool') ∧ pool'.allocatedInstance = true ∧
      Synced a.cols a.rows (fbDisplay builtinFont a pixels framebuffer) (initialContext a maxEscValues) s (initialGrid a) := by
  obtain ⟨s, hrefresh, hsynced⟩ := initial_synced builtinFont h hmax framebuffer
  have hcells := cells_le a
  have hcontext : roundTo16 sizes.context ≤ 81 * 16 := roundTo16_le hsizes.context
  have hchars : roundTo16 (a.rows * a.cols * sizes.char) ≤ 11982 * 16 :=
    roundTo16_le (Nat.le_trans (Nat.mul_le_mul hcells hsizes.char) (by decide))
  have hqueue : roundTo16 (a.rows * a.cols * sizes.queueItem) ≤ 31950 * 16 :=
    roundTo16_le (Nat.le_trans (Nat.mul_le_mul hcells hsizes.queueItem) (by decide))
  have hmap : roundTo16 (a.rows * a.cols * sizes.pointer) ≤ 7988 * 16 :=
    roundTo16_le (Nat.le_trans (Nat.mul_le_mul hcells hsizes.pointer) (by decide))
  have hroom : pool.Room (roundTo16 sizes.context + (([8 * 16 * 256 / 8, 256 * 16 * (8 + 1), a.rows * a.cols * sizes.char,
      a.rows * a.cols * sizes.queueItem, a.rows * a.cols * sizes.pointer].map roundTo16).sum + 0)) := by
    have hbits : roundTo16 (8 * 16 * 256 / 8) = 4096 := rfl
    have hbool : roundTo16 (256 * 16 * (8 + 1)) = 36864 := rfl
    have hsize : bumpAllocPoolSize = 873000 := rfl
    rw [BumpPool.Room, List.map_cons, List.map_cons, List.map_cons, List.map_cons, List.map_cons, List.map_nil,
      List.sum_cons, List.sum_cons, List.sum_cons, List.sum_cons, List.sum_cons, List.sum_nil, hbits, hbool, hptr, hsize]
    split_ifs <;> omega
  obtain ⟨pool₁, halloc, hroom₁⟩ := bumpAlloc_room hroom
  obtain ⟨pool₂, hallocs, -⟩ := bumpAllocs_room hroom₁
  refine ⟨s, { pool₂ with allocatedInstance := true }, ?_, rfl, hsynced⟩
  rw [flantermFbInit, if_neg (by rw [hmasks, hinstance]; decide)]
  dsimp only
  rw [halloc]
  dsimp only
  rw [if_neg (by decide), hallocs]
  dsimp only
  rw [if_neg (by decide), hrefresh]
  rfl

end Init

end PpoOS
