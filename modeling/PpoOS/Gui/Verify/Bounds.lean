import PpoOS.Gui.Gui
import Mathlib.Data.List.TakeWhile

/-!
# The indices used on the backbuffer

The array has room for 1920 times 1200 points, whatever the size of the screen is.
`gui_fill_rect` clips against the screen, so its largest index is the one of the last
point of the screen.  **`gui_inBounds_iff`**: no sequence of calls leaves the array
exactly where the screen has no more points than the array has entries.
-/

namespace PpoOS

variable {ctx : GuiContext} {x y w h i n : I32} {p : I32 × I32} {a : GuiAccess}

/-- An index of an entry. -/
def GuiAccess.InBounds (a : GuiAccess) : Prop := 0 ≤ a.index ∧ a.index < guiBackbufferLen

instance (a : GuiAccess) : Decidable a.InBounds := by unfold GuiAccess.InBounds; infer_instance

/-- The screen has no more points than the array has entries. -/
def GuiContext.Fits (ctx : GuiContext) : Prop := ctx.width.toNat * ctx.height.toNat ≤ guiBackbufferLen

/-! ## Filling rectangles -/

theorem ok_of_mem_loopWhile {ok : I32 → Bool} (h : i ∈ loopWhile n ok) : ok i = true := List.mem_takeWhile_imp h

/-- Only points of the screen are stored to. -/
theorem fillPixels_onScreen (h : p ∈ fillPixels ctx x y w h) : p.1 < ctx.width ∧ p.2 < ctx.height := by
  obtain ⟨j, hj, hp⟩ := List.mem_flatMap.mp h
  obtain ⟨i, hi, rfl⟩ := List.mem_map.mp hp
  exact ⟨of_decide_eq_true (ok_of_mem_loopWhile hi), of_decide_eq_true (ok_of_mem_loopWhile hj)⟩

/-- Rows and columns of a screen that fits. -/
theorem row_add_lt {col row W H N : Nat} (hN : W * H ≤ N) (hcol : col < W) (hrow : row < H) : row * W + col < N := by
  have hrows : (row + 1) * W ≤ H * W := Nat.mul_le_mul_right W hrow
  rw [Nat.succ_mul] at hrows
  rw [Nat.mul_comm] at hN
  omega

theorem pixelIndex_inBounds (hfit : ctx.Fits) (hp : p.1 < ctx.width ∧ p.2 < ctx.height) :
    0 ≤ pixelIndex ctx p ∧ pixelIndex ctx p < guiBackbufferLen := by
  obtain ⟨hcol, hrow⟩ := hp
  rw [BitVec.lt_def] at hcol hrow
  have hlt := row_add_lt hfit hcol hrow
  have hlen : guiBackbufferLen = 2304000 := rfl
  have hprod : (p.2 * ctx.width).toNat = p.2.toNat * ctx.width.toNat := by
    rw [BitVec.toNat_mul, Nat.mod_eq_of_lt (by omega)]
  have hint : p.1.toInt = p.1.toNat := by
    rw [BitVec.toInt_eq_toNat_of_lt]
    omega
  rw [pixelIndex, hprod, hint]
  omega

theorem guiFillRect_inBounds (hfit : ctx.Fits) {color : U32} (ha : a ∈ guiFillRect ctx x y w h color) : a.InBounds := by
  unfold guiFillRect at ha
  split at ha
  · cases ha
  · obtain ⟨p, hp, rfl⟩ := List.mem_map.mp ha
    exact pixelIndex_inBounds hfit (fillPixels_onScreen hp)

/-! ## Drawing -/

/-- A drawing function only fills rectangles. -/
theorem guiDrawWindow_inBounds (hfit : ctx.Fits) (x y w h : I32) (bg border : U32) (radius : I32) :
    ∀ a ∈ guiDrawWindow ctx x y w h bg border radius, a.InBounds := by
  have hfill : ∀ {x y w h : I32} {color : U32}, ∀ a ∈ guiFillRect ctx x y w h color, a.InBounds :=
    fun a ha => guiFillRect_inBounds hfit ha
  unfold guiDrawWindow
  split
  · exact fun a ha => nomatch ha
  split
  · simp only [List.forall_mem_append]
    exact ⟨⟨⟨⟨hfill, hfill⟩, hfill⟩, hfill⟩, hfill⟩
  · simp only [drawRounded, List.forall_mem_append, List.forall_mem_flatMap]
    exact ⟨⟨⟨⟨⟨hfill, hfill⟩, hfill⟩, hfill⟩, hfill⟩, fun j _ i _ => ⟨⟨⟨hfill, hfill⟩, hfill⟩, hfill⟩⟩

theorem guiDrawDesktop_inBounds (hfit : ctx.Fits) : ∀ a ∈ guiDrawDesktop ctx, a.InBounds :=
  List.forall_mem_append.mpr ⟨fun _ ha => guiFillRect_inBounds hfit ha, guiDrawWindow_inBounds hfit _ _ _ _ _ _ _⟩

theorem guiDrawWindowEx_inBounds (hfit : ctx.Fits) (win : GuiWindow) (bg border : U32) :
    ∀ a ∈ guiDrawWindowEx ctx win bg border, a.InBounds := by
  unfold guiDrawWindowEx
  split
  · exact fun a ha => nomatch ha
  · simp only [List.forall_mem_append]
    exact ⟨⟨⟨guiDrawWindow_inBounds hfit _ _ _ _ _ _ _, fun _ ha => guiFillRect_inBounds hfit ha⟩,
      fun _ ha => guiFillRect_inBounds hfit ha⟩, fun _ ha => guiFillRect_inBounds hfit ha⟩

theorem guiDrawCursor_inBounds (hfit : ctx.Fits) (x y : I32) (color : U32) :
    ∀ a ∈ guiDrawCursor ctx x y color, a.InBounds := by
  simp only [guiDrawCursor, List.forall_mem_flatMap]
  intro _ _ i _
  split
  · exact fun a ha => guiFillRect_inBounds hfit ha
  · exact fun a ha => nomatch ha

theorem guiFlush_inBounds (hfit : ctx.Fits) : ∀ a ∈ guiFlush ctx, a.InBounds := by
  unfold guiFlush
  split
  · exact fun a ha => nomatch ha
  · intro a ha
    obtain ⟨j, hj, ha⟩ := List.mem_flatMap.mp ha
    obtain ⟨i, hi, rfl⟩ := List.mem_map.mp ha
    have hlt := row_add_lt hfit (List.mem_range.mp hi) (List.mem_range.mp hj)
    have hheight := ctx.height.isLt
    have hlen : guiBackbufferLen = 2304000 := rfl
    have hrow : (BitVec.ofNat 32 j * ctx.width).toNat = j * ctx.width.toNat := by
      rw [BitVec.toNat_mul, BitVec.toNat_ofNat, Nat.mod_eq_of_lt (lt_trans (List.mem_range.mp hj) hheight),
        Nat.mod_eq_of_lt (by omega)]
    rw [GuiAccess.InBounds, GuiAccess.index, hrow]
    omega

/-! ## Sequences of calls -/

inductive GuiCall where
  | drawDesktop
  | drawWindowEx (win : GuiWindow) (bg border : U32)
  | drawCursor (x y : I32) (color : U32)
  | flush

/-- The accesses that a call makes. -/
def GuiCall.accesses (ctx : GuiContext) : GuiCall → List GuiAccess
  | drawDesktop => guiDrawDesktop ctx
  | drawWindowEx win bg border => guiDrawWindowEx ctx win bg border
  | drawCursor x y color => guiDrawCursor ctx x y color
  | flush => guiFlush ctx

theorem accesses_inBounds (hfit : ctx.Fits) (call : GuiCall) : ∀ a ∈ call.accesses ctx, a.InBounds := by
  cases call with
  | drawDesktop => exact guiDrawDesktop_inBounds hfit
  | drawWindowEx win bg border => exact guiDrawWindowEx_inBounds hfit win bg border
  | drawCursor x y color => exact guiDrawCursor_inBounds hfit x y color
  | flush => exact guiFlush_inBounds hfit

theorem loopWhile_one {ok : I32 → Bool} (h : ok 0 = true) : loopWhile 1 ok = [0] := by
  have hone : loopWhile 1 ok = [0].takeWhile ok := rfl
  rw [hone, List.takeWhile_cons_of_pos h, List.takeWhile_nil]

/-- The tip of the cursor is the point it is drawn at. -/
theorem guiDrawCursor_tip (hbuf : ctx.backbuffer = true) (hx : x < ctx.width) (hy : y < ctx.height) (color : U32) :
    .store (pixelIndex ctx (x, y)) color ∈ guiDrawCursor ctx x y color := by
  have hpix : fillPixels ctx (x + 0) (y + 0) 1 1 = [(x, y)] := by
    have hrows : loopWhile 1 (fun j => decide (y + 0 + j < ctx.height)) = [0] := loopWhile_one (by simpa using hy)
    have hcols : loopWhile 1 (fun i => decide (x + 0 + i < ctx.width)) = [0] := loopWhile_one (by simpa using hx)
    rw [fillPixels, hrows, hcols]
    simp
  refine List.mem_flatMap.mpr ⟨(0b10000000#8, 0), List.mem_cons_self, ?_⟩
  refine List.mem_flatMap.mpr ⟨0, List.mem_range.mpr (by decide), ?_⟩
  rw [if_pos (by decide), guiFillRect, if_neg (by simp [hbuf])]
  change _ ∈ (fillPixels ctx (x + 0) (y + 0) 1 1).map _
  rw [hpix]
  exact List.mem_singleton.mpr rfl

/-- On a larger screen the cursor can be drawn at the point behind the last entry. -/
theorem not_inBounds_of_not_fits (ctx : GuiContext) (hbuf : ctx.backbuffer = true) (hfit : ¬ctx.Fits) :
    ∃ x y, ∃ a ∈ guiDrawCursor ctx x y 0#32, ¬a.InBounds := by
  have hlen : guiBackbufferLen = 2304000 := rfl
  unfold GuiContext.Fits at hfit
  have hw := ctx.width.isLt
  have hpos : 0 < ctx.width.toNat := Nat.pos_of_ne_zero fun h => hfit (by rw [h, Nat.zero_mul]; exact Nat.zero_le _)
  have hrow : guiBackbufferLen / ctx.width.toNat < ctx.height.toNat :=
    (Nat.div_lt_iff_lt_mul hpos).mpr (by rw [Nat.mul_comm]; omega)
  have hcol : guiBackbufferLen % ctx.width.toNat < ctx.width.toNat := Nat.mod_lt _ hpos
  have hrowle := Nat.div_le_self guiBackbufferLen ctx.width.toNat
  have hcolle := Nat.mod_le guiBackbufferLen ctx.width.toNat
  have hsum := Nat.div_add_mod guiBackbufferLen ctx.width.toNat
  -- column and row of that point
  obtain ⟨x, hx⟩ : ∃ x : I32, x.toNat = guiBackbufferLen % ctx.width.toNat :=
    ⟨BitVec.ofNat 32 _, Nat.mod_eq_of_lt (by omega)⟩
  obtain ⟨y, hy⟩ : ∃ y : I32, y.toNat = guiBackbufferLen / ctx.width.toNat :=
    ⟨BitVec.ofNat 32 _, Nat.mod_eq_of_lt (by omega)⟩
  refine ⟨x, y, _, guiDrawCursor_tip hbuf ?_ ?_ 0#32, ?_⟩
  · rw [BitVec.lt_def]
    omega
  · rw [BitVec.lt_def]
    omega
  · have hprod : (y * ctx.width).toNat = y.toNat * ctx.width.toNat := by
      rw [BitVec.toNat_mul, Nat.mod_eq_of_lt]
      rw [hy, Nat.mul_comm]
      omega
    have hint : x.toInt = x.toNat := by
      rw [BitVec.toInt_eq_toNat_of_lt]
      omega
    rw [GuiAccess.InBounds, GuiAccess.index, pixelIndex, hprod, hint, hx, hy, Nat.mul_comm]
    omega

/-- **No sequence of calls leaves the array exactly where the screen has no more points than the array.** -/
theorem gui_inBounds_iff (fb : LimineFramebuffer) :
    (∀ calls : List GuiCall, ∀ a ∈ calls.flatMap (GuiCall.accesses (guiInit (kmainFramebuffer fb))), a.InBounds) ↔
      (fb.width.setWidth 32).toNat * (fb.height.setWidth 32).toNat ≤ 1920 * 1200 := by
  constructor
  · intro h
    by_contra hfit
    obtain ⟨x, y, a, ha, hout⟩ := not_inBounds_of_not_fits (guiInit (kmainFramebuffer fb)) rfl hfit
    exact hout (h [.drawCursor x y 0#32] a (List.mem_flatMap.mpr ⟨_, List.mem_singleton.mpr rfl, ha⟩))
  · intro h calls a ha
    have hfit : (guiInit (kmainFramebuffer fb)).Fits := h
    obtain ⟨call, -, ha⟩ := List.mem_flatMap.mp ha
    exact accesses_inBounds hfit call a ha

/-! ## A larger screen -/

/-- A screen of 2560 times 1440 points. -/
def largeScreen : LimineFramebuffer := ⟨0xFFFF8000FD000000#64, 2560#64, 1440#64, 10240#64⟩

/-- With the cursor at the left of row 900, the entry behind the last one is stored to. -/
theorem largeScreen_cursor : (GuiCall.accesses (guiInit (kmainFramebuffer largeScreen))
    (.drawCursor 0#32 900#32 0xFFFFFF#32)).head? = some (.store 2304000 0xFFFFFF#32) ∧
      ¬(GuiAccess.store 2304000 0xFFFFFF#32).InBounds := by
  decide +kernel

end PpoOS
