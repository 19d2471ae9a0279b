import PpoOS.Flanterm.Verify.Pixels

/-!
# Flushing the queue

A flush draws the characters that wait, the cursor and the character under the old cursor; the place
of the old cursor is the only one where the picture need not be that of `grid` before.  So after a
flush the framebuffer shows the table with the cursor (`Synced`), and drawing everything anew changes
no pixel.
-/

namespace PpoOS

/-- What a terminal has from its start, and the framebuffer it was given -/
structure Display where
  screen : FbScreen
  colours : Palette
  framebuffer : Nat → U32

/-- All that is shown before a flush is right but for the place of the old cursor. -/
structure Drawing.Ok (n m : Nat) (display : Display) (d : Drawing) : Prop where
  fits : d.screen.Fits n m
  screen : d.screen = display.screen
  colours : d.colours = display.colours
  draws : ∃ shown, Draws d.colours d.screen n m display.framebuffer shown d.framebuffer ∧
    ∀ p, p ∈ places n m → p ≠ d.oldCursor → shown p = d.grid p

/-- After a flush: nothing waits, and the framebuffer shows the table and the cursor. -/
structure Synced (n m : Nat) (display : Display) (t : FlantermContext) (s : FbContext) (g : Grid) : Prop where
  fits : s.screen.Fits n m
  screen : s.screen = display.screen
  palette : s.colours = display.colours
  buffer : s.buffer = .init g.cells
  pen : s.pen = g.pen
  colours : s.colours = g.colours
  oldCursor : (s.oldCursorX, s.oldCursorY) = (g.pen.cursorX, g.pen.cursorY)
  draws : Draws s.colours s.screen n m display.framebuffer (g.shown t) s.framebuffer

section Flush

variable {n m : Nat} {fb₀ : Nat → U32} {display : Display} {t : FlantermContext} {s : FbContext} {g : Grid}

theorem Grid.shown_of_ne {p : Nat × Nat} (h : p ≠ (g.pen.cursorX, g.pen.cursorY)) : g.shown t p = g.cells p :=
  if_neg fun hp => h hp.2

theorem Grid.shown_disabled {p : Nat × Nat} (h : t.cursorEnabled = false) : g.shown t p = g.cells p :=
  if_neg fun hp => by rw [h] at hp; exact Bool.false_ne_true hp.1

/-- Nothing has been pushed since the last flush. -/
theorem Synced.shows (h : Synced n m display t s g) : ShowsGrid n m s.drawing s g where
  cells := h.fits.cells
  ok := h.buffer ▸ WriteBack.Ok.init _ _
  view := by rw [h.buffer, WriteBack.view_init]
  pen := h.pen
  colours := h.colours
  drawing := rfl

theorem Synced.drawing (h : Synced n m display t s g) : s.drawing.Ok n m display := by
  refine ⟨h.fits, h.screen, h.palette, g.shown t, h.draws, fun p _ hp => ?_⟩
  rw [Grid.shown_of_ne (hp.trans_eq h.oldCursor)]
  exact (congrFun (congrArg WriteBack.base h.buffer) p).symm

/-- Tables with the same characters on the screen look the same. -/
theorem Draws.congr {colours : Palette} {screen : FbScreen} {fb : Nat → U32} {cells cells' : Nat × Nat → FbChar}
    (h : Draws colours screen n m fb₀ cells fb) (heq : ∀ p, p ∈ places n m → cells p = cells' p) :
    Draws colours screen n m fb₀ cells' fb := by
  refine ⟨fun x hx y hy => (h.inside x hx y hy).trans ?_, h.outside⟩
  rw [picture, picture]
  by_cases hin : screen.offsetX ≤ x ∧ (x - screen.offsetX) / screen.glyphWidth < n ∧ screen.offsetY ≤ y ∧
      (y - screen.offsetY) / screen.glyphHeight < m
  · rw [if_pos hin, if_pos hin, heq _ (mem_places.mpr ⟨hin.2.1, hin.2.2.2⟩)]
  · rw [if_neg hin, if_neg hin]

/-- The picture says what is in the framebuffer. -/
theorem Draws.unique {colours : Palette} {screen : FbScreen} {fb fb' : Nat → U32} {cells : Nat × Nat → FbChar}
    (h : Draws colours screen n m fb₀ cells fb) (h' : Draws colours screen n m fb₀ cells fb') : fb' = fb := by
  funext i
  by_cases hin : ∃ x < screen.width, ∃ y < screen.height, i = screen.pixelAt x y
  · obtain ⟨x, hx, y, hy, rfl⟩ := hin
    rw [h.inside x hx y hy, h'.inside x hx y hy]
  · have hout : ∀ x < screen.width, ∀ y < screen.height, i ≠ screen.pixelAt x y :=
      fun x hx y hy heq => hin ⟨x, hx, y, hy, heq⟩
    rw [h.outside i hout, h'.outside i hout]

/-- Within a flush, with `items` of the queue left; `cursor` says whether the cursor has been drawn. -/
structure Flushing (n m : Nat) (fb₀ : Nat → U32) (t : FlantermContext) (s₀ : FbContext) (g : Grid)
    (items : List ((Nat × Nat) × FbChar)) (s : FbContext) : Prop where
  same : s = { s₀ with buffer := s.buffer, framebuffer := s.framebuffer }
  queue : s.buffer.queue = s₀.buffer.queue
  view : s.buffer.view = g.cells
  pending : s.buffer.Pending items
  shown : ∃ shown, Draws s₀.colours s₀.screen n m fb₀ shown s.framebuffer ∧
    (∀ p, p ∈ places n m → s.buffer.slot p = none → p ≠ (s₀.oldCursorX, s₀.oldCursorY) → shown p = g.shown t p) ∧
    (t.cursorEnabled = true → (g.pen.cursorX, g.pen.cursorY) ∈ places n m →
      s.buffer.slot (g.pen.cursorX, g.pen.cursorY) = none ∧
        shown (g.pen.cursorX, g.pen.cursorY) = g.shown t (g.pen.cursorX, g.pen.cursorY))

/-- Where the place of the cursor is right, and the others are as before. -/
theorem Flushing.cursor {s₀ : FbContext} {b : WriteBack (Nat × Nat) FbChar} {fb : Nat → U32}
    {shown : Nat × Nat → FbChar} {items : List ((Nat × Nat) × FbChar)} (hpen : s₀.pen = g.pen) (hqueue : b.queue = s₀.buffer.queue)
    (hview : b.view = g.cells) (hpending : b.Pending items)
    (hdraws : Draws s₀.colours s₀.screen n m fb₀
      (Function.update shown (g.pen.cursorX, g.pen.cursorY) (g.shown t (g.pen.cursorX, g.pen.cursorY))) fb)
    (hslot : b.slot (g.pen.cursorX, g.pen.cursorY) = none)
    (hother : ∀ p, p ∈ places n m → p ≠ (g.pen.cursorX, g.pen.cursorY) → b.slot p = none →
      p ≠ (s₀.oldCursorX, s₀.oldCursorY) → shown p = g.cells p) :
    Flushing n m fb₀ t s₀ g items { s₀ with pen := g.pen, buffer := b, framebuffer := fb } := by
  refine ⟨by rw [← hpen], hqueue, hview, hpending, _, hdraws, fun p hp hnone hne => ?_, fun _ _ => ⟨hslot, Function.update_self ..⟩⟩
  by_cases hcur : p = (g.pen.cursorX, g.pen.cursorY)
  · rw [hcur, Function.update_self]
  · rw [Function.update_of_ne hcur, Grid.shown_of_ne hcur]
    exact hother p hp hcur hnone hne

/-- The cursor is drawn first. -/
theorem flush_cursor (hshows : ShowsGrid t.cols t.rows s.drawing s g) (hdraw : s.drawing.Ok t.cols t.rows display) :
    Ends (if t.cursorEnabled then drawCursor t s else some s)
      (Flushing t.cols t.rows display.framebuffer t s g s.buffer.queue) := by
  obtain ⟨shown, hdraws, hshown⟩ := hdraw.draws
  have hpending := WriteBack.Pending.queue hshows.ok
  have hplain : ∀ p, p ∈ places t.cols t.rows → s.buffer.slot p = none → p ≠ (s.oldCursorX, s.oldCursorY) →
      shown p = g.cells p := by
    intro p hp hslot hne
    rw [hshown p hp hne, ← hshows.view, WriteBack.view_of_none hslot]
    rfl
  by_cases henabled : t.cursorEnabled = true
  · rw [if_pos henabled, drawCursor, hshows.pen]
    refine Ends.ite (fun hoff => Ends.pure ?_) fun hon => ?_
    · have hout : (g.pen.cursorX, g.pen.cursorY) ∉ places t.cols t.rows := by
        rw [mem_places]
        omega
      refine ⟨rfl, rfl, hshows.view, hpending, shown, hdraws, fun p hp hslot hne => ?_, fun _ hin => absurd hin hout⟩
      rw [Grid.shown_of_ne fun heq => hout (heq ▸ hp)]
      exact hplain p hp hslot hne
    · have hx : g.pen.cursorX < t.cols := by omega
      have hy : g.pen.cursorY < t.rows := by omega
      have hchar := hshows.charAt (index_lt hx hy)
      rw [placeAt_index hx, Nat.add_comm] at hchar
      obtain ⟨fb, hfb, hdraws'⟩ := hdraws.plotChar hdraw.fits rfl rfl rfl rfl
        (g.shown t (g.pen.cursorX, g.pen.cursorY)) hx hy
      have hshown : g.shown t (g.pen.cursorX, g.pen.cursorY) =
          ⟨(g.cells (g.pen.cursorX, g.pen.cursorY)).c, (g.cells (g.pen.cursorX, g.pen.cursorY)).bg,
            (g.cells (g.pen.cursorX, g.pen.cursorY)).fg⟩ := if_pos ⟨henabled, rfl⟩
      rw [hchar, Option.bind_eq_bind, Option.bind_some, ← hshown, hfb, Option.bind_eq_bind, Option.bind_some]
      refine Ends.pure ?_
      dsimp only
      rw [hshows.pen]
      by_cases hslot : s.buffer.slot (g.pen.cursorX, g.pen.cursorY) = none
      · rw [if_pos hslot]
        exact Flushing.cursor hshows.pen rfl hshows.view hpending hdraws' hslot fun p hp _ => hplain p hp
      · rw [if_neg hslot]
        have hview := congrFun hshows.view (g.pen.cursorX, g.pen.cursorY)
        refine Flushing.cursor (b := s.buffer.settle (g.pen.cursorX, g.pen.cursorY) _) hshows.pen rfl ?_
          (hpending.settle hview) hdraws' (Function.update_self ..) fun p hp hcur hnone => hplain p hp ?_
        · rw [WriteBack.Pending.settle_view hview, hshows.view]
        · exact (Function.update_of_ne hcur ..).symm.trans hnone
  · rw [if_neg henabled]
    have hdisabled := Bool.eq_false_iff.mpr henabled
    refine Ends.pure ⟨rfl, rfl, hshows.view, hpending, shown, hdraws, fun p hp hslot hne => ?_,
      fun h => absurd h henabled⟩
    rw [Grid.shown_disabled hdisabled]
    exact hplain p hp hslot hne

/-- An item of the queue is drawn. -/
theorem Flushing.item {s₀ : FbContext} {place : Nat × Nat} {c : FbChar} {items : List ((Nat × Nat) × FbChar)}
    (h : Flushing t.cols t.rows fb₀ t s₀ g ((place, c) :: items) s) (hfit : s₀.screen.Fits t.cols t.rows)
    (hplace : place ∈ places t.cols t.rows) :
    Ends (flushItem t s (place, c)) (Flushing t.cols t.rows fb₀ t s₀ g items) := by
  obtain ⟨x, y⟩ := place
  obtain ⟨hx, hy⟩ := mem_places.mp hplace
  obtain ⟨shown, hdraws, hright, hcursor⟩ := h.shown
  have hscreen : s.screen = s₀.screen := by rw [h.same]
  have hcolours : s.colours = s₀.colours := by rw [h.same]
  rw [flushItem, hscreen, hfit.cells, if_pos (index_lt hx hy)]
  by_cases hslot : s.buffer.slot (x, y) = none
  · rw [if_pos hslot]
    exact Ends.pure ⟨h.same, h.queue, h.view, h.pending.tail hslot, shown, hdraws, hright, hcursor⟩
  · rw [if_neg hslot]
    obtain ⟨fb, hfb, hdraws'⟩ := hdraws.plotChar hfit hscreen hcolours rfl rfl c hx hy
    rw [Option.bind_eq_bind, hfb, Option.bind_some]
    have hvalue : s.buffer.view (x, y) = c := h.pending.value _ _ List.mem_cons_self hslot
    have hcell : g.cells (x, y) = c := by rw [← h.view, hvalue]
    have hne : t.cursorEnabled = true → (x, y) ≠ (g.pen.cursorX, g.pen.cursorY) := by
      intro henabled heq
      rw [heq] at hslot hplace
      exact hslot (hcursor henabled hplace).1
    have hshown : g.shown t (x, y) = c := by
      rw [← hcell]
      exact if_neg fun hp => hne hp.1 hp.2
    refine Ends.pure ⟨?_, h.queue, ?_, (h.pending.settle hvalue).tail (Function.update_self ..), _, hdraws',
      fun p hp hnone hold => ?_, fun henabled hin => ?_⟩
    · rw [h.same]
    · rw [← h.view]
      exact WriteBack.Pending.settle_view hvalue
    · by_cases hpc : p = (x, y)
      · rw [hpc, Function.update_self, hshown]
      · rw [Function.update_of_ne hpc]
        exact hright p hp ((Function.update_of_ne hpc ..).symm.trans hnone) hold
    · have hcur := (hne henabled).symm
      rw [Function.update_of_ne hcur]
      exact ⟨(Function.update_of_ne hcur ..).trans (hcursor henabled hin).1, (hcursor henabled hin).2⟩

/-- The queue is worked off. -/
theorem Flushing.items {s₀ : FbContext} {items : List ((Nat × Nat) × FbChar)} (hfit : s₀.screen.Fits t.cols t.rows)
    (hplaces : ∀ item ∈ items, item.1 ∈ places t.cols t.rows) (h : Flushing t.cols t.rows fb₀ t s₀ g items s) :
    Ends (items.foldlM (flushItem t) s) (Flushing t.cols t.rows fb₀ t s₀ g []) := by
  induction items generalizing s with
  | nil => exact Ends.pure h
  | cons item items ih =>
    rw [List.foldlM_cons]
    refine Ends.bind (h.item hfit (hplaces item List.mem_cons_self)) fun s' h' => ?_
    exact ih (fun i hi => hplaces i (List.mem_cons_of_mem item hi)) h'

/-- The old cursor is drawn over; then all is shown. -/
theorem Flushing.erase {s₀ : FbContext} (hfit : s₀.screen.Fits t.cols t.rows) (hpen : s₀.pen = g.pen)
    (h : Flushing t.cols t.rows fb₀ t s₀ g [] s) :
    Ends (eraseOldCursor t s) fun s' =>
      s' = { s with framebuffer := s'.framebuffer } ∧
        Draws s₀.colours s₀.screen t.cols t.rows fb₀ (g.shown t) s'.framebuffer := by
  obtain ⟨shown, hdraws, hright, hcursor⟩ := h.shown
  have hscreen : s.screen = s₀.screen := by rw [h.same]
  have hcol : s.colours = s₀.colours := by rw [h.same]
  have hold : (s.oldCursorX, s.oldCursorY) = (s₀.oldCursorX, s₀.oldCursorY) := by rw [h.same]
  have hpen' : s.pen = g.pen := by rw [h.same, ← hpen]
  rw [eraseOldCursor]
  have hright' := fun p hp => hright p hp (h.pending.slot_eq_none p)
  refine Ends.ite (fun hmoved => ?_) fun hstays => ?_
  · refine Ends.ite (fun hon => ?_) fun hoff => Ends.pure ⟨rfl, hdraws.congr fun p hp => hright' p hp ?_⟩
    · have hindex : s.oldCursorX + s.oldCursorY * t.cols < s.screen.cells := by
        rw [hscreen, hfit.cells, Nat.add_comm]
        exact index_lt hon.1 hon.2
      rw [if_pos hindex]
      obtain ⟨fb, hfb, hdraws'⟩ := hdraws.plotChar hfit hscreen hcol rfl rfl
        (s.buffer.base (s.oldCursorX, s.oldCursorY)) hon.1 hon.2
      rw [hfb]
      refine Ends.pure ⟨rfl, hdraws'.congr fun p hp => ?_⟩
      by_cases hpo : p = (s.oldCursorX, s.oldCursorY)
      · rw [hpo, Function.update_self, h.pending.base_eq_view, h.view]
        refine (if_neg fun hcur => ?_).symm
        rw [← hpen'] at hcur
        have hpos := Prod.mk.inj hcur.2
        rcases hmoved with (hx | hy) | hdisabled
        · exact hx hpos.1
        · exact hy hpos.2
        · rw [hdisabled] at hcur
          exact Bool.false_ne_true hcur.1
      · rw [Function.update_of_ne hpo]
        exact hright' p hp (hpo ∘ fun heq => heq.trans hold.symm)
    · rintro rfl
      rw [← hold, mem_places] at hp
      exact hoff hp
  · have hstays' : (s.oldCursorX, s.oldCursorY) = (g.pen.cursorX, g.pen.cursorY) ∧ t.cursorEnabled = true := by
      rw [not_or, not_or, not_not, not_not, Bool.not_eq_false] at hstays
      exact ⟨by rw [hstays.1.1, hstays.1.2, hpen'], hstays.2⟩
    refine Ends.pure ⟨rfl, hdraws.congr fun p hp => ?_⟩
    by_cases hpo : p = (s₀.oldCursorX, s₀.oldCursorY)
    · rw [hpo, ← hold, hstays'.1] at hp ⊢
      exact (hcursor hstays'.2 hp).2
    · exact hright' p hp hpo

/-- `flanterm_fb_double_buffer_flush` -/
theorem flush_synced (hshows : ShowsGrid t.cols t.rows s.drawing s g) (hdraw : s.drawing.Ok t.cols t.rows display) :
    Ends (flantermFbDoubleBufferFlush t s) (Synced t.cols t.rows display t · g) := by
  rw [flantermFbDoubleBufferFlush]
  refine Ends.bind (flush_cursor hshows hdraw) fun s₁ h₁ => ?_
  refine Ends.bind (Flushing.items hdraw.fits ?_ (h₁.queue ▸ h₁)) fun s₂ h₂ => ?_
  · rw [h₁.queue]
    exact hshows.ok.within
  refine Ends.bind (h₂.erase hdraw.fits hshows.pen) fun s₃ ⟨hsame, hdraws⟩ => Ends.pure ?_
  have hscreen : s₃.screen = s.screen := by rw [hsame, h₂.same]
  have hcolours : s₃.colours = s.colours := by rw [hsame, h₂.same]
  have hpen : s₃.pen = g.pen := by rw [hsame, h₂.same, ← hshows.pen]
  have hbuffer : s₃.buffer = s₂.buffer := by rw [hsame]
  exact {
    fits := hscreen ▸ hdraw.fits
    screen := hscreen.trans hdraw.screen
    palette := hcolours.trans hdraw.colours
    buffer := by rw [hbuffer, h₂.pending.reset_eq, h₂.view]
    pen := hpen
    colours := hcolours.trans hshows.colours
    oldCursor := by rw [hpen]
    draws := by
      dsimp only
      rw [hcolours, hscreen]
      exact hdraws }

/-! ## Drawing everything anew -/

/-- The border has its colour, and the first `k` places have been plotted. -/
structure Redrawn (n m : Nat) (colours : Palette) (screen : FbScreen) (fb₀ : Nat → U32) (cells : Nat × Nat → FbChar)
    (k : Nat) (fb : Nat → U32) : Prop where
  border : ∀ x < screen.width, ∀ y < screen.height, (∀ cx < n, ∀ cy < m,
    ¬∃ gx < screen.glyphWidth, ∃ gy < screen.glyphHeight,
      x = screen.offsetX + cx * screen.glyphWidth + gx ∧ y = screen.offsetY + cy * screen.glyphHeight + gy) →
    fb (screen.pixelAt x y) = colours.defaultBg
  plotted : ∀ cx < n, ∀ cy < m, cy * n + cx < k → ∀ gx < screen.glyphWidth, ∀ gy < screen.glyphHeight,
    fb (screen.pixelAt (screen.offsetX + cx * screen.glyphWidth + gx) (screen.offsetY + cy * screen.glyphHeight + gy)) =
      glyphColour colours screen (cells (cx, cy)) gx gy
  outside : ∀ i, (∀ x < screen.width, ∀ y < screen.height, i ≠ screen.pixelAt x y) → fb i = fb₀ i

/-- All places have been plotted. -/
theorem Redrawn.draws {colours : Palette} {screen : FbScreen} {cells : Nat × Nat → FbChar} {fb : Nat → U32}
    (hfit : screen.Fits n m) (h : Redrawn n m colours screen fb₀ cells (m * n) fb) :
    Draws colours screen n m fb₀ cells fb := by
  refine ⟨fun x hx y hy => ?_, h.outside⟩
  by_cases hplace : ∃ cx < n, ∃ cy < m, ∃ gx < screen.glyphWidth, ∃ gy < screen.glyphHeight,
      x = screen.offsetX + cx * screen.glyphWidth + gx ∧ y = screen.offsetY + cy * screen.glyphHeight + gy
  · obtain ⟨cx, hcx, cy, hcy, gx, hgx, gy, hgy, rfl, rfl⟩ := hplace
    rw [h.plotted cx hcx cy hcy (index_lt hcx hcy) gx hgx gy hgy, picture_at hcx hcy hgx hgy]
  · have hborder : ∀ cx < n, ∀ cy < m, ¬∃ gx < screen.glyphWidth, ∃ gy < screen.glyphHeight,
        x = screen.offsetX + cx * screen.glyphWidth + gx ∧ y = screen.offsetY + cy * screen.glyphHeight + gy := by
      rintro cx hcx cy hcy ⟨gx, hgx, gy, hgy, hpx, hpy⟩
      exact hplace ⟨cx, hcx, cy, hcy, gx, hgx, gy, hgy, hpx, hpy⟩
    rw [h.border x hx y hy hborder, picture_border (glyphWidth_pos hfit) (glyphHeight_pos hfit) hborder]

/-- One more place is plotted. -/
theorem Redrawn.plot {colours : Palette} {screen : FbScreen} {cells : Nat × Nat → FbChar} {fb fb' : Nat → U32}
    {x y : Nat} (hfit : screen.Fits n m) (hx : x < n) (hy : y < m)
    (h : Redrawn n m colours screen fb₀ cells (y * n + x) fb)
    (hfb : ∀ i, (placePixels screen x y i → fb' i = placeColour colours screen (cells (x, y)) x y i) ∧
      (¬placePixels screen x y i → fb' i = fb i)) :
    Redrawn n m colours screen fb₀ cells (y * n + x + 1) fb' := by
  have hline := hfit.line
  have hright := glyph_right hfit hx
  have hbottom := glyph_bottom hfit hy
  refine ⟨fun px hpx py hpy hborder => ?_, fun cx hcx cy hcy hk gx hgx gy hgy => ?_, fun i hi => ?_⟩
  · rw [← h.border px hpx py hpy hborder]
    refine (hfb _).2 ?_
    rintro ⟨gx, hgx, gy, hgy, heq⟩
    have hsame := FbScreen.pixelAt_inj (by omega) (by omega) heq
    exact hborder x hx y hy ⟨gx, hgx, gy, hgy, hsame⟩
  · by_cases hsame : (cx, cy) = (x, y)
    · obtain ⟨rfl, rfl⟩ := Prod.mk.inj hsame
      rw [(hfb _).1 ⟨gx, hgx, gy, hgy, rfl⟩, placeColour_at hfit colours _ hx hgx]
    · have hne : cy * n + cx ≠ y * n + x := by
        intro heq
        have hplace := congrArg (placeAt n) heq
        rw [placeAt_index hcx, placeAt_index hx] at hplace
        exact hsame hplace
      rw [← h.plotted cx hcx cy hcy (by omega) gx hgx gy hgy]
      refine (hfb _).2 ?_
      rintro ⟨gx', hgx', gy', hgy', heq⟩
      have hcright := glyph_right hfit hcx
      obtain ⟨hpx, hpy⟩ := FbScreen.pixelAt_inj (by omega) (by omega) heq
      have hcolumn := congrArg (placeAt screen.glyphWidth) (show cx * screen.glyphWidth + gx = x * screen.glyphWidth + gx' by
        omega)
      have hrow := congrArg (placeAt screen.glyphHeight)
        (show cy * screen.glyphHeight + gy = y * screen.glyphHeight + gy' by omega)
      rw [placeAt_index hgx, placeAt_index hgx'] at hcolumn
      rw [placeAt_index hgy, placeAt_index hgy'] at hrow
      exact hsame (Prod.ext (Prod.mk.inj hcolumn).2 (Prod.mk.inj hrow).2)
  · rw [← h.outside i hi]
    refine (hfb i).2 ?_
    rintro ⟨gx, hgx, gy, hgy, rfl⟩
    exact hi _ (by omega) _ (by omega) rfl

/-- The loop over all places -/
theorem plotAll {fb : Nat → U32} (hfit : s.screen.Fits t.cols t.rows) (hn : 0 < t.cols)
    (hbase : s.buffer.base = g.cells)
    (h : Redrawn t.cols t.rows s.colours s.screen fb₀ g.cells 0 fb) {k : Nat} (hk : k ≤ t.rows * t.cols) :
    Ends ((List.range k).foldlM (fun s i =>
        if i < s.screen.cells then s.plotChar t (s.buffer.base (i % t.cols, i / t.cols)) (i % t.cols) (i / t.cols)
        else none) { s with framebuffer := fb })
      fun s' => s' = { s with framebuffer := s'.framebuffer } ∧
        Redrawn t.cols t.rows s.colours s.screen fb₀ g.cells k s'.framebuffer := by
  induction k with
  | zero => exact Ends.pure ⟨rfl, h⟩
  | succ k ih =>
    rw [List.range_succ, List.foldlM_append]
    refine Ends.bind (ih (by omega)) fun s' ⟨hsame, hredrawn⟩ => ?_
    obtain ⟨hx, hy⟩ := placeAt_mem hn (show k < t.rows * t.cols by omega)
    have hindex : k / t.cols * t.cols + k % t.cols = k := by rw [Nat.mul_comm, Nat.div_add_mod]
    have hscreen : s'.screen = s.screen := by rw [hsame]
    have hcolours : s'.colours = s.colours := by rw [hsame]
    have hbase' : s'.buffer.base = g.cells := by rw [hsame, ← hbase]
    obtain ⟨fb', hfb', hpaints⟩ := plotChar_paints (hscreen ▸ hfit) rfl rfl (g.cells (k % t.cols, k / t.cols)) hx hy
    rw [List.foldlM_cons, if_pos (by rw [hscreen, hfit.cells]; omega), hbase', hfb']
    rw [hscreen, hcolours] at hpaints
    rw [← hindex] at hredrawn ⊢
    refine Ends.pure ⟨?_, hredrawn.plot hfit hx hy hpaints⟩
    rw [hsame]

/-- The terminal is painted in the colour of the border. -/
theorem blankAll (hfit : s.screen.Fits n m) (cells : Nat × Nat → FbChar) :
    Ends ((List.range s.screen.height).foldlM (fun fb y =>
        (List.range s.screen.width).foldlM (fun fb x =>
          s.screen.setPixel (s.screen.pixelAt x y) s.colours.defaultBg fb) fb) s.framebuffer)
      (Redrawn n m s.colours s.screen s.framebuffer cells 0) := by
  have hpaints : PaintsOver (fun _ => s.colours.defaultBg)
      (fun k => ∃ y ∈ List.range s.screen.height, ∃ x ∈ List.range s.screen.width, k = s.screen.pixelAt x y) s.framebuffer
      ((List.range s.screen.height).foldlM (fun fb y =>
        (List.range s.screen.width).foldlM (fun fb x =>
          s.screen.setPixel (s.screen.pixelAt x y) s.colours.defaultBg fb) fb) s.framebuffer) := by
    refine PaintsOver.foldlM fun y hy fb => PaintsOver.foldlM fun x hx fb => ?_
    rw [FbScreen.setPixel, if_pos (hfit.memory x (List.mem_range.mp hx) y (List.mem_range.mp hy))]
    exact PaintsOver.write rfl
  refine hpaints.mono fun fb hfb => ⟨fun x hx y hy _ => ?_, fun _ _ _ _ hk => absurd hk (Nat.not_lt_zero _), fun i hi => ?_⟩
  · exact (hfb _).1 ⟨y, List.mem_range.mpr hy, x, List.mem_range.mpr hx, rfl⟩
  · refine (hfb i).2 ?_
    rintro ⟨y, hy, x, hx, rfl⟩
    exact hi x (List.mem_range.mp hx) y (List.mem_range.mp hy) rfl

/-- `flanterm_fb_full_refresh`, where no character waits -/
theorem fullRefresh_draws (hfit : s.screen.Fits t.cols t.rows) (hn : 0 < t.cols) (hbuffer : s.buffer = .init g.cells)
    (hpen : s.pen = g.pen) :
    Ends (flantermFbFullRefresh t s) fun s' => s' = { s with framebuffer := s'.framebuffer } ∧
      Draws s.colours s.screen t.cols t.rows s.framebuffer (g.shown t) s'.framebuffer := by
  rw [flantermFbFullRefresh]
  refine Ends.bind (blankAll hfit g.cells) fun fb hblank => ?_
  refine Ends.bind (plotAll hfit hn (by rw [hbuffer]; rfl) hblank (Nat.le_refl _)) fun s₁ ⟨hsame, hredrawn⟩ => ?_
  have hdraws := hredrawn.draws hfit
  have hscreen : s₁.screen = s.screen := by rw [hsame]
  have hcolours : s₁.colours = s.colours := by rw [hsame]
  have hbuffer' : s₁.buffer = .init g.cells := by rw [hsame, hbuffer]
  have hpen' : s₁.pen = g.pen := by rw [hsame, hpen]
  by_cases henabled : t.cursorEnabled = true
  · rw [if_pos henabled, drawCursor]
    refine Ends.ite (fun hoff => Ends.pure ⟨hsame, hdraws.congr fun p hp => ?_⟩) fun hon => ?_
    · refine (Grid.shown_of_ne ?_).symm
      rintro rfl
      rw [mem_places, ← hpen'] at hp
      omega
    · have hx : s₁.pen.cursorX < t.cols := by omega
      have hy : s₁.pen.cursorY < t.rows := by omega
      have hchar : s₁.charAt t (s₁.pen.cursorX + s₁.pen.cursorY * t.cols) =
          some (g.cells (s₁.pen.cursorX, s₁.pen.cursorY)) := by
        have hindex := index_lt hx hy
        have hplace := placeAt_index (n := t.cols) (y := s₁.pen.cursorY) hx
        rw [placeAt] at hplace
        rw [FbContext.charAt, hscreen, hfit.cells, Nat.add_comm, if_pos hindex, hplace, hbuffer']
        rfl
      have hshown : g.shown t (s₁.pen.cursorX, s₁.pen.cursorY) =
          ⟨(g.cells (s₁.pen.cursorX, s₁.pen.cursorY)).c, (g.cells (s₁.pen.cursorX, s₁.pen.cursorY)).bg,
            (g.cells (s₁.pen.cursorX, s₁.pen.cursorY)).fg⟩ := if_pos ⟨henabled, by rw [hpen']⟩
      obtain ⟨fb', hfb', hdraws'⟩ := hdraws.plotChar hfit hscreen hcolours rfl rfl
        (g.shown t (s₁.pen.cursorX, s₁.pen.cursorY)) hx hy
      rw [hchar, Option.bind_eq_bind, Option.bind_some, ← hshown, hfb', Option.bind_eq_bind, Option.bind_some]
      refine Ends.pure ?_
      dsimp only
      rw [if_pos (by rw [hbuffer']; rfl)]
      refine ⟨by rw [hsame], hdraws'.congr fun p _ => ?_⟩
      by_cases hp : p = (s₁.pen.cursorX, s₁.pen.cursorY)
      · rw [hp, Function.update_self]
      · rw [Function.update_of_ne hp, Grid.shown_of_ne (by rw [← hpen']; exact hp)]
  · rw [if_neg henabled]
    exact Ends.pure ⟨hsame, hdraws.congr fun p _ => (Grid.shown_disabled (Bool.eq_false_iff.mpr henabled)).symm⟩

/-- After a flush there is nothing to refresh. -/
theorem Synced.fullRefresh (h : Synced t.cols t.rows display t s g) (hn : 0 < t.cols) :
    flantermFbFullRefresh t s = some s := by
  obtain ⟨s', hs', hsame, hdraws⟩ := fullRefresh_draws h.fits hn h.buffer h.pen
  have hdraws' : Draws s.colours s.screen t.cols t.rows display.framebuffer (g.shown t) s'.framebuffer :=
    ⟨hdraws.inside, fun i hi => (hdraws.outside i hi).trans (h.draws.outside i hi)⟩
  rw [hs', hsame, h.draws.unique hdraws']

end Flush

end PpoOS
