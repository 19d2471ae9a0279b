import PpoOS.Flanterm.Session
import PpoOS.Flanterm.Verify.Context
import PpoOS.Flanterm.Verify.Flush

/-!
# The terminal and the table

A backend that keeps step with another one call by call keeps step with it byte by byte, as a byte is
calls that depend on the place of the cursor only.  So the framebuffer backend shows, after any run,
what the table says, and it never leaves one of its arrays.
-/

namespace PpoOS

section Simulation

variable {σ τ : Type} {A : Backend σ} {B : Backend τ} {n m : Nat} {R : σ → τ → Prop}

/-- On calls that are right, `A` keeps step with `B`. -/
structure Backend.Simulates (n m : Nat) (A : Backend σ) (B : Backend τ) (R : σ → τ → Prop) : Prop where
  run : ∀ call, BackendCall.Ok n m call → ∀ s s', R s s' →
    ∃ u u', A.run call.ctx call.fn s = some u ∧ B.run call.ctx call.fn s' = some u' ∧ R u u'
  cursor : ∀ t s s', R s s' → A.getCursorPos t s = B.getCursorPos t s'
  inside : ∀ t s, t.Ok n m → (A.getCursorPos t s).1 < n ∧ (A.getCursorPos t s).2 < m

theorem Backend.Simulates.runCalls (h : A.Simulates n m B R) {calls : List BackendCall}
    (hcalls : ∀ call ∈ calls, call.Ok n m) {s : σ} {s' : τ} (hs : R s s') :
    ∃ u u', A.runCalls calls s = some u ∧ B.runCalls calls s' = some u' ∧ R u u' := by
  induction calls generalizing s s' with
  | nil => exact ⟨s, s', rfl, rfl, hs⟩
  | cons call calls ih =>
    obtain ⟨u, u', hu, hu', huu⟩ := h.run call (hcalls call List.mem_cons_self) s s' hs
    obtain ⟨v, v', hv, hv', hvv⟩ := ih (fun c hc => hcalls c (List.mem_cons_of_mem call hc)) huu
    refine ⟨v, v', ?_, ?_, hvv⟩
    · rw [Backend.runCalls, List.foldlM_cons, hu]
      exact hv
    · rw [Backend.runCalls, List.foldlM_cons, hu']
      exact hv'

/-- The calls of a byte, and what the terminal is after it -/
theorem putchar_run {c : U8} {t t' : FlantermContext} {s u : σ}
    (hresult : (putchar c (A.getCursorPos t s).1 (A.getCursorPos t s).2 t).2 = some ((), t'))
    (hcalls : A.runCalls (putchar c (A.getCursorPos t s).1 (A.getCursorPos t s).2 t).1 s = some u) :
    (flantermPutchar A c).run (t, s) = some ((), t', u) := by
  change ((putchar c (A.getCursorPos t s).1 (A.getCursorPos t s).2 t).2.bind fun r =>
    (A.runCalls (putchar c (A.getCursorPos t s).1 (A.getCursorPos t s).2 t).1 s).bind fun u => some ((), r.2, u)) = _
  rw [hresult, hcalls]
  rfl

/-- A byte -/
theorem Backend.Simulates.byte (h : A.Simulates n m B R) (c : U8) {t : FlantermContext} (ht : t.Ok n m) {s : σ}
    {s' : τ} (hs : R s s') :
    ∃ t' u u', (flantermPutchar A c).run (t, s) = some ((), t', u) ∧
      (flantermPutchar B c).run (t, s') = some ((), t', u') ∧ t'.Ok n m ∧ R u u' := by
  obtain ⟨hx, hy⟩ := h.inside t s ht
  have hkept := putchar_kept ht c hx hy
  obtain ⟨⟨⟩, t', hresult, ht'⟩ := hkept.result
  obtain ⟨u, u', hu, hu', huu⟩ := h.runCalls hkept.events hs
  refine ⟨t', u, u', ?_, ?_, ht', huu⟩
  · exact putchar_run hresult hu
  · rw [h.cursor t s s' hs] at hresult hu'
    exact putchar_run hresult hu'

/-- The bytes of a call of `flanterm_write` -/
theorem Backend.Simulates.bytes (h : A.Simulates n m B R) (bytes : List U8) {t : FlantermContext} (ht : t.Ok n m)
    {s : σ} {s' : τ} (hs : R s s') :
    ∃ t' u u', (bytes.forM (flantermPutchar A)).run (t, s) = some ((), t', u) ∧
      (bytes.forM (flantermPutchar B)).run (t, s') = some ((), t', u') ∧ t'.Ok n m ∧ R u u' := by
  induction bytes generalizing t s s' with
  | nil => exact ⟨t, s, s', rfl, rfl, ht, hs⟩
  | cons c bytes ih =>
    obtain ⟨t₁, u, u', hu, hu', ht₁, huu⟩ := h.byte c ht hs
    obtain ⟨t₂, v, v', hv, hv', ht₂, hvv⟩ := ih ht₁ huu
    refine ⟨t₂, v, v', ?_, ?_, ht₂, hvv⟩
    · exact (FaultState.run_bind_eq hu).trans hv
    · exact (FaultState.run_bind_eq hu').trans hv'

end Simulation

/-! ## The framebuffer backend -/

section Framebuffer

variable {n m : Nat} {d : Drawing}

/-- The pen finds its colours. -/
theorem penRun_isSome {fn : BackendFn} (hfn : fn.Ok) (colours : Palette) (t : FlantermContext) (pen : Pen) :
    ∃ pen', penRun colours t pen fn = some pen' := by
  cases fn with
  | setTextFg c => exact ⟨_, by rw [penRun, Vector.getElem?_eq_getElem hfn, Option.map_some]⟩
  | setTextBg c => exact ⟨_, by rw [penRun, Vector.getElem?_eq_getElem hfn, Option.map_some]⟩
  | setTextFgBright c => exact ⟨_, by rw [penRun, Vector.getElem?_eq_getElem hfn, Option.map_some]⟩
  | setTextBgBright c => exact ⟨_, by rw [penRun, Vector.getElem?_eq_getElem hfn, Option.map_some]⟩
  | _ => exact ⟨_, rfl⟩

theorem getCursorPos_inside {t : FlantermContext} (ht : t.Ok n m) (pen : Pen) :
    (flantermFbGetCursorPos t pen).1 < n ∧ (flantermFbGetCursorPos t pen).2 < m := by
  have hcols := ht.cols
  have hrows := ht.rows
  have hpos := ht.cols_pos
  have htop := ht.top
  rw [flantermFbGetCursorPos]
  constructor <;> dsimp only <;> split <;> omega

/-- Until the next flush -/
theorem fbBackend_simulates : fbBackend.Simulates n m gridBackend (ShowsGrid n m d) := by
  constructor
  · rintro ⟨t, fn⟩ hcall s g hs
    obtain rfl : t.cols = n := hcall.cols
    obtain rfl : t.rows = m := hcall.rows
    have hpen : ∀ pen', penRun s.colours t s.pen fn = some pen' → penRun g.colours t g.pen fn = some pen' := by
      intro pen' h
      rwa [← hs.colours, ← hs.pen]
    have hends : ∀ {x : Option FbContext} {g' : Grid}, Ends x (ShowsGrid t.cols t.rows d · g') →
        ∃ u u', x = some u ∧ some g' = some u' ∧ ShowsGrid t.cols t.rows d u u' := by
      rintro x g' ⟨u, hu, hshows⟩
      exact ⟨u, g', hu, rfl, hshows⟩
    cases fn with
    | rawPutchar c => exact hends (hs.rawPutchar hcall.sized c)
    | clear move => exact hends (hs.clear hcall.sized.cols_pos move)
    | moveCharacter newX newY oldX oldY => exact hends (hs.moveCharacter newX newY oldX oldY)
    | scroll => exact hends (hs.scroll hcall.sized)
    | revscroll => exact hends (hs.revscroll hcall.sized)
    | doubleBufferFlush => exact absurd hcall.fn not_false
    | _ =>
      obtain ⟨pen', h⟩ := penRun_isSome hcall.fn s.colours t s.pen
      have h' := hpen pen' h
      refine ⟨{ s with pen := pen' }, g.withPen pen', ?_, ?_, hs.withPen pen'⟩
      · exact congrArg (Option.map fun pen => { s with pen }) h
      · exact congrArg (Option.map g.withPen) h'
  · intro t s g hs
    change flantermFbGetCursorPos t s.pen = flantermFbGetCursorPos t g.pen
    rw [hs.pen]
  · exact fun t s ht => getCursorPos_inside ht s.pen

end Framebuffer

/-! ## Sessions -/

section Sessions

variable {n m : Nat} {display : Display} {t : FlantermContext} {s : FbContext} {g : Grid}

/-- What is written is flushed. -/
theorem write_run {σ : Type} {B : Backend σ} {bytes : List U8} {t t' : FlantermContext} {s u v : σ}
    (h : (bytes.forM (flantermPutchar B)).run (t, s) = some ((), t', u)) (hauto : t'.autoflush = true)
    (hflush : B.run t' .doubleBufferFlush u = some v) : (B.flantermWrite bytes).run (t, s) = some ((), t', v) := by
  refine (FaultState.run_bind_eq h).trans ?_
  have hget : (get : StateT (FlantermContext × σ) Option (FlantermContext × σ)).run (t', u) = some ((t', u), (t', u)) := rfl
  refine (FaultState.run_bind_eq hget).trans ?_
  dsimp only
  rw [if_pos hauto]
  change (do return ((), (t', ← B.run t' .doubleBufferFlush u))) = _
  rw [hflush]
  rfl

theorem flush_run {σ : Type} {B : Backend σ} {t : FlantermContext} {s v : σ}
    (hflush : B.run t .doubleBufferFlush s = some v) : (flantermFlush B).run (t, s) = some ((), t, v) := by
  change (do return ((), (t, ← B.run t .doubleBufferFlush s))) = _
  rw [hflush]
  rfl

/-- A flush after some bytes -/
theorem ShowsGrid.flush {d : Drawing} (h : ShowsGrid n m d s g) (hd : d.Ok n m display) (ht : t.Ok n m) :
    ∃ s', fbBackend.run t .doubleBufferFlush s = some s' ∧ Synced n m display t s' g := by
  obtain rfl := h.drawing
  obtain rfl := ht.cols
  obtain rfl := ht.rows
  obtain ⟨s', hs', hsynced⟩ := flush_synced h hd
  exact ⟨s', hs', hsynced⟩

/-- Whatever is done with a terminal, it goes on to show its table. -/
theorem fbOp_synced (op : TerminalOp) (ht : t.Ok n m) (hs : Synced n m display t s g) :
    ∃ t' s' g', fbOp op (t, s) = some (t', s') ∧ gridOp op (t, g) = some (t', g') ∧ t'.Ok n m ∧
      Synced n m display t' s' g' := by
  cases op with
  | write bytes =>
    obtain ⟨t', u, g', hu, hg', ht', hshows⟩ := fbBackend_simulates.bytes bytes ht hs.shows
    obtain ⟨s', hs', hsynced⟩ := hshows.flush hs.drawing ht'
    refine ⟨t', s', g', ?_, ?_, ht', hsynced⟩
    · rw [fbOp, write_run hu ht'.autoflush hs']
      rfl
    · rw [gridOp, write_run (v := g') hg' ht'.autoflush rfl]
      rfl
  | flush =>
    obtain ⟨s', hs', hsynced⟩ := hs.shows.flush hs.drawing ht
    refine ⟨t, s', g, ?_, rfl, ht, hsynced⟩
    rw [fbOp, flush_run hs']
    rfl
  | fullRefresh =>
    have hcols := ht.cols
    have hrows := ht.rows
    subst hcols hrows
    refine ⟨t, s, g, ?_, rfl, ht, hs⟩
    rw [fbOp, hs.fullRefresh ht.cols_pos]
    rfl

theorem fbSession_synced (ops : List TerminalOp) (ht : t.Ok n m) (hs : Synced n m display t s g) :
    ∃ t' s' g', fbSession ops (t, s) = some (t', s') ∧ gridSession ops (t, g) = some (t', g') ∧ t'.Ok n m ∧
      Synced n m display t' s' g' := by
  induction ops generalizing t s g with
  | nil => exact ⟨t, s, g, rfl, rfl, ht, hs⟩
  | cons op ops ih =>
    obtain ⟨t₁, s₁, g₁, hs₁, hg₁, ht₁, hsynced₁⟩ := fbOp_synced op ht hs
    obtain ⟨t₂, s₂, g₂, hs₂, hg₂, ht₂, hsynced₂⟩ := ih ht₁ hsynced₁
    refine ⟨t₂, s₂, g₂, ?_, ?_, ht₂, hsynced₂⟩
    · rw [fbSession, List.foldlM_cons, hs₁]
      exact hs₂
    · rw [gridSession, List.foldlM_cons, hg₁]
      exact hg₂

end Sessions

end PpoOS
