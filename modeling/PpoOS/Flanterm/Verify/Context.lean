import PpoOS.Flanterm.Verify.Cells
import PpoOS.Flanterm.Verify.Tables

/-!
# The context of the terminal

An invariant of the context that every byte keeps, whatever came before it: the margins of the scroll
region are on the screen, the values of a control sequence fit into their array, colours are among the
eight.  A byte never faults, and each call of the backend finds a context with this invariant.
-/

namespace PpoOS

open Front

/-- The colours are numbers of `ansi_colours`, and no byte flushes the queue. -/
def BackendFn.Ok : BackendFn → Prop
  | .setTextFg c | .setTextBg c | .setTextFgBright c | .setTextBgBright c => c < 8
  | .doubleBufferFlush => False
  | _ => True

/-- The context of a terminal of `n` columns and `m` rows -/
structure FlantermContext.Ok (n m : Nat) (t : FlantermContext) : Prop where
  cols : t.cols = n
  rows : t.rows = m
  cols_pos : 0 < t.cols
  top : t.scrollTopMargin < t.rows
  bottom_pos : 0 < t.scrollBottomMargin
  bottom : t.scrollBottomMargin ≤ t.rows
  autoflush : t.autoflush = true
  tab : t.tabSize = 8
  room : 2 ≤ t.escValues.length
  values : t.escValuesI ≤ t.escValues.length
  digit : t.rrr = true → t.escValuesI < t.escValues.length
  select : t.gSelect ≤ 2
  charset : t.currentCharset < 2
  primary : ∀ c ∈ t.currentPrimary, c < 8
  bg : ∀ c ∈ t.currentBg, c < 8
  savedCharset : t.saved.currentCharset < 2
  savedPrimary : ∀ c ∈ t.saved.currentPrimary, c < 8
  savedBg : ∀ c ∈ t.saved.currentBg, c < 8

theorem FlantermContext.Ok.sized {n m : Nat} {t : FlantermContext} (h : t.Ok n m) : Sized t :=
  ⟨h.cols_pos, h.top, h.bottom_pos, h.bottom⟩

/-- A call that the backend is made for -/
structure BackendCall.Ok (n m : Nat) (call : BackendCall) : Prop where
  cols : call.ctx.cols = n
  rows : call.ctx.rows = m
  sized : Sized call.ctx
  fn : call.fn.Ok

/-- The calls are right, and so is the context that is left. -/
abbrev Kept (n m : Nat) {α : Type} (r : List BackendCall × Option (α × FlantermContext)) : Prop :=
  Traced.Ends (BackendCall.Ok n m) r fun _ t => t.Ok n m

section Rules

variable {n m : Nat} {t : FlantermContext} {α β : Type} {x : Front α} {f : α → Front β}

theorem Kept.pure (h : t.Ok n m) (a : α) : Kept n m ((Pure.pure a : Front α) t) := Traced.Ends.pure h

theorem Kept.bind (h : Kept n m (x t)) (hf : ∀ a t', t'.Ok n m → Kept n m (f a t')) : Kept n m ((x >>= f) t) :=
  Traced.Ends.bind h hf

theorem Kept.ctx_bind {f : FlantermContext → Front β} (h : Kept n m (f t t)) : Kept n m ((ctx >>= f) t) := h

theorem Kept.update_bind {u : FlantermContext → FlantermContext} {f : Unit → Front β} (h : Kept n m (f () (u t))) :
    Kept n m ((update u >>= f) t) := h

theorem Kept.update {u : FlantermContext → FlantermContext} (h : (u t).Ok n m) : Kept n m (update u t) :=
  ⟨fun _ he => absurd he List.not_mem_nil, (), u t, rfl, h⟩

theorem Kept.call {fn : BackendFn} (h : t.Ok n m) (hfn : fn.Ok) : Kept n m (call fn t) := by
  refine ⟨fun e he => ?_, (), t, rfl, h⟩
  rw [List.mem_singleton.mp he]
  exact ⟨h.cols, h.rows, h.sized, hfn⟩

theorem Kept.value_bind {a : α} {o : Option α} (ho : o = some a) (h : Kept n m (f a t)) :
    Kept n m ((value o >>= f) t) := by
  subst ho
  exact h

theorem Kept.ite {c : Prop} [Decidable c] {y : Front α} (hx : c → Kept n m (x t)) (hy : ¬c → Kept n m (y t)) :
    Kept n m ((if c then x else y) t) := Traced.Ends.ite hx hy

theorem Kept.whenever {c : Bool} {x : Front Unit} (h : t.Ok n m) (hx : c = true → Kept n m (x t)) :
    Kept n m (whenever c x t) := Kept.ite hx fun _ => Kept.pure h ()

theorem Kept.times {k : Nat} {x : Front Unit} (h : t.Ok n m) (hx : ∀ t, t.Ok n m → Kept n m (x t)) :
    Kept n m (times k x t) := Traced.Ends.forM (fun _ _ t ht => hx t ht) h

theorem Kept.downTo {stop i : Nat} {body : Nat → Front Unit} (h : t.Ok n m) (hi : stop ≤ i)
    (hbody : ∀ i t, t.Ok n m → Kept n m (body i t)) : Kept n m (downTo stop body i t) := by
  induction i generalizing t with
  | zero =>
    refine (hbody 0 t h).bind fun _ t' h' => ?_
    rw [if_pos (Nat.le_zero.mp hi)]
    exact Kept.pure h' ()
  | succ i ih =>
    refine (hbody (i + 1) t h).bind fun _ t' h' => Kept.ite (fun _ => Kept.pure h' ()) fun hne => ?_
    exact ih h' (by omega)

theorem escValue_run {i : Nat} {v : U32} (h : t.escValues[i]? = some v) : escValue i t = ([], some (v.toNat, t)) := by
  rw [escValue]
  change Traced.andThen ([], some (t, t)) _ = _
  have hvalue : (value t.escValues[i]? : Front U32) t = ([], some (v, t)) := by
    rw [value, h]
    rfl
  rw [Traced.andThen, Traced.bind_of_some hvalue]
  rfl

theorem updateEsc_run {f : U32 → U32} (h : t.escValuesI < t.escValues.length) :
    updateEsc f t =
      ([], some ((), { t with escValues := t.escValues.set t.escValuesI (f t.escValues[t.escValuesI]) })) := by
  rw [updateEsc]
  change Traced.andThen ([], some (t, t)) _ = _
  rw [Traced.andThen, List.getElem?_eq_getElem h]
  rfl

/-- A value of a control sequence; there are at least two. -/
theorem Kept.escValue_bind {i : Nat} {f : Nat → Front β} (h : t.Ok n m) (hi : i < 2) (hf : ∀ v, Kept n m (f v t)) :
    Kept n m ((escValue i >>= f) t) := by
  have hroom := h.room
  have hget := List.getElem?_eq_getElem (show i < t.escValues.length by omega)
  rw [Traced.bind_of_some (escValue_run hget)]
  exact hf _

end Rules

/-! ## Colours -/

theorem col256_length : col256.length = 240 := by decide +kernel

section Colours

variable {n m : Nat} {t : FlantermContext} (h : t.Ok n m)

include h

theorem sgrReset_kept : Kept n m (sgrReset t) := by
  refine Kept.ctx_bind (Kept.bind (Kept.whenever h fun _ => ?_) fun _ t' h' => ?_)
  · exact Kept.update_bind (Kept.call { h with } trivial)
  · have hreset : ({ t' with bold := false, bgBold := false, currentPrimary := none, currentBg := none } :
        FlantermContext).Ok n m :=
      { h' with
        primary := fun c hc => absurd hc (Option.not_mem_none c)
        bg := fun c hc => absurd hc (Option.not_mem_none c) }
    exact Kept.update_bind (Kept.bind (Kept.call hreset trivial) fun _ t'' h'' => Kept.call h'' trivial)

theorem sgrBold_kept (bright : Bool) : Kept n m (sgrBold bright t) := by
  refine Kept.update_bind (Kept.ctx_bind (Kept.call { h with } ?_))
  dsimp only
  split
  all_goals first | trivial | exact h.primary _ ‹_›

theorem sgrBgBold_kept (bright : Bool) : Kept n m (sgrBgBold bright t) := by
  refine Kept.update_bind (Kept.ctx_bind (Kept.call { h with } ?_))
  dsimp only
  split
  all_goals first | trivial | exact h.bg _ ‹_›

variable {c : Nat} (hc : c < 8)

include hc

theorem sgrSetFg_kept : Kept n m (sgrSetFg c t) := by
  refine Kept.ctx_bind (Kept.call h ?_)
  split <;> exact hc

theorem sgrSetBg_kept : Kept n m (sgrSetBg c t) := by
  refine Kept.ctx_bind (Kept.call h ?_)
  split <;> exact hc

theorem withPrimary_ok : ({ t with currentPrimary := some c } : FlantermContext).Ok n m :=
  { h with primary := fun _ hd => Option.mem_some.mp hd ▸ hc }

theorem withBg_ok : ({ t with currentBg := some c } : FlantermContext).Ok n m :=
  { h with bg := fun _ hd => Option.mem_some.mp hd ▸ hc }

theorem sgrPrimary_kept : Kept n m (sgrPrimary c t) := by
  have hset := withPrimary_ok h hc
  exact Kept.update_bind (Kept.ctx_bind (Kept.ite (fun _ => sgrSetBg_kept hset hc) fun _ => sgrSetFg_kept hset hc))

theorem sgrBackground_kept : Kept n m (sgrBackground c t) := by
  have hset := withBg_ok h hc
  exact Kept.update_bind (Kept.ctx_bind (Kept.ite (fun _ => sgrSetFg_kept hset hc) fun _ => sgrSetBg_kept hset hc))

theorem sgrPrimaryBright_kept : Kept n m (sgrPrimaryBright c t) := by
  refine Kept.update_bind (Kept.ctx_bind (Kept.call (withPrimary_ok h hc) ?_))
  split <;> exact hc

theorem sgrBackgroundBright_kept : Kept n m (sgrBackgroundBright c t) := by
  refine Kept.update_bind (Kept.ctx_bind (Kept.call (withBg_ok h hc) ?_))
  split <;> exact hc

end Colours

section Values

variable {n m : Nat} {t : FlantermContext} (h : t.Ok n m)

include h

/-- A colour that is set while the palette is swapped. -/
theorem swapped_kept {c : Bool} {fn : BackendFn} (hfn : fn.Ok) :
    Kept n m ((do
      whenever c (call .swapPalette)
      call fn
      whenever c (call .swapPalette)) t) := by
  refine Kept.bind (Kept.whenever h fun _ => Kept.call h trivial) fun _ t' h' => ?_
  refine Kept.bind (Kept.call h' hfn) fun _ u hu => ?_
  exact Kept.whenever hu fun _ => Kept.call hu trivial

theorem sgrPrimaryDefault_kept : Kept n m (sgrPrimaryDefault t) := by
  refine Kept.update_bind (Kept.ctx_bind (swapped_kept ?_ ?_))
  · exact { h with primary := fun c hc => absurd hc (Option.not_mem_none c) }
  · split <;> trivial

theorem sgrBackgroundDefault_kept : Kept n m (sgrBackgroundDefault t) := by
  refine Kept.update_bind (Kept.ctx_bind (swapped_kept ?_ ?_))
  · exact { h with bg := fun c hc => absurd hc (Option.not_mem_none c) }
  · split <;> trivial

theorem sgrReverse_kept (set : Bool) : Kept n m (sgrReverse set t) :=
  Kept.ctx_bind (Kept.whenever h fun _ => Kept.update_bind (Kept.call { h with } trivial))

theorem sgrValue_kept (v : Nat) : Kept n m (sgrValue v t) := by
  rw [sgrValue]
  refine Kept.ite (fun _ => sgrReset_kept h) fun _ => ?_
  refine Kept.ite (fun _ => sgrBold_kept h true) fun _ => ?_
  refine Kept.ite (fun _ => sgrBgBold_kept h true) fun _ => ?_
  refine Kept.ite (fun _ => sgrBold_kept h false) fun _ => ?_
  refine Kept.ite (fun _ => sgrBgBold_kept h false) fun _ => ?_
  refine Kept.ite (fun hv => sgrPrimary_kept h (by omega)) fun _ => ?_
  refine Kept.ite (fun hv => sgrBackground_kept h (by omega)) fun _ => ?_
  refine Kept.ite (fun hv => sgrPrimaryBright_kept h (by omega)) fun _ => ?_
  refine Kept.ite (fun hv => sgrBackgroundBright_kept h (by omega)) fun _ => ?_
  refine Kept.ite (fun _ => sgrPrimaryDefault_kept h) fun _ => ?_
  refine Kept.ite (fun _ => sgrBackgroundDefault_kept h) fun _ => ?_
  refine Kept.ite (fun _ => sgrReverse_kept h true) fun _ => ?_
  refine Kept.ite (fun _ => sgrReverse_kept h false) fun _ => ?_
  exact Kept.pure h ()

theorem sgrRgb_kept (fg : Bool) (r g b : U32) : Kept n m (sgrRgb fg r g b t) := by
  refine Kept.call h ?_
  split <;> trivial

theorem sgr256_kept (fg : Bool) (col : U32) : Kept n m (sgr256 fg col t) := by
  rw [sgr256]
  refine Kept.ite (fun hlow => Kept.call h ?_) fun _ => ?_
  · have hlt : col.toNat < 8 := hlow
    split <;> exact hlt
  refine Kept.ite (fun hbright => Kept.call h ?_) fun hge => ?_
  · have hlt : (col - 8#32).toNat < 8 := by bv_omega
    split <;> exact hlt
  refine Kept.ite (fun hrgb => ?_) fun _ => Kept.pure h ()
  have hlt : (col - 16#32).toNat < col256.length := by
    rw [col256_length]
    bv_omega
  refine Kept.value_bind (List.getElem?_eq_getElem hlt) (Kept.call h ?_)
  cases fg <;> trivial

theorem sgrLoop_kept (vs : List U32) : Kept n m (sgrLoop vs t) := by
  fun_induction sgrLoop vs generalizing t with
  | case3 _ _ r g b vs ih => exact Kept.bind (sgrRgb_kept h _ r g b) fun _ _ h' => ih h'
  | case5 _ _ col vs _ ih => exact Kept.bind (sgr256_kept h _ col) fun _ _ h' => ih h'
  | case7 _ _ _ _ _ _ ih => exact ih h
  | case8 v vs _ ih => exact Kept.bind (sgrValue_kept h v.toNat) fun _ _ h' => ih h'
  | _ => exact Kept.pure h ()

theorem sgr_kept : Kept n m (sgr t) :=
  Kept.ctx_bind (Kept.ite (fun _ => sgrReset_kept h) fun _ => sgrLoop_kept h _)

end Values

/-! ## Control sequences -/

section Sequences

variable {n m : Nat} {t : FlantermContext} (h : t.Ok n m)

include h

theorem decPrivateParse_kept (c : U8) : Kept n m (decPrivateParse c t) := by
  have hpublic : ({ t with decPrivate := false } : FlantermContext).Ok n m := { h with }
  refine Kept.update_bind (Kept.ctx_bind (Kept.ite (fun _ => ?_) fun _ => Kept.pure hpublic ()))
  refine Kept.escValue_bind hpublic (by decide) fun v => ?_
  exact Kept.ite (fun _ => Kept.update { h with }) fun _ => Kept.pure hpublic ()

theorem modeToggle_kept (set : Bool) : Kept n m (modeToggle set t) := by
  refine Kept.ctx_bind (Kept.ite (fun _ => ?_) fun _ => Kept.pure h ())
  refine Kept.escValue_bind h (by decide) fun v => ?_
  exact Kept.ite (fun _ => Kept.update { h with }) fun _ => Kept.pure h ()

theorem putBlank_kept : Kept n m (putBlank t) := Kept.call h trivial

theorem putBlanks_kept (k : Nat) : Kept n m (times k putBlank t) := Kept.times h fun _ ht => putBlank_kept ht

/-- Blanks, and the cursor where it was. -/
theorem putBlanks_back (k : Nat) (x y : U64) :
    Kept n m ((do
      times k putBlank
      call (.setCursorPos x y)) t) :=
  Kept.bind (putBlanks_kept h k) fun _ _ h' => Kept.call h' trivial

theorem insertLines_kept {y : Nat} (hy : y < m) : Kept n m (insertLines y t) := by
  have hinside : ({ t with scrollTopMargin := y } : FlantermContext).Ok n m := { h with top := h.rows.symm ▸ hy }
  refine Kept.ctx_bind (Kept.update_bind (Kept.escValue_bind hinside (by decide) fun v => ?_))
  refine Kept.bind (Kept.times hinside fun _ ht => Kept.call ht trivial) fun _ t' h' => Kept.update ?_
  exact { h' with top := (h.top.trans_eq h.rows).trans_eq h'.rows.symm }

theorem eraseDisplay_kept (x y : Nat) : Kept n m (eraseDisplay x y t) := by
  refine Kept.ctx_bind (Kept.escValue_bind h (by decide) fun v => ?_)
  refine Kept.ite (fun _ => putBlanks_back h _ _ _) fun _ => ?_
  refine Kept.ite (fun _ => ?_) fun _ => Kept.ite (fun _ => Kept.call h trivial) fun _ => Kept.pure h ()
  refine Kept.bind (Kept.call h trivial) fun _ t' h' => ?_
  refine Kept.bind (Traced.Ends.allM (fun yc _ t ht => Traced.Ends.allM (fun xc _ t ht => ?_) ht) h')
    fun _ _ h'' => Kept.pure h'' _
  refine Kept.bind (putBlank_kept ht) fun _ u hu => Kept.ite (fun _ => ?_) fun _ => Kept.pure hu true
  exact Kept.bind (Kept.call hu trivial) fun _ _ hv => Kept.pure hv false

theorem insertCharacters_kept {x : Nat} (y : Nat) (hx : x < n) : Kept n m (insertCharacters x y t) := by
  refine Kept.ctx_bind (Kept.escValue_bind h (by decide) fun v => ?_)
  have hcols := h.cols
  refine Kept.bind (Kept.downTo h (by omega) fun i t ht => ?_) fun _ _ h' => Kept.call h' trivial
  refine Kept.bind (Kept.call ht trivial) fun _ _ hu => Kept.bind (Kept.call hu trivial) fun _ _ hv => ?_
  exact putBlank_kept hv

theorem eraseCharacters_kept (x y : Nat) : Kept n m (eraseCharacters x y t) :=
  Kept.ctx_bind (Kept.escValue_bind h (by decide) fun _ => putBlanks_back h _ _ _)

theorem deleteCharacters_kept (x y : Nat) : Kept n m (deleteCharacters x y t) := by
  refine Kept.ctx_bind (Kept.escValue_bind h (by decide) fun v => ?_)
  refine Kept.bind (Traced.Ends.forM (fun i _ t ht => Kept.call ht trivial) h) fun _ _ h' => ?_
  exact Kept.bind (Kept.call h' trivial) fun _ _ h'' => eraseCharacters_kept h'' x y

theorem eraseLine_kept (x y : Nat) : Kept n m (eraseLine x y t) := by
  refine Kept.ctx_bind (Kept.escValue_bind h (by decide) fun v => ?_)
  refine Kept.ite (fun _ => putBlanks_back h _ _ _) fun _ => ?_
  refine Kept.ite (fun _ => ?_) fun _ => Kept.ite (fun _ => ?_) fun _ => Kept.pure h ()
  · exact Kept.bind (Kept.call h trivial) fun _ _ h' => putBlanks_kept h' x
  · exact Kept.bind (Kept.call h trivial) fun _ _ h' => putBlanks_back h' _ _ _

theorem margins_ok (top bottom : Nat) :
    (if top ≥ t.rows ∨ bottom > t.rows ∨ top ≥ bottom - 1 then
        { t with scrollTopMargin := 0, scrollBottomMargin := t.rows }
      else { t with scrollTopMargin := top, scrollBottomMargin := bottom }).Ok n m := by
  have htop := h.top
  split
  · exact { h with
      top := by dsimp only; omega
      bottom_pos := by dsimp only; omega
      bottom := Nat.le_refl _ }
  · exact { h with
      top := by dsimp only; omega
      bottom_pos := by dsimp only; omega
      bottom := by dsimp only; omega }

theorem scrollRegion_kept : Kept n m (scrollRegion t) := by
  refine Kept.escValue_bind h (by decide) fun first => Kept.escValue_bind h (by decide) fun last => ?_
  exact Kept.update_bind (Kept.call (margins_ok h _ _) trivial)

/-- Every case of the final character -/
theorem controlCases_kept {x y : Nat} (hx : x < n) (hy : y < m) :
    ∀ entry ∈ controlCases x y, Kept n m (entry.2 t) := by
  have hup : ∀ x, Kept n m (cursorUp x y t) := fun x =>
    Kept.ctx_bind (Kept.escValue_bind h (by decide) fun _ => Kept.call h trivial)
  have hdown : ∀ x, Kept n m (cursorDown x y t) := fun x =>
    Kept.ctx_bind (Kept.escValue_bind h (by decide) fun _ => Kept.call h trivial)
  have hforward : Kept n m (cursorForward x y t) :=
    Kept.ctx_bind (Kept.escValue_bind h (by decide) fun _ => Kept.call h trivial)
  have hback : Kept n m (cursorBack x y t) := Kept.escValue_bind h (by decide) fun _ => Kept.call h trivial
  have hrow : Kept n m (cursorRow x t) :=
    Kept.ctx_bind (Kept.escValue_bind h (by decide) fun _ => Kept.call h trivial)
  have hcolumn : Kept n m (cursorColumn y t) :=
    Kept.ctx_bind (Kept.escValue_bind h (by decide) fun _ => Kept.call h trivial)
  have hposition : Kept n m (cursorPosition t) :=
    Kept.ctx_bind (Kept.escValue_bind h (by decide) fun _ =>
      Kept.escValue_bind h (by decide) fun _ => Kept.call h trivial)
  have hdelete : Kept n m (deleteLines t) :=
    Kept.ctx_bind (Kept.escValue_bind h (by decide) fun _ => Kept.times h fun _ ht => Kept.call ht trivial)
  have hsave : Kept n m (saveCursor x y t) := Kept.update { h with }
  have hrestore : Kept n m (restoreCursor t) := Kept.ctx_bind (Kept.call h trivial)
  simp only [controlCases, List.forall_mem_cons]
  exact ⟨hup 0, hup x, hdown 0, hdown x, hdown x, hforward, hforward, hback, hrow, hcolumn, hcolumn, hposition,
    hposition, hdelete, insertLines_kept h hy, eraseDisplay_kept h x y, insertCharacters_kept h y hx,
    deleteCharacters_kept h x y, eraseCharacters_kept h x y, sgr_kept h, hsave, hrestore, eraseLine_kept h x y,
    scrollRegion_kept h, modeToggle_kept h false, modeToggle_kept h true, fun _ hmem => absurd hmem List.not_mem_nil⟩

/-- A case that is looked up, where there is one -/
theorem lookup_kept {cases : List (U8 × Front Unit)} (hcases : ∀ entry ∈ cases, Kept n m (entry.2 t)) (c : U8) :
    Kept n m ((cases.lookup c).getD (pure ()) t) := by
  cases hlookup : cases.lookup c with
  | none => exact Kept.pure h ()
  | some x => exact hcases (c, x) (List.lookup_eq_some_iff.mp hlookup |>.elim fun l hl => by
      obtain ⟨r, hr, -⟩ := hl
      rw [hr]
      simp)

theorem endSequence_kept : Kept n m (endSequence t) := Kept.update { h with }

/-- The last value of a sequence is closed. -/
theorem closeValue_ok : (if t.rrr then { t with escValuesI := t.escValuesI + 1, rrr := false } else t).Ok n m := by
  split
  · next hrrr =>
    exact { h with values := Nat.succ_le_of_lt (h.digit hrrr), digit := fun hnot => absurd hnot Bool.false_ne_true }
  · exact h

/-- Other values, of the same number -/
theorem withValues_ok (vs : List U32) (hlen : vs.length = t.escValues.length) :
    ({ t with escValues := vs } : FlantermContext).Ok n m :=
  { h with room := hlen.symm ▸ h.room, values := hlen.symm ▸ h.values, digit := hlen.symm ▸ h.digit }

theorem controlFinal_kept {x y : Nat} (c : U8) (hx : x < n) (hy : y < m) : Kept n m (controlFinal c x y t) := by
  have hclose := closeValue_ok h
  refine Kept.update_bind (Kept.update_bind (Kept.ctx_bind ?_))
  generalize (if t.rrr then { t with escValuesI := t.escValuesI + 1, rrr := false } else t) = t at hclose ⊢
  have hvalues := hclose.values
  have hset := withValues_ok hclose (t.escValues.take t.escValuesI ++
    List.replicate (t.escValues.length - t.escValuesI) (escDefault c)) (by
      rw [List.length_append, List.length_take, List.length_replicate]
      omega)
  generalize ({ t with escValues := _ } : FlantermContext) = t at hset ⊢
  refine Kept.ite (fun _ => ?_) fun _ => ?_
  · exact Kept.bind (decPrivateParse_kept hset c) fun _ _ h' => endSequence_kept h'
  · have hinside : ({ t with scrollEnabled := false } : FlantermContext).Ok n m := { hset with }
    refine Kept.update_bind (Kept.bind (lookup_kept hinside (controlCases_kept hinside hx hy) c) fun _ t' h' => ?_)
    have hback : ({ t' with scrollEnabled := t.scrollEnabled } : FlantermContext).Ok n m := { h' with }
    exact Kept.update_bind (endSequence_kept hback)

theorem updateEsc_kept {f : U32 → U32} (hlt : t.escValuesI < t.escValues.length) : Kept n m (updateEsc f t) := by
  rw [updateEsc_run hlt]
  exact ⟨fun _ he => absurd he List.not_mem_nil, (), _, rfl, withValues_ok h _ (List.length_set ..)⟩

/-- `control_sequence_parse` -/
theorem controlSequenceParse_kept {x y : Nat} (c : U8) (hx : x < n) (hy : y < m) :
    Kept n m (controlSequenceParse c x y t) := by
  have hvalues := h.values
  refine Kept.ctx_bind (Kept.ite (fun _ => ?_) fun _ => ?_)
  · have hdiscard : ({ t with discardNext := true } : FlantermContext).Ok n m := { h with }
    exact Kept.update_bind (endSequence_kept hdiscard)
  refine Kept.ite (fun _ => Kept.update { h with }) fun _ => ?_
  refine Kept.ite (fun _ => Kept.ite (fun _ => Kept.pure h ()) fun hroom => ?_) fun _ => ?_
  · have hlt : t.escValuesI < t.escValues.length := by omega
    have hdigit : ({ t with rrr := true } : FlantermContext).Ok n m := { h with digit := fun _ => hlt }
    exact Kept.update_bind (updateEsc_kept hdigit hlt)
  refine Kept.ite (fun hsemi => Kept.update ?_) fun hopen => ?_
  · exact { h with
      values := Nat.succ_le_of_lt (h.digit hsemi.1)
      digit := fun hnot => absurd hnot Bool.false_ne_true }
  refine Kept.ite (fun hsemi => Kept.ite (fun _ => Kept.pure h ()) fun hroom => ?_) fun _ => controlFinal_kept h c hx hy
  have hlt : t.escValuesI < t.escValues.length := by omega
  have hlen : (t.escValues.set t.escValuesI 0#32).length = t.escValues.length := List.length_set ..
  have hset := withValues_ok h _ hlen
  have hnext : ({ t with escValues := t.escValues.set t.escValuesI 0#32, escValuesI := t.escValuesI + 1 } :
      FlantermContext).Ok n m :=
    { hset with
      values := hlen.symm ▸ hlt
      digit := fun hrrr => absurd ⟨hrrr, hsemi⟩ hopen }
  rw [Traced.bind_of_some (updateEsc_run hlt)]
  exact Kept.update (u := fun t => { t with escValuesI := t.escValuesI + 1 }) hnext

end Sequences

/-! ## Bytes -/

section Bytes

variable {n m : Nat} {t : FlantermContext} (h : t.Ok n m)

include h

theorem oscParse_kept (c : U8) : Kept n m (oscParse c t) := by
  refine Kept.update ?_
  split <;> exact { h with }

theorem saveState_kept : Kept n m (saveState t) :=
  Kept.bind (Kept.call h trivial) fun _ _ h' => Kept.update { h' with
    savedCharset := h'.charset
    savedPrimary := h'.primary
    savedBg := h'.bg }

theorem restoreState_kept : Kept n m (restoreState t) := by
  refine Kept.update_bind (Kept.call ?_ trivial)
  exact { h with charset := h.savedCharset, primary := h.savedPrimary, bg := h.savedBg }

theorem lineFeed_kept (x y : Nat) : Kept n m (lineFeed x y t) :=
  Kept.ctx_bind (Kept.ite (fun _ => Kept.bind (Kept.call h trivial) fun _ _ h' => Kept.call h' trivial) fun _ =>
    Kept.call h trivial)

theorem reverseLineFeed_kept (y : Nat) : Kept n m (reverseLineFeed y t) :=
  Kept.ctx_bind (Kept.ite (fun _ => Kept.bind (Kept.call h trivial) fun _ _ h' => Kept.call h' trivial) fun _ =>
    Kept.call h trivial)

/-- A terminal that is reset -/
theorem reinit_ok : (flantermContextReinit t).Ok n m :=
  { h with
    top := Nat.lt_of_le_of_lt (Nat.zero_le _) h.top
    bottom_pos := Nat.lt_of_le_of_lt (Nat.zero_le _) h.top
    bottom := Nat.le_refl _
    autoflush := rfl
    tab := rfl
    values := Nat.zero_le _
    digit := fun hnot => absurd hnot Bool.false_ne_true
    select := Nat.zero_le _
    charset := Nat.zero_lt_two
    primary := fun c hc => absurd hc (Option.not_mem_none c)
    bg := fun c hc => absurd hc (Option.not_mem_none c) }

theorem escapeCases_kept (x y : Nat) : ∀ entry ∈ escapeCases x y, Kept n m (entry.2 t) := by
  have hreset : Kept n m ((do
      update flantermContextReinit
      call (.clear true)) t) := Kept.update_bind (Kept.call (reinit_ok h) trivial)
  have hselect : ∀ g ≤ 2, Kept n m (update (fun t => { t with gSelect := g }) t) := fun g hg =>
    Kept.update { h with select := hg }
  simp only [escapeCases, List.forall_mem_cons]
  exact ⟨saveState_kept h, restoreState_kept h, hreset, lineFeed_kept h x y, lineFeed_kept h 0 y,
    reverseLineFeed_kept h y, hselect 1 (by decide), hselect 2 (by decide), fun _ hmem => absurd hmem List.not_mem_nil⟩

theorem escapeParse_kept {x y : Nat} (c : U8) (hx : x < n) (hy : y < m) : Kept n m (escapeParse c x y t) := by
  have hnext : ({ t with escapeOffset := t.escapeOffset + 1 } : FlantermContext).Ok n m := { h with }
  refine Kept.update_bind (Kept.ctx_bind ?_)
  refine Kept.ite (fun _ => oscParse_kept hnext c) fun _ => ?_
  refine Kept.ite (fun _ => controlSequenceParse_kept hnext c hx hy) fun _ => ?_
  refine Kept.ite (fun _ => Kept.update { hnext with }) fun _ => ?_
  refine Kept.ite (fun _ => Kept.update ?_) fun _ => ?_
  · exact { hnext with
      room := (List.length_replicate (n := t.escValues.length)).symm ▸ h.room
      values := Nat.zero_le _
      digit := fun hnot => absurd hnot Bool.false_ne_true }
  · exact Kept.bind (lookup_kept hnext (escapeCases_kept hnext x y) c) fun _ _ h' => Kept.update { h' with }

theorem putCodePoint_kept (codePoint : U64) : Kept n m (putCodePoint codePoint t) := by
  rw [putCodePoint]
  cases unicodeToCp437 codePoint with
  | some glyph => exact Kept.call h trivial
  | none =>
    have hw := mkWcwidth_eq (codePoint.setWidth 32)
    refine Kept.value_bind hw (Kept.bind (Kept.whenever h fun _ => Kept.call h trivial) fun _ _ h' => ?_)
    exact putBlanks_kept h' _

theorem unicodeContinue_kept (c : U8) : Kept n m (unicodeContinue c t) := by
  have hnext : ({ t with
      unicodeRemaining := t.unicodeRemaining - 1
      codePoint := t.codePoint ||| (c &&& 0x3F#8).setWidth 64 <<< (6 * (t.unicodeRemaining - 1)) } :
      FlantermContext).Ok n m := { h with }
  exact Kept.update_bind (Kept.ctx_bind (Kept.ite (fun _ => Kept.pure hnext ()) fun _ => putCodePoint_kept hnext _))

theorem unicodeStart_kept (c : U8) : Kept n m (unicodeStart c t) := by
  have hstart : ∀ k cp, ({ t with unicodeRemaining := k, codePoint := cp } : FlantermContext).Ok n m :=
    fun _ _ => { h with }
  refine Kept.update ?_
  by_cases htwo : c ≤ 0xDF#8
  · rw [if_pos htwo]
    exact hstart _ _
  · rw [if_neg htwo]
    by_cases hthree : c ≤ 0xEF#8
    · rw [if_pos hthree]
      exact hstart _ _
    · rw [if_neg hthree]
      exact hstart _ _

theorem setCharset_kept {g : Nat} (hg : g < 2) (charset : Charset) : Kept n m (setCharset g charset t) := by
  have hset : ({ t with charsets := t.charsets.setIfInBounds g charset } : FlantermContext).Ok n m := { h with }
  refine Kept.ctx_bind ?_
  rw [Vector.getElem?_eq_getElem hg]
  exact ⟨fun _ he => absurd he List.not_mem_nil, (), _, rfl, hset⟩

theorem selectCharset_kept (c : U8) : Kept n m (selectCharset c t) := by
  have hselect : t.gSelect - 1 < 2 := by
    have hle := h.select
    omega
  refine Kept.ctx_bind (Kept.bind (Kept.whenever h fun _ => setCharset_kept h hselect _) fun _ _ h' => ?_)
  refine Kept.bind (Kept.whenever h' fun _ => setCharset_kept h' hselect _) fun _ _ h'' => Kept.update ?_
  exact { h'' with select := Nat.zero_le _ }

theorem makeRoom_kept {x : Nat} (y : Nat) (hx : x < n) : Kept n m (makeRoom x y t) := by
  have hcols := h.cols
  refine Kept.ctx_bind (Kept.whenever h fun _ => Kept.downTo h (by omega) fun i _ ht => Kept.call ht trivial)

theorem printChar_kept {x : Nat} (c : U8) (y : Nat) (hx : x < n) : Kept n m (printChar c x y t) := by
  refine Kept.bind (makeRoom_kept h y hx) fun _ t' h' => Kept.ctx_bind ?_
  have hcharset := h'.charset
  refine Kept.value_bind (Vector.getElem?_eq_getElem hcharset) ?_
  cases (if t'.charsets[t'.currentCharset] = .decSpecial then decSpecialPrint c else none) with
  | some glyph => exact Kept.call h' trivial
  | none => exact Kept.call h' trivial

theorem putControl_kept {x y : Nat} (c : U8) (hx : x < n) : Kept n m (putControl c x y t) := by
  refine Kept.ctx_bind (Kept.ite (fun _ => Kept.pure h ()) fun _ => ?_)
  refine Kept.ite (fun _ => Kept.update { h with }) fun _ => ?_
  refine Kept.ite (fun _ => Kept.ite (fun _ => Kept.call h trivial) fun _ => Kept.call h trivial) fun _ => ?_
  refine Kept.ite (fun _ => lineFeed_kept h _ y) fun _ => ?_
  refine Kept.ite (fun _ => Kept.call h trivial) fun _ => ?_
  refine Kept.ite (fun _ => Kept.call h trivial) fun _ => ?_
  refine Kept.ite (fun _ => Kept.pure h ()) fun _ => ?_
  refine Kept.ite (fun _ => Kept.update { h with charset := Nat.one_lt_two }) fun _ => ?_
  exact Kept.ite (fun _ => Kept.update { h with charset := Nat.zero_lt_two }) fun _ => printChar_kept h c y hx

theorem putByte_kept {x y : Nat} (c : U8) (hx : x < n) (hy : y < m) : Kept n m (putByte c x y t) := by
  have hnext : ({ t with unicodeRemaining := 0 } : FlantermContext).Ok n m := { h with }
  refine Kept.update_bind (Kept.ite (fun _ => unicodeStart_kept hnext c) fun _ => Kept.ctx_bind ?_)
  refine Kept.ite (fun _ => escapeParse_kept hnext c hx hy) fun _ => ?_
  exact Kept.ite (fun _ => selectCharset_kept hnext c) fun _ => putControl_kept hnext c hx

/-- A byte that is written, with the cursor on the screen. -/
theorem putchar_kept {x y : Nat} (c : U8) (hx : x < n) (hy : y < m) : Kept n m (putchar c x y t) := by
  refine Kept.ctx_bind (Kept.ite (fun _ => Kept.update { h with select := Nat.zero_le _ }) fun _ => ?_)
  exact Kept.ite (fun _ => unicodeContinue_kept h c) fun _ => putByte_kept h c hx hy

end Bytes

end PpoOS
