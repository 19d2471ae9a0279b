import PpoOS.Flanterm.Verify.Parse

/-!
# Colours of the text

What `ESC [ ... m` asks for is a `Style`, and the pen has its colours, whatever came before
(`style_run`).  The values for the reverse video, for a bright background and for colours other than
the sixteen of the palette are left out.
-/

namespace PpoOS

open Front

/-- A context whose text has a style -/
def FlantermContext.styled (t : FlantermContext) (st : Style) : FlantermContext :=
  { t with
    bold := st.bold
    bgBold := false
    reverseVideo := false
    currentPrimary := st.fg.map Fin.val
    currentBg := st.bg.map Fin.val }

section Values

variable (t : FlantermContext) (g : Grid) (st : Style)

theorem sgrReset_draw : Draw sgrReset (t.styled st) (g.styled st) (t.styled .plain) (g.styled .plain) :=
  ⟨[⟨t.styled .plain, .setTextBgDefault⟩, ⟨t.styled .plain, .setTextFgDefault⟩], rfl, rfl⟩

/-- A colour of the palette -/
theorem penRun_colour {colours : Vector U32 8} (n : Fin 8) (set : U32 → Pen) :
    colours[n.val]?.map set = some (set (colours.get n)) := by
  rw [Vector.getElem?_eq_getElem n.isLt]
  rfl

theorem sgrBold_draw (bright : Bool) : Draw (sgrBold bright) (t.styled st) (g.styled st)
    (t.styled { st with bold := bright }) (g.styled { st with bold := bright }) := by
  obtain ⟨bold, fg, bg⟩ := st
  refine Does.update_bind (Does.ctx_bind ?_)
  cases fg with
  | none => cases bright <;> exact Does.pen rfl rfl
  | some n => cases bright <;> exact Does.pen rfl (penRun_colour n _)

theorem sgrPrimary_draw (n : Fin 8) : Draw (sgrPrimary n) (t.styled st) (g.styled st)
    (t.styled { st with fg := some n }) (g.styled { st with fg := some n }) := by
  obtain ⟨bold, fg, bg⟩ := st
  refine Does.update_bind (Does.ctx_bind ?_)
  cases bold <;> exact Does.pen rfl (penRun_colour n _)

theorem sgrBackground_draw (n : Fin 8) : Draw (sgrBackground n) (t.styled st) (g.styled st)
    (t.styled { st with bg := some n }) (g.styled { st with bg := some n }) := by
  obtain ⟨bold, fg, bg⟩ := st
  refine Does.update_bind (Does.ctx_bind ?_)
  cases bold <;> exact Does.pen rfl (penRun_colour n _)

theorem sgrPrimaryDefault_draw : Draw sgrPrimaryDefault (t.styled st) (g.styled st)
    (t.styled { st with fg := none }) (g.styled { st with fg := none }) := by
  obtain ⟨bold, fg, bg⟩ := st
  refine Does.update_bind (Does.ctx_bind (Draw.bind (Does.pure () _ _) (Draw.bind ?_ (Does.pure () _ _))))
  cases bold <;> exact Does.pen rfl rfl

theorem sgrBackgroundDefault_draw : Draw sgrBackgroundDefault (t.styled st) (g.styled st)
    (t.styled { st with bg := none }) (g.styled { st with bg := none }) :=
  Does.update_bind (Does.ctx_bind (Draw.bind (Does.pure () _ _) (Draw.bind (Does.pen rfl rfl) (Does.pure () _ _))))

variable {t g st}

theorem sgrValue_draw {v : Nat} (hv : SimpleValue v) :
    Draw (sgrValue v) (t.styled st) (g.styled st) (t.styled (st.apply v)) (g.styled (st.apply v)) := by
  obtain ⟨hlt, h5, h7, h25, h27, h38, h48⟩ := hv
  rw [sgrValue, Style.apply]
  by_cases h0 : v = 0
  · rw [if_pos h0, if_pos h0]
    exact sgrReset_draw t g st
  rw [if_neg h0, if_neg h0]
  by_cases h1 : v = 1
  · rw [if_pos h1, if_pos h1]
    exact sgrBold_draw t g st true
  rw [if_neg h1, if_neg h1, if_neg h5]
  by_cases h22 : v = 22
  · rw [if_pos h22, if_pos h22]
    exact sgrBold_draw t g st false
  rw [if_neg h22, if_neg h22, if_neg h25]
  by_cases hfg : 30 ≤ v ∧ v ≤ 37
  · rw [if_pos hfg, dif_pos hfg]
    exact sgrPrimary_draw t g st ⟨v - 30, by omega⟩
  rw [if_neg hfg, dif_neg hfg]
  by_cases hbg : 40 ≤ v ∧ v ≤ 47
  · rw [if_pos hbg, dif_pos hbg]
    exact sgrBackground_draw t g st ⟨v - 40, by omega⟩
  rw [if_neg hbg, dif_neg hbg, if_neg (by omega), if_neg (by omega)]
  by_cases h39 : v = 39
  · rw [if_pos h39, if_pos h39]
    exact sgrPrimaryDefault_draw t g st
  rw [if_neg h39, if_neg h39]
  by_cases h49 : v = 49
  · rw [if_pos h49, if_pos h49]
    exact sgrBackgroundDefault_draw t g st
  rw [if_neg h49, if_neg h49, if_neg h7, if_neg h27]
  exact Does.pure () _ _

/-- The values one after the other -/
theorem sgrLoop_draw {vs : List Nat} (hvs : ∀ v ∈ vs, SimpleValue v) :
    Draw (sgrLoop (vs.map (BitVec.ofNat 32))) (t.styled st) (g.styled st)
      (t.styled (vs.foldl Style.apply st)) (g.styled (vs.foldl Style.apply st)) := by
  induction vs generalizing st with
  | nil => exact Does.pure () _ _
  | cons v vs ih =>
    have hv := hvs v List.mem_cons_self
    have hval : (BitVec.ofNat 32 v).toNat = v := by
      rw [BitVec.toNat_ofNat, Nat.mod_eq_of_lt (Nat.lt_trans hv.1 (by decide))]
    have hsimple : ¬(BitVec.ofNat 32 v = 38#32 ∨ BitVec.ofNat 32 v = 48#32) := by
      obtain ⟨-, -, -, -, -, h38, h48⟩ := hv
      rintro (h | h)
      · exact h38 (hval.symm.trans (congrArg BitVec.toNat h))
      · exact h48 (hval.symm.trans (congrArg BitVec.toNat h))
    rw [List.map_cons, sgrLoop.eq_def]
    dsimp only
    rw [if_neg hsimple, hval, List.foldl_cons]
    exact Draw.bind (sgrValue_draw hv) (ih fun v hv => hvs v (List.mem_cons_of_mem _ hv))

end Values

/-! ## The sequence -/

/-- The terminal prints text in a style on the whole screen; a control sequence can have `k` values. -/
structure FlantermContext.Ready (n m k : Nat) (st : Style) (t : FlantermContext) : Prop where
  text : t.Text
  style : t.styled st = t
  cols : t.cols = n
  rows : t.rows = m
  top : t.scrollTopMargin = 0
  bottom : t.scrollBottomMargin = m
  scrollEnabled : t.scrollEnabled = true
  cursorEnabled : t.cursorEnabled = true
  insertMode : t.insertMode = false
  charset : t.charsets[t.currentCharset]? = some .default
  onlcr : t.onlcr = true
  room : t.escValues.length = k

theorem gridBackend_cursorBySize : gridBackend.CursorBySize := by
  intro t t' g hcols hrows
  change flantermFbGetCursorPos t g.pen = flantermFbGetCursorPos t' g.pen
  rw [flantermFbGetCursorPos, flantermFbGetCursorPos, hcols, hrows]

/-- A control sequence with the last character `c` is being worked on, and has the numbers `values`. -/
structure FlantermContext.Editing (n m k : Nat) (st : Style) (c : U8) (values : List U32) (t : FlantermContext) : Prop where
  cols : t.cols = n
  rows : t.rows = m
  top : t.scrollTopMargin = 0
  bottom : t.scrollBottomMargin = m
  scrollEnabled : t.scrollEnabled = false
  style : t.styled st = t
  count : t.escValuesI = values.length
  values : t.escValues = values ++ List.replicate (k - values.length) (escDefault c)

section Run

variable {n m k : Nat} {st st' : Style} {t : FlantermContext} {g g' : Grid}

/-- A control sequence is its case, and then the terminal goes on with text. -/
theorem control_run (ht : t.Ready n m k st) (params : List (Option Nat)) (last : Option Nat) {c : U8} (hc : Final c)
    {f : Nat → Nat → Front Unit} (hcase : ∀ x y, (controlCases x y).lookup c = some (f x y))
    (hdraw : ∀ u : FlantermContext, u.Editing n m k st c (sequenceValues k params last) →
      Draw (f (gridBackend.getCursorPos t g).1 (gridBackend.getCursorPos t g).2) u g (u.styled st') g') :
    ∃ t', ((sequenceText params last c).forM (flantermPutchar gridBackend)).run (t, g) = some ((), t', g') ∧
      t'.Ready n m k st' := by
  have hlen : (sequenceValues k params last).length ≤ k := List.length_take_le _ _
  rw [controlSequence_run gridBackend_cursorBySize ht.text _ _ hc, ht.room]
  generalize (sequenceText params last c).length - 1 = offset
  generalize sequenceValues k params last = values at hdraw hlen
  have hbody : Draw (controlBody c (gridBackend.getCursorPos t g).1 (gridBackend.getCursorPos t g).2)
      (sequenceContext t offset values c) g
      { (sequenceContext t offset values c).styled st' with controlSequence := false, escape := false } g' := by
    have hedit : ({ sequenceContext t offset values c with scrollEnabled := false } : FlantermContext).Editing n m k st c
        values := by
      refine ⟨ht.cols, ht.rows, ht.top, ht.bottom, rfl, ?_, rfl, ?_⟩
      · rw [← ht.style]
        rfl
      · rw [← ht.room]
        rfl
    refine Does.ctx_bind (Does.update_bind ?_)
    rw [hcase]
    exact (hdraw _ hedit).bind ⟨[], rfl, rfl⟩
  refine ⟨_, hbody.front, ?_⟩
  exact {
    text := ⟨ht.text.discardNext, rfl, rfl, ht.text.osc, ht.text.decPrivate, ht.text.unicodeRemaining, ht.text.gSelect⟩
    style := rfl
    cols := ht.cols
    rows := ht.rows
    top := ht.top
    bottom := ht.bottom
    scrollEnabled := ht.scrollEnabled
    cursorEnabled := ht.cursorEnabled
    insertMode := ht.insertMode
    charset := ht.charset
    onlcr := ht.onlcr
    room := by
      change (values ++ List.replicate (t.escValues.length - values.length) _).length = k
      rw [List.length_append, List.length_replicate, ht.room]
      omega }

/-! ## Colours -/

theorem styleText_values {vs : List Nat} {k : Nat} (hk : vs.length ≤ k) :
    sequenceValues k (vs.dropLast.map some) vs.getLast? = vs.map (BitVec.ofNat 32) := by
  have hvalues : paramValues (vs.dropLast.map some) = vs.dropLast.map (BitVec.ofNat 32) := by
    rw [paramValues, List.map_map]
    rfl
  have hlast : (vs.getLast?.map (BitVec.ofNat 32)).toList = vs.getLast?.toList.map (BitVec.ofNat 32) := by
    cases vs.getLast? <;> rfl
  have hall : vs.dropLast ++ vs.getLast?.toList = vs := by
    cases h : vs.getLast? with
    | none => rw [List.getLast?_eq_none_iff.mp h]; rfl
    | some v => exact List.dropLast_append_getLast? v h
  rw [sequenceValues, hvalues, hlast, ← List.map_append, hall, List.take_of_length_le]
  rwa [List.length_map]

theorem sgr_draw (hstyle : t.styled st = t) {vs : List Nat} (hvs : ∀ v ∈ vs, SimpleValue v)
    (hi : t.escValuesI = vs.length) (htake : t.escValues.take vs.length = vs.map (BitVec.ofNat 32)) (g : Grid) :
    Draw sgr t (g.styled st) (t.styled (st.applyAll vs)) (g.styled (st.applyAll vs)) := by
  refine Does.ctx_bind ?_
  rw [hi, htake, Style.applyAll]
  by_cases hnil : vs = []
  · subst hnil
    rw [if_pos rfl, if_pos List.length_nil]
    have hreset := sgrReset_draw t g st
    rwa [hstyle] at hreset
  · rw [if_neg hnil, if_neg fun h => hnil (List.length_eq_zero_iff.mp h)]
    have hloop : Draw _ (t.styled st) (g.styled st) _ _ := sgrLoop_draw hvs
    rwa [hstyle] at hloop

/-- `ESC [ ... m` changes the style, and nothing else that matters to the text. -/
theorem style_run (ht : t.Ready n m k st) {vs : List Nat} (hvs : ∀ v ∈ vs, SimpleValue v) (hk : vs.length ≤ k)
    (g : Grid) :
    ∃ t', ((styleText vs).forM (flantermPutchar gridBackend)).run (t, g.styled st) =
        some ((), t', g.styled (st.applyAll vs)) ∧ t'.Ready n m k (st.applyAll vs) := by
  have hlen : (vs.map (BitVec.ofNat 32)).length = vs.length := List.length_map _
  refine control_run ht _ _ ⟨by decide, by decide, by decide⟩ (f := fun _ _ => sgr) (fun _ _ => rfl) fun u hu => ?_
  rw [styleText_values hk] at hu
  refine sgr_draw hu.style hvs (hu.count.trans hlen) ?_ g
  rw [hu.values, List.take_left' hlen]

end Run

end PpoOS
