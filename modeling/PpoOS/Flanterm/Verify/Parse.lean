import PpoOS.Flanterm.Verify.Context

/-!
# Reading control sequences

A control sequence is read without a call of the backend up to its last character: the numbers are
collected in `esc_values`, as many as there is room for, each of them modulo `2 ^ 32`
(`controlSequence_read`).  The characters of a code point in UTF-8 are put together in the same way
(`utf8_read`).
-/

namespace PpoOS

open Front Numeral

/-- A part of `flanterm.c`, with the cursor where the backend has it -/
def Backend.front {σ : Type} (B : Backend σ) (f : Nat → Nat → Front Unit) :
    StateT (FlantermContext × σ) Option Unit := fun (t, s) => do
  let pos := B.getCursorPos t s
  let (calls, result) := f pos.1 pos.2 t
  let (_, t') ← result
  return ((), (t', ← B.runCalls calls s))

section Front

variable {σ : Type} {B : Backend σ} {f g : Nat → Nat → Front Unit} {t t' : FlantermContext} {s : σ}

theorem flantermPutchar_eq (B : Backend σ) (c : U8) : flantermPutchar B c = B.front (putchar c) := rfl

theorem front_congr (h : f (B.getCursorPos t s).1 (B.getCursorPos t s).2 t =
    g (B.getCursorPos t' s).1 (B.getCursorPos t' s).2 t') : (B.front f).run (t, s) = (B.front g).run (t', s) := by
  change B.front f (t, s) = B.front g (t', s)
  rw [Backend.front, Backend.front, h]

/-- The calls are made one after the other. -/
theorem front_run {calls : List BackendCall}
    (h : f (B.getCursorPos t s).1 (B.getCursorPos t s).2 t = (calls, some ((), t'))) :
    (B.front f).run (t, s) = (B.runCalls calls s).map fun u => ((), t', u) := by
  change B.front f (t, s) = _
  rw [Backend.front, h]
  change (do return ((), (t', ← B.runCalls calls s))) = _
  cases B.runCalls calls s <;> rfl

end Front

/-! ## Parts on a table -/

/-- What a part of `flanterm.c` does on a table, and its result -/
def Does {α : Type} (x : Front α) (t : FlantermContext) (g : Grid) (a : α) (t' : FlantermContext) (g' : Grid) : Prop :=
  ∃ calls, x t = (calls, some (a, t')) ∧ gridBackend.runCalls calls g = some g'

abbrev Draw (x : Front Unit) (t : FlantermContext) (g : Grid) (t' : FlantermContext) (g' : Grid) : Prop :=
  Does x t g () t' g'

section Does

variable {α β : Type} {x : Front α} {k : α → Front β} {f : FlantermContext → Front β} {t t' t'' : FlantermContext}
  {g g' g'' : Grid} {a : α} {b : β}

theorem Does.pure (a : α) (t : FlantermContext) (g : Grid) : Does (Pure.pure a) t g a t g := ⟨[], rfl, rfl⟩

theorem Does.bind (hx : Does x t g a t' g') (hk : Does (k a) t' g' b t'' g'') : Does (x >>= k) t g b t'' g'' := by
  obtain ⟨calls, hcalls, hrun⟩ := hx
  obtain ⟨calls', hcalls', hrun'⟩ := hk
  refine ⟨calls ++ calls', ?_, ?_⟩
  · rw [Traced.bind_of_some hcalls, hcalls']
  · rw [Backend.runCalls, List.foldlM_append]
    exact (congrArg (· >>= fun s => gridBackend.runCalls calls' s) hrun).trans hrun'

theorem Draw.bind {x : Front Unit} {k : Unit → Front β} (hx : Draw x t g t' g') (hk : Does (k ()) t' g' b t'' g'') :
    Does (x >>= k) t g b t'' g'' := Does.bind hx hk

theorem Does.ctx_bind (h : Does (f t) t g b t' g') : Does (ctx >>= f) t g b t' g' := h

theorem Does.update_bind {u : FlantermContext → FlantermContext} {k : Unit → Front β} (h : Does (k ()) (u t) g b t' g') :
    Does (update u >>= k) t g b t' g' := h

theorem Does.update (u : FlantermContext → FlantermContext) (t : FlantermContext) (g : Grid) :
    Draw (update u) t g (u t) g := ⟨[], rfl, rfl⟩

theorem Does.call {fn : BackendFn} (h : g.run t fn = some g') : Draw (call fn) t g t g' :=
  ⟨[⟨t, fn⟩], rfl, (congrArg (Option.bind · some) h).trans rfl⟩

/-- A call that changes the pen -/
theorem Does.pen {fn : BackendFn} {pen : Pen} (hfn : g.run t fn = (penRun g.colours t g.pen fn).map g.withPen)
    (hpen : penRun g.colours t g.pen fn = some pen) : Draw (Front.call fn) t g t (g.withPen pen) :=
  Does.call (by rw [hfn, hpen]; rfl)

/-- With the cursor where the table has it -/
theorem Does.front {x : Nat → Nat → Front Unit}
    (h : Draw (x (gridBackend.getCursorPos t g).1 (gridBackend.getCursorPos t g).2) t g t' g') :
    (gridBackend.front x).run (t, g) = some ((), t', g') := by
  obtain ⟨calls, hcalls, hrun⟩ := h
  rw [front_run hcalls, hrun]
  rfl

end Does

/-! ## Bytes without a call -/

/-- The bytes change the context, and nothing else. -/
def Reads (bytes : List U8) (t t' : FlantermContext) : Prop :=
  ∀ (σ : Type) (B : Backend σ) (s : σ), (bytes.forM (flantermPutchar B)).run (t, s) = some ((), t', s)

section Reads

variable {t t' t'' : FlantermContext} {bytes bytes' : List U8} {c : U8}

theorem Reads.nil (t : FlantermContext) : Reads [] t t := fun _ _ _ => rfl

theorem Reads.append (h : Reads bytes t t') (h' : Reads bytes' t' t'') : Reads (bytes ++ bytes') t t'' := by
  intro σ B s
  rw [List.forM_eq_forM, List.forM_append]
  exact (FaultState.run_bind_eq (h σ B s)).trans (h' σ B s)

theorem Reads.cons (h : ∀ x y, putchar c x y t = ([], some ((), t'))) (h' : Reads bytes t' t'') :
    Reads (c :: bytes) t t'' := by
  intro σ B s
  exact (FaultState.run_bind_eq (front_run (h _ _))).trans (h' σ B s)

/-- A last byte after the others -/
theorem Reads.run {σ : Type} {B : Backend σ} {s : σ} {f : Nat → Nat → Front Unit} (h : Reads bytes t t')
    (hc : ∀ x y, putchar c x y t' = f x y t'') (hcursor : B.getCursorPos t' s = B.getCursorPos t'' s) :
    ((bytes ++ [c]).forM (flantermPutchar B)).run (t, s) = (B.front f).run (t'', s) := by
  rw [List.forM_eq_forM, List.forM_append]
  refine (FaultState.run_bind_eq (h σ B s)).trans ?_
  rw [List.forM_cons, List.forM_nil, bind_pure_unit]
  have hlast : (B.front (putchar c)).run (t', s) = (B.front f).run (t'', s) := front_congr (by rw [hc, hcursor])
  exact hlast

end Reads

/-! ## Text and sequences -/

/-- The terminal waits for text, not for the rest of a sequence or of a character. -/
structure FlantermContext.Text (t : FlantermContext) : Prop where
  discardNext : t.discardNext = false
  escape : t.escape = false
  controlSequence : t.controlSequence = false
  osc : t.osc = false
  decPrivate : t.decPrivate = false
  unicodeRemaining : t.unicodeRemaining = 0
  gSelect : t.gSelect = 0

/-- A byte of ASCII that is no control character -/
def Printable (c : U8) : Prop := 0x20#8 ≤ c ∧ c ≤ 0x7E#8

theorem Printable.ne {c d : U8} (h : Printable c) (hd : d < 0x20#8) : c ≠ d := by
  rintro rfl
  exact absurd h.1 (BitVec.not_le.mpr hd)

theorem Printable.not_start {c : U8} (h : Printable c) : ¬(0xC0#8 ≤ c ∧ c ≤ 0xF7#8) := fun hc =>
  absurd (BitVec.le_trans hc.1 h.2) (by decide)

section Sequences

variable {t : FlantermContext} {c : U8} (x y : Nat)

/-- A byte where no character waits for more bytes -/
theorem putchar_byte (hdiscard : t.discardNext = false) (hrest : t.unicodeRemaining = 0) (hcan : c ≠ 0x18#8)
    (hsub : c ≠ 0x1A#8) (hstart : ¬(0xC0#8 ≤ c ∧ c ≤ 0xF7#8)) :
    putchar c x y t = (if t.escape then escapeParse c x y else if t.gSelect ≠ 0 then selectCharset c else
      putControl c x y) t := by
  have hsame : { t with unicodeRemaining := 0 } = t := by rw [← hrest]
  change (if t.discardNext ∨ c = 0x18#8 ∨ c = 0x1A#8 then _
    else if t.unicodeRemaining ≠ 0 ∧ c &&& 0xC0#8 = 0x80#8 then unicodeContinue c else putByte c x y) t = _
  rw [if_neg (by rw [hdiscard]; simp [hcan, hsub]), if_neg fun h => h.1 hrest]
  change (if 0xC0#8 ≤ c ∧ c ≤ 0xF7#8 then unicodeStart c
    else ctx >>= fun t => if t.escape then escapeParse c x y else if t.gSelect ≠ 0 then selectCharset c else
      putControl c x y) { t with unicodeRemaining := 0 } = _
  rw [if_neg hstart, hsame]
  rfl

variable {x y}

/-- A byte of a control sequence -/
theorem putchar_sequence (hdiscard : t.discardNext = false) (hrest : t.unicodeRemaining = 0) (hescape : t.escape = true)
    (hosc : t.osc = false) (hcontrol : t.controlSequence = true) (hc : Printable c) :
    putchar c x y t = controlSequenceParse c x y { t with escapeOffset := t.escapeOffset + 1 } := by
  rw [putchar_byte x y hdiscard hrest (hc.ne (by decide)) (hc.ne (by decide)) hc.not_start, if_pos hescape]
  change (if t.osc then oscParse c
    else if t.controlSequence then controlSequenceParse c x y
    else if c = charByte ']' then update fun t => { t with oscEscape := false, osc := true }
    else if c = charByte '[' then
      update fun t => { t with
        escValues := List.replicate t.escValues.length 0#32, escValuesI := 0, rrr := false, controlSequence := true }
    else do
      ((escapeCases x y).lookup c).getD (pure ())
      update fun t => { t with escape := false }) { t with escapeOffset := t.escapeOffset + 1 } = _
  rw [hosc, hcontrol, if_neg Bool.false_ne_true, if_pos rfl]

end Sequences

/-! ## The numbers of a control sequence -/

section Numbers

variable {t : FlantermContext} {values : List U32} {k : Nat} {c : U8}

/-- Within a control sequence, after `k` characters, when `values` have been collected -/
def collected (t : FlantermContext) (k : Nat) (values : List U32) : FlantermContext :=
  { t with
    escape := true
    controlSequence := true
    escapeOffset := k
    escValues := values ++ List.replicate (t.escValues.length - values.length) 0#32
    escValuesI := values.length
    rrr := false }

/-- The same in a number of which `v` has been read -/
def collecting (t : FlantermContext) (k : Nat) (values : List U32) (v : U32) : FlantermContext :=
  { t with
    escape := true
    controlSequence := true
    escapeOffset := k
    escValues := values ++ v :: List.replicate (t.escValues.length - values.length - 1) 0#32
    escValuesI := values.length
    rrr := true }

/-- `ESC [` -/
theorem reads_start (ht : t.Text) : Reads [0x1B#8, charByte '['] t (collected t 1 []) := by
  have hescape : ∀ x y, putchar 0x1B#8 x y t = ([], some ((), { t with escapeOffset := 0, escape := true })) := by
    intro x y
    refine (putchar_byte x y ht.discardNext ht.unicodeRemaining (by decide) (by decide) (by decide)).trans ?_
    rw [ht.escape, if_neg Bool.false_ne_true, if_neg (not_not.mpr ht.gSelect)]
    rfl
  refine Reads.cons hescape (Reads.cons (fun x y => ?_) (Reads.nil _))
  · refine (putchar_byte (t := { t with escapeOffset := 0, escape := true }) (c := charByte '[') x y ht.discardNext
      ht.unicodeRemaining (by decide) (by decide) (by decide)).trans ?_
    rw [if_pos rfl, collected, List.nil_append, List.length_nil, Nat.sub_zero]
    change (if t.osc then oscParse _ else if t.controlSequence then _ else _ : Front Unit) _ = _
    rw [ht.osc, ht.controlSequence, if_neg Bool.false_ne_true, if_neg Bool.false_ne_true]
    rfl

theorem digitByte_printable : ∀ d < 10, Printable (digitByte d) ∧ isDigit (digitByte d) = true ∧
    (digitByte d - charByte '0').setWidth 32 = BitVec.ofNat 32 d ∧ digitByte d ≠ charByte '[' ∧
    digitByte d ≠ charByte '?' := by
  simp only [Printable]
  decide

/-- `control_sequence_parse` of a digit -/
theorem controlSequenceParse_digit (t : FlantermContext) (x y : Nat) {d : Nat} (hd : d < 10) :
    controlSequenceParse (digitByte d) x y t =
      (if t.escValuesI = t.escValues.length then pure ()
      else do
        update fun t => { t with rrr := true }
        updateEsc fun v => v * 10#32 + BitVec.ofNat 32 d) t := by
  obtain ⟨-, hdigit, hval, hopen, hask⟩ := digitByte_printable d hd
  rw [← hval]
  change (if t.escapeOffset = 2 ∧ digitByte d = charByte '[' then _
    else if t.escapeOffset = 2 ∧ digitByte d = charByte '?' then _
    else if isDigit (digitByte d) then _ else _ : Front Unit) t = _
  rw [if_neg fun h => hopen h.2, if_neg fun h => hask h.2, if_pos hdigit]

theorem digit_step {u : FlantermContext} {v : U32} {rest : List U32} (hvalues : u.escValues = values ++ v :: rest)
    (hi : u.escValuesI = values.length) (x y : Nat) {d : Nat} (hd : d < 10) :
    controlSequenceParse (digitByte d) x y u =
      ([], some ((), { u with rrr := true, escValues := values ++ (v * 10#32 + BitVec.ofNat 32 d) :: rest })) := by
  have hlt : u.escValuesI < u.escValues.length := by
    rw [hi, hvalues, List.length_append, List.length_cons]
    omega
  rw [controlSequenceParse_digit u x y hd, if_neg (Nat.ne_of_lt hlt)]
  refine (updateEsc_run (t := { u with rrr := true }) hlt).trans ?_
  simp only [hi, hvalues, List.set_append_right _ _ (Nat.le_refl _), Nat.sub_self, List.set_cons_zero,
    List.getElem_append_right (Nat.le_refl _), List.getElem_cons_zero]

theorem collected_values (t : FlantermContext) (k : Nat) (hroom : values.length < t.escValues.length) :
    (collected t k values).escValues = values ++ 0#32 :: List.replicate (t.escValues.length - values.length - 1) 0#32 := by
  have hpos : t.escValues.length - values.length = t.escValues.length - values.length - 1 + 1 := by omega
  rw [collected, hpos, List.replicate_succ, Nat.add_sub_cancel]

theorem putchar_collected (ht : t.Text) (hc : Printable c) (x y : Nat) :
    putchar c x y (collected t k values) = controlSequenceParse c x y (collected t (k + 1) values) :=
  putchar_sequence (t := collected t k values) ht.discardNext ht.unicodeRemaining rfl ht.osc rfl hc

theorem putchar_collecting (ht : t.Text) (hc : Printable c) (v : U32) (x y : Nat) :
    putchar c x y (collecting t k values v) = controlSequenceParse c x y (collecting t (k + 1) values v) :=
  putchar_sequence (t := collecting t k values v) ht.discardNext ht.unicodeRemaining rfl ht.osc rfl hc

/-- The digits of a number -/
theorem reads_number (ht : t.Text) (hroom : values.length < t.escValues.length) (v : Nat) :
    Reads (numeral digitByte 10 v) (collected t k values)
      (collecting t (k + (numeral digitByte 10 v).length) values (BitVec.ofNat 32 v)) := by
  induction v using Numeral.digit_induction (show 1 < 10 by decide) with
  | hlt v hv =>
    rw [Numeral.numeral_of_lt _ hv]
    refine Reads.cons (fun x y => ?_) (Reads.nil _)
    have hstep := digit_step (collected_values t (k + 1) hroom) rfl x y hv
    rw [BitVec.zero_mul, BitVec.zero_add] at hstep
    exact (putchar_collected ht (digitByte_printable v hv).1 x y).trans hstep
  | hstep v hv ih =>
    have hlast := Nat.mod_lt v (show 0 < 10 by decide)
    rw [Numeral.numeral_step _ (by decide) hv]
    refine ih.append (Reads.cons (fun x y => ?_) (Reads.nil _))
    have hvalue : BitVec.ofNat 32 (v / 10) * 10#32 + BitVec.ofNat 32 (v % 10) = BitVec.ofNat 32 v := by
      have hdiv := Nat.div_add_mod' v 10
      rw [← BitVec.ofNat_mul, ← BitVec.ofNat_add, hdiv]
    rw [← hvalue, List.length_append]
    exact (putchar_collecting ht (digitByte_printable _ hlast).1 _ x y).trans (digit_step rfl rfl x y hlast)

/-- Numbers that there is no room for are passed over. -/
theorem reads_surplus (ht : t.Text) (hroom : values.length = t.escValues.length) (v : Nat) :
    Reads (numeral digitByte 10 v) (collected t k values) (collected t (k + (numeral digitByte 10 v).length) values) := by
  have hdigits : ∀ c ∈ numeral digitByte 10 v, ∃ d < 10, digitByte d = c :=
    fun c hc => Numeral.mem_numeral (by decide) hc
  generalize numeral digitByte 10 v = digits at hdigits
  induction digits generalizing k with
  | nil => exact Reads.nil _
  | cons c digits ih =>
    obtain ⟨d, hd, rfl⟩ := hdigits c List.mem_cons_self
    rw [List.length_cons, Nat.add_comm digits.length, ← Nat.add_assoc]
    refine Reads.cons (fun x y => ?_) (ih fun c' hc' => hdigits c' (List.mem_cons_of_mem _ hc'))
    have hfull : (collected t (k + 1) values).escValuesI = (collected t (k + 1) values).escValues.length := by
      rw [collected, hroom, Nat.sub_self, List.replicate_zero, List.append_nil, hroom]
    rw [putchar_collected ht (digitByte_printable d hd).1, controlSequenceParse_digit _ x y hd, if_pos hfull]
    rfl

/-- The values with one more, where there is room for it -/
def pushValue (n : Nat) (values : List U32) (v : U32) : List U32 := if values.length < n then values ++ [v] else values

/-- `;` -/
theorem controlSequenceParse_separator (u : FlantermContext) (x y : Nat) :
    controlSequenceParse (charByte ';') x y u =
      (if u.rrr then update fun t => { t with escValuesI := t.escValuesI + 1, rrr := false }
      else if u.escValuesI = u.escValues.length then pure ()
      else do
        updateEsc fun _ => 0#32
        update fun t => { t with escValuesI := t.escValuesI + 1 }) u := by
  change (if u.escapeOffset = 2 ∧ charByte ';' = charByte '[' then _
    else if u.escapeOffset = 2 ∧ charByte ';' = charByte '?' then _
    else if isDigit (charByte ';') then _
    else if u.rrr ∧ charByte ';' = charByte ';' then _ else _ : Front Unit) u = _
  rw [if_neg fun h => absurd h.2 (by decide), if_neg fun h => absurd h.2 (by decide), if_neg (by decide)]
  by_cases hr : u.rrr = true
  · rw [if_pos ⟨hr, rfl⟩, if_pos hr]
  · rw [if_neg fun h => hr h.1, if_neg hr, if_pos rfl]

section Separator

variable {u : FlantermContext} (x y : Nat)

/-- It ends a number, -/
theorem separator_close (hr : u.rrr = true) : controlSequenceParse (charByte ';') x y u =
    ([], some ((), { u with escValuesI := u.escValuesI + 1, rrr := false })) := by
  rw [controlSequenceParse_separator, if_pos hr]
  rfl

/-- stands for a zero, -/
theorem separator_zero (hr : u.rrr = false) {v : U32} {rest : List U32} (hvalues : u.escValues = values ++ v :: rest)
    (hi : u.escValuesI = values.length) : controlSequenceParse (charByte ';') x y u =
      ([], some ((), { u with escValues := values ++ 0#32 :: rest, escValuesI := values.length + 1 })) := by
  have hlt : u.escValuesI < u.escValues.length := by
    rw [hi, hvalues, List.length_append, List.length_cons]
    omega
  rw [controlSequenceParse_separator, if_neg (Bool.eq_false_iff.mp hr), if_neg (Nat.ne_of_lt hlt),
    Traced.bind_of_some (updateEsc_run hlt)]
  simp only [hi, hvalues, List.set_append_right _ _ (Nat.le_refl _), Nat.sub_self, List.set_cons_zero]
  rfl

/-- or is passed over. -/
theorem separator_surplus (hr : u.rrr = false) (hi : u.escValuesI = u.escValues.length) :
    controlSequenceParse (charByte ';') x y u = ([], some ((), u)) := by
  rw [controlSequenceParse_separator, if_neg (Bool.eq_false_iff.mp hr), if_pos hi]
  rfl

end Separator

theorem collected_push (t : FlantermContext) (k : Nat) (values : List U32) (v : U32) :
    collected t k (values ++ [v]) = { collecting t k values v with escValuesI := values.length + 1, rrr := false } := by
  rw [collected, collecting, List.length_append, List.length_singleton, ← Nat.sub_sub, List.append_assoc,
    List.singleton_append]

theorem collected_full (t : FlantermContext) (k : Nat) (hfull : values.length = t.escValues.length) :
    (collected t k values).escValuesI = (collected t k values).escValues.length := by
  rw [collected, hfull, Nat.sub_self, List.replicate_zero, List.append_nil, hfull]

theorem reads_param (ht : t.Text) (hfit : values.length ≤ t.escValues.length) (p : Option Nat) :
    Reads (paramText p ++ [charByte ';']) (collected t k values) (collected t (k + ((paramText p).length + 1))
      (pushValue t.escValues.length values (BitVec.ofNat 32 (p.getD 0)))) := by
  have hprint : Printable (charByte ';') := by
    rw [Printable]
    decide
  rw [pushValue, ← Nat.add_assoc]
  split_ifs with hroom
  · rw [collected_push]
    cases p with
    | some v =>
      refine (reads_number ht hroom v).append (Reads.cons (fun x y => ?_) (Reads.nil _))
      exact (putchar_collecting ht hprint _ x y).trans (separator_close x y rfl)
    | none =>
      refine Reads.cons (fun x y => ?_) (Reads.nil _)
      exact (putchar_collected ht hprint x y).trans (separator_zero x y rfl (collected_values t (k + 1) hroom) rfl)
  · have hfull : values.length = t.escValues.length := by omega
    have hseparator : ∀ k, Reads [charByte ';'] (collected t k values) (collected t (k + 1) values) := by
      intro k
      refine Reads.cons (fun x y => ?_) (Reads.nil _)
      exact (putchar_collected ht hprint x y).trans (separator_surplus x y rfl (collected_full t (k + 1) hfull))
    cases p with
    | some v => exact (reads_surplus ht hfull v).append (hseparator _)
    | none => exact hseparator k

theorem length_pushValue {n : Nat} (hfit : values.length ≤ n) (v : U32) : (pushValue n values v).length ≤ n := by
  rw [pushValue]
  split_ifs with hroom
  · rw [List.length_append]
    exact hroom
  · exact hfit

theorem pushValue_take {n : Nat} (hfit : values.length ≤ n) (v : U32) (rest : List U32) :
    (pushValue n values v ++ rest).take n = (values ++ v :: rest).take n := by
  rw [pushValue]
  split_ifs with hroom
  · rw [List.append_assoc, List.singleton_append]
  · have hfull : values.length = n := by omega
    rw [List.take_append_of_le_length (Nat.le_of_eq hfull.symm), List.take_append_of_le_length (Nat.le_of_eq hfull.symm)]

theorem reads_params (ht : t.Text) (hfit : values.length ≤ t.escValues.length) (params : List (Option Nat)) :
    Reads (paramsText params) (collected t k values)
      (collected t (k + (paramsText params).length) ((values ++ paramValues params).take t.escValues.length)) := by
  induction params generalizing values k with
  | nil =>
    rw [paramValues, List.map_nil, List.append_nil, List.take_of_length_le hfit]
    exact Reads.nil _
  | cons p params ih =>
    have hrest := ih (k := k + ((paramText p).length + 1)) (length_pushValue hfit (BitVec.ofNat 32 (p.getD 0)))
    rw [pushValue_take hfit] at hrest
    rw [paramsText, List.flatMap_cons, List.length_append, List.length_append, List.length_singleton, ← Nat.add_assoc]
    exact (reads_param ht hfit p).append hrest

end Numbers

/-! ## The end of a control sequence -/

/-- A character that ends a control sequence -/
structure Final (c : U8) : Prop where
  low : 0x40#8 ≤ c
  high : c ≤ 0x7E#8
  not_open : c ≠ charByte '['

theorem Final.printable {c : U8} (h : Final c) : Printable c := ⟨BitVec.le_trans (by decide) h.low, h.high⟩

/-- What a control sequence does once its numbers are known: the case of its last character, without scrolling -/
def controlBody (c : U8) (x y : Nat) : Front Unit := do
  let t ← ctx
  update fun t => { t with scrollEnabled := false }
  ((controlCases x y).lookup c).getD (pure ())
  update fun t' => { t' with scrollEnabled := t.scrollEnabled }
  endSequence

/-- At the last character of a control sequence, the one at `k`, with the values of its numbers and with the
defaults for the others -/
def sequenceContext (t : FlantermContext) (k : Nat) (values : List U32) (c : U8) : FlantermContext :=
  { t with
    escape := true
    controlSequence := true
    escapeOffset := k
    escValues := values ++ List.replicate (t.escValues.length - values.length) (escDefault c)
    escValuesI := values.length
    rrr := false }

section Final

variable {t : FlantermContext} {values : List U32} {k : Nat} {c : U8}

theorem controlSequenceParse_final (hc : Final c) (x y : Nat) (u : FlantermContext) :
    controlSequenceParse c x y u = controlFinal c x y u := by
  have hdigit : ¬isDigit c := by
    rw [isDigit, Bool.and_eq_true, decide_eq_true_iff, decide_eq_true_iff]
    exact fun h => absurd (BitVec.le_trans hc.low h.2) (by decide)
  have hseparator : c ≠ charByte ';' := by
    rintro rfl
    exact absurd hc.low (by decide)
  have hask : c ≠ charByte '?' := by
    rintro rfl
    exact absurd hc.low (by decide)
  change (if u.escapeOffset = 2 ∧ c = charByte '[' then _
    else if u.escapeOffset = 2 ∧ c = charByte '?' then _
    else if isDigit c then _
    else if u.rrr ∧ c = charByte ';' then _
    else if c = charByte ';' then _ else _ : Front Unit) u = _
  rw [if_neg fun h => hc.not_open h.2, if_neg fun h => hask h.2, if_neg hdigit, if_neg fun h => hseparator h.2,
    if_neg hseparator]

theorem ctx_bind_apply {β : Type} (f : FlantermContext → Front β) (t : FlantermContext) : (ctx >>= f) t = f t t := rfl

/-- The values that have not been given get the default. -/
def closeValues (c : U8) (u : FlantermContext) : FlantermContext :=
  { u with
    escValues := u.escValues.take u.escValuesI ++ List.replicate (u.escValues.length - u.escValuesI) (escDefault c) }

theorem controlFinal_eq {u : FlantermContext} (hr : u.rrr = false) (hprivate : u.decPrivate = false) (c : U8) (x y : Nat) :
    controlFinal c x y u = controlBody c x y (closeValues c u) := by
  have hclosed : (if u.rrr then { u with escValuesI := u.escValuesI + 1, rrr := false } else u) = u :=
    if_neg (Bool.eq_false_iff.mp hr)
  change (ctx >>= fun t => if t.decPrivate then (do
      decPrivateParse c
      endSequence)
    else (do
      update fun t => { t with scrollEnabled := false }
      ((controlCases x y).lookup c).getD (pure ())
      update fun t' => { t' with scrollEnabled := t.scrollEnabled }
      endSequence) : Front Unit) (closeValues c (if u.rrr then { u with escValuesI := u.escValuesI + 1, rrr := false }
        else u)) = _
  have hpublic : ¬(closeValues c u).decPrivate = true := Bool.eq_false_iff.mp hprivate
  rw [hclosed, ctx_bind_apply, if_neg hpublic]
  rfl

/-- After the last number -/
theorem controlFinal_collected (ht : t.Text) (hfit : values.length ≤ t.escValues.length) (c : U8) (x y : Nat) :
    controlFinal c x y (collected t k values) = controlBody c x y (sequenceContext t k values c) := by
  have hlen : (values ++ List.replicate (t.escValues.length - values.length) 0#32).length = t.escValues.length := by
    rw [List.length_append, List.length_replicate]
    omega
  have hcontext : closeValues c (collected t k values) = sequenceContext t k values c := by
    rw [closeValues, collected, sequenceContext, hlen, List.take_left]
  rw [controlFinal_eq (u := collected t k values) rfl ht.decPrivate, hcontext]

/-- Within the last number -/
theorem controlFinal_collecting (ht : t.Text) (hroom : values.length < t.escValues.length) (v : U32) (c : U8) (x y : Nat) :
    controlFinal c x y (collecting t k values v) = controlBody c x y (sequenceContext t k (values ++ [v]) c) := by
  have hclosed : controlFinal c x y (collecting t k values v) = controlFinal c x y (collected t k (values ++ [v])) := by
    rw [collected_push]
    rfl
  rw [hclosed, controlFinal_collected ht]
  rw [List.length_append]
  exact hroom

end Final

/-- The backends tell the place of the cursor from the size of the screen. -/
def Backend.CursorBySize {σ : Type} (B : Backend σ) : Prop :=
  ∀ t t' s, t.cols = t'.cols → t.rows = t'.rows → B.getCursorPos t s = B.getCursorPos t' s

/-- Whatever its numbers are, and however many, a control sequence is the case of its last character. -/
theorem controlSequence_run {σ : Type} {B : Backend σ} (hB : B.CursorBySize) {t : FlantermContext} (ht : t.Text)
    (params : List (Option Nat)) (last : Option Nat) {c : U8} (hc : Final c) (s : σ) :
    ((sequenceText params last c).forM (flantermPutchar B)).run (t, s) =
      (B.front (controlBody c)).run (sequenceContext t ((sequenceText params last c).length - 1)
        (sequenceValues t.escValues.length params last) c, s) := by
  have hlength : (sequenceText params last c).length - 1 =
      1 + (paramsText params).length + (paramText last).length + 1 := by
    simp only [sequenceText, List.length_append, List.length_cons, List.length_nil]
    omega
  have hparams := (reads_start ht).append (reads_params (k := 1) ht (Nat.zero_le _) params)
  rw [List.nil_append] at hparams
  have hfit : ((paramValues params).take t.escValues.length).length ≤ t.escValues.length := List.length_take_le _ _
  rw [hlength, sequenceValues, sequenceText, ← List.append_assoc]
  cases last with
  | none =>
    have htext : paramText none = [] := rfl
    rw [htext, List.append_nil, List.length_nil, Nat.add_zero, Option.map_none, Option.toList_none, List.append_nil]
    exact hparams.run (fun x y => (putchar_collected ht hc.printable x y).trans
      ((controlSequenceParse_final hc x y _).trans (controlFinal_collected ht hfit c x y))) (hB _ _ s rfl rfl)
  | some v =>
    by_cases hroom : ((paramValues params).take t.escValues.length).length < t.escValues.length
    · have hall : (paramValues params).length < t.escValues.length := by
        rw [List.length_take] at hroom
        omega
      have hvalues : (paramValues params ++ (Option.map (BitVec.ofNat 32) (some v)).toList).take t.escValues.length =
          (paramValues params).take t.escValues.length ++ [BitVec.ofNat 32 v] := by
        rw [List.take_of_length_le (Nat.le_of_lt hall), List.take_of_length_le]
        · rfl
        · rw [List.length_append]
          exact hall
      rw [hvalues]
      exact (hparams.append (reads_number ht hroom v)).run (fun x y => (putchar_collecting ht hc.printable _ x y).trans
        ((controlSequenceParse_final hc x y _).trans (controlFinal_collecting ht hroom _ c x y))) (hB _ _ s rfl rfl)
    · have hfull : ((paramValues params).take t.escValues.length).length = t.escValues.length := by omega
      have hvalues : (paramValues params ++ (Option.map (BitVec.ofNat 32) (some v)).toList).take t.escValues.length =
          (paramValues params).take t.escValues.length := by
        rw [List.length_take] at hfull
        exact List.take_append_of_le_length (by omega)
      rw [hvalues]
      exact (hparams.append (reads_surplus ht hfull v)).run (fun x y => (putchar_collected ht hc.printable x y).trans
        ((controlSequenceParse_final hc x y _).trans (controlFinal_collected ht hfit c x y))) (hB _ _ s rfl rfl)

end PpoOS
