import PpoOS.Lib.FaultState

/-!
# Computations that leave a trace

`Traced ε σ α` is a computation over states that may fault, together with the
events that it went through before its end or its fault.  `Traces P x y` says that
`x` is the computation `y` and that all its events meet `P`; `Pays φ goes x` says
that a potential pays for the events, so that there are at most as many as it
allows, and one more where the computation gives up.  `Spans R x` says that the events
account for the change of the state.  `Agrees x x' y s` compares two
versions of a computation in one state, such as two bounds for its loops.
-/

/-- The events of a computation, and how it ends where it does not fault. -/
def Traced (ε σ α : Type) : Type := σ → List ε × Option (α × σ)

namespace Traced

variable {ε σ α β : Type}

/-- Go on with `f` after a first part. -/
def andThen (r : List ε × Option (α × σ)) (f : α → Traced ε σ β) : List ε × Option (β × σ) :=
  match r with
  | (es, none) => (es, none)
  | (es, some (a, t)) => (es ++ (f a t).1, (f a t).2)

instance : Monad (Traced ε σ) where
  pure a := fun s => ([], some (a, s))
  bind x f := fun s => andThen (x s) f

/-- A computation without events. -/
def lift (x : StateT σ Option α) : Traced ε σ α := fun s => ([], x.run s)

def emit (e : ε) : Traced ε σ Unit := fun s => ([e], some ((), s))

def fault : Traced ε σ α := fun _ => ([], none)

variable {x : Traced ε σ α} {f : α → Traced ε σ β} {s t : σ} {a : α}

theorem bind_apply : (x >>= f) s = andThen (x s) f := rfl

theorem lift_apply (x : StateT σ Option α) (s : σ) : (lift x : Traced ε σ α) s = ([], x.run s) := rfl

/-- After a first part that ends. -/
theorem bind_of_some {es : List ε} (h : x s = (es, some (a, t))) :
    (x >>= f) s = (es ++ (f a t).1, (f a t).2) := by rw [bind_apply, h, andThen]

/-- After a first part that faults. -/
theorem bind_of_none {es : List ε} (h : x s = (es, none)) : (x >>= f) s = (es, none) := by
  rw [bind_apply, h, andThen]

/-- The events of the first part are those of the whole. -/
theorem mem_bind_left {e : ε} (h : e ∈ (x s).1) : e ∈ ((x >>= f) s).1 := by
  cases hx : x s with
  | mk es r =>
    rw [hx] at h
    cases r with
    | none =>
      rw [bind_of_none hx]
      exact h
    | some r =>
      rw [bind_of_some hx]
      exact List.mem_append_left _ h

/-- Two computations that do the same from a state on, and then go on in the same way. -/
theorem bind_congr {x' : Traced ε σ α} {f' : α → Traced ε σ β} (h : x s = x' s)
    (hf : ∀ a t, (x' s).2 = some (a, t) → f a t = f' a t) : (x >>= f) s = (x' >>= f') s := by
  rcases hx : x' s with ⟨es, _ | ⟨a, t⟩⟩
  · rw [bind_of_none hx, bind_of_none (h.trans hx)]
  · rw [bind_of_some hx, bind_of_some (h.trans hx), hf a t (by rw [hx])]

/-- A choice between computations that do the same. -/
theorem ite_congr {c : Prop} [Decidable c] {x' y y' : Traced ε σ α} (ht : c → x s = x' s) (hf : ¬c → y s = y' s) :
    (if c then x else y) s = (if c then x' else y') s := by
  by_cases hc : c
  · rw [if_pos hc, if_pos hc]
    exact ht hc
  · rw [if_neg hc, if_neg hc]
    exact hf hc

/-! ## All events meet a predicate -/

/-- `x` is `y`, with events that meet `P`. -/
structure Traces (P : ε → Prop) (x : Traced ε σ α) (y : StateT σ Option α) : Prop where
  result : ∀ s, (x s).2 = y.run s
  events : ∀ s, ∀ e ∈ (x s).1, P e

namespace Traces

variable {P : ε → Prop} {x x' : Traced ε σ α} {y y' : StateT σ Option α} {g : α → StateT σ Option β}

theorem pure (a : α) : Traces P (Pure.pure a : Traced ε σ α) (Pure.pure a) := ⟨fun _ => rfl, fun _ _ h => nomatch h⟩

theorem lift (y : StateT σ Option α) : Traces P (Traced.lift y) y := ⟨fun _ => rfl, fun _ _ h => nomatch h⟩

theorem fault : Traces P (Traced.fault : Traced ε σ α) failure := ⟨fun _ => rfl, fun _ _ h => nomatch h⟩

theorem congr (h : Traces P x y) (hy : ∀ s, y.run s = y'.run s) : Traces P x y' :=
  ⟨fun s => (h.result s).trans (hy s), h.events⟩

/-- The rest has to be right for the results that the first part can have. -/
theorem bind (h : Traces P x y) (hf : ∀ s a t, y.run s = some (a, t) → Traces P (f a) (g a)) :
    Traces P (x >>= f) (y >>= g) := by
  have hcases : ∀ s, (y.run s = none ∧ (x >>= f) s = ((x s).1, none)) ∨
      ∃ a t, y.run s = some (a, t) ∧ (x >>= f) s = ((x s).1 ++ (f a t).1, (f a t).2) := by
    intro s
    have hres := h.result s
    cases hy : y.run s with
    | none =>
      rw [hy] at hres
      exact Or.inl ⟨rfl, bind_of_none (Prod.ext rfl hres)⟩
    | some r =>
      rw [hy] at hres
      exact Or.inr ⟨r.1, r.2, rfl, bind_of_some (Prod.ext rfl hres)⟩
  constructor
  · intro s
    rcases hcases s with ⟨hy, hx⟩ | ⟨a, t, hy, hx⟩
    · rw [hx, StateT.run_bind, hy]
      rfl
    · rw [hx, FaultState.run_bind_eq hy]
      exact (hf s a t hy).result t
  · intro s e he
    rcases hcases s with ⟨hy, hx⟩ | ⟨a, t, hy, hx⟩
    · rw [hx] at he
      exact h.events s e he
    · rw [hx] at he
      rcases List.mem_append.mp he with he | he
      · exact h.events s e he
      · exact (hf s a t hy).events t e he

/-- A first part that gives `a` whatever the state. -/
theorem pure_bind {a : α} {z : StateT σ Option β} (h : Traces P x (Pure.pure a)) (hf : Traces P (f a) z) :
    Traces P (x >>= f) z := by
  refine congr (h.bind (g := fun _ => z) fun s b t hb => ?_) fun _ => rfl
  cases hb
  exact hf

/-- A first part that faults. -/
theorem failure_bind (h : Traces P x failure) : Traces P (x >>= f) failure :=
  congr (h.bind (g := fun _ => failure) fun _ _ _ hnone => nomatch hnone) fun _ => rfl

/-- An event that meets the predicate. -/
theorem emit_bind {e : ε} {f : Unit → Traced ε σ α} (he : P e) (h : Traces P (f ()) y) :
    Traces P (emit e >>= f) y := by
  constructor
  · exact fun s => h.result s
  · intro s e' he'
    rcases List.mem_cons.mp he' with rfl | he'
    · exact he
    · exact h.events s e' he'

theorem ite {c : Prop} [Decidable c] (ht : c → Traces P x y) (hf : ¬c → Traces P x' y') :
    Traces P (if c then x else x') (if c then y else y') := by
  by_cases hc : c
  · rw [if_pos hc, if_pos hc]
    exact ht hc
  · rw [if_neg hc, if_neg hc]
    exact hf hc

end Traces

/-! ## A potential pays for the events -/

/-- There is at most one event more than the potential, and none too many where the result lets the
computation go on. -/
structure Pays (φ : σ → Nat) (goes : α → Prop) (x : Traced ε σ α) : Prop where
  bounded : ∀ s, (x s).1.length ≤ φ s + 1
  paid : ∀ s a t, (x s).2 = some (a, t) → goes a → (x s).1.length + φ t ≤ φ s

namespace Pays

variable {φ : σ → Nat} {goes : α → Prop} {ends : β → Prop}

/-- A computation without events that does not raise the potential. -/
theorem lift {y : StateT σ Option α} (h : ∀ s a t, y.run s = some (a, t) → goes a → φ t ≤ φ s) :
    Pays φ goes (Traced.lift y : Traced ε σ α) where
  bounded _ := Nat.zero_le _
  paid s a t hy hgo := by
    rw [lift_apply] at hy ⊢
    simpa using h s a t hy hgo

/-- An event, and a computation after it that lowers the potential where it goes on. -/
theorem emit {e : ε} {y : StateT σ Option α} (h : ∀ s a t, y.run s = some (a, t) → goes a → φ t + 1 ≤ φ s) :
    Pays φ goes (Traced.emit e >>= fun _ => Traced.lift y) where
  bounded s := Nat.le_add_left 1 (φ s)
  paid s a t hy hgo := by
    have hlow := h s a t hy hgo
    change 1 + φ t ≤ φ s
    omega

theorem pure (a : α) : Pays φ goes (Pure.pure a : Traced ε σ α) where
  bounded _ := Nat.zero_le _
  paid s b t h _ := by
    cases h
    exact Nat.le_of_eq (Nat.zero_add _)

theorem fault : Pays φ goes (Traced.fault : Traced ε σ α) where
  bounded _ := Nat.zero_le _
  paid _ _ _ h _ := nomatch h

/-- The rest may have events only where the first part lets it go on. -/
theorem bind (h : Pays φ goes x) (hgo : ∀ a, goes a → Pays φ ends (f a))
    (hstop : ∀ a s, ¬goes a → (f a s).1 = [] ∧ ∀ b t, (f a s).2 = some (b, t) → ¬ends b) :
    Pays φ ends (x >>= f) := by
  have hstep : ∀ s, ((x >>= f) s).1.length ≤ φ s + 1 ∧
      ∀ b u, ((x >>= f) s).2 = some (b, u) → ends b → ((x >>= f) s).1.length + φ u ≤ φ s := by
    intro s
    have hbound := h.bounded s
    rcases hx : x s with ⟨es, _ | ⟨a, t⟩⟩
    · rw [hx] at hbound
      rw [bind_of_none hx]
      exact ⟨hbound, fun _ _ hnone => nomatch hnone⟩
    · rw [hx] at hbound
      rw [bind_of_some hx]
      dsimp only
      rw [List.length_append]
      rcases Classical.em (goes a) with ha | ha
      · have hpaid := h.paid s a t (by rw [hx]) ha
        have hmore := (hgo a ha).bounded t
        rw [hx] at hpaid
        dsimp only at hpaid
        refine ⟨by omega, fun b u hb hend => ?_⟩
        have hrest := (hgo a ha).paid t b u hb hend
        omega
      · obtain ⟨hnil, hends⟩ := hstop a t ha
        rw [hnil]
        exact ⟨hbound, fun b u hb hend => absurd hend (hends b u hb)⟩
  exact ⟨fun s => (hstep s).1, fun s b u => (hstep s).2 b u⟩

theorem ite {c : Prop} [Decidable c] {x' : Traced ε σ α} (ht : Pays φ goes x) (hf : Pays φ goes x') :
    Pays φ goes (if c then x else x') := by
  by_cases hc : c
  · rw [if_pos hc]
    exact ht
  · rw [if_neg hc]
    exact hf

/-- A loop that gives up at the first `false`. -/
theorem allM {ι : Type} {body : ι → Traced ε σ Bool} {is : List ι}
    (h : ∀ i ∈ is, Pays φ (· = true) (body i)) : Pays φ (· = true) (is.allM body) := by
  induction is with
  | nil => exact pure true
  | cons i is ih =>
    refine (h i List.mem_cons_self).bind (fun b hb => ?_) fun b s hb => ?_
    · cases hb
      exact ih fun j hj => h j (List.mem_cons_of_mem i hj)
    · cases b with
      | true => exact absurd rfl hb
      | false =>
        refine ⟨rfl, fun c t hc => ?_⟩
        cases hc
        exact Bool.false_ne_true

end Pays

/-! ## Two versions that agree in a state -/

/-- From `s` on, `x` and `x'` do the same, which is `y`. -/
structure Agrees (x x' : Traced ε σ α) (y : StateT σ Option α) (s : σ) : Prop where
  same : x s = x' s
  result : (x s).2 = y.run s

namespace Agrees

variable {x x' : Traced ε σ α} {y : StateT σ Option α} {f f' : α → Traced ε σ β} {g : α → StateT σ Option β}

theorem lift (y : StateT σ Option α) (s : σ) : Agrees (Traced.lift y : Traced ε σ α) (Traced.lift y) y s := ⟨rfl, rfl⟩

theorem pure (a : α) (s : σ) : Agrees (Pure.pure a : Traced ε σ α) (Pure.pure a) (Pure.pure a) s := ⟨rfl, rfl⟩

theorem bind (h : Agrees x x' y s) (hf : ∀ a t, (x s).2 = some (a, t) → Agrees (f a) (f' a) (g a) t) :
    Agrees (x >>= f) (x' >>= f') (y >>= g) s := by
  have hres := h.result
  rcases hx : x s with ⟨es, _ | ⟨a, t⟩⟩
  · rw [hx] at hres
    refine ⟨?_, ?_⟩
    · rw [bind_of_none hx, bind_of_none (h.same.symm.trans hx)]
    · rw [bind_of_none hx, StateT.run_bind, ← hres]
      rfl
  · have hrest := hf a t (by rw [hx])
    rw [hx] at hres
    refine ⟨?_, ?_⟩
    · rw [bind_of_some hx, bind_of_some (h.same.symm.trans hx), hrest.same]
    · rw [bind_of_some hx, FaultState.run_bind_eq hres.symm]
      exact hrest.result

theorem ite {c : Prop} [Decidable c] {z z' : Traced ε σ α} {w : StateT σ Option α} (ht : c → Agrees x x' y s)
    (hf : ¬c → Agrees z z' w s) : Agrees (if c then x else z) (if c then x' else z') (if c then y else w) s := by
  by_cases hc : c
  · rw [if_pos hc, if_pos hc, if_pos hc]
    exact ht hc
  · rw [if_neg hc, if_neg hc, if_neg hc]
    exact hf hc

/-- A loop whose potential stays below a bound. -/
theorem allM {φ : σ → Nat} {N : Nat} {ι : Type} {body body' : ι → Traced ε σ Bool} {step : ι → StateT σ Option Bool}
    {is : List ι} (hpays : ∀ i ∈ is, Pays φ (· = true) (body i))
    (h : ∀ i ∈ is, ∀ s, φ s < N → Agrees (body i) (body' i) (step i) s) (hs : φ s < N) :
    Agrees (is.allM body) (is.allM body') (is.allM step) s := by
  induction is generalizing s with
  | nil => exact pure true s
  | cons i is ih =>
    refine (h i List.mem_cons_self s hs).bind fun b t hb => ?_
    cases b with
    | false => exact pure false t
    | true =>
      have hpaid := (hpays i List.mem_cons_self).paid s true t hb rfl
      exact ih (fun j hj => hpays j (List.mem_cons_of_mem i hj)) (fun j hj => h j (List.mem_cons_of_mem i hj))
        (by omega)

end Agrees

/-! ## The events account for the change of the state -/

/-- What holds of the events of `x` and of the states before and after it, where it does not fault. -/
def Spans (R : List ε → σ → σ → Prop) (x : Traced ε σ α) : Prop :=
  ∀ s a t, (x s).2 = some (a, t) → R (x s).1 s t

/-- A relation that events in a row add up in. -/
structure Accumulates (R : List ε → σ → σ → Prop) : Prop where
  nil : ∀ s, R [] s s
  append : ∀ {es fs s t u}, R es s t → R fs t u → R (es ++ fs) s u

namespace Spans

variable {R : List ε → σ → σ → Prop} {x : Traced ε σ α} {f : α → Traced ε σ β}

theorem pure (hR : Accumulates R) (a : α) : Spans R (Pure.pure a : Traced ε σ α) := by
  intro s b t h
  cases h
  exact hR.nil s

theorem fault : Spans R (Traced.fault : Traced ε σ α) := fun _ _ _ h => by cases h

theorem lift {y : StateT σ Option α} (h : ∀ s a t, y.run s = some (a, t) → R [] s t) :
    Spans R (Traced.lift y : Traced ε σ α) := h

theorem bind (hR : Accumulates R) (h : Spans R x) (hf : ∀ a, Spans R (f a)) : Spans R (x >>= f) := by
  intro s b u hb
  rcases hx : x s with ⟨es, _ | ⟨a, t⟩⟩
  · rw [bind_of_none hx] at hb
    cases hb
  · have hfirst := h s a t (by rw [hx])
    rw [bind_of_some hx] at hb ⊢
    rw [hx] at hfirst
    exact hR.append hfirst (hf a t b u hb)

theorem emit {e : ε} (h : ∀ s, R [e] s s) : Spans R (Traced.emit e : Traced ε σ Unit) := by
  intro s a t ht
  cases ht
  exact h s

theorem ite {c : Prop} [Decidable c] {x' : Traced ε σ α} (ht : Spans R x) (hf : Spans R x') :
    Spans R (if c then x else x') := by
  by_cases hc : c
  · rw [if_pos hc]
    exact ht
  · rw [if_neg hc]
    exact hf

end Spans

end Traced
