import Mathlib.Data.List.Basic

/-!
# Stateful computations that may fault

Rules for `StateT σ Option`: a computation either ends in a result and a state,
or faults.  A bind is taken apart from the front, forwards where its first part
is known to end (`run_bind_eq`) and backwards from the end of the whole
(`run_bind_iff`).  A loop with an early exit is `List.allM`; `allM_invariant` is
its induction rule.
-/

namespace FaultState

universe u

variable {σ α β : Type u}

/-- A first part that ends hands its result and its state to the rest. -/
theorem run_bind_eq {x : StateT σ Option α} {f : α → StateT σ Option β} {s t : σ} {a : α}
    (h : x.run s = some (a, t)) : (x >>= f).run s = (f a).run t := by
  rw [StateT.run_bind, h]
  rfl

/-- A bind ends exactly where both parts do. -/
theorem run_bind_iff {x : StateT σ Option α} {f : α → StateT σ Option β} {s u : σ} {b : β} :
    (x >>= f).run s = some (b, u) ↔
      ∃ a t, x.run s = some (a, t) ∧ (f a).run t = some (b, u) := by
  rw [StateT.run_bind]
  constructor
  · intro h
    obtain ⟨⟨a, t⟩, hx, hf⟩ := Option.bind_eq_some_iff.mp h
    exact ⟨a, t, hx, hf⟩
  · intro h
    obtain ⟨a, t, hx, hf⟩ := h
    exact Option.bind_eq_some_iff.mpr ⟨(a, t), hx, hf⟩

theorem run_pure_iff {a b : α} {s t : σ} :
    (pure a : StateT σ Option α).run s = some (b, t) ↔ b = a ∧ t = s := by
  rw [StateT.run_pure]
  constructor
  · intro h
    cases h
    exact ⟨rfl, rfl⟩
  · intro h
    rw [h.1, h.2]
    rfl

/-- A call whose result is dropped. -/
theorem run_discard_iff {x : StateT σ Option α} {f : α → PUnit} {s t : σ} {u : PUnit} :
    (x >>= fun a => pure (f a)).run s = some (u, t) ↔ ∃ a, x.run s = some (a, t) := by
  rw [run_bind_iff]
  constructor
  · rintro ⟨a, t', hx, hf⟩
    obtain ⟨-, rfl⟩ := run_pure_iff.mp hf
    exact ⟨a, hx⟩
  · rintro ⟨a, hx⟩
    exact ⟨a, t, hx, rfl⟩

/-- A computation known to end, with the result it is known to have. -/
theorem eq_some_get {x : Option (α × σ)} (h : x.isSome = true) {a : α} (ha : (x.get h).1 = a) :
    x = some (a, (x.get h).2) := by
  subst ha
  exact (Option.some_get h).symm

theorem eq_mk_of_fst {x : α × β} {a : α} (h : x.1 = a) : x = (a, x.2) := by
  rw [← h]

/-- A computation with a result that was checked. -/
theorem isSome_of_any {β : Type} {x : Option β} {p : β → Bool} (h : x.any p = true) : x.isSome = true := by
  cases x with
  | none => cases h
  | some a => rfl

/-- What was checked of the result. -/
theorem get_of_any {β : Type} {x : Option β} {P : β → Prop} [DecidablePred P] (h : x.any (fun a => decide (P a)) = true)
    (hsome : x.isSome = true) : P (x.get hsome) := by
  cases x with
  | none => cases h
  | some a => exact of_decide_eq_true h

/-! ## Loops with an early exit -/

section AllM

variable {σ ι : Type} {body : ι → StateT σ Option Bool} {s t u : σ} {i : ι} {is : List ι}

theorem run_allM_nil : (List.allM body []).run s = some (true, s) := rfl

theorem run_allM_true (h : (body i).run s = some (true, t)) :
    (List.allM body (i :: is)).run s = (List.allM body is).run t := by
  rw [List.allM, run_bind_eq h]

theorem run_allM_false (h : (body i).run s = some (false, t)) :
    (List.allM body (i :: is)).run s = some (false, t) := by
  rw [List.allM, run_bind_eq h]
  rfl

/-- How a loop ends: with its first iteration that gives `false`, or after all of them. -/
theorem run_allM_cons_iff {b : Bool} :
    (List.allM body (i :: is)).run s = some (b, u) ↔
      ((body i).run s = some (false, u) ∧ b = false) ∨
        ∃ t, (body i).run s = some (true, t) ∧ (List.allM body is).run t = some (b, u) := by
  rw [List.allM, run_bind_iff]
  constructor
  · intro h
    obtain ⟨c, t, hc, hr⟩ := h
    cases c with
    | false =>
      obtain ⟨rfl, rfl⟩ := run_pure_iff.mp hr
      exact Or.inl ⟨hc, rfl⟩
    | true => exact Or.inr ⟨t, hc, hr⟩
  · intro h
    rcases h with ⟨hc, rfl⟩ | ⟨t, hc, hr⟩
    · exact ⟨false, u, hc, rfl⟩
    · exact ⟨true, t, hc, hr⟩

/-- A loop over two lists that goes through is two loops that do. -/
theorem run_allM_append_iff {js : List ι} :
    (List.allM body (is ++ js)).run s = some (true, u) ↔
      ∃ t, (List.allM body is).run s = some (true, t) ∧
        (List.allM body js).run t = some (true, u) := by
  induction is generalizing s with
  | nil =>
    constructor
    · exact fun h => ⟨s, run_allM_nil, h⟩
    · rintro ⟨t, ht, h⟩
      cases ht
      exact h
  | cons i is ih =>
    rw [List.cons_append, run_allM_cons_iff]
    constructor
    · rintro (⟨-, hc⟩ | ⟨t, hi, h⟩)
      · cases hc
      · obtain ⟨t', ht', h⟩ := ih.mp h
        exact ⟨t', (run_allM_true hi).trans ht', h⟩
    · rintro ⟨t', ht', h⟩
      rcases run_allM_cons_iff.mp ht' with ⟨-, hc⟩ | ⟨t, hi, ht⟩
      · cases hc
      · exact Or.inr ⟨t, hi, ih.mpr ⟨t', ht, h⟩⟩

/-- What every iteration preserves, the loop preserves, however it ends. -/
theorem allM_invariant {I : σ → Prop}
    (hbody : ∀ i ∈ is, ∀ s b t, I s → (body i).run s = some (b, t) → I t) {b : Bool}
    (h : (List.allM body is).run s = some (b, u)) (hs : I s) : I u := by
  induction is generalizing s with
  | nil =>
    cases h
    exact hs
  | cons i is ih =>
    rcases run_allM_cons_iff.mp h with ⟨hc, -⟩ | ⟨t, hc, hr⟩
    · exact hbody i (by simp) s false u hs hc
    · exact ih (fun j hj => hbody j (by simp [hj])) hr (hbody i (by simp) s true t hs hc)

end AllM

/-! ## Computations inside a preorder of states -/

section Within

variable {σ : Type} {α β : Type} {R : σ → σ → Prop}

/-- However `x` ends, the state it ends in is related to the one it began in. -/
def Within (R : σ → σ → Prop) (x : StateT σ Option α) : Prop :=
  ∀ s a t, x.run s = some (a, t) → R s t

theorem Within.pure (hrefl : ∀ s, R s s) (a : α) : Within R (Pure.pure a) := by
  intro s b t h
  rw [(run_pure_iff.mp h).2]
  exact hrefl s

theorem Within.bind (htrans : ∀ s t u, R s t → R t u → R s u) {x : StateT σ Option α}
    {f : α → StateT σ Option β} (hx : Within R x) (hf : ∀ a, Within R (f a)) :
    Within R (x >>= f) := by
  intro s b u h
  obtain ⟨a, t, hxs, hft⟩ := run_bind_iff.mp h
  exact htrans s t u (hx s a t hxs) (hf a t b u hft)

theorem Within.failure : Within R (Alternative.failure : StateT σ Option α) := by
  intro s a t h
  cases h

theorem Within.allM (hrefl : ∀ s, R s s) (htrans : ∀ s t u, R s t → R t u → R s u) {ι : Type}
    {body : ι → StateT σ Option Bool} {is : List ι} (hbody : ∀ i ∈ is, Within R (body i)) :
    Within R (is.allM body) := by
  intro s b u h
  refine allM_invariant (I := R s) ?_ h (hrefl s)
  intro i hi t c v ht hc
  exact htrans s t v ht (hbody i hi t c v hc)

theorem Within.forM (hrefl : ∀ s, R s s) (htrans : ∀ s t u, R s t → R t u → R s u) {ι : Type}
    {body : ι → StateT σ Option PUnit} {is : List ι} (hbody : ∀ i ∈ is, Within R (body i)) :
    Within R (is.forM body) := by
  induction is with
  | nil => exact Within.pure hrefl _
  | cons i is ih =>
    refine Within.bind htrans (hbody i (by simp)) fun _ => ?_
    exact ih fun j hj => hbody j (by simp [hj])

end Within

end FaultState
