import PpoOS.Lib.Trace

/-!
# Computations that end

`Ends x P`: the computation `x` has a result, and the result meets `P`.  A loop that keeps step with
a loop without faults ends where that one does (`Ends.foldlM`).  `Traced.Ends P r Q` is the same for
a computation that leaves a trace: its events meet `P`, and it ends in a result and a state that
meet `Q`.
-/

universe u v w

/-- `x` has a result, which meets `P`. -/
def Ends {α : Type u} (x : Option α) (P : α → Prop) : Prop := ∃ a, x = some a ∧ P a

namespace Ends

variable {α : Type u} {β : Type v} {ι : Type w} {x : Option α} {P : α → Prop}

theorem pure {a : α} (h : P a) : Ends (some a) P := ⟨a, rfl, h⟩

theorem mono {Q : α → Prop} (h : Ends x P) (hPQ : ∀ a, P a → Q a) : Ends x Q := by
  obtain ⟨a, hx, ha⟩ := h
  exact ⟨a, hx, hPQ a ha⟩

theorem bind {f : α → Option β} {Q : β → Prop} (h : Ends x P) (hf : ∀ a, P a → Ends (f a) Q) :
    Ends (x.bind f) Q := by
  obtain ⟨a, rfl, ha⟩ := h
  exact hf a ha

theorem map {f : α → β} {Q : β → Prop} (h : Ends x P) (hf : ∀ a, P a → Q (f a)) : Ends (x.map f) Q := by
  obtain ⟨a, rfl, ha⟩ := h
  exact ⟨f a, rfl, hf a ha⟩

theorem ite {c : Prop} [Decidable c] {y : Option α} (ht : c → Ends x P) (hf : ¬c → Ends y P) :
    Ends (if c then x else y) P := by
  by_cases hc : c
  · rw [if_pos hc]
    exact ht hc
  · rw [if_neg hc]
    exact hf hc

/-- The two loops keep step. -/
theorem foldlM {f : α → ι → Option α} {g : β → ι → β} {R : α → β → Prop} {is : List ι} {a : α} {b : β}
    (hstep : ∀ i ∈ is, ∀ a b, R a b → Ends (f a i) (R · (g b i))) (hab : R a b) :
    Ends (is.foldlM f a) (R · (is.foldl g b)) := by
  induction is generalizing a b with
  | nil => exact pure hab
  | cons i is ih =>
    rw [List.foldlM_cons, List.foldl_cons]
    exact bind (hstep i List.mem_cons_self a b hab) fun a' ha' =>
      ih (fun j hj => hstep j (List.mem_cons_of_mem i hj)) ha'

end Ends

namespace Traced

variable {ε σ α β : Type} {P : ε → Prop} {Q : α → σ → Prop} {R : β → σ → Prop}

/-- All events meet `P`, and the computation ends in a result and a state that meet `Q`. -/
structure Ends (P : ε → Prop) (r : List ε × Option (α × σ)) (Q : α → σ → Prop) : Prop where
  events : ∀ e ∈ r.1, P e
  result : ∃ a t, r.2 = some (a, t) ∧ Q a t

namespace Ends

variable {x y : Traced ε σ α} {f : α → Traced ε σ β} {s : σ}

theorem mono {r : List ε × Option (α × σ)} {Q' : α → σ → Prop} (h : Ends P r Q) (hQ : ∀ a t, Q a t → Q' a t) :
    Ends P r Q' := by
  obtain ⟨a, t, hr, ha⟩ := h.result
  exact ⟨h.events, a, t, hr, hQ a t ha⟩

theorem pure {a : α} (h : Q a s) : Ends P ((Pure.pure a : Traced ε σ α) s) Q :=
  ⟨fun _ he => absurd he List.not_mem_nil, a, s, rfl, h⟩

theorem bind (h : Ends P (x s) Q) (hf : ∀ a t, Q a t → Ends P (f a t) R) : Ends P ((x >>= f) s) R := by
  obtain ⟨a, t, hr, ha⟩ := h.result
  have hrest := hf a t ha
  have hx : x s = ((x s).1, some (a, t)) := by rw [← hr]
  rw [bind_of_some hx]
  constructor
  · intro e he
    rcases List.mem_append.mp he with he | he
    · exact h.events e he
    · exact hrest.events e he
  · exact hrest.result

theorem ite {c : Prop} [Decidable c] (ht : c → Ends P (x s) Q) (hf : ¬c → Ends P (y s) Q) :
    Ends P ((if c then x else y) s) Q := by
  by_cases hc : c
  · rw [if_pos hc]
    exact ht hc
  · rw [if_neg hc]
    exact hf hc

/-- What every iteration keeps, a loop keeps. -/
theorem forM {ι : Type} {body : ι → Traced ε σ Unit} {I : σ → Prop} {is : List ι}
    (hbody : ∀ i ∈ is, ∀ s, I s → Ends P (body i s) fun _ => I) (hs : I s) :
    Ends P (is.forM body s) fun _ => I := by
  induction is generalizing s with
  | nil => exact pure hs
  | cons i is ih =>
    exact bind (hbody i List.mem_cons_self s hs) fun _ t ht =>
      ih (fun j hj => hbody j (List.mem_cons_of_mem i hj)) ht

/-- A loop with an early exit. -/
theorem allM {ι : Type} {body : ι → Traced ε σ Bool} {I : σ → Prop} {is : List ι}
    (hbody : ∀ i ∈ is, ∀ s, I s → Ends P (body i s) fun _ => I) (hs : I s) :
    Ends P (is.allM body s) fun _ => I := by
  induction is generalizing s with
  | nil => exact pure hs
  | cons i is ih =>
    refine bind (hbody i List.mem_cons_self s hs) fun b t ht => ?_
    cases b with
    | false => exact pure ht
    | true => exact ih (fun j hj => hbody j (List.mem_cons_of_mem i hj)) ht

end Ends

end Traced
