/-!
# Runs of a labelled transition system

`Run step s ls t`: the labels `ls`, taken in order, lead from `s` to `t`.  An
invariant of one step is an invariant of a run (`Run.invariant`), and a function
that carries one system into another, step by step and label by label, carries
runs into runs (`Run.simulate`).
-/

namespace Transition

universe u v w

variable {S : Type u} {L : Type v}

/-- A run and the labels of its steps, in order. -/
inductive Run (step : S → L → S → Prop) : S → List L → S → Prop
  | nil (s : S) : Run step s [] s
  | snoc {s t u : S} {ls : List L} {l : L} (run : Run step s ls t) (last : step t l u) :
      Run step s (ls ++ [l]) u

variable {step : S → L → S → Prop}

/-- A step in front of a run. -/
theorem Run.cons {s t u : S} {l : L} {ls : List L} (first : step s l t) (run : Run step t ls u) :
    Run step s (l :: ls) u := by
  induction run with
  | nil => exact .snoc (.nil s) first
  | snoc _ last ih => exact .snoc ih last

/-- What one step preserves, a run preserves. -/
theorem Run.invariant {I : S → Prop} (hstep : ∀ s l t, I s → step s l t → I t) {s t : S}
    {ls : List L} (h : Run step s ls t) (hs : I s) : I t := by
  induction h with
  | nil => exact hs
  | snoc _ last ih => exact hstep _ _ _ ih last

/-- What one step preserves of a state and the labels that led to it, a run preserves. -/
theorem Run.history {I : List L → S → Prop} (hstep : ∀ ls s l t, I ls s → step s l t → I (ls ++ [l]) t)
    {s t : S} {ls : List L} (h : Run step s ls t) (hs : I [] s) : I ls t := by
  induction h with
  | nil => exact hs
  | snoc _ last ih => exact hstep _ _ _ _ ih last

/-- A functional simulation: where the invariant holds, each step is a step of the abstract
system with the same label, so a run is an abstract run with the same labels. -/
theorem Run.simulate {A : Type w} {astep : A → L → A → Prop} {abs : S → A} {I : S → Prop}
    (hinv : ∀ s l t, I s → step s l t → I t)
    (hsim : ∀ s l t, I s → step s l t → astep (abs s) l (abs t)) {s t : S} {ls : List L}
    (h : Run step s ls t) (hs : I s) : Run astep (abs s) ls (abs t) := by
  induction h with
  | nil => exact .nil _
  | snoc run last ih => exact .snoc ih (hsim _ _ _ (run.invariant hinv hs) last)

end Transition
