import Mathlib.Data.List.Basic

/-!
# Paths

A path is a list of characters; its components are the non-empty pieces between
separators, so repeated separators and those at the ends do not count.  A walk goes
from a node to one of its children for each component; a lookup may fail, and it may
find nothing.
-/

namespace Path

universe u v

section Components

variable {α : Type u} [DecidableEq α] {sep : α} {l l' : List α}

/-- The non-empty pieces between separators. -/
def components (sep : α) (l : List α) : List (List α) := (l.splitOn sep).filter fun c => c ≠ []

@[simp] theorem components_nil : components sep [] = [] := by
  rw [components, List.splitOn_nil]
  rfl

/-- A separator divides the components. -/
@[simp] theorem components_append : components sep (l ++ sep :: l') = components sep l ++ components sep l' := by
  rw [components, List.splitOn_append_cons_self, List.filter_append]
  rfl

@[simp] theorem components_cons : components sep (sep :: l) = components sep l := by
  have h := @components_append α _ sep [] l
  rw [List.nil_append, components_nil, List.nil_append] at h
  exact h

/-- A piece without a separator is one component. -/
theorem components_single (h : sep ∉ l) (hne : l ≠ []) : components sep l = [l] := by
  rw [components, List.splitOn_eq_singleton h]
  simp [hne]

/-- The components of a list are made of its elements. -/
theorem mem_of_mem_components {c : List α} {x : α} (hc : c ∈ components sep l) (hx : x ∈ c) : x ∈ l := by
  induction hn : l.length using Nat.strongRecOn generalizing l with
  | ind n ih =>
    by_cases hsep : sep ∈ l
    · obtain ⟨s, t, rfl⟩ := List.append_of_mem hsep
      rw [List.length_append, List.length_cons] at hn
      rw [components_append] at hc
      rcases List.mem_append.mp hc with hc | hc
      · exact List.mem_append_left _ (ih _ (by omega) hc rfl)
      · exact List.mem_append_right _ (List.mem_cons_of_mem _ (ih _ (by omega) hc rfl))
    · by_cases hnil : l = []
      · rw [hnil, components_nil] at hc
        cases hc
      · rw [components_single hsep hnil] at hc
        obtain rfl := List.mem_singleton.mp hc
        exact hx

end Components

section Walk

variable {N : Type u} {C : Type v} (lookup : N → C → Option (Option N))

/-- Walk from a node along the components; `none` inside where a component is not found. -/
def walk : List C → N → Option (Option N)
  | [], p => some (some p)
  | c :: cs, p =>
    match lookup p c with
    | none => none
    | some none => some none
    | some (some q) => walk cs q

variable {lookup} {cs cs' : List C} {p q r : N} {c : C}

theorem walk_cons : walk lookup (c :: cs) p = (lookup p c).bind fun o => o.elim (some none) (walk lookup cs) := by
  rw [walk]
  cases lookup p c with
  | none => rfl
  | some o => cases o <;> rfl

/-- A walk along two parts is a walk along the second from where the first ends. -/
theorem walk_append (h : walk lookup cs p = some (some q)) :
    walk lookup (cs ++ cs') p = walk lookup cs' q := by
  induction cs generalizing p with
  | nil =>
    cases h
    rfl
  | cons c cs ih =>
    rw [walk] at h
    rw [List.cons_append, walk]
    cases hl : lookup p c with
    | none => rw [hl] at h; cases h
    | some o =>
      cases o with
      | none => rw [hl] at h; cases h
      | some p' =>
        rw [hl] at h
        exact ih h

/-- A walk along one component is a lookup. -/
theorem walk_single : walk lookup [c] p = lookup p c := by
  rw [walk]
  cases lookup p c with
  | none => rfl
  | some o => cases o <;> rfl

/-- A fold of lookups that has come to nothing stays there. -/
theorem foldl_bind_none {f : N → C → Option N} (cs : List C) :
    cs.foldl (fun o c => o.bind fun p => f p c) none = none := by
  induction cs with
  | nil => rfl
  | cons c cs ih => exact ih

/-- A walk whose lookups all have a result is a fold. -/
theorem walk_foldl {f : N → C → Option N} (h : ∀ p, ∀ c ∈ cs, lookup p c = some (f p c)) (p : N) :
    walk lookup cs p = some (cs.foldl (fun o c => o.bind fun p => f p c) (some p)) := by
  induction cs generalizing p with
  | nil => rfl
  | cons c cs ih =>
    rw [walk, h p c List.mem_cons_self, List.foldl_cons, Option.bind_some]
    cases f p c with
    | none => exact congrArg some (foldl_bind_none cs).symm
    | some q => exact ih (fun p c hc => h p c (List.mem_cons_of_mem _ hc)) q

/-- What the last lookup of a walk gives holds at its end. -/
theorem walk_induction {P : N → Prop} (hstep : ∀ p c q, lookup p c = some (some q) → P q) (hp : P p)
    (h : walk lookup cs p = some (some q)) : P q := by
  induction cs generalizing p with
  | nil =>
    cases h
    exact hp
  | cons c cs ih =>
    rw [walk] at h
    cases hl : lookup p c with
    | none => rw [hl] at h; cases h
    | some o =>
      cases o with
      | none => rw [hl] at h; cases h
      | some p' =>
        rw [hl] at h
        exact ih (hstep p c p' hl) h

end Walk

end Path
