import Mathlib.Data.List.TakeWhile

/-!
# Runs between separators

`l.runs p` are the longest non-empty runs of elements of `l` that are no separators (`p`), in their
order.  A reader that goes through the list drops separators (`runs_skip`), and takes a run up to
the next one (`runs_cut`) or to the end (`runs_all`).
-/

namespace List

variable {α : Type*} {p : α → Bool} {pre run l : List α} {c : α}

/-- The longest non-empty runs without separators. -/
def runs (p : α → Bool) (l : List α) : List (List α) := (l.splitOnP p).filter (· ≠ [])

@[simp] theorem runs_nil (p : α → Bool) : runs p [] = [] := by simp [runs]

theorem runs_cons_sep (hc : p c = true) (l : List α) : runs p (c :: l) = runs p l := by
  rw [runs, runs, splitOnP_cons_eq_if_modifyHead, if_pos hc]
  simp

theorem runs_skip (h : ∀ c ∈ pre, p c = true) (l : List α) : runs p (pre ++ l) = runs p l := by
  induction pre with
  | nil => rfl
  | cons c pre ih =>
    rw [cons_append, runs_cons_sep (h c mem_cons_self), ih fun d hd => h d (mem_cons_of_mem _ hd)]

theorem runs_all (hne : run ≠ []) (h : ∀ c ∈ run, p c = false) : runs p run = [run] := by
  rw [runs, splitOnP_eq_singleton h]
  simp [hne]

theorem runs_cut (hne : run ≠ []) (h : ∀ c ∈ run, p c = false) (hc : p c = true) (l : List α) :
    runs p (run ++ c :: l) = run :: runs p l := by
  rw [runs, runs, splitOnP_append_cons_of_forall_mem h c hc]
  simp [hne]

/-- A list is separators, or separators and a run up to its end, or up to a separator. -/
theorem runs_cases (p : α → Bool) (l : List α) : ∃ pre, (∀ c ∈ pre, p c = true) ∧
    (l = pre ∨ ∃ run, run ≠ [] ∧ (∀ c ∈ run, p c = false) ∧
      (l = pre ++ run ∨ ∃ c rest, p c = true ∧ l = pre ++ (run ++ c :: rest))) := by
  refine ⟨l.takeWhile p, fun c hc => mem_takeWhile_imp hc, ?_⟩
  have hfront := takeWhile_append_dropWhile (p := p) (l := l)
  cases hdrop : l.dropWhile p with
  | nil => exact .inl (by rw [hdrop, append_nil] at hfront; exact hfront.symm)
  | cons a t =>
    have ha : p a = false := by
      have hnot := dropWhile_get_zero_not p l (by rw [hdrop]; exact Nat.succ_pos _)
      simpa [hdrop] using hnot
    have hback := takeWhile_append_dropWhile (p := fun c => !p c) (l := a :: t)
    refine .inr ⟨(a :: t).takeWhile fun c => !p c, ?_, fun c hc => ?_, ?_⟩
    · simp [ha]
    · simpa using mem_takeWhile_imp hc
    cases hrest : (a :: t).dropWhile (fun c => !p c) with
    | nil =>
      rw [hrest, append_nil] at hback
      exact .inl (by rw [hback, ← hdrop, hfront])
    | cons c rest =>
      have hc : p c = true := by
        have hnot := dropWhile_get_zero_not (fun c => !p c) (a :: t) (by rw [hrest]; exact Nat.succ_pos _)
        simpa [hrest] using hnot
      rw [hrest] at hback
      exact .inr ⟨c, rest, hc, by rw [hback, ← hdrop, hfront]⟩

end List
