import Mathlib.Data.List.Basic
import Mathlib.Logic.Function.Basic

/-!
# Loops that move the cells of a table

A loop that goes through `is` and copies the cell `src i` to the cell `dst i` moves them all at once,
if it reads each cell before it overwrites it: no iteration reads a cell that an earlier one wrote.
-/

namespace TableMove

universe u v w

variable {κ : Type u} {α : Type v} {ι : Type w} [DecidableEq κ] {f : κ → α} {is : List ι} {src dst : ι → κ} {k : κ}
  {a : α}

/-- Copy the cells one after the other. -/
def move (src dst : ι → κ) (is : List ι) (f : κ → α) : κ → α :=
  is.foldl (fun f i => Function.update f (dst i) (f (src i))) f

/-- Write one value to some cells. -/
def fill (dst : ι → κ) (a : α) (is : List ι) (f : κ → α) : κ → α := is.foldl (fun f i => Function.update f (dst i) a) f

/-- A cell that no iteration writes. -/
theorem move_of_ne (h : ∀ i ∈ is, dst i ≠ k) : move src dst is f k = f k := by
  induction is generalizing f with
  | nil => rfl
  | cons i is ih =>
    rw [move, List.foldl_cons, ← move, ih fun j hj => h j (List.mem_cons_of_mem i hj),
      Function.update_of_ne (h i List.mem_cons_self).symm]

/-- A cell that an iteration writes has what the cell it read had before the loop. -/
theorem move_of_mem (src dst : ι → κ) (f : κ → α) (hdst : is.Pairwise fun i j => dst i ≠ dst j) 
    (hsrc : is.Pairwise fun i j => dst i ≠ src j) {i : ι} (hi : i ∈ is) : move src dst is f (dst i) = f (src i) := by
  induction is generalizing f with
  | nil => exact absurd hi List.not_mem_nil
  | cons j is ih =>
    rw [List.pairwise_cons] at hdst hsrc
    rw [move, List.foldl_cons, ← move]
    rcases List.mem_cons.mp hi with rfl | hi
    · rw [move_of_ne fun k hk => (hdst.1 k hk).symm, Function.update_self]
    · rw [ih _ hdst.2 hsrc.2 hi, Function.update_of_ne (hsrc.1 i hi).symm]

theorem fill_of_ne (h : ∀ i ∈ is, dst i ≠ k) : fill dst a is f k = f k := by
  induction is generalizing f with
  | nil => rfl
  | cons i is ih =>
    rw [fill, List.foldl_cons, ← fill, ih fun j hj => h j (List.mem_cons_of_mem i hj),
      Function.update_of_ne (h i List.mem_cons_self).symm]

theorem fill_of_mem (h : ∃ i ∈ is, dst i = k) : fill dst a is f k = a := by
  induction is generalizing f with
  | nil =>
    obtain ⟨i, hi, -⟩ := h
    exact absurd hi List.not_mem_nil
  | cons j is ih =>
    rw [fill, List.foldl_cons, ← fill]
    by_cases hlater : ∃ i ∈ is, dst i = k
    · exact ih hlater
    · obtain ⟨i, hi, hik⟩ := h
      rcases List.mem_cons.mp hi with rfl | hi
      · rw [fill_of_ne fun j hj hjk => hlater ⟨j, hj, hjk⟩, hik, Function.update_self]
      · exact absurd ⟨i, hi, hik⟩ hlater

end TableMove
