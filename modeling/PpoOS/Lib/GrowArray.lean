import Mathlib.Data.List.Range

/-!
# Growable arrays

A list as an array that a write may extend.  `write z xs n ys` puts the elements of
`ys` in place from position `n` on; where `n` lies past the end, the positions up to
it become `z`.  `read xs n len` is what is there from position `n` on, at most `len`
elements.  `write_map_range` gives the write for arrays that are tables of a
function, which is what a region of a memory is.
-/

namespace GrowArray

universe u

variable {α : Type u}

def write (z : α) (xs : List α) (n : Nat) (ys : List α) : List α :=
  xs.take n ++ List.replicate (n - xs.length) z ++ ys ++ xs.drop (n + ys.length)

def read (xs : List α) (n len : Nat) : List α := (xs.drop n).take len

variable {z : α} {xs ys : List α} {n len i : Nat}

/-- The part in front of what is written. -/
theorem length_front : (xs.take n ++ List.replicate (n - xs.length) z).length = n := by
  rw [List.length_append, List.length_take, List.length_replicate]
  omega

theorem length_write : (write z xs n ys).length = max xs.length (n + ys.length) := by
  rw [write, List.length_append, List.length_append, length_front, List.length_drop]
  omega

/-- An element in front of what is written. -/
theorem getElem?_write_front (h : i < n) :
    (write z xs n ys)[i]? = if i < xs.length then xs[i]? else some z := by
  have hfront : i < (xs.take n ++ List.replicate (n - xs.length) z).length := by rwa [length_front]
  rw [write, List.append_assoc, List.getElem?_append_left hfront, List.getElem?_append,
    List.length_take]
  by_cases hi : i < xs.length
  · rw [if_pos hi, if_pos (by omega), List.getElem?_take_of_lt h]
  · rw [if_neg hi, if_neg (by omega), List.getElem?_replicate, if_pos (by omega)]

/-- An element that is written. -/
theorem getElem?_write_inside (h : n ≤ i) (hi : i < n + ys.length) :
    (write z xs n ys)[i]? = ys[i - n]? := by
  rw [write, List.append_assoc, List.getElem?_append_right (by rwa [length_front]), length_front,
    List.getElem?_append_left (by omega)]

/-- An element behind what is written. -/
theorem getElem?_write_behind (h : n + ys.length ≤ i) : (write z xs n ys)[i]? = xs[i]? := by
  have hlen : (xs.take n ++ List.replicate (n - xs.length) z ++ ys).length = n + ys.length := by
    rw [List.length_append, length_front]
  rw [write, List.getElem?_append_right (by rwa [hlen]), hlen, List.getElem?_drop,
    Nat.add_sub_cancel' h]

/-- A write to a table gives a table. -/
theorem write_map_range (f g h : Nat → α) {a b : Nat}
    (hnew : ∀ i, n ≤ i → i < n + b → h i = g (i - n))
    (hold : ∀ i, i < a → (i < n ∨ n + b ≤ i) → h i = f i)
    (hgap : ∀ i, a ≤ i → i < n → h i = z) :
    write z ((List.range a).map f) n ((List.range b).map g) = (List.range (max a (n + b))).map h := by
  have hlen : ∀ (k : Nat) (f : Nat → α), ((List.range k).map f).length = k := by simp
  have hget : ∀ (k : Nat) (f : Nat → α) {i : Nat}, i < k → ((List.range k).map f)[i]? = some (f i) := by
    intro k f i hi
    rw [List.getElem?_map, List.getElem?_range hi, Option.map_some]
  apply List.ext_getElem?
  intro i
  by_cases hi : i < max a (n + b)
  · rw [hget _ h hi]
    by_cases hfront : i < n
    · rw [getElem?_write_front hfront, hlen]
      by_cases ha : i < a
      · rw [if_pos ha, hget _ f ha, hold i ha (Or.inl hfront)]
      · rw [if_neg ha, hgap i (by omega) hfront]
    · by_cases hin : i < n + b
      · rw [getElem?_write_inside (by omega) (by rwa [hlen]), hget _ g (by omega), hnew i (by omega) hin]
      · rw [getElem?_write_behind (by rw [hlen]; omega), hget _ f (by omega),
          hold i (by omega) (Or.inr (by omega))]
  · rw [List.getElem?_eq_none (by rw [length_write, hlen, hlen]; omega),
      List.getElem?_eq_none (by rw [hlen]; omega)]

/-- An array is what a read of all of it shows. -/
theorem read_all (h : xs.length ≤ len) : read xs 0 len = xs := by
  rw [read, List.drop_zero, List.take_of_length_le h]

end GrowArray
