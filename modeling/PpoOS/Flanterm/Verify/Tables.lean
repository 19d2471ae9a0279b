import PpoOS.Flanterm.Text

/-!
# The width of a character

`bisearch` finds an interval of a sorted table exactly if there is one, and `combining` is sorted, so
`mk_wcwidth` has a width for every character.
-/

namespace PpoOS

/-- Intervals in ascending order, none of them empty -/
structure IntervalsSorted (table : List (U32 × U32)) : Prop where
  apart : table.Pairwise fun a b => a.2 < b.1
  ne : ∀ a ∈ table, a.1 ≤ a.2

namespace IntervalsSorted

variable {table : List (U32 × U32)} (h : IntervalsSorted table) {i j : Nat} (hi : i < table.length)
  (hj : j < table.length) (hij : i ≤ j)

include h hij

theorem first_le : table[i].1 ≤ table[j].1 := by
  rcases Nat.lt_or_eq_of_le hij with hlt | rfl
  · have hapart := List.pairwise_iff_getElem.mp h.apart i j hi hj hlt
    have hne := h.ne _ (List.getElem_mem hi)
    bv_omega
  · exact BitVec.le_refl _

theorem last_le : table[i].2 ≤ table[j].2 := by
  rcases Nat.lt_or_eq_of_le hij with hlt | rfl
  · have hapart := List.pairwise_iff_getElem.mp h.apart i j hi hj hlt
    have hne := h.ne _ (List.getElem_mem hj)
    bv_omega
  · exact BitVec.le_refl _

end IntervalsSorted

/-- An ordered table for the search of `ucs` -/
theorem IntervalsSorted.ordered {table : List (U32 × U32)} (h : IntervalsSorted table) (ucs : U32) :
    Bisect.Ordered (fun a : U32 × U32 => ucs > a.2) (fun a => ucs < a.1) table := by
  constructor
  · intro i j hi hj hij hbelow
    have hle := h.last_le hi hj hij
    bv_omega
  · intro i j hi hj hij habove
    have hle := h.first_le hi hj hij
    bv_omega

/-- What `bisearch` says, is so. -/
theorem bisearch_eq (ucs : U32) {table : List (U32 × U32)} (hne : table ≠ []) (h : IntervalsSorted table) :
    ∃ found, bisearch ucs table (table.length - 1) = some found ∧
      (found = true ↔ ∃ a ∈ table, a.1 ≤ ucs ∧ ucs ≤ a.2) := by
  have hpos := List.length_pos_iff.mpr hne
  have hlast : ((table.length : Int) - 1).toNat < table.length := by omega
  rw [bisearch, List.getElem?_eq_getElem hpos, List.getElem?_eq_getElem hlast]
  by_cases hout : ucs < table[0].1 ∨ ucs > table[((table.length : Int) - 1).toNat].2
  · refine ⟨false, if_pos hout, fun h => absurd h Bool.false_ne_true, ?_⟩
    rintro ⟨a, ha, hlo, hhi⟩
    obtain ⟨i, hi, rfl⟩ := List.mem_iff_getElem.mp ha
    have hfirst := h.first_le hpos hi (Nat.zero_le i)
    have hend := h.last_le hi hlast (by omega)
    bv_omega
  · have hbounds : Bisect.Bounds (fun a : U32 × U32 => ucs > a.2) (fun a => ucs < a.1) table 0 (table.length - 1) :=
      ⟨by omega, by omega, fun i _ hlt => by omega, fun i _ hlt => by omega⟩
    have hfuel : ((table.length : Int) - 1 - 0 + 1).toNat < table.length + 1 := by omega
    obtain ⟨found, hfound, hiff⟩ := Bisect.bisect_eq (h.ordered ucs) hbounds hfuel
    refine ⟨found, (if_neg hout).trans hfound, hiff.trans ?_⟩
    simp only [gt_iff_lt, BitVec.not_lt, and_comm]

theorem combining_sorted : IntervalsSorted combining := by
  have hne : (combining.all fun a => a.1 ≤ a.2) = true := by decide +kernel
  exact ⟨by decide +kernel, fun a ha => of_decide_eq_true (List.all_eq_true.mp hne a ha)⟩

theorem mkWcwidth_eq (ucs : U32) : mkWcwidth ucs = some (charWidth ucs) := by
  have hne : combining ≠ [] := by decide
  obtain ⟨found, hfound, hiff⟩ := bisearch_eq ucs hne combining_sorted
  have hcombines : found = combines ucs := by
    rw [Bool.eq_iff_iff, hiff, combines, List.any_eq_true]
    simp only [Bool.and_eq_true, decide_eq_true_iff]
  have hsearch : bisearch ucs combining (combining.length - 1) = some (combines ucs) := hcombines ▸ hfound
  rw [mkWcwidth, charWidth]
  split
  · rfl
  split
  · rfl
  · rw [hsearch]
    cases combines ucs <;> rfl

end PpoOS
