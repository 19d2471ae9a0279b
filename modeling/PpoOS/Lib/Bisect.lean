import Mathlib.Data.List.Basic

/-!
# Binary search

`bisect below above table fuel lo hi` looks for an element of `table` between the places `lo` and `hi`
that is neither below nor above what is looked for.  The bounds are signed, as `hi` may come to be
`-1`.  Where the table is ordered the search finds an element exactly if there is one, and it reads
the table only where it has elements (`bisect_eq`).
-/

namespace Bisect

universe u

variable {α : Type u} (below above : α → Prop) [DecidablePred below] [DecidablePred above]

/-- The search, with `fuel` rounds left. -/
def bisect (table : List α) : Nat → Int → Int → Option Bool
  | 0, _, _ => none
  | fuel + 1, lo, hi =>
    if hi ≥ lo then
      let mid := (lo + hi).tdiv 2
      if mid < 0 then none
      else (table[mid.toNat]?).bind fun a =>
        if below a then bisect table fuel (mid + 1) hi
        else if above a then bisect table fuel lo (mid - 1)
        else some true
    else some false

/-- What is before an element that is below is below, and what is after an element that is above is above. -/
structure Ordered (table : List α) : Prop where
  below : ∀ i j (hi : i < table.length) (hj : j < table.length), i ≤ j → below table[j] → below table[i]
  above : ∀ i j (hi : i < table.length) (hj : j < table.length), i ≤ j → above table[i] → above table[j]

variable {below above} {table : List α}

/-- The elements outside the bounds are not what is looked for. -/
structure Bounds (below above : α → Prop) (table : List α) (lo hi : Int) : Prop where
  lo_nonneg : 0 ≤ lo
  hi_lt : hi < table.length
  below : ∀ i (h : i < table.length), (i : Int) < lo → below table[i]
  above : ∀ i (h : i < table.length), hi < i → above table[i]

/-- The search has a result, and the result is right. -/
theorem bisect_eq (hord : Ordered below above table) {fuel : Nat} {lo hi : Int} (hb : Bounds below above table lo hi)
    (hfuel : (hi - lo + 1).toNat < fuel) :
    ∃ found, bisect below above table fuel lo hi = some found ∧
      (found = true ↔ ∃ a ∈ table, ¬below a ∧ ¬above a) := by
  have hlo := hb.lo_nonneg
  have hhi := hb.hi_lt
  induction fuel generalizing lo hi with
  | zero => exact absurd hfuel (Nat.not_lt_zero _)
  | succ fuel ih =>
    rw [bisect]
    by_cases hempty : hi ≥ lo
    · rw [if_pos hempty]
      have hmid : (lo + hi).tdiv 2 = (lo + hi) / 2 := Int.tdiv_eq_ediv_of_nonneg (by omega)
      dsimp only
      rw [hmid, if_neg (by omega)]
      have hlt : ((lo + hi) / 2).toNat < table.length := by omega
      rw [List.getElem?_eq_getElem hlt, Option.bind_some]
      by_cases hbelow : below table[((lo + hi) / 2).toNat]
      · rw [if_pos hbelow]
        refine ih ⟨by omega, hb.hi_lt, fun i h hi => ?_, hb.above⟩ (by omega) (by omega) hb.hi_lt
        exact hord.below i _ h hlt (by omega) hbelow
      · rw [if_neg hbelow]
        by_cases habove : above table[((lo + hi) / 2).toNat]
        · rw [if_pos habove]
          refine ih ⟨hb.lo_nonneg, by omega, hb.below, fun i h hi => ?_⟩ (by omega) hb.lo_nonneg (by omega)
          exact hord.above _ i hlt h (by omega) habove
        · rw [if_neg habove]
          exact ⟨true, rfl, fun _ => ⟨_, List.getElem_mem hlt, hbelow, habove⟩, fun _ => rfl⟩
    · rw [if_neg hempty]
      refine ⟨false, rfl, fun h => absurd h Bool.false_ne_true, ?_⟩
      rintro ⟨a, ha, hnb, hna⟩
      obtain ⟨i, h, rfl⟩ := List.mem_iff_getElem.mp ha
      rcases Int.lt_or_le i lo with hlt | hge
      · exact absurd (hb.below i h hlt) hnb
      · exact absurd (hb.above i h (by omega)) hna

end Bisect
