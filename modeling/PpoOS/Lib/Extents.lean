import Mathlib.Data.List.Basic

/-!
# Extents cut one after the other from a buffer

A table whose entries own ranges of one buffer, as a bump allocator gives them
out: an entry may own nothing.  In a `Packed` table all ranges end before `used`
and no two of them share a byte.  A range that starts at `used` may be added to
the table or take the place of an entry.
-/

/-- A range of a buffer. -/
structure Extent where
  start : Nat
  len : Nat

namespace Extent

def stop (e : Extent) : Nat := e.start + e.len

/-- The ranges share no byte. -/
def Apart (a b : Extent) : Prop := a.stop ≤ b.start ∨ b.stop ≤ a.start

theorem Apart.symm {a b : Extent} (h : Apart a b) : Apart b a := Or.symm h

/-- All ranges of the table end before `used`, and no two of them share a byte. -/
structure Packed (used : Nat) (l : List (Option Extent)) : Prop where
  stop_le : ∀ (i : Nat) (a : Extent), l[i]? = some (some a) → a.stop ≤ used
  apart : ∀ (i j : Nat) (a b : Extent), i ≠ j → l[i]? = some (some a) → l[j]? = some (some b) → Apart a b

namespace Packed

variable {used used' i : Nat} {l : List (Option Extent)} {e : Extent} {o : Option Extent}

theorem nil : Packed used [] where
  stop_le i a h := by simp at h
  apart i j a b _ h := by simp at h

theorem mono (h : Packed used l) (hle : used ≤ used') : Packed used' l where
  stop_le i a ha := Nat.le_trans (h.stop_le i a ha) hle
  apart := h.apart

/-- An entry of a longer table that owns something is an old one or the new one. -/
theorem getElem?_append_some {a : Extent} {j : Nat} (h : (l ++ [o])[j]? = some (some a)) :
    l[j]? = some (some a) ∨ j = l.length ∧ o = some a := by
  rw [List.getElem?_append] at h
  by_cases hj : j < l.length
  · rw [if_pos hj] at h
    exact Or.inl h
  · rw [if_neg hj, List.getElem?_singleton] at h
    by_cases hj0 : j - l.length = 0
    · rw [if_pos hj0] at h
      exact Or.inr ⟨by omega, Option.some.inj h⟩
    · rw [if_neg hj0] at h
      cases h

/-- An entry that owns nothing is added. -/
theorem push_none (h : Packed used l) : Packed used (l ++ [none]) where
  stop_le i a ha := by
    rcases getElem?_append_some ha with ha | ⟨-, ha⟩
    · exact h.stop_le i a ha
    · cases ha
  apart i j a b hij ha hb := by
    rcases getElem?_append_some ha with ha | ⟨-, ha⟩
    · rcases getElem?_append_some hb with hb | ⟨-, hb⟩
      · exact h.apart i j a b hij ha hb
      · cases hb
    · cases ha

/-- An entry is added that owns a range from `used` on. -/
theorem push (h : Packed used l) (he : used ≤ e.start) (hused : e.stop ≤ used') :
    Packed used' (l ++ [some e]) := by
  have hle : used ≤ used' := Nat.le_trans he (Nat.le_trans (Nat.le_add_right _ _) hused)
  have hnew : ∀ {i a}, l[i]? = some (some a) → Apart a e := fun ha =>
    Or.inl (Nat.le_trans (h.stop_le _ _ ha) he)
  constructor
  · intro i a ha
    rcases getElem?_append_some ha with ha | ⟨-, ha⟩
    · exact Nat.le_trans (h.stop_le i a ha) hle
    · cases ha
      exact hused
  · intro i j a b hij ha hb
    rcases getElem?_append_some ha with ha | ⟨hi, ha⟩
    · rcases getElem?_append_some hb with hb | ⟨-, hb⟩
      · exact h.apart i j a b hij ha hb
      · cases hb
        exact hnew ha
    · cases ha
      rcases getElem?_append_some hb with hb | ⟨hj, -⟩
      · exact (hnew hb).symm
      · exact absurd (hi.trans hj.symm) hij

/-- An entry gets a range from `used` on instead of its own. -/
theorem set (h : Packed used l) (he : used ≤ e.start) (hused : e.stop ≤ used') :
    Packed used' (l.set i (some e)) := by
  have hle : used ≤ used' := Nat.le_trans he (Nat.le_trans (Nat.le_add_right _ _) hused)
  have hold : ∀ {j a}, (l.set i (some e))[j]? = some (some a) →
      (i ≠ j ∧ l[j]? = some (some a)) ∨ (i = j ∧ e = a) := by
    intro j a ha
    by_cases hij : i = j
    · subst hij
      rw [List.getElem?_set_self'] at ha
      obtain ⟨_, -, ha⟩ := Option.map_eq_some_iff.mp ha
      exact Or.inr ⟨rfl, Option.some.inj ha⟩
    · rw [List.getElem?_set_ne hij] at ha
      exact Or.inl ⟨hij, ha⟩
  have hnew : ∀ {j a}, l[j]? = some (some a) → Apart a e := fun ha =>
    Or.inl (Nat.le_trans (h.stop_le _ _ ha) he)
  constructor
  · intro j a ha
    rcases hold ha with ⟨-, ha⟩ | ⟨-, rfl⟩
    · exact Nat.le_trans (h.stop_le j a ha) hle
    · exact hused
  · intro j k a b hjk ha hb
    rcases hold ha with ⟨-, ha⟩ | ⟨hj, rfl⟩
    · rcases hold hb with ⟨-, hb⟩ | ⟨-, rfl⟩
      · exact h.apart j k a b hjk ha hb
      · exact hnew ha
    · rcases hold hb with ⟨-, hb⟩ | ⟨hk, -⟩
      · exact (hnew hb).symm
      · exact absurd (hj.symm.trans hk) hjk

end Packed

end Extent
