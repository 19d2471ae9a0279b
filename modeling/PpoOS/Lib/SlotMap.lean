import Mathlib.Logic.Function.Basic
import Mathlib.Tactic.Choose

/-!
# Finite maps kept in slots

A table whose slots are free or hold a key with its value.  `Represents slots M`: no
key is in two slots, and `M` is the partial map of the entries.  Writing an entry into
the slot of its key, or into a free slot where the key is in none, is an update of the
map (`Represents.put`), and freeing the slots of a key takes it out (`Represents.clear`).
-/

namespace SlotMap

universe u v w

variable {ι : Type u} {K : Type v} {V : Type w}

/-- No key is in two slots. -/
def Distinct (slots : ι → Option (K × V)) : Prop :=
  ∀ ⦃i j k v w⦄, slots i = some (k, v) → slots j = some (k, w) → i = j

/-- `M` is the map of the entries of the slots. -/
structure Represents (slots : ι → Option (K × V)) (M : K → Option V) : Prop where
  distinct : Distinct slots
  lookup : ∀ k v, M k = some v ↔ ∃ i, slots i = some (k, v)

variable {slots : ι → Option (K × V)} {M : K → Option V} {i : ι} {k : K} {v w : V}

/-- Free slots are the empty map. -/
theorem represents_free (ι : Type u) : Represents (fun _ : ι => (none : Option (K × V))) fun _ => none where
  distinct _ _ _ _ _ hi := nomatch hi
  lookup _ _ := ⟨fun h => (nomatch h), fun ⟨_, h⟩ => (nomatch h)⟩

namespace Represents

theorem of_slot (h : Represents slots M) (hi : slots i = some (k, v)) : M k = some v := (h.lookup k v).mpr ⟨i, hi⟩

theorem eq_none (h : Represents slots M) (hk : ∀ i v, slots i ≠ some (k, v)) : M k = none := by
  cases hM : M k with
  | none => rfl
  | some v =>
    obtain ⟨i, hi⟩ := (h.lookup k v).mp hM
    exact absurd hi (hk i v)

/-- Where all slots are in use, the map has a key of its own for each of them. -/
theorem keys_of_full (h : Represents slots M) (hfull : ∀ i, slots i ≠ none) :
    ∃ key : ι → K, Function.Injective key ∧ ∀ i, M (key i) ≠ none := by
  choose entry hentry using fun i => Option.ne_none_iff_exists'.mp (hfull i)
  refine ⟨fun i => (entry i).1, fun i j hij => ?_, fun i => ?_⟩
  · dsimp only at hij
    have hj : slots j = some ((entry i).1, (entry j).2) := by rw [hij, hentry j]
    exact h.distinct (hentry i) hj
  · rw [h.of_slot (hentry i)]
    exact Option.some_ne_none _

variable [DecidableEq K]

/-- An entry goes into the slot of its key, or into a free one where the key has none. -/
theorem put [DecidableEq ι] (h : Represents slots M) (v : V)
    (hi : (∃ w, slots i = some (k, w)) ∨ slots i = none ∧ M k = none) :
    Represents (Function.update slots i (some (k, v))) (Function.update M k (some v)) := by
  -- no other slot has the key
  have hother : ∀ {j w}, j ≠ i → slots j ≠ some (k, w) := by
    intro j w hji hj
    rcases hi with ⟨w', hi⟩ | ⟨-, hnone⟩
    · exact hji (h.distinct hj hi)
    · exact absurd (h.of_slot hj) (by simp [hnone])
  -- the slot has no other key
  have hslot : ∀ {k' w}, k' ≠ k → slots i ≠ some (k', w) := by
    intro k' w hk hw
    rcases hi with ⟨w', hi⟩ | ⟨hi, -⟩
    · exact hk (congrArg Prod.fst (Option.some.inj (hw.symm.trans hi)))
    · exact absurd (hw.symm.trans hi) (Option.some_ne_none _)
  constructor
  · intro a b k' x y ha hb
    by_cases hai : a = i
    · by_cases hbi : b = i
      · exact hai.trans hbi.symm
      · rw [hai, Function.update_self] at ha
        rw [Function.update_of_ne hbi] at hb
        obtain ⟨rfl, -⟩ := Prod.mk.inj (Option.some.inj ha)
        exact absurd hb (hother hbi)
    · rw [Function.update_of_ne hai] at ha
      by_cases hbi : b = i
      · rw [hbi, Function.update_self] at hb
        obtain ⟨rfl, -⟩ := Prod.mk.inj (Option.some.inj hb)
        exact absurd ha (hother hai)
      · rw [Function.update_of_ne hbi] at hb
        exact h.distinct ha hb
  · intro k' x
    by_cases hk : k' = k
    · subst hk
      rw [Function.update_self]
      constructor
      · intro hx
        exact ⟨i, by rw [Function.update_self, Option.some.inj hx]⟩
      · rintro ⟨j, hj⟩
        by_cases hji : j = i
        · rw [hji, Function.update_self] at hj
          rw [(Prod.mk.inj (Option.some.inj hj)).2]
        · rw [Function.update_of_ne hji] at hj
          exact absurd hj (hother hji)
    · rw [Function.update_of_ne hk, h.lookup]
      refine exists_congr fun j => ?_
      by_cases hji : j = i
      · subst hji
        rw [Function.update_self]
        refine ⟨fun hj => absurd hj (hslot hk), fun hj => ?_⟩
        exact absurd (Prod.mk.inj (Option.some.inj hj)).1.symm hk
      · rw [Function.update_of_ne hji]

/-- Free the slots of a key. -/
def clearKey (k : K) (slots : ι → Option (K × V)) (i : ι) : Option (K × V) := (slots i).filter fun e => e.1 ≠ k

theorem clearKey_eq_some_iff {e : K × V} : clearKey k slots i = some e ↔ slots i = some e ∧ e.1 ≠ k := by
  rw [clearKey, Option.filter_eq_some_iff]
  simp

theorem clear (h : Represents slots M) (k : K) : Represents (clearKey k slots) (Function.update M k none) := by
  constructor
  · intro a b k' x y ha hb
    exact h.distinct (clearKey_eq_some_iff.mp ha).1 (clearKey_eq_some_iff.mp hb).1
  · intro k' x
    by_cases hk : k' = k
    · subst hk
      rw [Function.update_self]
      refine ⟨fun hx => (nomatch hx), fun ⟨j, hj⟩ => ?_⟩
      exact absurd rfl (clearKey_eq_some_iff.mp hj).2
    · rw [Function.update_of_ne hk, h.lookup]
      exact exists_congr fun j => ⟨fun hj => clearKey_eq_some_iff.mpr ⟨hj, hk⟩, fun hj => (clearKey_eq_some_iff.mp hj).1⟩

end Represents

end SlotMap
