import Mathlib.Data.List.Basic

/-!
# Folds that stop when there is no room

`roomFold room f` folds a step that may fail over a list and leaves the rest of the
list where there is no room any more.  Where a step takes some of the elements, each
of which makes the accumulator longer by one, the fold takes the first of these
(`roomFold_take`).
-/

namespace RoomFold

universe u v w

variable {A : Type u} {B : Type v} {C : Type w} {room : A → Prop} [DecidablePred room] {f : B → A → Option A}
  {bs bs' : List B} {a : A}

def roomFold (room : A → Prop) [DecidablePred room] (f : B → A → Option A) : List B → A → Option A
  | [], a => some a
  | b :: bs, a => if room a then (f b a).bind (roomFold room f bs) else some a

theorem roomFold_full (h : ¬room a) : roomFold room f bs a = some a := by
  cases bs with
  | nil => rfl
  | cons b bs => exact if_neg h

theorem roomFold_append : roomFold room f (bs ++ bs') a = (roomFold room f bs a).bind (roomFold room f bs') := by
  induction bs generalizing a with
  | nil => rfl
  | cons b bs ih =>
    rw [List.cons_append, roomFold, roomFold]
    by_cases h : room a
    · rw [if_pos h, if_pos h]
      cases f b a with
      | none => rfl
      | some a' => exact ih
    · rw [if_neg h, if_neg h, Option.bind_some, roomFold_full h]

/-- The fold is a fold over the elements that are taken, as many as there is room for. -/
theorem roomFold_take {count : A → Nat} {limit : Nat} {g : B → Option C} {put : A → C → Option A}
    (hroom : ∀ a, room a ↔ count a < limit)
    (hskip : ∀ b a, g b = none → f b a = some a) (htake : ∀ b c a, g b = some c → f b a = put a c)
    (hcount : ∀ a c a', put a c = some a' → count a' = count a + 1) (bs : List B) (a : A) :
    roomFold room f bs a = ((bs.filterMap g).take (limit - count a)).foldlM put a := by
  induction bs generalizing a with
  | nil =>
    rw [List.filterMap_nil, List.take_nil]
    rfl
  | cons b bs ih =>
    rw [roomFold]
    by_cases h : room a
    · rw [if_pos h]
      cases hb : g b with
      | none => rw [hskip b a hb, Option.bind_some, List.filterMap_cons_none hb, ih]
      | some c =>
        have hlt := (hroom a).mp h
        obtain ⟨k, hk⟩ := Nat.exists_eq_succ_of_ne_zero (Nat.sub_ne_zero_of_lt hlt)
        rw [htake b c a hb, List.filterMap_cons_some hb, hk, List.take_succ_cons, List.foldlM_cons]
        cases hput : put a c with
        | none => rfl
        | some a' =>
          have hcount' := hcount a c a' hput
          have hk' : limit - count a' = k := by omega
          rw [Option.bind_some, ih, hk']
          rfl
    · have hfull : limit - count a = 0 := by
        have hge : ¬count a < limit := fun hlt => h ((hroom a).mpr hlt)
        omega
      rw [if_neg h, hfull, List.take_zero]
      rfl

end RoomFold
