import Mathlib.Data.Finset.Card
import Mathlib.Logic.Function.Basic

/-!
# A table with a queue of writes

A `WriteBack` is a table `base` whose writes wait in a queue until they are done.  `slot k` is where
in the queue the write to the key `k` is, so that a second write to `k` replaces the first one.  A
reader sees the table as it will be (`view`).  A push changes the view at its key and nothing else
(`push_spec`), and a queue with room for every key never overflows.  `Pending s items` says what is
left to do while the queue is worked off, item after item.
-/

universe u v

structure WriteBack (κ : Type u) (α : Type v) where
  base : κ → α
  slot : κ → Option Nat
  queue : List (κ × α)

namespace WriteBack

variable {κ : Type u} {α : Type v} {s t : WriteBack κ α} {k : κ} {a : α}

/-- A table without writes that wait. -/
def init (base : κ → α) : WriteBack κ α := ⟨base, fun _ => none, []⟩

/-- What is at a key once all writes are done. -/
def view (s : WriteBack κ α) (k : κ) : α :=
  match s.slot k with
  | none => s.base k
  | some j => (s.queue[j]?.map Prod.snd).getD (s.base k)

/-- What is at a key, where its slot is one of the queue. -/
def read (s : WriteBack κ α) (k : κ) : Option α :=
  match s.slot k with
  | none => some (s.base k)
  | some j => s.queue[j]?.map Prod.snd

/-- Write `a` to `k`: in place of the write to `k` that waits, or at the end of a queue with room for `cap`
writes, and not at all where the table has `a` at `k`. -/
def push [DecidableEq κ] [DecidableEq α] (cap : Nat) (s : WriteBack κ α) (k : κ) (a : α) : Option (WriteBack κ α) :=
  match s.slot k with
  | some j => s.queue[j]?.map fun item => { s with queue := s.queue.set j (item.1, a) }
  | none =>
    if s.base k = a then some s
    else if s.queue.length < cap then
      some { s with slot := Function.update s.slot k (some s.queue.length), queue := s.queue ++ [(k, a)] }
    else none

/-- The write of `a` to `k` is done. -/
def settle [DecidableEq κ] (s : WriteBack κ α) (k : κ) (a : α) : WriteBack κ α :=
  { s with base := Function.update s.base k a, slot := Function.update s.slot k none }

/-- All writes are done. -/
def reset (s : WriteBack κ α) : WriteBack κ α := { s with queue := [] }

/-- The slots are those of the queue, whose keys are in `dom`. -/
structure Ok (dom : Finset κ) (s : WriteBack κ α) : Prop where
  find : ∀ k j, s.slot k = some j ↔ ∃ a, s.queue[j]? = some (k, a)
  within : ∀ item ∈ s.queue, item.1 ∈ dom

theorem Ok.init (dom : Finset κ) (base : κ → α) : Ok dom (init base) := by
  constructor
  · intro k j
    simp [WriteBack.init]
  · intro item h
    exact absurd h List.not_mem_nil

theorem view_init (base : κ → α) : (init base).view = base := rfl

theorem view_of_none (h : s.slot k = none) : s.view k = s.base k := by rw [view, h]

theorem view_of_some {j : Nat} (h : s.slot k = some j) (hq : s.queue[j]? = some (k, a)) : s.view k = a := by
  simp only [view, h, hq, Option.map_some, Option.getD_some]

section Ok

variable {dom : Finset κ} (hs : Ok dom s)

include hs

/-- A reader stays within the queue. -/
theorem Ok.read (k : κ) : s.read k = some (s.view k) := by
  cases hslot : s.slot k with
  | none => simp only [WriteBack.read, view, hslot]
  | some j =>
    obtain ⟨a, ha⟩ := (hs.find k j).mp hslot
    simp only [WriteBack.read, view, hslot, ha, Option.map_some, Option.getD_some]

/-- No two writes of the queue have one key. -/
theorem Ok.nodup : (s.queue.map Prod.fst).Nodup := by
  rw [List.nodup_iff_getElem?_ne_getElem?]
  intro i j hij hj heq
  rw [List.length_map] at hj
  have hi : i < s.queue.length := by omega
  rw [List.getElem?_map, List.getElem?_map, List.getElem?_eq_getElem hi, List.getElem?_eq_getElem hj] at heq
  have hkey : s.queue[i].1 = s.queue[j].1 := Option.some.inj heq
  have hi' := (hs.find s.queue[i].1 i).mpr ⟨s.queue[i].2, List.getElem?_eq_getElem hi⟩
  have hj' := (hs.find s.queue[j].1 j).mpr ⟨s.queue[j].2, List.getElem?_eq_getElem hj⟩
  rw [hkey, hj'] at hi'
  cases hi'
  omega

/-- There are at most as many writes as keys. -/
theorem Ok.length_le [DecidableEq κ] : s.queue.length ≤ dom.card := by
  have hsub : (s.queue.map Prod.fst).toFinset ⊆ dom := by
    intro k hk
    obtain ⟨item, hitem, rfl⟩ := List.mem_map.mp (List.mem_toFinset.mp hk)
    exact hs.within item hitem
  have hcard := Finset.card_le_card hsub
  rwa [List.toFinset_card_of_nodup hs.nodup, List.length_map] at hcard

/-- A key whose write does not wait has room in a queue with room for all keys. -/
theorem Ok.length_lt [DecidableEq κ] (hk : k ∈ dom) (hnone : s.slot k = none) : s.queue.length < dom.card := by
  have hnot : k ∉ (s.queue.map Prod.fst).toFinset := by
    intro hmem
    obtain ⟨item, hitem, hkey⟩ := List.mem_map.mp (List.mem_toFinset.mp hmem)
    obtain ⟨j, hj⟩ := List.mem_iff_getElem?.mp hitem
    have hsome := (hs.find k j).mpr ⟨item.2, by rw [hj, ← hkey]⟩
    rw [hnone] at hsome
    cases hsome
  have hsub : insert k (s.queue.map Prod.fst).toFinset ⊆ dom := by
    intro k' hk'
    rcases Finset.mem_insert.mp hk' with rfl | hmem
    · exact hk
    · obtain ⟨item, hitem, rfl⟩ := List.mem_map.mp (List.mem_toFinset.mp hmem)
      exact hs.within item hitem
  have hcard := Finset.card_le_card hsub
  rw [Finset.card_insert_of_notMem hnot, List.toFinset_card_of_nodup hs.nodup, List.length_map] at hcard
  exact hcard

/-- The write that waits is replaced. -/
theorem Ok.replace {j : Nat} {b : α} (hq : s.queue[j]? = some (k, b)) :
    Ok dom { s with queue := s.queue.set j (k, a) } := by
  have hj : j < s.queue.length := (List.getElem?_eq_some_iff.mp hq).1
  constructor
  · intro k' j'
    change s.slot k' = some j' ↔ _
    rw [hs.find k' j', List.getElem?_set]
    by_cases hjj : j = j'
    · subst hjj
      rw [if_pos rfl, if_pos hj, hq]
      simp
    · rw [if_neg hjj]
  · intro item hitem
    rcases List.mem_or_eq_of_mem_set hitem with hmem | rfl
    · exact hs.within item hmem
    · exact hs.within (k, b) (List.mem_of_getElem? hq)

/-- A write to a key that has none is put at the end. -/
theorem Ok.enqueue [DecidableEq κ] (hk : k ∈ dom) (hnone : s.slot k = none) :
    Ok dom { s with slot := Function.update s.slot k (some s.queue.length), queue := s.queue ++ [(k, a)] } := by
  constructor
  · intro k' j'
    change Function.update s.slot k (some s.queue.length) k' = some j' ↔ _
    rcases eq_or_ne k' k with rfl | hne
    · rw [Function.update_self]
      constructor
      · rintro ⟨⟩
        exact ⟨a, List.getElem?_concat_length⟩
      · rintro ⟨b, hb⟩
        rcases Nat.lt_or_ge j' s.queue.length with hlt | hge
        · rw [List.getElem?_append_left hlt] at hb
          have hsome := (hs.find k' j').mpr ⟨b, hb⟩
          rw [hnone] at hsome
          cases hsome
        · have hlen := (List.getElem?_eq_some_iff.mp hb).1
          rw [List.length_append, List.length_singleton] at hlen
          rw [show j' = s.queue.length by omega]
    · rw [Function.update_of_ne hne, hs.find k' j']
      constructor
      · rintro ⟨b, hb⟩
        exact ⟨b, by rw [List.getElem?_append_left (List.getElem?_eq_some_iff.mp hb).1, hb]⟩
      · rintro ⟨b, hb⟩
        rcases Nat.lt_or_ge j' s.queue.length with hlt | hge
        · rw [List.getElem?_append_left hlt] at hb
          exact ⟨b, hb⟩
        · rw [List.getElem?_append_right hge] at hb
          have hmem := List.mem_singleton.mp (List.mem_of_getElem? hb)
          exact absurd (congrArg Prod.fst hmem) hne
  · intro item hitem
    rcases List.mem_append.mp hitem with hmem | hmem
    · exact hs.within item hmem
    · rw [List.mem_singleton.mp hmem]
      exact hk

/-- A push ends, leaves the table as it is, and changes the view at its key alone. -/
theorem Ok.push [DecidableEq κ] [DecidableEq α] {cap : Nat} (hcap : dom.card ≤ cap) (hk : k ∈ dom) (a : α) :
    ∃ t, s.push cap k a = some t ∧ Ok dom t ∧ t.base = s.base ∧ t.view = Function.update s.view k a := by
  rw [WriteBack.push]
  cases hslot : s.slot k with
  | some j =>
    obtain ⟨b, hb⟩ := (hs.find k j).mp hslot
    have hj : j < s.queue.length := (List.getElem?_eq_some_iff.mp hb).1
    refine ⟨{ s with queue := s.queue.set j (k, a) }, by simp only [hb, Option.map_some], hs.replace hb, rfl, ?_⟩
    funext k'
    rcases eq_or_ne k' k with rfl | hne
    · rw [Function.update_self]
      exact view_of_some hslot (by rw [List.getElem?_set, if_pos rfl, if_pos hj])
    · rw [Function.update_of_ne hne, view, view]
      dsimp only
      cases hslot' : s.slot k' with
      | none => rfl
      | some j' =>
        obtain ⟨b', hb'⟩ := (hs.find k' j').mp hslot'
        have hjj : j ≠ j' := by
          rintro rfl
          rw [hb] at hb'
          cases hb'
          exact hne rfl
        dsimp only
        rw [List.getElem?_set, if_neg hjj]
  | none =>
    by_cases hbase : s.base k = a
    · refine ⟨s, by simp only [if_pos hbase], hs, rfl, ?_⟩
      rw [eq_comm, Function.update_eq_self_iff, view_of_none hslot, hbase]
    · have hlen := hs.length_lt hk hslot
      refine ⟨{ s with slot := Function.update s.slot k (some s.queue.length), queue := s.queue ++ [(k, a)] }, ?_,
        hs.enqueue hk hslot, rfl, ?_⟩
      · simp only [if_neg hbase]
        rw [if_pos (by omega)]
      · funext k'
        rcases eq_or_ne k' k with rfl | hne
        · rw [Function.update_self]
          exact view_of_some (Function.update_self ..) List.getElem?_concat_length
        · rw [Function.update_of_ne hne, view, view]
          dsimp only
          rw [Function.update_of_ne hne]
          cases hslot' : s.slot k' with
          | none => rfl
          | some j' =>
            obtain ⟨b', hb'⟩ := (hs.find k' j').mp hslot'
            dsimp only
            rw [List.getElem?_append_left (List.getElem?_eq_some_iff.mp hb').1]

end Ok

/-! ## Working off the queue -/

/-- The writes that are left are among `items`, which have the values of the view. -/
structure Pending (s : WriteBack κ α) (items : List (κ × α)) : Prop where
  covers : ∀ k, s.slot k ≠ none → ∃ a, (k, a) ∈ items
  value : ∀ k a, (k, a) ∈ items → s.slot k ≠ none → s.view k = a

namespace Pending

variable {items : List (κ × α)}

theorem queue {dom : Finset κ} (hs : Ok dom s) : Pending s s.queue := by
  constructor
  · intro k hk
    obtain ⟨j, hj⟩ := Option.ne_none_iff_exists'.mp hk
    obtain ⟨a, ha⟩ := (hs.find k j).mp hj
    exact ⟨a, List.mem_of_getElem? ha⟩
  · intro k a hmem hk
    obtain ⟨j, hj⟩ := List.mem_iff_getElem?.mp hmem
    exact view_of_some ((hs.find k j).mpr ⟨a, hj⟩) hj

theorem settle_view [DecidableEq κ] (ha : s.view k = a) : (s.settle k a).view = s.view := by
  funext k'
  rcases eq_or_ne k' k with rfl | hne
  · rw [view_of_none (s := s.settle k' a) (Function.update_self ..), ha]
    exact Function.update_self ..
  · rw [view, view]
    dsimp only [settle]
    rw [Function.update_of_ne hne, Function.update_of_ne hne]

/-- A write that is done is left no more. -/
theorem settle [DecidableEq κ] (h : Pending s items) (ha : s.view k = a) : Pending (s.settle k a) items := by
  have hslot : ∀ k', (s.settle k a).slot k' ≠ none → s.slot k' ≠ none := by
    intro k' hk'
    rcases eq_or_ne k' k with rfl | hne
    · exact absurd (Function.update_self ..) hk'
    · change Function.update s.slot k none k' ≠ none at hk'
      rwa [Function.update_of_ne hne] at hk'
  constructor
  · exact fun k' hk' => h.covers k' (hslot k' hk')
  · intro k' b hmem hk'
    rw [settle_view ha]
    exact h.value k' b hmem (hslot k' hk')

/-- The first item need not be looked at again once its key has no slot. -/
theorem tail (h : Pending s ((k, a) :: items)) (hk : s.slot k = none) : Pending s items := by
  constructor
  · intro k' hk'
    obtain ⟨b, hb⟩ := h.covers k' hk'
    rcases List.mem_cons.mp hb with heq | hmem
    · rw [(Prod.mk.inj heq).1, hk] at hk'
      exact absurd rfl hk'
    · exact ⟨b, hmem⟩
  · exact fun k' b hmem => h.value k' b (List.mem_cons_of_mem _ hmem)

/-- Nothing is left. -/
theorem slot_eq_none (h : Pending s []) (k : κ) : s.slot k = none := by
  by_contra hk
  obtain ⟨a, ha⟩ := h.covers k hk
  exact absurd ha List.not_mem_nil

theorem base_eq_view (h : Pending s []) : s.base = s.view :=
  funext fun k => (view_of_none (h.slot_eq_none k)).symm

theorem reset_eq (h : Pending s []) : s.reset = init s.view := by
  have hslot : s.slot = fun _ => none := funext h.slot_eq_none
  rw [reset, init, hslot, ← h.base_eq_view]

end Pending

end WriteBack
