import Mathlib.Algebra.GroupWithZero.Nat
import Mathlib.Data.List.Induction

/-!
# Numerals

`Numeral.Spells val base v s` says that the characters `s`, the most significant one first, are
digits below `base`, that reading them position by position gives `v`, and that there is no
leading zero.  There is exactly one such `s` for each number (`spells_iff`): the remainders of
repeated division, the last one first (`numeral`).
-/

namespace Numeral

variable {α : Type*} {val : α → Nat} {digit : Nat → α} {base v k : Nat} {s : List α} {c : α}

/-- Positional reading. -/
def read (val : α → Nat) (base : Nat) (s : List α) : Nat := s.foldl (fun v c => v * base + val c) 0

/-- `s` is the number `v` in base `base`. -/
structure Spells (val : α → Nat) (base v : Nat) (s : List α) : Prop where
  digits : ∀ c ∈ s, val c < base
  value : read val base s = v
  nonempty : s ≠ []
  leading : ∀ c rest, s = c :: rest → val c = 0 → rest = []

/-- The remainders of repeated division, the last one first. -/
def numeral (digit : Nat → α) (base v : Nat) : List α :=
  if 1 < base ∧ base ≤ v then numeral digit base (v / base) ++ [digit (v % base)] else [digit v]
termination_by v
decreasing_by exact Nat.div_lt_self (by omega) (by omega)

theorem numeral_of_lt (digit : Nat → α) (h : v < base) : numeral digit base v = [digit v] := by
  rw [numeral, if_neg fun hle => absurd h (Nat.not_lt.mpr hle.2)]

theorem numeral_step (digit : Nat → α) (hb : 1 < base) (h : base ≤ v) :
    numeral digit base v = numeral digit base (v / base) ++ [digit (v % base)] := by
  rw [numeral, if_pos ⟨hb, h⟩]

theorem length_numeral_pos (digit : Nat → α) (base v : Nat) : 0 < (numeral digit base v).length := by
  rw [numeral]
  split <;> simp

/-- Induction along the digits. -/
theorem digit_induction (hb : 1 < base) {P : Nat → Prop} (hlt : ∀ v < base, P v) (hstep : ∀ v, base ≤ v → P (v / base) → P v)
    (v : Nat) : P v := by
  induction v using Nat.strongRecOn with
  | ind v ih =>
    rcases Nat.lt_or_ge v base with h | h
    · exact hlt v h
    · exact hstep v h (ih _ (Nat.div_lt_self (by omega) hb))

/-- `Nat.toDigits` has the same digits. -/
theorem toDigits_map (f : Char → α) (hb : 1 < base) (h : ∀ d < base, f (Nat.digitChar d) = digit d) (v : Nat) :
    (Nat.toDigits base v).map f = numeral digit base v := by
  induction v using digit_induction hb with
  | hlt v hv => rw [Nat.toDigits_of_lt_base hv, numeral_of_lt _ hv, List.map_singleton, h v hv]
  | hstep v hv ih =>
    rw [Nat.toDigits_of_base_le hb hv, numeral_step _ hb hv, List.map_append, ih, List.map_singleton,
      h _ (Nat.mod_lt v (by omega))]

theorem mem_numeral (hb : 1 < base) (hc : c ∈ numeral digit base v) : ∃ d < base, digit d = c := by
  induction v using digit_induction hb with
  | hlt v hv =>
    rw [numeral_of_lt _ hv] at hc
    exact ⟨v, hv, (List.mem_singleton.mp hc).symm⟩
  | hstep v hv ih =>
    rw [numeral_step _ hb hv] at hc
    rcases List.mem_append.mp hc with hc | hc
    · exact ih hc
    · exact ⟨v % base, Nat.mod_lt v (by omega), (List.mem_singleton.mp hc).symm⟩

/-- The first digit of a number that is not zero. -/
theorem exists_digit_ne_zero (digit : Nat → α) (hb : 1 < base) (hv : v ≠ 0) :
    ∃ d < base, d ≠ 0 ∧ digit d ∈ numeral digit base v := by
  induction v using digit_induction hb with
  | hlt v hlt => exact ⟨v, hlt, hv, by rw [numeral_of_lt _ hlt]; exact List.mem_cons_self⟩
  | hstep v hle ih =>
    obtain ⟨d, hd, hne, hmem⟩ := ih (Nat.ne_of_gt (Nat.div_pos hle (by omega)))
    exact ⟨d, hd, hne, by rw [numeral_step _ hb hle]; exact List.mem_append_left _ hmem⟩

/-- Numbers below `base ^ k` have at most `k` digits. -/
theorem length_numeral_le (digit : Nat → α) (hb : 1 < base) (hk : 0 < k) (h : v < base ^ k) :
    (numeral digit base v).length ≤ k := by
  induction v using digit_induction hb generalizing k with
  | hlt v hv =>
    rw [numeral_of_lt _ hv]
    exact hk
  | hstep v hv ih =>
    obtain ⟨k, rfl⟩ := Nat.exists_eq_succ_of_ne_zero (Nat.ne_of_gt hk)
    rw [Nat.pow_succ'] at h
    have hquot : v / base < base ^ k := Nat.div_lt_of_lt_mul h
    have hpos : 0 < k := by
      refine Nat.pos_of_ne_zero fun h0 => ?_
      rw [h0, Nat.pow_zero] at hquot
      have hdiv : 0 < v / base := Nat.div_pos hv (by omega)
      omega
    rw [numeral_step _ hb hv, List.length_append]
    exact Nat.succ_le_succ (ih hpos hquot)

theorem length_numeral_div_le (digit : Nat → α) (hb : 1 < base) (v k : Nat) :
    (numeral digit base (v / base ^ k)).length ≤ (numeral digit base v).length := by
  induction k generalizing v with
  | zero => exact Nat.le_of_eq (by rw [Nat.pow_zero, Nat.div_one])
  | succ k ih =>
    rw [Nat.pow_succ', ← Nat.div_div_eq_div_mul]
    refine Nat.le_trans (ih _) ?_
    rcases Nat.lt_or_ge v base with h | h
    · rw [Nat.div_eq_of_lt h, numeral_of_lt _ h, numeral_of_lt _ (by omega)]
      exact Nat.le_refl 1
    · rw [numeral_step _ hb h, List.length_append]
      exact Nat.le_add_right _ _

/-! ## Reading -/

theorem read_append (val : α → Nat) (base : Nat) (s : List α) (c : α) :
    read val base (s ++ [c]) = read val base s * base + val c := by
  rw [read, List.foldl_append]
  rfl

/-- Without a leading zero, only zero is read as zero. -/
theorem read_pos (hne : s ≠ []) (hlead : ∀ c ∈ s.head?, val c ≠ 0) (hb : 0 < base) : 0 < read val base s := by
  induction s using List.reverseRecOn with
  | nil => exact absurd rfl hne
  | append_singleton s c ih =>
    rw [read_append]
    by_cases hs : s = []
    · subst hs
      have hc := hlead c rfl
      omega
    · have hpos := ih hs fun d hd => hlead d <| by
        obtain ⟨rest, rfl⟩ := List.head?_eq_some_iff.mp hd
        rfl
      have hmul : 0 < read val base s * base := Nat.mul_pos hpos hb
      omega

/-- The digits in front of the last one spell the quotient. -/
theorem Spells.front (h : Spells val base v (s ++ [c])) (hs : s ≠ []) :
    base ≤ v ∧ v % base = val c ∧ Spells val base (v / base) s := by
  have hc : val c < base := h.digits c (List.mem_append_right s List.mem_cons_self)
  have hvalue := h.value
  rw [read_append] at hvalue
  have hfirst : ∀ d ∈ s.head?, val d ≠ 0 := by
    intro d hd h0
    obtain ⟨rest, rfl⟩ := List.head?_eq_some_iff.mp hd
    exact absurd (h.leading d (rest ++ [c]) rfl h0) (by simp)
  have hb : 0 < base := by omega
  have hpos := read_pos hs hfirst hb
  have hle : base ≤ read val base s * base := Nat.le_mul_of_pos_left base hpos
  have hquot : v / base = read val base s := by
    rw [← hvalue, Nat.mul_comm _ base, Nat.mul_add_div hb, Nat.div_eq_of_lt hc, Nat.add_zero]
  have hrem : v % base = val c := by rw [← hvalue, Nat.mul_comm _ base, Nat.mul_add_mod, Nat.mod_eq_of_lt hc]
  refine ⟨by omega, hrem, fun d hd => h.digits d (List.mem_append_left _ hd), hquot.symm, hs, fun d rest hd h0 => ?_⟩
  exact absurd h0 (hfirst d (by rw [hd]; rfl))

section Spells

variable (hb : 1 < base) (hval : ∀ c, val c < base → digit (val c) = c) (hdigit : ∀ d < base, val (digit d) = d)

include hb

include hval in
theorem Spells.eq_numeral (h : Spells val base v s) : s = numeral digit base v := by
  induction s using List.reverseRecOn generalizing v with
  | nil => exact absurd rfl h.nonempty
  | append_singleton s c ih =>
    have hc : val c < base := h.digits c (List.mem_append_right s List.mem_cons_self)
    by_cases hs : s = []
    · subst hs
      obtain rfl : val c = v := by rw [← h.value, List.nil_append, read, List.foldl_cons]; simp
      rw [numeral_of_lt _ hc, hval c hc]
      rfl
    · obtain ⟨hle, hrem, hfront⟩ := h.front hs
      rw [numeral_step _ hb hle, ← ih hfront, hrem, hval c hc]

include hdigit in
theorem spells_numeral (v : Nat) : Spells val base v (numeral digit base v) := by
  induction v using digit_induction hb with
  | hlt v hv =>
    rw [numeral_of_lt _ hv]
    refine ⟨fun c hc => ?_, ?_, List.cons_ne_nil _ _, fun c rest h _ => ?_⟩
    · rwa [List.mem_singleton.mp hc, hdigit v hv]
    · rw [read, List.foldl_cons, List.foldl_nil, hdigit v hv, Nat.zero_mul, Nat.zero_add]
    · exact (List.cons.inj h).2.symm
  | hstep v hv ih =>
    have hlast : v % base < base := Nat.mod_lt v (by omega)
    rw [numeral_step _ hb hv]
    refine ⟨fun c hc => ?_, ?_, by simp, fun c rest h h0 => ?_⟩
    · rcases List.mem_append.mp hc with hc | hc
      · exact ih.digits c hc
      · rwa [List.mem_singleton.mp hc, hdigit _ hlast]
    · rw [read_append, ih.value, hdigit _ hlast, Nat.mul_comm]
      exact Nat.div_add_mod v base
    · -- a leading zero would be all of the quotient
      obtain ⟨d, ds, hds⟩ := List.exists_cons_of_ne_nil ih.nonempty
      rw [hds, List.cons_append] at h
      obtain ⟨rfl, -⟩ := List.cons.inj h
      obtain rfl := ih.leading d ds hds h0
      have hquot := ih.value
      rw [hds, read, List.foldl_cons, List.foldl_nil, h0] at hquot
      have hpos : 0 < v / base := Nat.div_pos hv (by omega)
      omega

include hval hdigit in
/-- Every number has one numeral. -/
theorem spells_iff : Spells val base v s ↔ s = numeral digit base v :=
  ⟨fun h => h.eq_numeral hb hval, fun h => h ▸ spells_numeral hb hdigit v⟩

end Spells

end Numeral
