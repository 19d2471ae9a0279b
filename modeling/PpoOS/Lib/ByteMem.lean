import Mathlib.Algebra.Group.Int.Defs
import Mathlib.Algebra.GroupWithZero.Nat

/-!
# Byte memory with little-endian words

A memory gives every 64-bit address its byte.  Every write is an instance of one
region write (`blit`): the words, the fills and the copies built on it share one
read lemma inside the region and one outside it.  Addresses wrap, so a region is
described by the distance `(b - a).toNat` of a byte `b` from its start `a`.
-/

namespace ByteMem

/-- A memory gives every 64-bit address its byte. -/
abbrev Mem := BitVec 64 → BitVec 8

/-- Overwrite the `n` bytes from `a` on, byte `i` of the region with `src i`. -/
def blit (m : Mem) (a : BitVec 64) (n : Nat) (src : Nat → BitVec 8) : Mem := fun b =>
  if (b - a).toNat < n then src (b - a).toNat else m b

/-- Overwrite the `n` bytes from `a` on with `c`. -/
def fill (m : Mem) (a : BitVec 64) (n : Nat) (c : BitVec 8) : Mem :=
  blit m a n fun _ => c

/-- Byte `i` of a word, least significant first. -/
def byteOf (v : BitVec 64) (i : Nat) : BitVec 8 := v.extractLsb' (8 * i) 8

/-- The little-endian word in the eight bytes from `a` on. -/
def load64 (m : Mem) (a : BitVec 64) : BitVec 64 :=
  m (a + 7#64) ++ m (a + 6#64) ++ m (a + 5#64) ++ m (a + 4#64) ++ m (a + 3#64) ++ m (a + 2#64) ++
    m (a + 1#64) ++ m a

/-- Store a word in little-endian order. -/
def store64 (m : Mem) (a v : BitVec 64) : Mem := blit m a 8 (byteOf v)

theorem blit_inside {m : Mem} {a b : BitVec 64} {n : Nat} {src : Nat → BitVec 8}
    (h : (b - a).toNat < n) : blit m a n src b = src (b - a).toNat := if_pos h

theorem blit_outside {m : Mem} {a b : BitVec 64} {n : Nat} {src : Nat → BitVec 8}
    (h : n ≤ (b - a).toNat) : blit m a n src b = m b := if_neg (Nat.not_lt.mpr h)

/-- The `n`-th byte after `a`, when it does not wrap. -/
theorem toNat_add_ofNat {a : BitVec 64} {n : Nat} (h : a.toNat + n < 2 ^ 64) :
    (a + BitVec.ofNat 64 n).toNat = a.toNat + n := by
  rw [BitVec.toNat_add, BitVec.toNat_ofNat, Nat.mod_eq_of_lt (a := n) (by omega), Nat.mod_eq_of_lt h]

/-- Different places behind `a` have different addresses. -/
theorem add_ofNat_inj {a : BitVec 64} {i j : Nat} (hi : i < 2 ^ 64) (hj : j < 2 ^ 64) :
    a + BitVec.ofNat 64 i = a + BitVec.ofNat 64 j ↔ i = j := by
  rw [BitVec.add_right_inj, ← BitVec.toNat_inj, BitVec.toNat_ofNat, BitVec.toNat_ofNat, Nat.mod_eq_of_lt hi,
    Nat.mod_eq_of_lt hj]

/-- The distance of the `i`-th byte after `a` from `b`, when it does not wrap. -/
theorem distance_add {a b : BitVec 64} {i : Nat} (h : (a - b).toNat + i < 2 ^ 64) :
    (a + BitVec.ofNat 64 i - b).toNat = (a - b).toNat + i := by
  have hi : i < 2 ^ 64 := by omega
  have hd : a + BitVec.ofNat 64 i - b = a - b + BitVec.ofNat 64 i := by
    rw [BitVec.sub_eq_add_neg, BitVec.sub_eq_add_neg, BitVec.add_assoc, BitVec.add_assoc,
      BitVec.add_comm (BitVec.ofNat 64 i)]
  rw [hd, BitVec.toNat_add, BitVec.toNat_ofNat, Nat.mod_eq_of_lt hi, Nat.mod_eq_of_lt h]

/-- The distance of two bytes of a region from each other. -/
theorem distance_sub (a o : BitVec 64) {i : Nat} (hi : i < 2 ^ 64) :
    (a + BitVec.ofNat 64 i - (a + o)).toNat = (2 ^ 64 - o.toNat + i) % 2 ^ 64 := by
  have hsub : a + BitVec.ofNat 64 i - (a + o) = BitVec.ofNat 64 i - o := by
    apply BitVec.eq_of_toNat_eq
    have ha := a.isLt
    have ho := o.isLt
    rw [BitVec.toNat_sub, BitVec.toNat_sub, BitVec.toNat_add, BitVec.toNat_add, BitVec.toNat_ofNat]
    omega
  rw [hsub, BitVec.toNat_sub, BitVec.toNat_ofNat, Nat.mod_eq_of_lt hi]

/-- Byte `i` of a written region. -/
theorem blit_at (m : Mem) (a : BitVec 64) (src : Nat → BitVec 8) {n i : Nat} (hn : n < 2 ^ 64)
    (hi : i < n) : blit m a n src (a + BitVec.ofNat 64 i) = src i := by
  have hd := distance_sub a 0#64 (i := i) (by omega)
  rw [BitVec.add_zero, BitVec.toNat_zero] at hd
  have hdi : (a + BitVec.ofNat 64 i - a).toNat = i := by omega
  rw [blit_inside (by omega), hdi]

/-- A write at a distance from the start of an array. -/
theorem blit_ofNat {m : Mem} {x y n : Nat} {src : Nat → BitVec 8} (hx : x < 2 ^ 64) (hy : y + n ≤ 2 ^ 64) :
    blit m (BitVec.ofNat 64 y) n src (BitVec.ofNat 64 x) =
      if y ≤ x ∧ x < y + n then src (x - y) else m (BitVec.ofNat 64 x) := by
  have hd : n ≠ 0 → (BitVec.ofNat 64 x - BitVec.ofNat 64 y).toNat = (2 ^ 64 - y + x) % 2 ^ 64 := by
    intro hn
    have hlt : y < 2 ^ 64 := by omega
    rw [BitVec.toNat_sub, BitVec.toNat_ofNat, BitVec.toNat_ofNat, Nat.mod_eq_of_lt hx, Nat.mod_eq_of_lt hlt]
  by_cases hin : y ≤ x ∧ x < y + n
  · have hplace : (BitVec.ofNat 64 x - BitVec.ofNat 64 y).toNat = x - y := by
      rw [hd (by omega)]
      omega
    rw [if_pos hin, blit_inside (by omega), hplace]
  · rw [if_neg hin]
    refine blit_outside ?_
    by_cases hn : n = 0
    · omega
    · rw [hd hn]
      omega

theorem fill_at (m : Mem) (a : BitVec 64) (c : BitVec 8) {n i : Nat} (hn : n < 2 ^ 64) (hi : i < n) :
    fill m a n c (a + BitVec.ofNat 64 i) = c := blit_at m a (fun _ => c) hn hi

/-- A region that was filled and then written in part. -/
theorem blit_fill_at (m : Mem) (a o : BitVec 64) (c : BitVec 8) (src : Nat → BitVec 8) {n N i : Nat}
    (hN : N < 2 ^ 64) (hn : o.toNat + n ≤ N) (hi : i < N) :
    blit (fill m a N c) (a + o) n src (a + BitVec.ofNat 64 i) =
      if o.toNat ≤ i ∧ i < o.toNat + n then src (i - o.toNat) else c := by
  have hd := distance_sub a o (i := i) (by omega)
  by_cases hin : o.toNat ≤ i ∧ i < o.toNat + n
  · have hd' : (a + BitVec.ofNat 64 i - (a + o)).toNat = i - o.toNat := by omega
    rw [if_pos hin, blit_inside (by omega), hd']
  · rw [if_neg hin, blit_outside (by omega), fill_at m a c hN hi]

/-- A word depends only on its eight bytes. -/
theorem load64_congr {m m' : Mem} {a : BitVec 64}
    (h : ∀ i : Nat, i < 8 → m' (a + BitVec.ofNat 64 i) = m (a + BitVec.ofNat 64 i)) :
    load64 m' a = load64 m a := by
  have h0 : m' a = m a := by simpa using h 0 (by decide)
  simp only [load64, h0, h 1 (by decide), h 2 (by decide), h 3 (by decide), h 4 (by decide),
    h 5 (by decide), h 6 (by decide), h 7 (by decide)]

theorem extract_append {w : Nat} (v : BitVec w) (s n k : Nat) :
    v.extractLsb' (s + n) k ++ v.extractLsb' s n = v.extractLsb' s (k + n) := by
  apply BitVec.eq_of_getLsbD_eq
  intro i hi
  rw [BitVec.getLsbD_append, BitVec.getLsbD_extractLsb', BitVec.getLsbD_extractLsb',
    BitVec.getLsbD_extractLsb']
  split
  · simp_all
  · have hs : s + n + (i - n) = s + i := by omega
    have hk : i - n < k := by omega
    simp_all

/-- The parts of a word are determined by it. -/
theorem append_inj {n k : Nat} {a a' : BitVec n} {b b' : BitVec k} (h : a ++ b = a' ++ b') : a = a' ∧ b = b' := by
  constructor
  · refine BitVec.eq_of_getLsbD_eq fun i hi => ?_
    have hbit := congrArg (·.getLsbD (k + i)) h
    have hout : ¬k + i < k := by omega
    simpa only [BitVec.getLsbD_append, if_neg hout, Nat.add_sub_cancel_left] using hbit
  · refine BitVec.eq_of_getLsbD_eq fun i hi => ?_
    have hbit := congrArg (·.getLsbD i) h
    simpa only [BitVec.getLsbD_append, if_pos hi] using hbit

/-- The eight bytes of a word put it together again. -/
theorem bytes_append (v : BitVec 64) :
    byteOf v 7 ++ byteOf v 6 ++ byteOf v 5 ++ byteOf v 4 ++ byteOf v 3 ++ byteOf v 2 ++
      byteOf v 1 ++ byteOf v 0 = v := by
  unfold byteOf
  rw [extract_append v 48 8 8, extract_append v 40 8 16, extract_append v 32 8 24,
    extract_append v 24 8 32, extract_append v 16 8 40, extract_append v 8 8 48,
    extract_append v 0 8 56]
  exact BitVec.extractLsb'_eq_self

/-- A stored word reads back. -/
theorem load64_store64 (m : Mem) (a v : BitVec 64) : load64 (store64 m a v) a = v := by
  have hb : ∀ i : Nat, i < 8 → store64 m a v (a + BitVec.ofNat 64 i) = byteOf v i := by
    intro i hi
    have hd : (a + BitVec.ofNat 64 i - a).toNat = i := by
      rw [distance_add (by simp; omega)]
      simp
    rw [store64, blit_inside (by omega), hd]
  have h0 : store64 m a v a = byteOf v 0 := by simpa using hb 0 (by decide)
  rw [load64, h0, hb 1 (by decide), hb 2 (by decide), hb 3 (by decide), hb 4 (by decide),
    hb 5 (by decide), hb 6 (by decide), hb 7 (by decide), bytes_append]

/-- A word outside the written region keeps its value. -/
theorem load64_blit_outside {m : Mem} {a b : BitVec 64} {n : Nat} {src : Nat → BitVec 8}
    (h : n ≤ (a - b).toNat) (hw : (a - b).toNat + 8 ≤ 2 ^ 64) :
    load64 (blit m b n src) a = load64 m a := by
  apply load64_congr
  intro i hi
  exact blit_outside (by rw [distance_add (by omega)]; omega)

theorem load64_store64_outside {m : Mem} {a b v : BitVec 64}
    (h : 8 ≤ (a - b).toNat) (hw : (a - b).toNat + 8 ≤ 2 ^ 64) :
    load64 (store64 m b v) a = load64 m a := load64_blit_outside h hw

/-- A word inside a zero-filled region is zero. -/
theorem load64_fill_zero {m : Mem} {a b : BitVec 64} {n : Nat}
    (h : (a - b).toNat + 8 ≤ n) (hw : (a - b).toNat + 8 ≤ 2 ^ 64) :
    load64 (fill m b n 0#8) a = 0#64 := by
  have hz : ∀ i : Nat, i < 8 → fill m b n 0#8 (a + BitVec.ofNat 64 i) = 0#8 := by
    intro i hi
    exact blit_inside (by rw [distance_add (by omega)]; omega)
  have h0 : fill m b n 0#8 a = 0#8 := by simpa using hz 0 (by decide)
  rw [load64, h0, hz 1 (by decide), hz 2 (by decide), hz 3 (by decide), hz 4 (by decide),
    hz 5 (by decide), hz 6 (by decide), hz 7 (by decide)]
  rfl

end ByteMem
