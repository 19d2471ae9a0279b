import Mathlib.Logic.Function.Basic
import PpoOS.Lib.ByteMem
import PpoOS.Mm.Paging
import PpoOS.Str.String

/-!
# `memmove` (`string.c`)

The source and the destination may overlap: a copy upwards from a source behind the
destination, and a copy downwards from one in front of it, never read a byte that was
overwritten.  `Moved` is what both loops keep: a range of the destination has the bytes
that the source had, and everything else is unchanged.  **`memmove_moves`** follows, and
that `memmoveFront` is `memmove` within an array.
-/

namespace PpoOS

open ByteMem

/-- `for (size_t i = 0; i < n; i++) pdest[i] = psrc[i]`, from `i` on with `left` steps to go. -/
def moveUp (pdest psrc : U64) : Nat → U64 → Mem → Mem
  | 0, _, m => m
  | left + 1, i, m => moveUp pdest psrc left (i + 1#64) (Function.update m (pdest + i) (m (psrc + i)))

/-- `for (size_t i = n; i > 0; i--) pdest[i-1] = psrc[i-1]` -/
def moveDown (pdest psrc : U64) : Nat → U64 → Mem → Mem
  | 0, _, m => m
  | left + 1, i, m =>
    moveDown pdest psrc left (i - 1#64) (Function.update m (pdest + (i - 1#64)) (m (psrc + (i - 1#64))))

/-- `memmove`; both loops make `n` steps. -/
def memmove (m : Mem) (dest src n : U64) : Mem :=
  if src > dest then moveUp dest src n.toNat 0#64 m
  else if src < dest then moveDown dest src n.toNat n m
  else m

/-! ## What is moved -/

/-- Bytes `lo` to `hi` of the destination are those that the source had in `m₀`, and nothing else has changed. -/
structure Moved (m₀ : Mem) (dest src : U64) (lo hi : Nat) (m : Mem) : Prop where
  copied : ∀ i, lo ≤ i → i < hi → m (dest + BitVec.ofNat 64 i) = m₀ (src + BitVec.ofNat 64 i)
  frame : ∀ a, (∀ i, lo ≤ i → i < hi → a ≠ dest + BitVec.ofNat 64 i) → m a = m₀ a

variable {m₀ m : Mem} {dest src : U64} {lo hi n i j : Nat}

namespace Moved

theorem start (m : Mem) (dest src : U64) (lo : Nat) : Moved m dest src lo lo m where
  copied _ hlo hhi := absurd (Nat.lt_of_le_of_lt hlo hhi) (Nat.lt_irrefl _)
  frame _ _ := rfl

/-- One more byte, at a place `j` of the source that the destination has not reached. -/
theorem step (h : Moved m₀ dest src lo hi m) (hj : j < 2 ^ 64) (hhi : hi ≤ 2 ^ 64)
    (hunread : ∀ i, lo ≤ i → i < hi → src + BitVec.ofNat 64 j ≠ dest + BitVec.ofNat 64 i) {lo' hi' : Nat}
    (hrange : ∀ i, lo' ≤ i ∧ i < hi' ↔ (lo ≤ i ∧ i < hi) ∨ i = j) :
    Moved m₀ dest src lo' hi'
      (Function.update m (dest + BitVec.ofNat 64 j) (m (src + BitVec.ofNat 64 j))) := by
  have hread : m (src + BitVec.ofNat 64 j) = m₀ (src + BitVec.ofNat 64 j) := h.frame _ hunread
  constructor
  · intro i hlo' hhi'
    by_cases heq : i = j
    · rw [heq, Function.update_self, hread]
    · have hold := ((hrange i).mp ⟨hlo', hhi'⟩).resolve_right heq
      have hne := mt (add_ofNat_inj (a := dest) (by omega) hj).mp heq
      rw [Function.update_of_ne hne]
      exact h.copied i hold.1 hold.2
  · intro a ha
    have hne : a ≠ dest + BitVec.ofNat 64 j := by
      have hin := (hrange j).mpr (.inr rfl)
      exact ha j hin.1 hin.2
    rw [Function.update_of_ne hne]
    refine h.frame a fun i hlo hhi => ?_
    have hin := (hrange i).mpr (.inl ⟨hlo, hhi⟩)
    exact ha i hin.1 hin.2

end Moved

/-! ## The two loops -/

section Loops

variable (hsrc : src.toNat + n ≤ 2 ^ 64) (hdest : dest.toNat + n ≤ 2 ^ 64)

include hsrc hdest

/-- Upwards, the bytes that are still to be read lie behind those that were written. -/
theorem moveUp_moved (hup : dest < src) (left : Nat) (h : Moved m₀ dest src 0 i m) (hi : i + left = n) :
    Moved m₀ dest src 0 n (moveUp dest src left (BitVec.ofNat 64 i) m) := by
  induction left generalizing i m with
  | zero =>
    obtain rfl : i = n := hi
    exact h
  | succ left ih =>
    have hnext : BitVec.ofNat 64 i + 1#64 = BitVec.ofNat 64 (i + 1) := (BitVec.ofNat_add i 1).symm
    have hunread : ∀ j, 0 ≤ j → j < i → src + BitVec.ofNat 64 i ≠ dest + BitVec.ofNat 64 j := by
      intro j _ hj heq
      have hnat := congrArg BitVec.toNat heq
      have hlt : dest.toNat < src.toNat := hup
      rw [toNat_add_ofNat (by omega), toNat_add_ofNat (by omega)] at hnat
      omega
    rw [moveUp, hnext]
    exact ih (h.step (by omega) (by omega) hunread fun j => by omega) (by omega)

/-- Downwards, they lie in front of them. -/
theorem moveDown_moved (hdown : src < dest) (left : Nat) (h : Moved m₀ dest src left n m) (hleft : left ≤ n)
    (hn : n < 2 ^ 64) :
    Moved m₀ dest src 0 n (moveDown dest src left (BitVec.ofNat 64 left) m) := by
  induction left generalizing m with
  | zero => exact h
  | succ left ih =>
    have hnext : BitVec.ofNat 64 (left + 1) - 1#64 = BitVec.ofNat 64 left := by
      rw [BitVec.ofNat_add, BitVec.add_sub_cancel]
    have hunread : ∀ j, left + 1 ≤ j → j < n → src + BitVec.ofNat 64 left ≠ dest + BitVec.ofNat 64 j := by
      intro j hj hjn heq
      have hnat := congrArg BitVec.toNat heq
      have hlt : src.toNat < dest.toNat := hdown
      rw [toNat_add_ofNat (by omega), toNat_add_ofNat (by omega)] at hnat
      omega
    rw [moveDown, hnext]
    exact ih (h.step (by omega) (by omega) hunread fun j => by omega) (by omega)

end Loops

theorem memmove_moved (m : Mem) (dest src n : U64) (hsrc : src.toNat + n.toNat ≤ 2 ^ 64)
    (hdest : dest.toNat + n.toNat ≤ 2 ^ 64) : Moved m dest src 0 n.toNat (memmove m dest src n) := by
  rw [memmove]
  by_cases hup : src > dest
  · rw [if_pos hup]
    exact moveUp_moved hsrc hdest hup n.toNat (Moved.start m dest src 0) (Nat.zero_add _)
  by_cases hdown : src < dest
  · have hrun := moveDown_moved hsrc hdest hdown n.toNat (Moved.start m dest src n.toNat) (Nat.le_refl _) n.isLt
    rw [BitVec.ofNat_toNat, BitVec.setWidth_eq] at hrun
    rw [if_neg hup, if_pos hdown]
    exact hrun
  · -- the ranges are the same
    obtain rfl : src = dest := BitVec.le_antisymm (BitVec.not_lt.mp hup) (BitVec.not_lt.mp hdown)
    rw [if_neg hup, if_neg hdown]
    exact ⟨fun _ _ _ => rfl, fun _ _ => rfl⟩

/-- **`memmove` handles every overlap.** -/
theorem memmove_moves (m : Mem) (dest src n : U64) (hsrc : src.toNat + n.toNat ≤ 2 ^ 64)
    (hdest : dest.toNat + n.toNat ≤ 2 ^ 64) :
    (∀ i < n.toNat, memmove m dest src n (dest + BitVec.ofNat 64 i) = m (src + BitVec.ofNat 64 i)) ∧
      ∀ a, (∀ i < n.toNat, a ≠ dest + BitVec.ofNat 64 i) → memmove m dest src n a = m a :=
  have hmoved := memmove_moved m dest src n hsrc hdest
  ⟨fun i hi => hmoved.copied i (Nat.zero_le i) hi, fun a ha => hmoved.frame a fun i _ hi => ha i hi⟩

/-- Five bytes move up by two, over three of their own. -/
theorem memmove_moves_overlap :
    (∀ i < 5, memmove (fun a => a.setWidth 8) 102#64 100#64 5#64 (102#64 + BitVec.ofNat 64 i) =
        (100#64 + BitVec.ofNat 64 i).setWidth 8) ∧
      ∀ a, (∀ i < 5, a ≠ 102#64 + BitVec.ofNat 64 i) →
        memmove (fun a => a.setWidth 8) 102#64 100#64 5#64 a = a.setWidth 8 :=
  memmove_moves (fun a => a.setWidth 8) 102#64 100#64 5#64 (by decide) (by decide)

/-! ## Within an array -/

/-- The bytes of an array are in the memory from `a` on. -/
def HoldsBuf (m : Mem) (a : U64) (b : Buf n) : Prop :=
  ∀ i < n, some (m (a + BitVec.ofNat 64 i)) = b.bytes[i]?

/-- `memmoveFront` is `memmove` from a place of the array to its front. -/
theorem memmoveFront_at {n start count : Nat} {b c : Buf n} {a : U64} (hfit : a.toNat + n ≤ 2 ^ 64) (hn : n < 2 ^ 64)
    (hat : HoldsBuf m a b) (hc : memmoveFront b start count = some c) :
    HoldsBuf (memmove m a (a + BitVec.ofNat 64 start) (BitVec.ofNat 64 count)) a c := by
  have hin : start + count ≤ n := by
    by_contra hout
    rw [memmoveFront, if_neg hout] at hc
    cases hc
  rw [memmoveFront, if_pos hin] at hc
  obtain ⟨-, hbytes⟩ := (Buf.put_some_iff (Nat.zero_le n)).mp hc
  have hcount : (BitVec.ofNat 64 count).toNat = count := Nat.mod_eq_of_lt (by omega)
  have hlen : ((b.bytes.drop start).take count).length = count := by
    rw [List.length_take, List.length_drop, b.length_eq]
    omega
  rw [hlen, Nat.zero_add, List.take_zero, List.nil_append] at hbytes
  have hmoved : Moved m a (a + BitVec.ofNat 64 start) 0 count
      (memmove m a (a + BitVec.ofNat 64 start) (BitVec.ofNat 64 count)) := by
    by_cases hpos : 0 < count
    · have hmove := memmove_moved m a (a + BitVec.ofNat 64 start) (BitVec.ofNat 64 count)
        (by rw [hcount, toNat_add_ofNat (by omega)]; omega) (by rw [hcount]; omega)
      rwa [hcount] at hmove
    · obtain rfl : count = 0 := by omega
      have hnone : memmove m a (a + BitVec.ofNat 64 start) 0#64 = m := by
        rw [memmove]
        split_ifs <;> rfl
      rw [hnone]
      exact Moved.start m a _ 0
  intro i hi
  rw [hbytes]
  by_cases hlt : i < count
  · rw [hmoved.copied i (Nat.zero_le i) hlt, BitVec.add_assoc, ← BitVec.ofNat_add, hat _ (by omega),
      List.getElem?_append_left (by omega), List.getElem?_take_of_lt hlt, List.getElem?_drop]
  · have hout : ∀ j, 0 ≤ j → j < count → a + BitVec.ofNat 64 i ≠ a + BitVec.ofNat 64 j := by
      intro j _ hj heq
      have hij := (add_ofNat_inj (by omega) (by omega)).mp heq
      omega
    rw [hmoved.frame _ hout, hat i hi, List.getElem?_append_right (by omega), hlen, List.getElem?_drop]
    congr 1
    omega

end PpoOS
