import Mathlib.Data.List.Induction
import PpoOS.Lib.FrontBuf

/-!
# Reversal in place

Two places that move towards each other and exchange their bytes until they meet or cross
(`Buf.reverseFrom`) reverse the range between them (`bytes_reverseFrom`).
-/

namespace Buf

variable {n : Nat} {b : Buf n} {i j : Nat} {x y : BitVec 8} {pre l post : List (BitVec 8)}

/-- The bytes at two places are exchanged. -/
def swap (b : Buf n) (i j : Nat) : Option (Buf n) := do
  let x ← b.bytes[i]?
  let y ← b.bytes[j]?
  (← b.write i y).write j x

/-- `while (start < end) { swap; start++; end--; }` -/
def reverseFrom (b : Buf n) (start stop : Nat) : Option (Buf n) :=
  if start < stop then (b.swap start stop).bind fun b => b.reverseFrom (start + 1) (stop - 1) else some b
termination_by stop - start

theorem swap_eq (h : b.bytes = pre ++ x :: (l ++ y :: post)) :
    ∃ b', b.swap pre.length (pre.length + l.length + 1) = some b' ∧ b'.bytes = pre ++ y :: (l ++ x :: post) := by
  have hlen : pre.length + l.length + 1 < n := by
    have hsum := congrArg List.length h
    rw [b.length_eq] at hsum
    simp only [List.length_append, List.length_cons] at hsum
    omega
  have hstop : pre.length + l.length + 1 - pre.length = l.length + 1 := by omega
  have hx : b.bytes[pre.length]? = some x := by
    rw [h, List.getElem?_append_right (Nat.le_refl _), Nat.sub_self, List.getElem?_cons_zero]
  have hy : b.bytes[pre.length + l.length + 1]? = some y := by
    rw [h, List.getElem?_append_right (by omega), hstop, List.getElem?_cons_succ,
      List.getElem?_append_right (Nat.le_refl _), Nat.sub_self, List.getElem?_cons_zero]
  -- the byte in front is replaced first
  have hfront : b.bytes.set pre.length y = pre ++ y :: (l ++ y :: post) := by
    rw [h, List.set_append_right _ _ (Nat.le_refl _), Nat.sub_self, List.set_cons_zero]
  have hback : (pre ++ y :: (l ++ y :: post)).set (pre.length + l.length + 1) x = pre ++ y :: (l ++ x :: post) := by
    rw [List.set_append_right _ _ (by omega), hstop, List.set_cons_succ,
      List.set_append_right _ _ (Nat.le_refl _), Nat.sub_self, List.set_cons_zero]
  obtain ⟨b₁, h₁⟩ : ∃ b₁, b.write pre.length y = some b₁ := ⟨_, if_pos (by omega)⟩
  have hb₁ := (write_some_iff.mp h₁).2.trans hfront
  refine ⟨⟨b₁.bytes.set (pre.length + l.length + 1) x, by simp [b₁.length_eq]⟩, ?_, by rw [← hback, ← hb₁]⟩
  rw [swap, hx, hy]
  simp only [Option.bind_eq_bind, Option.bind_some, h₁]
  exact write_some_iff.mpr ⟨hlen, rfl⟩

/-- The range between the two places is reversed, and nothing else changes. -/
theorem bytes_reverseFrom (h : b.bytes = pre ++ l ++ post) :
    ∃ b', b.reverseFrom pre.length (pre.length + l.length - 1) = some b' ∧ b'.bytes = pre ++ l.reverse ++ post := by
  induction l using List.bidirectionalRec generalizing b pre post with
  | nil =>
    rw [reverseFrom, if_neg (by simp)]
    exact ⟨b, rfl, h⟩
  | singleton x =>
    rw [reverseFrom, if_neg (by simp)]
    exact ⟨b, rfl, h⟩
  | cons_append x l y ih =>
    have hsplit : b.bytes = pre ++ x :: (l ++ y :: post) := by simpa using h
    have hstop : pre.length + (x :: (l ++ [y])).length - 1 = pre.length + l.length + 1 := by
      simp only [List.length_cons, List.length_append, List.length_nil]
      omega
    obtain ⟨b₁, h₁, hb₁⟩ := swap_eq hsplit
    obtain ⟨b₂, h₂, hb₂⟩ := @ih b₁ (pre ++ [y]) (x :: post) (by simp [hb₁])
    have hnext : (pre ++ [y]).length + l.length - 1 = pre.length + l.length + 1 - 1 := by
      simp only [List.length_append, List.length_singleton]
      omega
    rw [hnext, List.length_append, List.length_singleton] at h₂
    rw [hstop, reverseFrom, if_pos (by omega), h₁, Option.bind_some]
    exact ⟨b₂, h₂, by simpa using hb₂⟩

/-- Bytes at the front of the array. -/
theorem reverseFrom_overlay (h : (l ++ post).length ≤ n) :
    (b.overlay (l ++ post)).reverseFrom 0 (l.length - 1) = some (b.overlay (l.reverse ++ post)) := by
  have hrev : (l.reverse ++ post).length = (l ++ post).length := by simp
  have hsplit : (b.overlay (l ++ post)).bytes = [] ++ l ++ (post ++ b.bytes.drop (l ++ post).length) := by
    rw [bytes_overlay h, List.nil_append, List.append_assoc]
  obtain ⟨b', hb, hbytes⟩ := bytes_reverseFrom hsplit
  rw [List.length_nil, Nat.zero_add] at hb
  rw [hb, Option.some.injEq, Buf.ext_iff, hbytes, bytes_overlay (by omega), hrev, List.nil_append, List.append_assoc]

/-- One more byte goes behind them before they are reversed. -/
theorem write_reverse (h : l.length < n) (c : BitVec 8) :
    (((b.overlay l).write l.length c).bind fun b => b.reverseFrom 0 (l.length - 1)) =
      some (b.overlay (l.reverse ++ [c])) := by
  rw [write_overlay h, Option.bind_some]
  exact reverseFrom_overlay (by rw [List.length_append]; exact h)

end Buf
