import PpoOS.Lib.CString

/-!
# Arrays that are filled from the front

A writer that goes through an array from its front leaves what it has written, with what
was there before behind it: `b.overlay l`.  A writer that stops in time leaves the
first bytes of what it was given (`take_append_take`).
-/

namespace Buf

variable {n i m : Nat} {b : Buf n} {l l' : List (BitVec 8)} {s : CString}

/-- The array with its first bytes replaced. -/
def overlay (b : Buf n) (l : List (BitVec 8)) : Buf n := ⟨(l ++ b.bytes.drop l.length).take n, by simp [b.length_eq]; omega⟩

theorem bytes_overlay (h : l.length ≤ n) : (b.overlay l).bytes = l ++ b.bytes.drop l.length := by
  refine List.take_of_length_le ?_
  rw [List.length_append, List.length_drop, b.length_eq]
  omega

@[simp] theorem overlay_nil : b.overlay [] = b := by
  ext1
  simp [bytes_overlay]

/-- The next byte. -/
theorem write_overlay (h : l.length < n) (c : BitVec 8) : (b.overlay l).write l.length c = some (b.overlay (l ++ [c])) := by
  have hlen : (l ++ [c]).length = l.length + 1 := by simp
  rw [write_some_iff, bytes_overlay (Nat.le_of_lt h), bytes_overlay (by omega), hlen]
  refine ⟨h, ?_⟩
  have hlt : l.length < b.bytes.length := by rw [b.length_eq]; exact h
  have hdrop : b.bytes.drop l.length = b.bytes[l.length] :: b.bytes.drop (l.length + 1) := List.drop_eq_getElem_cons hlt
  rw [List.set_append_right _ _ (Nat.le_refl _), Nat.sub_self, hdrop, List.set_cons_zero, List.append_assoc]
  rfl

/-- There is no byte behind the last one. -/
theorem write_full (h : n ≤ i) (c : BitVec 8) : b.write i c = none := if_neg (Nat.not_lt.mpr h)

/-- A string and its NUL at the front are the text of the array. -/
theorem text_overlay (h : s.length < n) : (b.overlay (s.chars ++ [0#8])).text = some s := by
  unfold CString.length at h
  refine text_eq_some_iff.mpr ⟨b.bytes.drop (s.chars ++ [0#8]).length, ?_⟩
  rw [bytes_overlay (by simp; omega), List.append_assoc]
  rfl

end Buf

/-- Bytes that go behind a cut are cut together with them. -/
theorem List.take_append_take {α : Type*} (l l' : List α) (m : Nat) :
    (l.take m ++ l').take m = (l ++ l').take m := by
  rw [List.take_append, List.take_append, List.take_take, Nat.min_self, List.length_take]
  congr 2
  omega
