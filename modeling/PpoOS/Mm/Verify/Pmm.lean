import PpoOS.Mm.Pmm
import Mathlib.Data.Finset.Card

/-!
# The frame allocator hands out free frames

* **The bitmap** is a set of frames: setting and clearing a bit change that frame alone.
* **The scan** finds a free frame whenever there is one (`pmmAllocFrame_cases`): it visits every
  frame once, in an order rotated by the start index.
* **Counting**: an allocation takes one frame out of the finite set of free ones.
-/

namespace PpoOS

/-! ## The bitmap -/

theorem pmmBitmapTest_eq (bitmap : Bitmap) (bit : Nat) :
    pmmBitmapTest bitmap bit = (bitmap (bit / 8)).getLsbD (bit % 8) := by
  have h8 : bit % 8 < 8 := Nat.mod_lt _ (by omega)
  have hz : BitVec.twoPow 8 (bit % 8) ≠ 0#8 := by
    intro hc
    have := congrArg (BitVec.getLsbD · (bit % 8)) hc
    simp [h8] at this
  rw [pmmBitmapTest, ← BitVec.twoPow_eq, BitVec.and_twoPow]
  split <;> simp_all

theorem pmmBitmapTest_set (bitmap : Bitmap) (i j : Nat) :
    pmmBitmapTest (pmmBitmapSet bitmap i) j = (decide (j = i) || pmmBitmapTest bitmap j) := by
  have h8 : j % 8 < 8 := Nat.mod_lt _ (by omega)
  rw [pmmBitmapTest_eq, pmmBitmapTest_eq, pmmBitmapSet, ← BitVec.twoPow_eq]
  by_cases hb : j / 8 = i / 8
  · have hij : j = i ↔ i % 8 = j % 8 := by omega
    simp [hb, hij, h8, Bool.or_comm, eq_comm]
  · have hij : j ≠ i := fun h => hb (by rw [h])
    simp [hb, hij]

theorem pmmBitmapTest_unset (bitmap : Bitmap) (i j : Nat) :
    pmmBitmapTest (pmmBitmapUnset bitmap i) j = (!decide (j = i) && pmmBitmapTest bitmap j) := by
  have h8 : j % 8 < 8 := Nat.mod_lt _ (by omega)
  rw [pmmBitmapTest_eq, pmmBitmapTest_eq, pmmBitmapUnset, ← BitVec.twoPow_eq]
  by_cases hb : j / 8 = i / 8
  · have hij : j = i ↔ i % 8 = j % 8 := by omega
    simp [hb, hij, h8, Bool.and_comm, eq_comm]
  · have hij : j ≠ i := fun h => hb (by rw [h])
    simp [hb, hij]

/-! ## The scan -/

theorem pmmScan_some {p : Pmm} (h : 0 < p.maxBits) {n i : Nat} {c : Fin p.maxBits}
    (hc : pmmScan p h n i = some c) : p.Free c := by
  induction n generalizing i with
  | zero => cases hc
  | succ n ih =>
    rw [pmmScan] at hc
    split at hc
    · exact ih hc
    · next hlow =>
      split at hc
      · next hbit =>
        cases hc
        exact ⟨by omega, Fin.isLt _, by simpa [Pmm.used] using hbit⟩
      · exact ih hc

theorem pmmScan_none {p : Pmm} (h : 0 < p.maxBits) {n i j : Nat}
    (hs : pmmScan p h n i = none) (hij : i ≤ j) (hjn : j < i + n) :
    ¬p.Free ((p.lastAllocIndex + j) % p.maxBits) := by
  induction n generalizing i with
  | zero => omega
  | succ n ih =>
    rw [pmmScan] at hs
    by_cases hj : j = i
    · subst hj
      intro hfree
      have hlow : ¬(p.lastAllocIndex + j) % p.maxBits * 4096 < 0x100000 := by
        have := hfree.1
        omega
      have hbit : pmmBitmapTest p.bitmap ((p.lastAllocIndex + j) % p.maxBits) = false := hfree.2.2
      simp [hlow, hbit] at hs
    · split at hs
      · exact ih hs (by omega) (by omega)
      · split at hs
        · cases hs
        · exact ih hs (by omega) (by omega)

/-- Every frame is visited: it is the start index plus some number of iterations. -/
theorem exists_rotation (start : Nat) {n f : Nat} (hf : f < n) : ∃ j, j < n ∧ (start + j) % n = f := by
  have hn : 0 < n := by omega
  refine ⟨(f + (n - start % n)) % n, Nat.mod_lt _ hn, ?_⟩
  have hs : start % n < n := Nat.mod_lt _ hn
  have hdiv := Nat.div_add_mod start n
  have hsum : start + (f + (n - start % n)) = f + n * (start / n) + n := by omega
  rw [Nat.add_mod_mod, hsum, Nat.add_mod_right, Nat.add_mul_mod_self_left, Nat.mod_eq_of_lt hf]

/-! ## Allocation and release -/

namespace Pmm

theorem Free.lt_maxBits {p : Pmm} {f : Nat} (h : p.Free f) : f < p.maxBits := h.2.1

theorem maxBits_le (p : Pmm) : p.maxBits ≤ 2 ^ 20 := by
  have h := p.highest_le
  rw [pmmMaxPhysAddr_eq] at h
  unfold maxBits
  omega

theorem Free.lt {p : Pmm} {f : Nat} (h : p.Free f) : f < 2 ^ 20 :=
  Nat.lt_of_lt_of_le h.lt_maxBits p.maxBits_le

theorem Free.pos {p : Pmm} {f : Nat} (h : p.Free f) : 0 < f := by
  have := h.1
  omega

end Pmm

/-- Everything an allocation can do: hand out a frame that was free and mark it, or find that no
frame is free and change nothing. -/
theorem pmmAllocFrame_cases (p : Pmm) :
    (∃ f p', p.Free f ∧ pmmAllocFrame p = (frameAddr f, p') ∧ p'.maxBits = p.maxBits ∧
      ∀ g, p'.used g = (decide (g = f) || p.used g)) ∨
    ((∀ f, ¬p.Free f) ∧ pmmAllocFrame p = (0#64, p)) := by
  unfold pmmAllocFrame
  by_cases h : 0 < p.maxBits
  · cases hs : pmmScan p h p.maxBits 0 with
    | some c =>
      refine Or.inl ⟨c, pmmTake p c, pmmScan_some h hs, by rw [dif_pos h, hs], rfl, ?_⟩
      intro g
      exact pmmBitmapTest_set _ _ _
    | none =>
      refine Or.inr ⟨?_, by rw [dif_pos h, hs]⟩
      intro f hf
      obtain ⟨j, hj, rfl⟩ := exists_rotation p.lastAllocIndex hf.lt_maxBits
      exact pmmScan_none h hs (Nat.zero_le j) (by omega) hf
  · refine Or.inr ⟨?_, by rw [dif_neg h]⟩
    intro f hf
    have := hf.lt_maxBits
    omega

@[simp] theorem pmmFreeFrame_maxBits (a : U64) (p : Pmm) :
    (pmmFreeFrame a p).maxBits = p.maxBits := by
  unfold pmmFreeFrame
  split
  · rfl
  · dsimp only
    split <;> rfl

/-- Freeing a managed frame clears its bit; every other argument is refused. -/
theorem pmmFreeFrame_used (a : U64) (p : Pmm) (g : Nat) :
    (pmmFreeFrame a p).used g =
      (!decide (a.toNat % 4096 = 0 ∧ g = a.toNat / 4096 ∧ g < p.maxBits) && p.used g) := by
  obtain ⟨n, hn⟩ := p.highest_aligned
  have hmax : p.maxBits = n := by unfold Pmm.maxBits; omega
  unfold pmmFreeFrame
  by_cases ha : a.toNat % 4096 = 0
  · by_cases hr : a.toNat / 4096 * 4096 ≥ p.highestAddress
    · have hg : ¬(g = a.toNat / 4096 ∧ g < p.maxBits) := by omega
      simp [ha, hr, hg]
    · have hg : a.toNat / 4096 < p.maxBits := by omega
      simp only [ha, hr, Pmm.used, pmmBitmapTest_unset, ne_eq, not_true_eq_false, if_false]
      by_cases hga : g = a.toNat / 4096
      · simp [hga, hg]
      · simp [hga]
  · simp [ha]

/-- Freeing touches one frame only. -/
theorem pmmFreeFrame_other {a : U64} {p : Pmm} {g : Nat} (hg : g ≠ frameOf a) :
    (pmmFreeFrame a p).used g = p.used g := by
  have hne : ¬(a.toNat % 4096 = 0 ∧ g = a.toNat / 4096 ∧ g < p.maxBits) := fun hc => hg hc.2.1
  rw [pmmFreeFrame_used, decide_eq_false hne, Bool.not_false, Bool.true_and]

theorem pmmFreeFrame_free_other {a : U64} {p : Pmm} {g : Nat} (hg : g ≠ frameOf a) :
    (pmmFreeFrame a p).Free g ↔ p.Free g := by
  rw [Pmm.Free, Pmm.Free, pmmFreeFrame_maxBits, pmmFreeFrame_other hg]

/-! ## Counting the free frames -/

namespace Pmm

/-- The frames `pmm_alloc_frame` can still hand out. -/
def freeFrames (p : Pmm) : Finset Nat := (Finset.range p.maxBits).filter p.Free

def freeCount (p : Pmm) : Nat := p.freeFrames.card

theorem mem_freeFrames {p : Pmm} {f : Nat} : f ∈ p.freeFrames ↔ p.Free f := by
  rw [freeFrames, Finset.mem_filter, Finset.mem_range]
  exact ⟨fun h => h.2, fun h => ⟨h.lt_maxBits, h⟩⟩

theorem freeCount_eq_zero {p : Pmm} : p.freeCount = 0 ↔ ∀ f, ¬p.Free f := by
  rw [freeCount, Finset.card_eq_zero, Finset.eq_empty_iff_forall_notMem]
  exact forall_congr' fun f => not_congr mem_freeFrames

theorem freeCount_le (p : Pmm) : p.freeCount ≤ p.maxBits := by
  simpa [freeCount, freeFrames] using Finset.card_filter_le (Finset.range p.maxBits) p.Free

/-- Marking a free frame takes it, and nothing else, out of the free ones. -/
theorem free_of_marked {p p' : Pmm} {f : Nat} (hm : p'.maxBits = p.maxBits)
    (hu : ∀ g, p'.used g = (decide (g = f) || p.used g)) (g : Nat) :
    p'.Free g ↔ g ≠ f ∧ p.Free g := by
  unfold Free
  rw [hm, hu g]
  by_cases hg : g = f <;> simp [hg]

theorem freeCount_of_marked {p p' : Pmm} {f : Nat} (hf : p.Free f)
    (hm : p'.maxBits = p.maxBits) (hu : ∀ g, p'.used g = (decide (g = f) || p.used g)) :
    p'.freeCount + 1 = p.freeCount := by
  have hset : p'.freeFrames = p.freeFrames.erase f := by
    ext g
    rw [Finset.mem_erase, mem_freeFrames, mem_freeFrames, free_of_marked hm hu]
  rw [freeCount, hset]
  exact Finset.card_erase_add_one (mem_freeFrames.mpr hf)

end Pmm

end PpoOS
