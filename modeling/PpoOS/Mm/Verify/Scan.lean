import PpoOS.Mm.Verify.Pmm

/-!
# The scan takes the first free frame

The scan of `pmm_alloc_frame` visits the managed frames in the cyclic order that
starts at the cursor: iteration `j` comes to the frame at distance `j`
(`scanDistance_rotation`).  It stops at the first one that is free
(`pmmScan_first`), so **`pmmAllocFrame_firstFree`**: an allocation fails only where
no frame is free, and else takes the free frame next to the cursor.
-/

namespace PpoOS

namespace Pmm

variable {p : Pmm} {f g : Nat}

/-- How many frames lie between the cursor and frame `f`, in cyclic order. -/
def scanDistance (p : Pmm) (f : Nat) : Nat := (f + p.maxBits - p.lastAllocIndex) % p.maxBits

/-- The first free frame in the cyclic order from the cursor. -/
structure FirstFree (p : Pmm) (f : Nat) : Prop where
  free : p.Free f
  first : ∀ g, p.Free g → g ≠ f → p.scanDistance f < p.scanDistance g

theorem cursor_le (p : Pmm) : p.lastAllocIndex ≤ p.maxBits := p.lastAllocIndex_le

/-- The distance of a frame behind the cursor, and of one before it. -/
theorem scanDistance_eq (hf : f < p.maxBits) :
    p.scanDistance f = if p.lastAllocIndex ≤ f then f - p.lastAllocIndex else f + p.maxBits - p.lastAllocIndex := by
  have hcursor := p.cursor_le
  unfold scanDistance
  split
  · next h =>
    have hsum : f + p.maxBits - p.lastAllocIndex = f - p.lastAllocIndex + p.maxBits := by omega
    rw [hsum, Nat.add_mod_right, Nat.mod_eq_of_lt (by omega)]
  · next h => rw [Nat.mod_eq_of_lt (by omega)]

theorem scanDistance_lt (hf : f < p.maxBits) : p.scanDistance f < p.maxBits :=
  Nat.mod_lt _ (Nat.zero_lt_of_lt hf)

/-- Frames are told apart by their distance. -/
theorem scanDistance_inj (hf : f < p.maxBits) (hg : g < p.maxBits) (h : p.scanDistance f = p.scanDistance g) :
    f = g := by
  have hcursor := p.cursor_le
  rw [scanDistance_eq hf, scanDistance_eq hg] at h
  split at h <;> split at h <;> omega

/-- The iteration whose number is its distance comes to a frame. -/
theorem rotation_scanDistance (hf : f < p.maxBits) :
    (p.lastAllocIndex + p.scanDistance f) % p.maxBits = f := by
  have hcursor := p.cursor_le
  rw [scanDistance_eq hf]
  split
  · next h => rw [Nat.add_sub_cancel' h, Nat.mod_eq_of_lt hf]
  · next h =>
    have hsum : p.lastAllocIndex + (f + p.maxBits - p.lastAllocIndex) = f + p.maxBits := by omega
    rw [hsum, Nat.add_mod_right, Nat.mod_eq_of_lt hf]

/-- Iteration `j` comes to the frame at distance `j`. -/
theorem scanDistance_rotation {j : Nat} (hj : j < p.maxBits) :
    p.scanDistance ((p.lastAllocIndex + j) % p.maxBits) = j := by
  have hcursor := p.cursor_le
  have hpos : 0 < p.maxBits := Nat.zero_lt_of_lt hj
  rw [scanDistance_eq (Nat.mod_lt _ hpos)]
  by_cases hwrap : p.lastAllocIndex + j < p.maxBits
  · rw [Nat.mod_eq_of_lt hwrap, if_pos (Nat.le_add_right _ _), Nat.add_sub_cancel_left]
  · rw [Nat.mod_eq_sub_mod (Nat.le_of_not_lt hwrap), Nat.mod_eq_of_lt (by omega)]
    split <;> omega

theorem not_free_iff : ¬p.Free f ↔ (256 ≤ f → f < p.maxBits → p.used f = true) := by
  constructor
  · intro h hlow hmax
    cases hu : p.used f with
    | true => rfl
    | false => exact absurd ⟨hlow, hmax, hu⟩ h
  · rintro h ⟨hlow, hmax, hu⟩
    rw [h hlow hmax] at hu
    cases hu

end Pmm

/-- The iteration that ends the scan: every one before it found no free frame. -/
theorem pmmScan_first {p : Pmm} (h : 0 < p.maxBits) {n i : Nat} {c : Fin p.maxBits}
    (hc : pmmScan p h n i = some c) : ∃ j, i ≤ j ∧ j < i + n ∧ c.val = (p.lastAllocIndex + j) % p.maxBits ∧
      ∀ j', i ≤ j' → j' < j → ¬p.Free ((p.lastAllocIndex + j') % p.maxBits) := by
  induction n generalizing i with
  | zero => cases hc
  | succ n ih =>
    have hmore : ¬p.Free ((p.lastAllocIndex + i) % p.maxBits) → pmmScan p h n (i + 1) = some c →
        ∃ j, i ≤ j ∧ j < i + (n + 1) ∧ c.val = (p.lastAllocIndex + j) % p.maxBits ∧
          ∀ j', i ≤ j' → j' < j → ¬p.Free ((p.lastAllocIndex + j') % p.maxBits) := by
      intro hi hs
      obtain ⟨j, hij, hjn, hcj, hbefore⟩ := ih hs
      refine ⟨j, by omega, by omega, hcj, fun j' hj' hlt => ?_⟩
      rcases Nat.eq_or_lt_of_le hj' with rfl | hj'
      · exact hi
      · exact hbefore j' hj' hlt
    rw [pmmScan] at hc
    split at hc
    · next hlow =>
      refine hmore (fun hf => ?_) hc
      have hge := hf.1
      dsimp only at hlow
      omega
    · split at hc
      · cases hc
        exact ⟨i, Nat.le_refl i, by omega, rfl, fun j' hj' hlt => absurd hlt (Nat.not_lt.mpr hj')⟩
      · next hused => exact hmore (fun hf => hused (by simpa [Pmm.used] using hf.2.2)) hc

/-- **The circular scan is complete.**  An allocation fails exactly where no frame from 1 MiB up to the
highest address is free, and changes nothing there.  Else it hands out the first free frame in cyclic order
from the cursor, sets the bit of that frame, and moves the cursor behind it. -/
theorem pmmAllocFrame_firstFree (p : Pmm) :
    ((pmmAllocFrame p).1 = 0#64 ↔ ∀ f, 256 ≤ f → f < p.highestAddress / 4096 → p.used f = true) ∧
    ((pmmAllocFrame p).1 = 0#64 → (pmmAllocFrame p).2 = p) ∧
    ((pmmAllocFrame p).1 ≠ 0#64 → ∃ f, p.FirstFree f ∧ (pmmAllocFrame p).1 = frameAddr f ∧
      (pmmAllocFrame p).2.lastAllocIndex = f + 1 ∧
      (pmmAllocFrame p).2.highestAddress = p.highestAddress ∧
      ∀ g, (pmmAllocFrame p).2.used g = (decide (g = f) || p.used g)) := by
  have hnone : (∀ f, ¬p.Free f) → pmmAllocFrame p = (0#64, p) := by
    intro hfree
    rcases pmmAllocFrame_cases p with ⟨f, _, hf, -⟩ | ⟨-, heq⟩
    · exact absurd hf (hfree f)
    · exact heq
  by_cases hpos : 0 < p.maxBits
  · cases hs : pmmScan p hpos p.maxBits 0 with
    | none =>
      have hfree : ∀ f, ¬p.Free f := by
        intro f hf
        have hdist := Pmm.scanDistance_lt hf.lt_maxBits
        have hnot := pmmScan_none hpos hs (Nat.zero_le (p.scanDistance f)) (by omega)
        rw [Pmm.rotation_scanDistance hf.lt_maxBits] at hnot
        exact hnot hf
      rw [hnone hfree]
      exact ⟨⟨fun _ f => Pmm.not_free_iff.mp (hfree f), fun _ => rfl⟩, fun _ => rfl, fun h => absurd rfl h⟩
    | some c =>
      have hfree := pmmScan_some hpos hs
      have halloc : pmmAllocFrame p = (frameAddr c, pmmTake p c) := by rw [pmmAllocFrame, dif_pos hpos, hs]
      have hne : frameAddr c ≠ 0#64 := frameAddr_ne_zero (by have := hfree.lt; omega) hfree.pos
      obtain ⟨j, -, hj, hcj, hbefore⟩ := pmmScan_first hpos hs
      have hdist : p.scanDistance c = j := by rw [hcj, Pmm.scanDistance_rotation (by omega)]
      rw [halloc]
      refine ⟨⟨fun h => absurd h hne, fun hall => absurd hfree (Pmm.not_free_iff.mpr (hall c))⟩,
        fun h => absurd h hne, fun _ => ⟨c, ⟨hfree, fun g hg hgc => ?_⟩, rfl, rfl, rfl, ?_⟩⟩
      · rw [hdist]
        refine Nat.lt_of_not_le fun hle => ?_
        rcases Nat.eq_or_lt_of_le hle with heq | hlt
        · exact hgc (Pmm.scanDistance_inj hg.lt_maxBits c.isLt (heq.trans hdist.symm))
        · have hnot := hbefore _ (Nat.zero_le _) hlt
          rw [Pmm.rotation_scanDistance hg.lt_maxBits] at hnot
          exact hnot hg
      · exact fun g => pmmBitmapTest_set _ _ _
  · have hfree : ∀ f, ¬p.Free f := fun f hf => hpos (Nat.zero_lt_of_lt hf.lt_maxBits)
    rw [hnone hfree]
    exact ⟨⟨fun _ f => Pmm.not_free_iff.mp (hfree f), fun _ => rfl⟩, fun _ => rfl, fun h => absurd rfl h⟩

end PpoOS
