import Mathlib.Data.Nat.Basic

/-!
# Ranges cut into blocks

The numbers from `lo` to `hi`, in blocks of `size` numbers.  Block `i` has those from
`low size lo i` to `high size hi i`; a walk over the blocks from that of `lo` on
takes the range without a gap and without an overlap.
-/

namespace Blocks

variable {size lo hi i n : Nat}

/-- Where the range begins in block `i`. -/
def low (size lo i : Nat) : Nat := max lo (size * i)

/-- Where it ends in block `i`. -/
def high (size hi i : Nat) : Nat := min hi (size * (i + 1))

theorem le_low : lo ≤ low size lo i := Nat.le_max_left _ _

theorem mul_le_low : size * i ≤ low size lo i := Nat.le_max_right _ _

theorem high_le : high size hi i ≤ hi := Nat.min_le_left _ _

theorem high_le_mul : high size hi i ≤ size * i + size := by
  rw [← Nat.mul_succ]
  exact Nat.min_le_right _ _

/-- The range begins in the block of its first number. -/
theorem low_first : low size lo (lo / size) = lo := Nat.max_eq_left (Nat.mul_div_le lo size)

/-- Later blocks are in the range from their start on. -/
theorem low_later (hpos : 0 < size) (h : lo / size < i) : low size lo i = size * i := by
  refine Nat.max_eq_right ?_
  have hlt := (Nat.div_lt_iff_lt_mul hpos).mp h
  rw [Nat.mul_comm]
  exact Nat.le_of_lt hlt

theorem low_lt_high (hpos : 0 < size) (hle : lo / size ≤ i) (hlo : lo < hi) (hin : size * i < hi) :
    low size lo i < high size hi i := by
  have hlt : lo < size * (i + 1) := by
    rw [Nat.mul_comm]
    exact (Nat.div_lt_iff_lt_mul hpos).mp (Nat.lt_succ_of_le hle)
  have hsucc : size * i < size * (i + 1) := Nat.mul_lt_mul_of_pos_left (Nat.lt_succ_self i) hpos
  exact Nat.max_lt.mpr ⟨Nat.lt_min.mpr ⟨hlo, hlt⟩, Nat.lt_min.mpr ⟨hin, hsucc⟩⟩

/-- Block `i + 1` goes on where block `i` ends. -/
theorem low_succ (hpos : 0 < size) (hle : lo / size ≤ i) (hmore : size * (i + 1) < hi) :
    low size lo (i + 1) = high size hi i := by
  rw [low_later hpos (Nat.lt_succ_of_le hle)]
  exact (Nat.min_eq_right (Nat.le_of_lt hmore)).symm

/-- The block that has a number of the range, and the place of the number in it. -/
theorem place (hn : low size lo i ≤ n) (hlt : n < high size hi i) :
    n / size = i ∧ n % size = n - size * i := by
  have hfrom : size * i ≤ n := Nat.le_trans mul_le_low hn
  have hto : n < size * i + size := Nat.lt_of_lt_of_le hlt high_le_mul
  have hdiv : n / size = i := Nat.div_eq_of_lt_le (by rwa [Nat.mul_comm]) (by rwa [Nat.mul_comm, Nat.mul_succ])
  refine ⟨hdiv, ?_⟩
  rw [Nat.mod_eq_sub_mul_div, hdiv]

end Blocks
