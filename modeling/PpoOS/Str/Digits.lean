import PpoOS.Lib.Numeral
import PpoOS.Lib.Reverse
import PpoOS.Mm.Paging

/-!
# Digits of numbers

`decText` and `hexText` are what a number is printed as.  Where a loop divides a number until
nothing is left and stores a character for each remainder (`digitLoop`), it stores the numeral of
the number backwards.
-/

namespace PpoOS

open Numeral

def charByte (c : Char) : U8 := BitVec.ofNat 8 c.toNat

/-- `"0123456789abcdef"` -/
def hexTable : List U8 :=
  ['0', '1', '2', '3', '4', '5', '6', '7', '8', '9', 'a', 'b', 'c', 'd', 'e', 'f'].map fun c => BitVec.ofNat 8 c.toNat

/-- `"0123456789abcdef"[d]` -/
def digitByte (d : Nat) : U8 := hexTable.getD d 0#8

/-- A number in decimal, with `-` for a negative one. -/
def decText (num : BitVec 32) : List U8 :=
  (if num.toInt < 0 then [0x2D#8] else []) ++ (Nat.toDigits 10 num.toInt.natAbs).map charByte

/-- A number in hexadecimal. -/
def hexText (num : BitVec 32) : List U8 := (Nat.toDigits 16 num.toNat).map charByte

/-- What a digit stands for; 16 for a character that is no digit. -/
def digitVal (c : U8) : Nat := hexTable.idxOf c

theorem digitVal_digitByte : ∀ d < 16, digitVal (digitByte d) = d := by decide

theorem digitByte_digitVal {c : U8} (h : digitVal c < 16) : digitByte (digitVal c) = c := by
  have hlt : hexTable.idxOf c < hexTable.length := h
  rw [digitByte, digitVal, List.getD_eq_getElem?_getD, List.getElem?_eq_getElem hlt, Option.getD_some, List.getElem_idxOf]

theorem digitByte_eq : ∀ d < 16, charByte (Nat.digitChar d) = digitByte d := by decide

theorem digitByte_ne_zero : ∀ d < 16, digitByte d ≠ 0#8 := by decide

theorem charByte_toDigits {base : Nat} (hb : 1 < base) (hle : base ≤ 16) (v : Nat) :
    (Nat.toDigits base v).map charByte = numeral digitByte base v :=
  toDigits_map charByte hb (fun d hd => digitByte_eq d (by omega)) v

theorem spells_iff_numeral {base v : Nat} {s : List U8} (hb : 1 < base) (hle : base ≤ 16) :
    Spells digitVal base v s ↔ s = numeral digitByte base v :=
  spells_iff hb (fun _ hc => digitByte_digitVal (Nat.lt_of_lt_of_le hc hle))
    fun d hd => digitVal_digitByte d (Nat.lt_of_lt_of_le hd hle)

/-! ## The loop -/

variable {w n : Nat} {b : Buf n} {l : List U8}

/-- Zero, which no loop prints. -/
theorem write_zero_digit (h : 1 < n) : (do (← b.write 0 0x30#8).write 1 0#8) = some (b.overlay [0x30#8, 0#8]) := by
  have h0 : b.write 0 0x30#8 = some (b.overlay [0x30#8]) := by
    have hput := Buf.write_overlay (b := b) (l := []) (by simp only [List.length_nil]; omega) 0x30#8
    rwa [Buf.overlay_nil] at hput
  rw [h0]
  exact Buf.write_overlay (l := [0x30#8]) h 0#8

variable {digit : BitVec w → U8} {next : BitVec w → BitVec w}

/-- `while (value != 0) { *ptr++ = digit(value); value = next(value); }`: the array and `ptr`, where `fuel` tests
are enough. -/
def digitLoop (digit : BitVec w → U8) (next : BitVec w → BitVec w) :
    Nat → BitVec w → Buf n → Nat → Option (Buf n × Nat)
  | 0, _, _, _ => none
  | fuel + 1, value, b, ptr =>
    if value = 0#w then some (b, ptr)
    else (b.write ptr (digit value)).bind fun b => digitLoop digit next fuel (next value) b (ptr + 1)

/-- On the values of `dom`, which stand for the numbers `val`, the loop divides by `base` and has `char` for each
remainder. -/
structure Divides (digit : BitVec w → U8) (next : BitVec w → BitVec w) (dom : BitVec w → Prop) (val : BitVec w → Nat)
    (base : Nat) (char : Nat → U8) : Prop where
  one_lt : 1 < base
  zero : ∀ v, val v = 0 ↔ v = 0#w
  dom_next : ∀ v, dom v → dom (next v)
  val_next : ∀ v, dom v → val (next v) = val v / base
  digit_eq : ∀ v, dom v → digit v = char (val v % base)

variable {dom : BitVec w → Prop} {val : BitVec w → Nat} {base : Nat} {char : Nat → U8}

/-- The remainders are stored behind what was there. -/
theorem Divides.writes (h : Divides digit next dom val base char) {fuel : Nat} {v : BitVec w} (hv : dom v)
    (h0 : val v ≠ 0) (hfuel : val v < base ^ fuel) (hfit : l.length + (numeral char base (val v)).length ≤ n) :
    digitLoop digit next (fuel + 1) v (b.overlay l) l.length =
      some (b.overlay (l ++ (numeral char base (val v)).reverse), l.length + (numeral char base (val v)).length) := by
  induction fuel generalizing v l with
  | zero => exact absurd hfuel (by rw [Nat.pow_zero]; omega)
  | succ fuel ih =>
    have hlen : (l ++ [char (val v % base)]).length = l.length + 1 := by simp
    have hpos : 0 < (numeral char base (val v)).length := length_numeral_pos char base (val v)
    rw [digitLoop, if_neg (mt (h.zero v).mpr h0), h.digit_eq v hv, Buf.write_overlay (by omega), Option.bind_some]
    rcases Nat.lt_or_ge (val v) base with hlt | hge
    · -- the last digit
      have hdone : next v = 0#w := (h.zero _).mp (by rw [h.val_next v hv, Nat.div_eq_of_lt hlt])
      rw [digitLoop, if_pos hdone, numeral_of_lt _ hlt, Nat.mod_eq_of_lt hlt]
      rfl
    · have hquot : val (next v) < base ^ fuel := by
        rw [h.val_next v hv]
        exact Nat.div_lt_of_lt_mul (by rwa [← Nat.pow_succ'])
      have hne : val (next v) ≠ 0 := by
        rw [h.val_next v hv]
        exact Nat.ne_of_gt (Nat.div_pos hge (Nat.lt_trans Nat.zero_lt_one h.one_lt))
      rw [numeral_step _ h.one_lt hge, List.length_append, List.length_singleton] at hfit ⊢
      have hrest := ih (h.dom_next v hv) hne hquot (l := l ++ [char (val v % base)]) (by rw [h.val_next v hv]; omega)
      rw [hlen, h.val_next v hv] at hrest
      rw [hrest, List.reverse_append, List.append_assoc, Nat.add_assoc l.length 1, Nat.add_comm 1]
      rfl

end PpoOS
