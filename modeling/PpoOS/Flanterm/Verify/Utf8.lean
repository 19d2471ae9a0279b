import PpoOS.Flanterm.Verify.Parse

/-!
# Reading UTF-8

The bytes of a character in UTF-8 are put together to its code point (`utf8_run`): then its glyph is
printed, or a box as wide as the character where the font has no glyph for it.
-/

namespace PpoOS

open Front

/-- The code point is `v` so far, and `r` bytes are to come. -/
def decoding (t : FlantermContext) (r v : Nat) : FlantermContext :=
  { t with unicodeRemaining := r, codePoint := BitVec.ofNat 64 v }

/-! ## Bits -/

theorem ofNat_shiftLeft (b n : Nat) : BitVec.ofNat 64 b <<< n = BitVec.ofNat 64 (b * 2 ^ n) := by
  apply BitVec.eq_of_toNat_eq
  rw [BitVec.toNat_shiftLeft, BitVec.toNat_ofNat, BitVec.toNat_ofNat, Nat.shiftLeft_eq, Nat.mod_mul_mod]

theorem ofNat_or_low {a b n : Nat} (h : b < 2 ^ n) :
    BitVec.ofNat 64 (a * 2 ^ n) ||| BitVec.ofNat 64 b = BitVec.ofNat 64 (a * 2 ^ n + b) := by
  rw [← BitVec.ofNat_or, ← Nat.shiftLeft_eq, Nat.shiftLeft_add_eq_or_of_lt h]

theorem lead_bits : (∀ a < 32, (BitVec.ofNat 8 (a + 0xc0) &&& 0x1F#8).setWidth 64 = BitVec.ofNat 64 a) ∧
    (∀ a < 16, (BitVec.ofNat 8 (a + 0xe0) &&& 0x0F#8).setWidth 64 = BitVec.ofNat 64 a) ∧
    ∀ a < 8, (BitVec.ofNat 8 (a + 0xf0) &&& 0x07#8).setWidth 64 = BitVec.ofNat 64 a := by decide

theorem continuation_bits : ∀ b < 64, BitVec.ofNat 8 (b + 0x80) &&& 0xC0#8 = 0x80#8 ∧
    (BitVec.ofNat 8 (b + 0x80) &&& 0x3F#8).setWidth 64 = BitVec.ofNat 64 b := by decide

section Decoding

variable {t : FlantermContext}

/-- A first byte -/
theorem putchar_lead (ht : t.Text) {c : U8} (hc : 0xC0#8 ≤ c ∧ c ≤ 0xF7#8) (x y : Nat) :
    putchar c x y t = unicodeStart c t := by
  have hsame : { t with unicodeRemaining := 0 } = t := by rw [← ht.unicodeRemaining]
  have hne : ∀ d, d < 0xC0#8 → c ≠ d := by
    rintro d hd rfl
    exact absurd hc.1 (BitVec.not_le.mpr hd)
  change (if t.discardNext ∨ c = 0x18#8 ∨ c = 0x1A#8 then _
    else if t.unicodeRemaining ≠ 0 ∧ c &&& 0xC0#8 = 0x80#8 then unicodeContinue c else putByte c x y) t = _
  rw [if_neg (by rw [ht.discardNext]; simp [hne]), if_neg fun h => h.1 ht.unicodeRemaining]
  change (if 0xC0#8 ≤ c ∧ c ≤ 0xF7#8 then unicodeStart c else _) { t with unicodeRemaining := 0 } = _
  rw [if_pos hc, hsame]

/-- One more byte, where `a` has been read -/
theorem putchar_continuation (ht : t.Text) {r a b : Nat} (hb : b < 64) (x y : Nat) :
    putchar (BitVec.ofNat 8 (b + 0x80)) x y (decoding t (r + 1) (a * 64 ^ (r + 1))) =
      (if r ≠ 0 then pure () else putCodePoint (BitVec.ofNat 64 ((a * 64 + b) * 64 ^ r)))
        (decoding t r ((a * 64 + b) * 64 ^ r)) := by
  obtain ⟨htop, hlow⟩ := continuation_bits b hb
  have hcan : BitVec.ofNat 8 (b + 0x80) ≠ 0x18#8 ∧ BitVec.ofNat 8 (b + 0x80) ≠ 0x1A#8 := by
    constructor <;>
    · intro heq
      rw [heq] at htop
      exact absurd htop (by decide)
  have hcode : BitVec.ofNat 64 (a * 64 ^ (r + 1)) ||| (BitVec.ofNat 8 (b + 0x80) &&& 0x3F#8).setWidth 64 <<< (6 * r) =
      BitVec.ofNat 64 ((a * 64 + b) * 64 ^ r) := by
    have hpow : 64 ^ r = 2 ^ (6 * r) := by rw [Nat.pow_mul]
    have hpow' : 64 ^ (r + 1) = 2 ^ (6 * r + 6) := by rw [Nat.pow_succ, hpow, Nat.pow_add]
    have hlt : b * 2 ^ (6 * r) < 2 ^ (6 * r + 6) := by
      rw [Nat.pow_add, Nat.mul_comm]
      exact Nat.mul_lt_mul_of_pos_left hb (Nat.two_pow_pos _)
    rw [hlow, ofNat_shiftLeft, hpow', ofNat_or_low hlt, hpow, Nat.add_mul, Nat.mul_assoc a, Nat.pow_add,
      Nat.mul_comm (2 ^ (6 * r))]
  change (if t.discardNext ∨ BitVec.ofNat 8 (b + 0x80) = 0x18#8 ∨ BitVec.ofNat 8 (b + 0x80) = 0x1A#8 then _
    else if r + 1 ≠ 0 ∧ BitVec.ofNat 8 (b + 0x80) &&& 0xC0#8 = 0x80#8 then unicodeContinue (BitVec.ofNat 8 (b + 0x80))
    else _ : Front Unit) (decoding t (r + 1) (a * 64 ^ (r + 1))) = _
  rw [if_neg (by rw [ht.discardNext]; simp [hcan]), if_pos ⟨Nat.succ_ne_zero r, htop⟩]
  change (if r + 1 - 1 ≠ 0 then pure () else putCodePoint (BitVec.ofNat 64 (a * 64 ^ (r + 1)) |||
      (BitVec.ofNat 8 (b + 0x80) &&& 0x3F#8).setWidth 64 <<< (6 * (r + 1 - 1))) : Front Unit)
    { t with
      unicodeRemaining := r + 1 - 1
      codePoint := BitVec.ofNat 64 (a * 64 ^ (r + 1)) |||
        (BitVec.ofNat 8 (b + 0x80) &&& 0x3F#8).setWidth 64 <<< (6 * (r + 1 - 1)) } = _
  rw [Nat.add_sub_cancel, hcode]
  rfl

/-- All but the last one of the bytes that follow the first one -/
theorem reads_continuation (ht : t.Text) {r a b : Nat} (hb : b < 64) :
    Reads [BitVec.ofNat 8 (b + 0x80)] (decoding t (r + 2) (a * 64 ^ (r + 2)))
      (decoding t (r + 1) ((a * 64 + b) * 64 ^ (r + 1))) := by
  refine Reads.cons (fun x y => ?_) (Reads.nil _)
  rw [putchar_continuation ht hb, if_pos (Nat.succ_ne_zero r)]
  rfl

theorem reads_lead (ht : t.Text) {c : U8} {r a : Nat} (hc : 0xC0#8 ≤ c ∧ c ≤ 0xF7#8)
    (hstart : unicodeStart c t = ([], some ((), decoding t r (a * 64 ^ r)))) :
    Reads [c] t (decoding t r (a * 64 ^ r)) :=
  Reads.cons (fun x y => (putchar_lead ht hc x y).trans hstart) (Reads.nil _)

theorem unicodeStart_two {a : Nat} (ha : a < 32) :
    unicodeStart (BitVec.ofNat 8 (a + 0xc0)) t = ([], some ((), decoding t 1 (a * 64 ^ 1))) := by
  have hc : BitVec.ofNat 8 (a + 0xc0) ≤ 0xDF#8 := by bv_omega
  change ([], some ((), if BitVec.ofNat 8 (a + 0xc0) ≤ 0xDF#8 then _ else _)) = _
  rw [if_pos hc, lead_bits.1 a ha, ofNat_shiftLeft]
  rfl

theorem unicodeStart_three {a : Nat} (ha : a < 16) :
    unicodeStart (BitVec.ofNat 8 (a + 0xe0)) t = ([], some ((), decoding t 2 (a * 64 ^ 2))) := by
  have hc : ¬BitVec.ofNat 8 (a + 0xe0) ≤ 0xDF#8 := by bv_omega
  have hc' : BitVec.ofNat 8 (a + 0xe0) ≤ 0xEF#8 := by bv_omega
  change ([], some ((), if BitVec.ofNat 8 (a + 0xe0) ≤ 0xDF#8 then _ else if BitVec.ofNat 8 (a + 0xe0) ≤ 0xEF#8 then _
    else _)) = _
  rw [if_neg hc, if_pos hc', lead_bits.2.1 a ha, ofNat_shiftLeft]
  rfl

theorem unicodeStart_four {a : Nat} (ha : a < 8) :
    unicodeStart (BitVec.ofNat 8 (a + 0xf0)) t = ([], some ((), decoding t 3 (a * 64 ^ 3))) := by
  have hc : ¬BitVec.ofNat 8 (a + 0xf0) ≤ 0xDF#8 := by bv_omega
  have hc' : ¬BitVec.ofNat 8 (a + 0xf0) ≤ 0xEF#8 := by bv_omega
  change ([], some ((), if BitVec.ofNat 8 (a + 0xf0) ≤ 0xDF#8 then _ else if BitVec.ofNat 8 (a + 0xf0) ≤ 0xEF#8 then _
    else _)) = _
  rw [if_neg hc, if_neg hc', lead_bits.2.2 a ha, ofNat_shiftLeft]
  rfl

/-- The bytes of a character but for the last one, and the last one -/
theorem reads_char (ht : t.Text) (c : Char) (hc : 0x80 ≤ c.toNat) :
    ∃ front a b, utf8 c = front ++ [BitVec.ofNat 8 (b + 0x80)] ∧ b < 64 ∧ a * 64 + b = c.toNat ∧
      Reads front t (decoding t 1 (a * 64 ^ 1)) := by
  have hmax : c.toNat < 0x110000 := by
    rcases c.valid with h | h
    · exact Nat.lt_trans h (by decide)
    · exact h.2
  have hbyte : ∀ n : Nat, (UInt8.ofNat n).toBitVec = BitVec.ofNat 8 n := fun n => rfl
  have hval : c.val.toNat = c.toNat := rfl
  rw [utf8, String.utf8EncodeChar]
  rw [hval, if_neg (by omega)]
  generalize c.toNat = v at hc hmax
  split_ifs with htwo hthree
  · have ha : v / 64 % 32 < 32 := Nat.mod_lt _ (by decide)
    refine ⟨[BitVec.ofNat 8 (v / 64 % 32 + 0xc0)], v / 64 % 32, v % 64, ?_, Nat.mod_lt _ (by decide), by omega, ?_⟩
    · rfl
    · exact reads_lead ht (by constructor <;> bv_omega) (unicodeStart_two ha)
  · have ha : v / 4096 % 16 < 16 := Nat.mod_lt _ (by decide)
    have hb : v / 64 % 64 < 64 := Nat.mod_lt _ (by decide)
    refine ⟨[BitVec.ofNat 8 (v / 4096 % 16 + 0xe0), BitVec.ofNat 8 (v / 64 % 64 + 0x80)],
      v / 4096 % 16 * 64 + v / 64 % 64, v % 64, ?_, Nat.mod_lt _ (by decide), by omega, ?_⟩
    · rfl
    · exact (reads_lead ht (by constructor <;> bv_omega) (unicodeStart_three ha)).append (reads_continuation ht hb)
  · have ha : v / 262144 % 8 < 8 := Nat.mod_lt _ (by decide)
    have hb : v / 4096 % 64 < 64 := Nat.mod_lt _ (by decide)
    have hb' : v / 64 % 64 < 64 := Nat.mod_lt _ (by decide)
    refine ⟨[BitVec.ofNat 8 (v / 262144 % 8 + 0xf0), BitVec.ofNat 8 (v / 4096 % 64 + 0x80), BitVec.ofNat 8 (v / 64 % 64 + 0x80)],
      (v / 262144 % 8 * 64 + v / 4096 % 64) * 64 + v / 64 % 64, v % 64, ?_, Nat.mod_lt _ (by decide), by omega, ?_⟩
    · rfl
    · exact ((reads_lead ht (by constructor <;> bv_omega) (unicodeStart_four ha)).append
        (reads_continuation ht hb)).append (reads_continuation ht hb')

end Decoding

/-! ## Glyphs -/

/-- One call over and over -/
theorem forM_call {ι : Type} (is : List ι) (fn : BackendFn) (t : FlantermContext) :
    (is.forM fun _ => call fn) t = (List.replicate is.length ⟨t, fn⟩, some ((), t)) := by
  induction is with
  | nil => rfl
  | cons i is ih =>
    change Traced.andThen ([⟨t, fn⟩], some ((), t)) (fun _ => is.forM fun _ => call fn) = _
    rw [Traced.andThen, ih]
    rfl

theorem times_call (n : Nat) (fn : BackendFn) (t : FlantermContext) :
    times n (call fn) t = (List.replicate n ⟨t, fn⟩, some ((), t)) := by
  rw [times, forM_call, List.length_range]

theorem putCodePoint_eq (c : Char) (t : FlantermContext) :
    putCodePoint (BitVec.ofNat 64 c.toNat) t =
      ((charGlyphs c).map fun glyph => ⟨t, .rawPutchar glyph⟩, some ((), t)) := by
  have hcode : (BitVec.ofNat 64 c.toNat).setWidth 32 = BitVec.ofNat 32 c.toNat := BitVec.setWidth_ofNat_of_le (by decide) _
  rw [putCodePoint, charGlyphs]
  cases unicodeToCp437 (BitVec.ofNat 64 c.toNat) with
  | some glyph => rfl
  | none =>
    dsimp only
    rw [hcode, mkWcwidth_eq]
    cases charWidth (BitVec.ofNat 32 c.toNat) with
    | zero => rfl
    | succ width =>
      have hblanks : times width putBlank t = (List.replicate width ⟨t, .rawPutchar 0x20#8⟩, some ((), t)) :=
        times_call width _ t
      change Traced.andThen ([⟨t, .rawPutchar 0xFE#8⟩], some ((), t)) (fun _ => times width putBlank) = _
      rw [Traced.andThen, hblanks, if_pos (Nat.succ_pos width), List.map_cons, List.map_replicate]
      rfl

/-- A character in UTF-8 is its glyphs. -/
theorem utf8_run {σ : Type} (B : Backend σ) {t : FlantermContext} (ht : t.Text) (c : Char) (hc : 0x80 ≤ c.toNat) (s : σ) :
    ((utf8 c).forM (flantermPutchar B)).run (t, s) =
      (B.runCalls ((charGlyphs c).map fun glyph => ⟨decoding t 0 c.toNat, .rawPutchar glyph⟩) s).map
        fun u => ((), decoding t 0 c.toNat, u) := by
  obtain ⟨front, a, b, hbytes, hb, hv, hreads⟩ := reads_char ht c hc
  rw [hbytes, List.forM_eq_forM, List.forM_append]
  refine (FaultState.run_bind_eq (hreads σ B s)).trans ?_
  rw [List.forM_cons, List.forM_nil, bind_pure_unit, flantermPutchar_eq]
  refine front_run ?_
  refine (putchar_continuation ht hb _ _).trans ?_
  rw [if_neg (not_not.mpr rfl), Nat.pow_zero, Nat.mul_one, hv]
  exact putCodePoint_eq c _

end PpoOS
