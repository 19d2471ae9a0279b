import PpoOS.Str.Digits

/-!
# Unsigned numbers as text (`string.c`)

`uitoa` stores the remainders of a repeated division, and then reverses what it has stored.
`ultoa_hex` goes through the 16 places of four bits from the highest one, and stores nothing in
front of the first digit that is not zero.  Both store the numeral of the number (`uitoa_eq`,
`ultoaHex_eq`), so **`uitoa_ultoaHex_spell`** holds: positional reading leads back to the number,
and no other text without leading zeros does so.
-/

namespace PpoOS

open Numeral

variable {n m : Nat} {b : Buf n}

/-- `while (value != 0) { tmp_value = value; value /= base; *ptr++ = "0123456789abcdef"[tmp_value % base]; }` -/
def uitoaLoop (base : U32) : Nat → U32 → Buf n → Nat → Option (Buf n × Nat) :=
  digitLoop (fun value => digitByte (value % base).toNat) (· / base)

/-- `uitoa`; the loop tests at most 33 times. -/
def uitoa (value : U32) (buffer : Buf n) (base : U32) : Option (Buf n) :=
  if base.slt 2#32 ∨ (16#32).slt base then buffer.write 0 0#8
  else if value = 0#32 then do (← buffer.write 0 0x30#8).write 1 0#8
  else do
    let (buffer, ptr) ← uitoaLoop base 33 value buffer 0
    let buffer ← buffer.write ptr 0#8
    buffer.reverseFrom 0 (ptr - 1)

/-- `for (i = 60; i >= 0; i -= 4)`, where `i = 4 * k` comes next: the array and `ptr`. -/
def ultoaHexLoop (value : U64) : Nat → Bool → Buf n → Nat → Option (Buf n × Nat)
  | 0, _, buffer, ptr => some (buffer, ptr)
  | k + 1, leading_zero, buffer, ptr =>
    let digit := (value >>> (4 * k)) &&& 0xF#64
    if digit ≠ 0#64 ∨ leading_zero = false ∨ k = 0 then
      (buffer.write ptr (digitByte digit.toNat)).bind fun buffer => ultoaHexLoop value k false buffer (ptr + 1)
    else ultoaHexLoop value k leading_zero buffer ptr

/-- `ultoa_hex` -/
def ultoaHex (value : U64) (buffer : Buf n) : Option (Buf n) :=
  if value = 0#64 then do (← buffer.write 0 0x30#8).write 1 0#8
  else do
    let (buffer, ptr) ← ultoaHexLoop value 16 true buffer 0
    buffer.write ptr 0#8

/-! ## Division -/

theorem uitoa_divides {base : U32} (hlo : 2 ≤ base.toNat) :
    Divides (fun value : U32 => digitByte (value % base).toNat) (· / base) (fun _ => True) BitVec.toNat base.toNat
      digitByte where
  one_lt := hlo
  zero v := by rw [← BitVec.toNat_inj]; rfl
  dom_next _ _ := trivial
  val_next v _ := BitVec.toNat_udiv
  digit_eq v _ := by rw [BitVec.toNat_umod]

theorem uitoa_eq (value base : U32) (hlo : 2 ≤ base.toNat) (hhi : base.toNat ≤ 16)
    (hfit : (numeral digitByte base.toNat value.toNat).length < n) :
    uitoa value b base = some (b.overlay (numeral digitByte base.toNat value.toNat ++ [0#8])) := by
  have hint : base.toInt = base.toNat := BitVec.toInt_eq_toNat_of_lt (by omega)
  have hbase : ¬(base.slt 2#32 ∨ (16#32).slt base) := by
    rw [BitVec.slt_iff_toInt_lt, BitVec.slt_iff_toInt_lt, hint, not_or]
    have h2 : (2#32).toInt = 2 := by decide
    have h16 : (16#32).toInt = 16 := by decide
    omega
  rw [uitoa, if_neg hbase]
  by_cases hv : value = 0#32
  · have h0 : numeral digitByte base.toNat value.toNat = [0x30#8] := by
      rw [hv]
      exact numeral_of_lt digitByte (Nat.lt_of_lt_of_le (by decide) hlo)
    rw [h0] at hfit ⊢
    rw [if_pos hv]
    exact write_zero_digit hfit
  have hne : value.toNat ≠ 0 := mt ((uitoa_divides hlo).zero value).mp hv
  have hlt : value.toNat < base.toNat ^ 32 := Nat.lt_of_lt_of_le value.isLt (Nat.pow_le_pow_left hlo 32)
  have hloop := (uitoa_divides hlo).writes (b := b) (l := []) (v := value) trivial hne hlt
    (by rw [List.length_nil]; omega)
  rw [Buf.overlay_nil, List.nil_append, List.length_nil, Nat.zero_add] at hloop
  generalize numeral digitByte base.toNat value.toNat = ds at hfit hloop ⊢
  have hend := Buf.write_reverse (b := b) (l := ds.reverse) (by rwa [List.length_reverse]) 0#8
  rw [List.length_reverse, List.reverse_reverse] at hend
  rw [if_neg hv, uitoaLoop, hloop]
  exact hend

/-! ## Places of four bits -/

theorem digit_toNat (value : U64) (k : Nat) : ((value >>> (4 * k)) &&& 0xF#64).toNat = value.toNat / 16 ^ k % 16 := by
  rw [BitVec.toNat_and, BitVec.toNat_ushiftRight, Nat.shiftRight_eq_div_pow, Nat.pow_mul]
  exact Nat.and_two_pow_sub_one_eq_mod _ 4

/-- The digits of the places that were passed, where the first one is stored that is not zero. -/
def placesText (v : Nat) : List U8 := if v = 0 then [] else numeral digitByte 16 v

theorem placesText_step {v : Nat} (hv : v ≠ 0) : placesText v = placesText (v / 16) ++ [digitByte (v % 16)] := by
  rw [placesText, if_neg hv, placesText]
  rcases Nat.lt_or_ge v 16 with hlt | hge
  · rw [if_pos (Nat.div_eq_of_lt hlt), numeral_of_lt _ hlt, Nat.mod_eq_of_lt hlt]
    rfl
  · rw [if_neg (Nat.ne_of_gt (Nat.div_pos hge (by decide))), numeral_step _ (by decide) hge]

theorem ultoaHexLoop_eq {value : U64} (hv : value ≠ 0#64) (k : Nat) (hfit : (numeral digitByte 16 value.toNat).length ≤ n) :
    ultoaHexLoop value k (decide (value.toNat / 16 ^ k = 0)) (b.overlay (placesText (value.toNat / 16 ^ k)))
        (placesText (value.toNat / 16 ^ k)).length =
      some (b.overlay (numeral digitByte 16 value.toNat), (numeral digitByte 16 value.toNat).length) := by
  have hne : value.toNat ≠ 0 := fun h0 => hv (BitVec.eq_of_toNat_eq h0)
  induction k with
  | zero => rw [Nat.pow_zero, Nat.div_one, placesText, if_neg hne, ultoaHexLoop]
  | succ k ih =>
    have hquot : value.toNat / 16 ^ (k + 1) = value.toNat / 16 ^ k / 16 := by rw [Nat.pow_succ, Nat.div_div_eq_div_mul]
    have hdigit := digit_toNat value k
    have hlast : k = 0 → value.toNat / 16 ^ k ≠ 0 := by
      rintro rfl
      rwa [Nat.pow_zero, Nat.div_one]
    have hlen := length_numeral_div_le digitByte (show 1 < 16 by decide) value.toNat k
    rw [hquot, ultoaHexLoop]
    generalize hq : value.toNat / 16 ^ k = q at *
    by_cases hzero : q = 0
    · -- nothing was stored, and nothing is stored now
      have hskip : ¬((value >>> (4 * k)) &&& 0xF#64 ≠ 0#64 ∨ decide (q / 16 = 0) = false ∨ k = 0) := by
        rintro (hd | hlead | hk)
        · exact hd (BitVec.eq_of_toNat_eq (by rw [hdigit, hzero]; rfl))
        · simp [hzero] at hlead
        · exact hlast hk hzero
      rw [if_neg hskip, ← ih, hzero]
    · have hgo : (value >>> (4 * k)) &&& 0xF#64 ≠ 0#64 ∨ decide (q / 16 = 0) = false ∨ k = 0 := by
        by_cases hd : q % 16 = 0
        · exact .inr (.inl (decide_eq_false (by omega)))
        · refine .inl fun h => hd ?_
          rw [← hdigit, h]
          rfl
      have hstep := placesText_step hzero
      have htext : placesText q = numeral digitByte 16 q := if_neg hzero
      have hlt : (placesText (q / 16)).length < n := by
        rw [← htext, hstep, List.length_append, List.length_singleton] at hlen
        omega
      rw [if_pos hgo, hdigit, Buf.write_overlay hlt, Option.bind_some, ← ih, hstep, decide_eq_false hzero,
        List.length_append]
      rfl

theorem ultoaHex_eq {value : U64} (hfit : (numeral digitByte 16 value.toNat).length < n) :
    ultoaHex value b = some (b.overlay (numeral digitByte 16 value.toNat ++ [0#8])) := by
  rw [ultoaHex]
  by_cases hv : value = 0#64
  · have h0 : numeral digitByte 16 value.toNat = [0x30#8] := by
      rw [hv]
      exact numeral_of_lt digitByte (by decide)
    rw [h0] at hfit ⊢
    rw [if_pos hv]
    exact write_zero_digit hfit
  have hloop := ultoaHexLoop_eq (b := b) hv 16 hfit.le
  have htop : value.toNat / 16 ^ 16 = 0 := Nat.div_eq_of_lt (Nat.lt_of_lt_of_eq value.isLt (by decide))
  rw [htop, placesText, if_pos rfl, Buf.overlay_nil, List.length_nil, decide_eq_true rfl] at hloop
  rw [if_neg hv, hloop]
  exact Buf.write_overlay hfit 0#8

/-! ## Reading back -/

/-- The numeral as a string. -/
def numeralText (base v : Nat) (hb : 1 < base) (hle : base ≤ 16) : CString where
  chars := numeral digitByte base v
  nonzero hmem := by
    have hdigit := ((spells_iff_numeral hb hle).mpr rfl).digits _ hmem
    exact absurd hdigit (Nat.not_lt.mpr hle)

/-- Where it fits into the array, the text that is stored is the only one that spells `v`. -/
def StoresNumeral (base v : Nat) (r : Option (Buf n)) : Prop :=
  ∃ s : CString, Spells digitVal base v s.chars ∧ (∀ t, Spells digitVal base v t → t = s.chars) ∧
    (s.length < n → r.bind Buf.text = some s)

theorem storesNumeral_of {base v : Nat} {r : Option (Buf n)} (hb : 1 < base) (hle : base ≤ 16)
    (h : (numeral digitByte base v).length < n → r = some (b.overlay (numeral digitByte base v ++ [0#8]))) :
    StoresNumeral base v r := by
  refine ⟨numeralText base v hb hle, (spells_iff_numeral hb hle).mpr rfl, fun t => (spells_iff_numeral hb hle).mp,
    fun hfit => ?_⟩
  rw [h hfit]
  exact Buf.text_overlay hfit

/-- Both functions store the one text that positional reading takes back to the number, and the same text where both
can print the number. -/
theorem uitoa_ultoaHex_spell (b : Buf n) (b' : Buf m) :
    (∀ value base : U32, 2 ≤ base.toNat → base.toNat ≤ 16 →
      StoresNumeral base.toNat value.toNat (uitoa value b base)) ∧
    (∀ value : U64, StoresNumeral 16 value.toNat (ultoaHex value b')) ∧
    ∀ value : U64, value.toNat < 2 ^ 32 → ∃ s : CString, Spells digitVal 16 value.toNat s.chars ∧
      (s.length < n → s.length < m →
        (uitoa (value.setWidth 32) b 16#32).bind Buf.text = some s ∧ (ultoaHex value b').bind Buf.text = some s) := by
  refine ⟨fun value base hlo hhi => storesNumeral_of hlo hhi (uitoa_eq value base hlo hhi),
    fun value => storesNumeral_of (by decide) (by decide) ultoaHex_eq, fun value hlt => ?_⟩
  have hsame : (value.setWidth 32).toNat = value.toNat := by
    rw [BitVec.toNat_setWidth, Nat.mod_eq_of_lt hlt]
  refine ⟨numeralText 16 value.toNat (by decide) (by decide), (spells_iff_numeral (by decide) (by decide)).mpr rfl,
    fun hn hm => ⟨?_, ?_⟩⟩
  · have heq := uitoa_eq (b := b) (value.setWidth 32) 16#32 (by decide) (by decide)
      (by rw [hsame]; exact hn)
    rw [heq, hsame]
    exact Buf.text_overlay hn
  · rw [ultoaHex_eq hm]
    exact Buf.text_overlay hm

/-- `beef` -/
theorem uitoa_ultoaHex_spell_beef : ∃ s : CString, s.chars = [0x62#8, 0x65#8, 0x65#8, 0x66#8] ∧
    (uitoa 0xBEEF#32 (Buf.zero 5) 16#32).bind Buf.text = some s ∧ (ultoaHex 0xBEEF#64 (Buf.zero 5)).bind Buf.text = some s := by
  obtain ⟨hdiv, hplaces, -⟩ := uitoa_ultoaHex_spell (Buf.zero 5) (Buf.zero 5)
  have hspell : Spells digitVal 16 0xBEEF [0x62#8, 0x65#8, 0x65#8, 0x66#8] := by
    refine ⟨by decide, by decide, by decide, fun c rest h hc => ?_⟩
    obtain ⟨rfl, -⟩ := List.cons.inj h
    exact absurd hc (by decide)
  obtain ⟨s, -, hunique, hstored⟩ := hdiv 0xBEEF#32 16#32 (by decide) (by decide)
  obtain ⟨t, -, hunique', hstored'⟩ := hplaces 0xBEEF#64
  have hs := hunique _ hspell
  have hts : t = s := CString.ext ((hunique' _ hspell).symm.trans hs)
  have hlen : s.length < 5 := by rw [CString.length, ← hs]; decide
  exact ⟨s, hs.symm, hstored hlen, hts ▸ hstored' (hts ▸ hlen)⟩

end PpoOS
