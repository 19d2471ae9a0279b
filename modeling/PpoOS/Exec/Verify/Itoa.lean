import PpoOS.Exec.ElfInfo

/-!
# What `my_itoa` stores

The remainders of a division that truncates have the sign of the number.  Where the number stays
negative, a digit `d` is therefore printed as the character `d` places in front of `'0'`
(`negDigit`): for every hexadecimal number with its highest bit set, and for the smallest number in
decimal, which is its own negation.  **`myItoa_prints_iff`** says that there are no other failures.
-/

namespace PpoOS

open Numeral

/-- `'0' - d` -/
def negDigit (d : Nat) : U8 := BitVec.ofInt 8 (48 - d)

/-- The text in the array. -/
def HoldsText {n : Nat} (r : Option (Buf n)) (text : List U8) : Prop :=
  ∃ s : CString, r.bind Buf.text = some s ∧ s.chars = text

theorem HoldsText.unique {n : Nat} {r : Option (Buf n)} {text text' : List U8} (h : HoldsText r text) (h' : HoldsText r text') :
    text = text' := by
  obtain ⟨s, hs, rfl⟩ := h
  obtain ⟨s', hs', rfl⟩ := h'
  rw [Option.some.inj (hs.symm.trans hs')]

theorem holdsText_overlay {n : Nat} {b : Buf n} {text : List U8} (h0 : 0#8 ∉ text) (hfit : text.length < n) :
    HoldsText (some (b.overlay (text ++ [0#8]))) text :=
  ⟨⟨text, h0⟩, Buf.text_overlay (s := ⟨text, h0⟩) hfit, rfl⟩

/-! ## Division -/

section Division

variable {base v : BitVec 32} (hlo : 2 ≤ base.toNat) (hhi : base.toNat ≤ 16)

include hlo hhi

theorem base_toInt : base.toInt = base.toNat := BitVec.toInt_eq_toNat_of_lt (by omega)

theorem sdiv_toInt (v : BitVec 32) : (v.sdiv base).toInt = v.toInt.tdiv base.toNat := by
  have hne : base ≠ -1#32 := by
    rintro rfl
    exact absurd hhi (by decide)
  rw [BitVec.toInt_sdiv_of_ne_or_ne _ _ (.inr hne), base_toInt hlo hhi]

theorem srem_toInt (v : BitVec 32) : (v.srem base).toInt = v.toInt.tmod base.toNat := by
  rw [BitVec.toInt_srem, base_toInt hlo hhi]

theorem natAbs_sdiv (v : BitVec 32) : (v.sdiv base).toInt.natAbs = v.toInt.natAbs / base.toNat := by
  rw [sdiv_toInt hlo hhi, Int.natAbs_tdiv, Int.natAbs_natCast]
  rfl

theorem natAbs_srem (v : BitVec 32) : (v.srem base).toInt.natAbs = v.toInt.natAbs % base.toNat := by
  rw [srem_toInt hlo hhi, Int.natAbs_tmod, Int.natAbs_natCast]

end Division

theorem natAbs_toInt_eq_zero (v : BitVec 32) : v.toInt.natAbs = 0 ↔ v = 0#32 := by
  rw [Int.natAbs_eq_zero, ← BitVec.toInt_inj]
  rfl

theorem itoaChar_ofInt : ∀ d : Nat, d < 16 → itoaChar (BitVec.ofInt 32 d) = digitByte d := by decide

theorem itoaChar_ofInt_neg : ∀ d : Nat, d < 16 → itoaChar (BitVec.ofInt 32 (-d)) = negDigit d := by decide

theorem itoaChar_of_nonneg {r : BitVec 32} (h0 : 0 ≤ r.toInt) (h : r.toInt.natAbs < 16) :
    itoaChar r = digitByte r.toInt.natAbs := by
  rw [← itoaChar_ofInt _ h, Int.natAbs_of_nonneg h0, BitVec.ofInt_toInt]

theorem itoaChar_of_nonpos {r : BitVec 32} (h0 : r.toInt ≤ 0) (h : r.toInt.natAbs < 16) :
    itoaChar r = negDigit r.toInt.natAbs := by
  rw [← itoaChar_ofInt_neg _ h, Int.ofNat_natAbs_of_nonpos h0, Int.neg_neg, BitVec.ofInt_toInt]

section Loop

variable (base : BitVec 32) (hlo : 2 ≤ base.toNat) (hhi : base.toNat ≤ 16)

include hlo hhi

theorem natAbs_srem_lt (v : BitVec 32) : (v.srem base).toInt.natAbs < 16 := by
  have hmod := Nat.mod_lt v.toInt.natAbs (show 0 < base.toNat by omega)
  rw [natAbs_srem hlo hhi]
  omega

theorem itoa_divides_nonneg :
    Divides (fun n : BitVec 32 => itoaChar (n.srem base)) (·.sdiv base) (fun v => 0 ≤ v.toInt) (·.toInt.natAbs)
      base.toNat digitByte where
  one_lt := hlo
  zero := natAbs_toInt_eq_zero
  dom_next v hv := by
    rw [sdiv_toInt hlo hhi]
    exact Int.tdiv_nonneg hv (Int.natCast_nonneg _)
  val_next v _ := natAbs_sdiv hlo hhi v
  digit_eq v hv := by
    have hr : 0 ≤ (v.srem base).toInt := by
      rw [srem_toInt hlo hhi]
      exact Int.tmod_nonneg _ hv
    rw [itoaChar_of_nonneg hr (natAbs_srem_lt base hlo hhi v), natAbs_srem hlo hhi]

theorem itoa_divides_nonpos :
    Divides (fun n : BitVec 32 => itoaChar (n.srem base)) (·.sdiv base) (fun v => v.toInt ≤ 0) (·.toInt.natAbs)
      base.toNat negDigit where
  one_lt := hlo
  zero := natAbs_toInt_eq_zero
  dom_next v hv := by
    have hneg : 0 ≤ (-v.toInt).tdiv base.toNat := Int.tdiv_nonneg (Int.neg_nonneg.mpr hv) (Int.natCast_nonneg _)
    rw [Int.neg_tdiv] at hneg
    rw [sdiv_toInt hlo hhi]
    omega
  val_next v _ := natAbs_sdiv hlo hhi v
  digit_eq v hv := by
    have hr : (v.srem base).toInt ≤ 0 := by
      have hneg : 0 ≤ (-v.toInt).tmod base.toNat := Int.tmod_nonneg _ (Int.neg_nonneg.mpr hv)
      rw [Int.neg_tmod] at hneg
      rw [srem_toInt hlo hhi]
      omega
    rw [itoaChar_of_nonpos hr (natAbs_srem_lt base hlo hhi v), natAbs_srem hlo hhi]

end Loop

/-! ## The text -/

section Text

variable {base n : BitVec 32} {b : Buf 64} {dom : BitVec 32 → Prop} {char : Nat → U8} (hlo : 2 ≤ base.toNat)

/-- The text with the digits `char`. -/
def itoaText (n base : BitVec 32) (char : Nat → U8) : List U8 :=
  (if itoaNegative n base then [0x2D#8] else []) ++ numeral char base.toNat (itoaNum n base).toInt.natAbs

theorem itoaNum_ne_zero (hn : n ≠ 0#32) (base : BitVec 32) : (itoaNum n base).toInt.natAbs ≠ 0 := by
  rw [Ne, natAbs_toInt_eq_zero, itoaNum]
  split
  · exact mt BitVec.neg_eq_zero_iff.mp hn
  · exact hn

include hlo

theorem natAbs_lt_pow (v : BitVec 32) : v.toInt.natAbs < base.toNat ^ 32 := by
  have hlt := BitVec.toInt_lt (x := v)
  have hle := BitVec.le_toInt v
  have hpow : 2 ^ 32 ≤ base.toNat ^ 32 := Nat.pow_le_pow_left hlo 32
  omega

/-- Where the loop divides, the digits and the sign are stored in front of a NUL. -/
theorem myItoa_stored
    (hdiv : Divides (fun n : BitVec 32 => itoaChar (n.srem base)) (·.sdiv base) dom (·.toInt.natAbs) base.toNat char)
    (hn : n ≠ 0#32) (hdom : dom (itoaNum n base)) :
    myItoa n b base = some (b.overlay (itoaText n base char ++ [0#8])) ∧ (itoaText n base char).length < 64 := by
  have hlt := natAbs_lt_pow hlo (itoaNum n base)
  have hlen := length_numeral_le char hlo (show 0 < 32 by decide) hlt
  have hloop := hdiv.writes (b := b) (l := []) hdom (itoaNum_ne_zero hn base) hlt (by rw [List.length_nil]; omega)
  rw [Buf.overlay_nil, List.nil_append, List.length_nil, Nat.zero_add] at hloop
  rw [itoaText, myItoa, if_neg hn, myItoaLoop, hloop]
  generalize numeral char base.toNat (itoaNum n base).toInt.natAbs = ds at hlen
  simp only [Option.bind_eq_bind, Option.bind_some, Option.pure_def]
  have hrev : ds.reverse.length = ds.length := List.length_reverse
  by_cases hneg : itoaNegative n base = true
  · have hsign : (ds.reverse ++ [0x2D#8]).length = ds.length + 1 := by simp
    have hwrite := Buf.write_overlay (b := b) (l := ds.reverse) (by omega) 0x2D#8
    have hend := Buf.write_reverse (b := b) (l := ds.reverse ++ [0x2D#8]) (by omega) 0#8
    rw [hrev] at hwrite
    rw [hsign, List.reverse_append, List.reverse_singleton, List.reverse_reverse] at hend
    rw [if_pos hneg, if_pos hneg, hwrite]
    refine ⟨hend, ?_⟩
    rw [List.length_append, List.length_singleton]
    omega
  · have hend := Buf.write_reverse (b := b) (l := ds.reverse) (by omega) 0#8
    rw [hrev, List.reverse_reverse] at hend
    rw [if_neg hneg, if_neg hneg, List.nil_append]
    exact ⟨hend, by omega⟩

theorem myItoa_holds
    (hdiv : Divides (fun n : BitVec 32 => itoaChar (n.srem base)) (·.sdiv base) dom (·.toInt.natAbs) base.toNat char)
    (hchar : ∀ d < base.toNat, char d ≠ 0#8) (hn : n ≠ 0#32) (hdom : dom (itoaNum n base)) :
    HoldsText (myItoa n b base) (itoaText n base char) := by
  obtain ⟨hrun, hfit⟩ := myItoa_stored (b := b) hlo hdiv hn hdom
  rw [hrun]
  refine holdsText_overlay (fun hmem => ?_) hfit
  rw [itoaText] at hmem
  rcases List.mem_append.mp hmem with hmem | hmem
  · split at hmem
    · exact absurd (List.mem_singleton.mp hmem) (by decide)
    · exact absurd hmem List.not_mem_nil
  · obtain ⟨d, hd, hzero⟩ := mem_numeral hlo hmem
    exact hchar d hd hzero

end Text

/-! ## Which numbers are printed right -/

theorem negDigit_ne_zero : ∀ d < 16, negDigit d ≠ 0#8 := by decide

theorem digitVal_negDigit : ∀ d < 16, d ≠ 0 → digitVal (negDigit d) = 16 := by decide

/-- The first digit is not zero, and what is printed for it is no digit. -/
theorem numeral_negDigit_ne {base v : Nat} (hb : 1 < base) (hle : base ≤ 16) (hv : v ≠ 0) (w : Nat) :
    numeral negDigit base v ≠ numeral digitByte base w := by
  intro heq
  obtain ⟨d, hd, hne, hmem⟩ := exists_digit_ne_zero negDigit hb hv
  have hlt := ((spells_iff_numeral hb hle).mpr rfl).digits _ (heq ▸ hmem)
  rw [digitVal_negDigit d (Nat.lt_of_lt_of_le hd hle) hne] at hlt
  omega

theorem myItoa_zero (b : Buf 64) (base : BitVec 32) : HoldsText (myItoa 0#32 b base) [0x30#8] := by
  have hnul : 0#8 ∉ [0x30#8] := by decide
  have hlen : [0x30#8].length < 64 := by decide
  rw [myItoa, if_pos rfl, write_zero_digit (by decide)]
  exact holdsText_overlay hnul hlen

theorem myItoa_hex (a : U32) (b : Buf 64) : HoldsText (myItoa a b 16#32) (hexText a) ↔ a.toNat < 2 ^ 31 := by
  have hnum : itoaNum a 16#32 = a := by simp [itoaNum, itoaNegative]
  have htext : ∀ char, itoaText a 16#32 char = numeral char 16 a.toInt.natAbs := fun char => by
    rw [itoaText, hnum]
    simp [itoaNegative]
  have hhex : hexText a = numeral digitByte 16 a.toNat := charByte_toDigits (by decide) (by decide) _
  by_cases h0 : a = 0#32
  · have hzero : hexText 0#32 = [0x30#8] := by decide
    rw [h0, hzero]
    exact ⟨fun _ => by decide, fun _ => myItoa_zero b _⟩
  by_cases hlt : a.toNat < 2 ^ 31
  · have hint : a.toInt = a.toNat := BitVec.toInt_eq_toNat_of_lt (by omega)
    have hrun := myItoa_holds (b := b) (by decide) (itoa_divides_nonneg 16#32 (by decide) (by decide))
      (fun d hd => digitByte_ne_zero d hd) h0 (by rw [hnum, hint]; exact Int.natCast_nonneg _)
    rw [htext, hint, Int.natAbs_natCast, ← hhex] at hrun
    exact ⟨fun _ => hlt, fun _ => hrun⟩
  · have hneg : a.toInt < 0 := by
      rw [BitVec.toInt_eq_toNat_cond, if_neg (by omega)]
      have hlt32 := a.isLt
      omega
    have hrun := myItoa_holds (b := b) (by decide) (itoa_divides_nonpos 16#32 (by decide) (by decide))
      (fun d hd => negDigit_ne_zero d hd) h0 (by rw [hnum]; omega)
    rw [htext] at hrun
    refine ⟨fun hprint => absurd (hrun.unique hprint) ?_, fun h => absurd h hlt⟩
    rw [hhex]
    exact numeral_negDigit_ne (by decide) (by decide) (by omega) _

theorem myItoa_dec (n : BitVec 32) (b : Buf 64) :
    HoldsText (myItoa n b 10#32) (decText n) ↔ n ≠ BitVec.intMin 32 := by
  have hsign : itoaNegative n 10#32 = decide (n.toInt < 0) := by simp [itoaNegative, BitVec.slt]
  have hdec : decText n = (if n.toInt < 0 then [0x2D#8] else []) ++ numeral digitByte 10 n.toInt.natAbs := by
    rw [decText, charByte_toDigits (by decide) (by decide)]
  have htext : ∀ char, itoaText n 10#32 char =
      (if n.toInt < 0 then [0x2D#8] else []) ++ numeral char 10 (itoaNum n 10#32).toInt.natAbs := fun char => by
    rw [itoaText, hsign]
    simp only [decide_eq_true_eq]
    rfl
  by_cases h0 : n = 0#32
  · have hzero : decText 0#32 = [0x30#8] := by decide
    rw [h0, hzero]
    exact ⟨fun _ => by decide, fun _ => myItoa_zero b _⟩
  by_cases hmin : n = BitVec.intMin 32
  · have hnum : itoaNum n 10#32 = n := by rw [hmin]; rfl
    have hint : n.toInt = -2 ^ 31 := by rw [hmin]; rfl
    have hrun := myItoa_holds (b := b) (by decide) (itoa_divides_nonpos 10#32 (by decide) (by decide))
      (fun d hd => negDigit_ne_zero d (Nat.lt_trans hd (by decide))) h0 (by rw [hnum, hint]; decide)
    rw [htext, hnum] at hrun
    refine ⟨fun hprint => ?_, fun h => absurd hmin h⟩
    have heq := hrun.unique hprint
    rw [hdec] at heq
    exact absurd (List.append_cancel_left heq) (numeral_negDigit_ne (by decide) (by decide) (by omega) _)
  · have hnum : (itoaNum n 10#32).toInt = n.toInt.natAbs := by
      rw [itoaNum, hsign]
      by_cases hneg : n.toInt < 0
      · rw [if_pos (by simpa using hneg), BitVec.toInt_neg_of_ne_intMin hmin]
        omega
      · rw [if_neg (by simpa using hneg)]
        omega
    have hrun := myItoa_holds (b := b) (by decide) (itoa_divides_nonneg 10#32 (by decide) (by decide))
      (fun d hd => digitByte_ne_zero d (Nat.lt_trans hd (by decide))) h0 (by rw [hnum]; exact Int.natCast_nonneg _)
    rw [htext, hnum, Int.natAbs_natCast, ← hdec] at hrun
    exact ⟨fun _ => hmin, fun _ => hrun⟩

/-- In base 16 the numbers below `2 ^ 31` are printed right, and in base 10 all but the smallest. -/
theorem myItoa_prints_iff (b : Buf 64) :
    (∀ a : U32, HoldsText (myItoa a b 16#32) (hexText a) ↔ a.toNat < 2 ^ 31) ∧
    ∀ n : BitVec 32, HoldsText (myItoa n b 10#32) (decText n) ↔ n ≠ BitVec.intMin 32 :=
  ⟨fun a => myItoa_hex a b, fun n => myItoa_dec n b⟩

/-- `ffffffff` is printed as `/`. -/
theorem myItoa_highest : HoldsText (myItoa 0xFFFFFFFF#32 (Buf.zero 64) 16#32) [0x2F#8] ∧
    hexText 0xFFFFFFFF#32 = List.replicate 8 0x66#8 ∧
    ¬HoldsText (myItoa 0xFFFFFFFF#32 (Buf.zero 64) 16#32) (hexText 0xFFFFFFFF#32) := by
  have hrun := myItoa_holds (n := 0xFFFFFFFF#32) (b := Buf.zero 64) (by decide)
    (itoa_divides_nonpos 16#32 (by decide) (by decide))
    (fun d hd => negDigit_ne_zero d hd) (by decide) (by decide)
  have htext : itoaText 0xFFFFFFFF#32 16#32 negDigit = [0x2F#8] :=
    numeral_of_lt (v := 1) negDigit (by decide)
  have hhex : hexText 0xFFFFFFFF#32 = List.replicate 8 0x66#8 := by decide
  rw [htext] at hrun
  refine ⟨hrun, hhex, fun hprint => ?_⟩
  have heq := hrun.unique hprint
  rw [hhex] at heq
  exact absurd heq (by decide)

end PpoOS
