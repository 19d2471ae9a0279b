import PpoOS.Libc.Verify.Formatter

/-!
# Where `vsnprintf` does what it should

It stays within its array and its format exactly where every unknown conversion and every `%` at
the end of the format fits (`vsnprintf_stays_iff`).  Of a format of known pieces it prints the
front exactly where no negation that wraps around shows and the count is an `int`
(`vsnprintf_prints_iff`).
-/

namespace PpoOS

variable {n size : Nat} {dec : BitVec 32 → List U8} {args : VaList} {k m : Nat} {ps : List FmtPiece} {fmt : CString}
  {buf : Buf size}

/-! ## Positions in a format -/

theorem fmtFits_iff {len : Nat} : FmtFits n dec args k len ps ↔
    ∀ before p after, ps = before ++ p :: after → p.Fits n (len + (expand dec args k before).length) := by
  induction ps generalizing k len with
  | nil => exact ⟨fun _ before p after h => by simp at h, fun _ => trivial⟩
  | cons q ps ih =>
    rw [FmtFits, ih]
    constructor
    · rintro ⟨hq, hrest⟩ before p after hps
      cases before with
      | nil =>
        obtain ⟨rfl, -⟩ := List.cons.inj hps
        exact hq
      | cons q' before =>
        obtain ⟨rfl, htail⟩ := List.cons.inj hps
        rw [expand, List.length_append, ← Nat.add_assoc]
        exact hrest before p after htail
    · intro h
      refine ⟨h [] q ps rfl, fun before p after hps => ?_⟩
      have hp := h (q :: before) p after (by rw [hps, List.cons_append])
      rwa [expand, List.length_append, ← Nat.add_assoc] at hp

/-- Known pieces always fit. -/
theorem fmtFits_known (h : ∀ p ∈ ps, p.Known) : FmtFits n dec args k m ps := by
  induction ps generalizing k m with
  | nil => trivial
  | cons p ps ih => exact ⟨(h p List.mem_cons_self).fits _ _, ih fun q hq => h q (List.mem_cons_of_mem _ hq)⟩

/-- Arguments that are all zero. -/
def zeroArgs : VaList := ⟨fun _ => 0#64, fun _ => CString.empty⟩

/-! ## Staying in place -/

/-- No byte behind the NUL of the format is read and none outside of the array is written, a NUL is
put at a place `k` of the array, and the result is `k` as an `int`, less than `size`. -/
def FormatterStays (buf : Buf size) (fmt : CString) (args : VaList) : Prop :=
  ∃ out r k, vsnprintf buf fmt args = some (out, r) ∧ k < size ∧ out.bytes[k]? = some 0#8 ∧
    r = BitVec.ofNat 32 k ∧ r.toInt < size

/-- With the text of the pieces in front of it, every unknown conversion leaves its second byte off the last place,
and a `%` at the end is not reached. -/
def FormatSafe (size : Nat) (fmt : CString) (args : VaList) : Prop :=
  ∀ before p after, fmtPieces fmt.chars = before ++ p :: after → p.Fits size (expand decText args 0 before).length

theorem formatSafe_iff : FormatSafe size fmt args ↔ FmtFits size decOutput args 0 0 (fmtPieces fmt.chars) := by
  rw [fmtFits_iff]
  simp only [Nat.zero_add, length_expand_decOutput]
  rfl

theorem vsnprintf_stays_iff (hpos : 1 ≤ size) (hsize : size < 2 ^ 64) :
    FormatterStays buf fmt args ↔ FormatSafe size fmt args := by
  rw [formatSafe_iff]
  constructor
  · rintro ⟨out, r, k, hrun, -⟩
    by_contra hfit
    rw [vsnprintf_unfit hsize hpos hfit] at hrun
    cases hrun
  · intro hfit
    have hrun := vsnprintf_fits (b := buf) hsize hpos hfit
    generalize hT : expand decOutput args 0 (fmtPieces fmt.chars) = T at hrun
    have hlen : (T.take (size - 1)).length = min (size - 1) T.length := List.length_take
    refine ⟨_, _, min (size - 1) T.length, hrun, by omega, ?_, rfl, ?_⟩
    · rw [Buf.bytes_overlay (by rw [List.length_append, hlen, List.length_singleton]; omega), List.append_assoc,
        List.getElem?_append_right (by omega), hlen, Nat.sub_self]
      rfl
    · have hmod := Nat.mod_le (min (size - 1) T.length) (2 ^ 32)
      have hint := BitVec.toInt_eq_toNat_cond (BitVec.ofNat 32 (min (size - 1) T.length))
      rw [BitVec.toNat_ofNat] at hint
      split at hint <;> omega

theorem vsnprintf_stays_iff_five :
    FormatterStays (Buf.zero 5) (CString.ofChars ['a', 'b', '%', 'q']) zeroArgs ↔
      FormatSafe 5 (CString.ofChars ['a', 'b', '%', 'q']) zeroArgs := vsnprintf_stays_iff (by decide) (by decide)

/-- `%q` in front of the last place, and `%` at the end of a format. -/
theorem vsnprintf_leaves : ¬FormatterStays (Buf.zero 2) (CString.ofChars ['%', 'q']) zeroArgs ∧
    ¬FormatterStays (Buf.zero 16) (CString.ofChars ['%']) zeroArgs := by
  have hfull : vsnprintf (Buf.zero 2) (CString.ofChars ['%', 'q']) zeroArgs = none := by decide
  have hend : vsnprintf (Buf.zero 16) (CString.ofChars ['%']) zeroArgs = none := by decide
  constructor
  · rintro ⟨out, r, k, hrun, -⟩
    cases hfull.symm.trans hrun
  · rintro ⟨out, r, k, hrun, -⟩
    cases hend.symm.trans hrun

/-! ## Printing -/

/-- The first bytes of the expansion that fit with a NUL, the NUL, and their number. -/
def FormatterPrints (buf : Buf size) (fmt : CString) (args : VaList) : Prop :=
  let text := expand decText args 0 (fmtPieces fmt.chars)
  let count := min text.length (size - 1)
  ∃ out r, vsnprintf buf fmt args = some (out, r) ∧ out.bytes.take (count + 1) = text.take count ++ [0#8] ∧
    r.toInt = count

/-- At most the sign shows of a smallest number, and the number of bytes is an `int`. -/
def FormatExact (size : Nat) (fmt : CString) (args : VaList) : Prop :=
  (∀ before after, fmtPieces fmt.chars = before ++ .dec :: after →
    (args.word (taken before)).setWidth 32 = BitVec.intMin 32 →
      size ≤ (expand decText args 0 before).length + 2) ∧
  min (expand decText args 0 (fmtPieces fmt.chars)).length (size - 1) < 2 ^ 31

/-- One piece comes out right up to `m` bytes unless more than the sign of a smallest number shows. -/
theorem take_text_eq {p : FmtPiece} {w : U64} (h : p = .dec → w.setWidth 32 = BitVec.intMin 32 → m ≤ 1) :
    (p.text decOutput args w).take m = (p.text decText args w).take m := by
  cases p with
  | dec =>
    rw [FmtPiece.text, FmtPiece.text]
    by_cases hw : w.setWidth 32 = BitVec.intMin 32
    · have hm := h rfl hw
      rw [hw, decOutput_intMin, decText_intMin]
      rcases Nat.le_one_iff_eq_zero_or_eq_one.mp hm with rfl | rfl <;> rfl
    · rw [decOutput_eq hw]
  | _ => rfl

theorem length_text_decOutput (p : FmtPiece) (w : U64) :
    (p.text decOutput args w).length = (p.text decText args w).length := by
  cases p with
  | dec => exact length_decOutput _
  | _ => rfl

theorem take_expand_eq
    (h : ∀ before after, ps = before ++ .dec :: after →
      (args.word (k + taken before)).setWidth 32 = BitVec.intMin 32 → m ≤ (expand decText args k before).length + 1) :
    (expand decOutput args k ps).take m = (expand decText args k ps).take m := by
  induction ps generalizing k m with
  | nil => rfl
  | cons p ps ih =>
    have hhead : (p.text decOutput args (args.word k)).take m = (p.text decText args (args.word k)).take m :=
      take_text_eq fun hp hw => by
        have hm := h [] ps (by rw [hp]; rfl) hw
        simpa [expand] using hm
    have htail := ih (k := k + p.takes) (m := m - (p.text decText args (args.word k)).length) fun before after hps hw => by
      have hm := h (p :: before) after (by rw [hps, List.cons_append]) (by simpa [taken, Nat.add_assoc] using hw)
      rw [expand, List.length_append] at hm
      omega
    rw [expand, expand, List.take_append, List.take_append, hhead, length_text_decOutput, htail]

/-- The bytes of a number lie behind the text of the pieces in front of it. -/
theorem expand_getElem? {before after : List FmtPiece} (hps : ps = before ++ .dec :: after) {i : Nat} {c : U8}
    (hc : (dec ((args.word (k + taken before)).setWidth 32))[i]? = some c) :
    (expand dec args k ps)[(expand dec args k before).length + i]? = some c := by
  have hi : i < (dec ((args.word (k + taken before)).setWidth 32)).length := by
    rw [List.getElem?_eq_some_iff] at hc
    exact hc.1
  rw [hps, expand_append, expand, FmtPiece.text, List.getElem?_append_right (Nat.le_add_right _ _), Nat.add_sub_cancel_left,
    List.getElem?_append_left hi, hc]

/-- Behind the sign of a smallest number there is no digit. -/
theorem take_expand_ne {before after : List FmtPiece} (hps : ps = before ++ .dec :: after)
    (hw : (args.word (k + taken before)).setWidth 32 = BitVec.intMin 32)
    (hm : (expand decText args k before).length + 1 < m) :
    (expand decOutput args k ps).take m ≠ (expand decText args k ps).take m := by
  intro h
  have hout : (decOutput ((args.word (k + taken before)).setWidth 32))[1]? = some 0x2E#8 := by
    rw [hw, decOutput_intMin]
    rfl
  have htext : (decText ((args.word (k + taken before)).setWidth 32))[1]? = some 0x32#8 := by
    rw [hw, decText_intMin]
    rfl
  have hat := congrArg (·[(expand decText args k before).length + 1]?) h
  simp only [List.getElem?_take_of_lt hm, expand_getElem? hps htext] at hat
  rw [← length_expand_decOutput, expand_getElem? hps hout] at hat
  simp at hat

/-- A count of type `int`. -/
theorem toInt_ofNat_eq_iff {c : Nat} : (BitVec.ofNat 32 c).toInt = c ↔ c < 2 ^ 31 := by
  have hint := BitVec.toInt_eq_toNat_cond (BitVec.ofNat 32 c)
  have hmod := Nat.mod_le c (2 ^ 32)
  rw [BitVec.toNat_ofNat] at hint
  constructor
  · intro h
    split at hint <;> omega
  · intro h
    rw [Nat.mod_eq_of_lt (by omega)] at hint
    split at hint <;> omega

theorem take_overlay (buf : Buf size) {l : List U8} (h : l.length < size) :
    (buf.overlay (l ++ [0#8])).bytes.take (l.length + 1) = l ++ [0#8] := by
  rw [Buf.bytes_overlay (by simp; omega), List.take_left' (by simp)]

theorem vsnprintf_prints_iff (hpos : 1 ≤ size) (hsize : size < 2 ^ 64) (hfmt : ∀ p ∈ fmtPieces fmt.chars, p.Known) :
    FormatterPrints buf fmt args ↔ FormatExact size fmt args := by
  have hrun : vsnprintf buf fmt args = _ := vsnprintf_fits hsize hpos (fmtFits_known hfmt)
  unfold FormatterPrints FormatExact
  have hlen : (expand decOutput args 0 (fmtPieces fmt.chars)).length =
      (expand decText args 0 (fmtPieces fmt.chars)).length :=
    length_expand_decOutput 0 _
  have htake : (expand decOutput args 0 (fmtPieces fmt.chars)).take (size - 1) =
      (expand decText args 0 (fmtPieces fmt.chars)).take (size - 1) ↔
        ∀ before after, fmtPieces fmt.chars = before ++ .dec :: after →
          (args.word (taken before)).setWidth 32 = BitVec.intMin 32 →
            size ≤ (expand decText args 0 before).length + 2 := by
    constructor
    · intro heq before after hps hw
      by_contra hlt
      exact take_expand_ne hps (by rwa [Nat.zero_add]) (by omega) heq
    · intro h
      refine take_expand_eq fun before after hps hw => ?_
      have := h before after hps (by rwa [Nat.zero_add] at hw)
      omega
  rw [hrun, ← htake]
  generalize expand decOutput args 0 (fmtPieces fmt.chars) = out at hlen ⊢
  generalize expand decText args 0 (fmtPieces fmt.chars) = text at hlen ⊢
  have hcount : (out.take (size - 1)).length = min text.length (size - 1) := by rw [List.length_take, hlen, Nat.min_comm]
  have hbytes := take_overlay buf (l := out.take (size - 1)) (by rw [List.length_take]; omega)
  have hcut : text.take (min text.length (size - 1)) = text.take (size - 1) := by
    rw [← hcount, List.length_take, hlen, ← List.take_take, List.take_length]
  rw [hcount] at hbytes
  rw [hlen, Nat.min_comm]
  constructor
  · rintro ⟨o, r, hor, htext, hr⟩
    cases hor
    rw [hbytes, hcut] at htext
    exact ⟨List.append_cancel_right htext, toInt_ofNat_eq_iff.mp hr⟩
  · rintro ⟨heq, hint⟩
    exact ⟨_, _, rfl, by rw [hbytes, hcut, heq], toInt_ofNat_eq_iff.mpr hint⟩

/-- `%d` of 7. -/
theorem vsnprintf_prints_iff_seven :
    FormatterPrints (Buf.zero 16) (CString.ofChars ['%', 'd']) ⟨fun _ => 7#64, fun _ => CString.empty⟩ ↔
      FormatExact 16 (CString.ofChars ['%', 'd']) ⟨fun _ => 7#64, fun _ => CString.empty⟩ :=
  vsnprintf_prints_iff (by decide) (by decide) (by simp [fmtPieces, CString.ofChars, convPiece, FmtPiece.Known])

/-- Arguments that are all the smallest number. -/
def minArgs : VaList := ⟨fun _ => 0x80000000#64, fun _ => CString.empty⟩

/-- `%d` of the smallest number. -/
theorem vsnprintf_misprints : ¬FormatterPrints (Buf.zero 16) (CString.ofChars ['%', 'd']) minArgs := by
  have hpieces : fmtPieces (CString.ofChars ['%', 'd']).chars = [.dec] := by decide
  have hword : (minArgs.word 0).setWidth 32 = BitVec.intMin 32 := by decide
  have htext : expand decText minArgs 0 [.dec] = decText (BitVec.intMin 32) ++ [] := by
    rw [expand, expand, FmtPiece.text, hword]
  have hrun : (vsnprintf (Buf.zero 16) (CString.ofChars ['%', 'd']) minArgs).map (·.1.bytes[1]?) = some (some 0x2E#8) := by
    decide +kernel
  rw [FormatterPrints, hpieces, htext, List.append_nil, decText_intMin]
  rintro ⟨out, r, hout, hbytes, -⟩
  have hat := congrArg (·[1]?) hbytes
  rw [hout, Option.map_some, Option.some.injEq] at hrun
  simp [hrun] at hat

/-! ## `printf` -/

/-- A count is not changed on its way to `write`. -/
theorem toNat_signExtend_ofNat {c : Nat} (h : c < 2 ^ 31) : ((BitVec.ofNat 32 c).signExtend 64).toNat = c := by
  have hmsb : (BitVec.ofNat 32 c).msb = false := by
    rw [BitVec.msb_eq_decide, BitVec.toNat_ofNat, Nat.mod_eq_of_lt (by omega)]
    exact decide_eq_false (by omega)
  rw [BitVec.toNat_signExtend, hmsb, BitVec.toNat_setWidth, BitVec.toNat_ofNat, Nat.mod_eq_of_lt (a := c) (by omega),
    Nat.mod_eq_of_lt (by omega)]
  rfl

/-- `printf` writes the first 511 bytes of the expansion and returns their number. -/
theorem printf_eq (buf : Buf 512) (hfmt : FormatSafe 512 fmt args) :
    printf buf fmt args = some ((expand decOutput args 0 (fmtPieces fmt.chars)).take 511,
      BitVec.ofNat 32 (min 511 (expand decOutput args 0 (fmtPieces fmt.chars)).length)) := by
  have hrun := vsnprintf_fits (b := buf) (by decide) (by decide) (formatSafe_iff.mp hfmt)
  rw [printf, hrun, Option.bind_eq_bind, Option.bind_some]
  generalize expand decOutput args 0 (fmtPieces fmt.chars) = out
  have hlen : (out.take 511).length = min 511 out.length := List.length_take
  have hcount := toNat_signExtend_ofNat (c := min 511 out.length) (by omega)
  have hbytes : (buf.overlay (out.take 511 ++ [0#8])).bytes.take (min 511 out.length) = out.take 511 := by
    rw [Buf.bytes_overlay (by rw [List.length_append, hlen, List.length_singleton]; omega), List.append_assoc,
      List.take_left' hlen]
  simp only [hcount, hbytes]
  rfl

end PpoOS
