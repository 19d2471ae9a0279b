import PpoOS.Lib.FrontBuf
import PpoOS.Libc.Stdio
import Mathlib.Data.List.Basic

/-!
# What `vsnprintf` prints

A format is a list of pieces (`fmtPieces`), each with the text that it stands for
(`FmtPiece.text`).  The array is filled from its front with the expansion of the pieces, cut so
that a NUL fits behind it (`vsnprintf_fits`); where a piece adds bytes without a
look at the room that is left, or goes past the end of the format, there is no
result (`vsnprintf_unfit`).
-/

namespace PpoOS

variable {size : Nat}

/-! ## Pieces -/

inductive FmtPiece where
  /-- A character other than `%`. -/
  | lit (c : U8)
  | str
  | dec
  | hex
  | chr
  /-- `%` and a character that is no conversion. -/
  | other (c : U8)
  /-- `%` at the end of the format. -/
  | last
deriving DecidableEq

/-- `%` with `d` behind it. -/
def convPiece (d : U8) : FmtPiece :=
  if d = 0x73#8 then .str else if d = 0x64#8 then .dec else if d = 0x78#8 then .hex
  else if d = 0x63#8 then .chr else .other d

def fmtPieces : List U8 → List FmtPiece
  | [] => []
  | c :: fmt =>
    if c ≠ 0x25#8 then .lit c :: fmtPieces fmt
    else
      match fmt with
      | [] => [.last]
      | d :: fmt => convPiece d :: fmtPieces fmt

theorem fmtPieces_lit {c : U8} (hc : c ≠ 0x25#8) (fmt : List U8) : fmtPieces (c :: fmt) = .lit c :: fmtPieces fmt := by
  cases fmt <;> simp [fmtPieces, hc]

theorem fmtPieces_conv {c : U8} (hc : ¬c ≠ 0x25#8) (d : U8) (fmt : List U8) :
    fmtPieces (c :: d :: fmt) = convPiece d :: fmtPieces fmt := by
  simp [fmtPieces, hc]

/-- What a piece stands for, where the next argument is `w` and `dec` prints numbers. -/
def FmtPiece.text (dec : BitVec 32 → List U8) (args : VaList) (w : U64) : FmtPiece → List U8
  | .lit c => [c]
  | .str => (if w = 0#64 then nullText else args.string w).chars
  | .dec => dec (w.setWidth 32)
  | .hex => hexText (w.setWidth 32)
  | .chr => [w.setWidth 8]
  | .other c => [0x25#8, c]
  | .last => [0x25#8]

/-- The arguments that a piece takes. -/
def FmtPiece.takes : FmtPiece → Nat
  | .lit _ | .other _ | .last => 0
  | _ => 1

/-- The expansion of the pieces, from the `k`-th argument on. -/
def expand (dec : BitVec 32 → List U8) (args : VaList) : Nat → List FmtPiece → List U8
  | _, [] => []
  | k, p :: ps => p.text dec args (args.word k) ++ expand dec args (k + p.takes) ps

/-- The arguments that pieces take. -/
def taken (ps : List FmtPiece) : Nat := (ps.map FmtPiece.takes).sum

variable {dec : BitVec 32 → List U8} {args : VaList} {k : Nat} {ps : List FmtPiece}

theorem expand_append (k : Nat) (ps qs : List FmtPiece) :
    expand dec args k (ps ++ qs) = expand dec args k ps ++ expand dec args (k + taken ps) qs := by
  induction ps generalizing k with
  | nil => rfl
  | cons p ps ih =>
    rw [List.cons_append, expand, ih, expand, List.append_assoc]
    simp [taken, Nat.add_assoc]

/-! ## Digits -/

theorem tmpDigits_reverse {base : Nat} {digit : Int → U8} (hb : 1 < base)
    (hd : ∀ r < base, digit r = charByte (Nat.digitChar r)) {free m : Nat} (hfree : 0 < free) (h : m < base ^ free) :
    (tmpDigits base digit free m).reverse = (Nat.toDigits base m).map charByte := by
  induction free generalizing m with
  | zero => exact absurd hfree (Nat.lt_irrefl 0)
  | succ free ih =>
    have hmod : (m : Int).tmod base = (m % base : Nat) := rfl
    have hdiv : (m : Int).tdiv base = (m / base : Nat) := rfl
    rw [tmpDigits, hmod, hdiv, hd _ (Nat.mod_lt m (by omega)), List.reverse_cons, Nat.toDigits_eq_if hb]
    by_cases hm : m < base
    · simp [hm, Nat.div_eq_of_lt hm, Nat.mod_eq_of_lt hm]
    · have hpos : 0 < m / base := Nat.div_pos (Nat.le_of_not_lt hm) (by omega)
      have hlt : m / base < base ^ free := Nat.div_lt_of_lt_mul (by rwa [← Nat.pow_succ'])
      have hfree' : 0 < free := by
        refine Nat.pos_of_ne_zero fun h0 => ?_
        rw [h0, Nat.pow_zero] at hlt
        omega
      rw [if_pos (by omega), ih hfree' hlt, if_neg hm, List.map_append]
      rfl

theorem decDigit_eq : ∀ r < 10, decDigit (r : Nat) = charByte (Nat.digitChar r) := by decide

theorem hexDigit_eq : ∀ r < 16, hexDigit (r : Nat) = charByte (Nat.digitChar r) := by decide

theorem hexBytes_eq (num : BitVec 32) : hexBytes num = hexText num :=
  tmpDigits_reverse (by decide) hexDigit_eq (by decide) (Nat.lt_of_lt_of_le num.isLt (by decide))

/-- What the code prints for `%d`. -/
def decOutput (num : BitVec 32) : List U8 := (if num.slt 0#32 then [0x2D#8] else []) ++ decBytes num

/-- Only the smallest number is negated to a negative one. -/
theorem decNum_toInt {num : BitVec 32} (h : num ≠ BitVec.intMin 32) : (decNum num).toInt = num.toInt.natAbs := by
  rw [decNum, BitVec.slt]
  by_cases hneg : num.toInt < 0
  · rw [if_pos (by simpa using hneg), BitVec.toInt_neg_of_ne_intMin h]
    omega
  · rw [if_neg (by simpa using hneg)]
    omega

theorem decOutput_eq {num : BitVec 32} (h : num ≠ BitVec.intMin 32) : decOutput num = decText num := by
  have hlt : num.toInt.natAbs < 10 ^ tmpSize := by
    have h1 := BitVec.toInt_lt (x := num)
    have h2 := BitVec.le_toInt num
    unfold tmpSize
    omega
  have hdigits : decBytes num = (Nat.toDigits 10 num.toInt.natAbs).map charByte := by
    rw [decBytes, decNum_toInt h]
    exact tmpDigits_reverse (by decide) decDigit_eq (by decide) hlt
  rw [decOutput, decText, hdigits]
  simp [BitVec.slt]

/-- `-./,),(-*,(` -/
theorem decOutput_intMin : decOutput (BitVec.intMin 32) =
    [0x2D#8, 0x2E#8, 0x2F#8, 0x2C#8, 0x29#8, 0x2C#8, 0x28#8, 0x2D#8, 0x2A#8, 0x2C#8, 0x28#8] := by decide

theorem decText_intMin : decText (BitVec.intMin 32) =
    [0x2D#8, 0x32#8, 0x31#8, 0x34#8, 0x37#8, 0x34#8, 0x38#8, 0x33#8, 0x36#8, 0x34#8, 0x38#8] := by decide

theorem length_decOutput (num : BitVec 32) : (decOutput num).length = (decText num).length := by
  by_cases h : num = BitVec.intMin 32
  · rw [h, decOutput_intMin, decText_intMin]
    rfl
  · rw [decOutput_eq h]

/-- The code's expansion is as long as the one in decimal. -/
theorem length_expand_decOutput (k : Nat) (ps : List FmtPiece) :
    (expand decOutput args k ps).length = (expand decText args k ps).length := by
  induction ps generalizing k with
  | nil => rfl
  | cons p ps ih =>
    simp only [expand, List.length_append, ih]
    congr 1
    cases p with
    | dec => exact length_decOutput _
    | _ => rfl

/-! ## Filling the array -/

variable {n : Nat} {b : Buf n} {out l : List U8} {s s' : FmtState n} {c d : U8}

/-- The state after writing `out` and taking `k` arguments. -/
def fmtAt (b : Buf n) (out : List U8) (k : Nat) : FmtState n := ⟨b.overlay out, out.length, k⟩

theorem room_fmtAt (hn : n < 2 ^ 64) (h : out.length < n) : (fmtAt b out k).room = decide (out.length + 1 < n) := by
  have hmod : (out.length + 1) % 2 ^ 64 = out.length + 1 := Nat.mod_eq_of_lt (by omega)
  rw [FmtState.room, fmtAt, hmod]

theorem put_fmtAt (h : out.length < n) (c : U8) : (fmtAt b out k).put c = some (fmtAt b (out ++ [c]) k) := by
  rw [FmtState.put, fmtAt, Buf.write_overlay h]
  simp [fmtAt]

/-- Bytes that are added one by one stop in front of the last place. -/
theorem putWhile_fmtAt (hn : n < 2 ^ 64) (h : out.length < n) :
    (fmtAt b out k).putWhile l = some (fmtAt b ((out ++ l).take (n - 1)) k) := by
  induction l generalizing out with
  | nil => rw [List.append_nil, List.take_of_length_le (by omega)]; rfl
  | cons c l ih =>
    rw [FmtState.putWhile, room_fmtAt hn h]
    by_cases hroom : out.length + 1 < n
    · have hlen : (out ++ [c]).length < n := by simpa using hroom
      simp only [hroom, decide_true, if_true, put_fmtAt h, Option.bind_eq_bind, Option.bind_some, ih hlen,
        List.append_assoc, List.singleton_append]
    · have hcut : (out ++ c :: l).take (n - 1) = out := by
        rw [List.take_append_of_le_length (by omega), List.take_of_length_le (by omega)]
      simp [hroom, hcut]

/-- A full array takes no more bytes. -/
theorem putWhile_full (h : n ≤ s.i) (hs : s.putWhile l = some s') : n ≤ s'.i := by
  cases l with
  | nil =>
    cases hs
    exact h
  | cons c l =>
    rw [FmtState.putWhile] at hs
    by_cases hroom : s.room = true
    · simp [hroom, FmtState.put, Buf.write_full h] at hs
    · simp only [hroom, Bool.false_eq_true, if_false] at hs
      cases hs
      exact h

theorem put_full (h : n ≤ s.i) (c : U8) : s.put c = none := by
  rw [FmtState.put, Buf.write_full h]
  rfl

/-! ## One conversion -/

/-- The pieces whose bytes are cut where the array ends. -/
def FmtPiece.Known : FmtPiece → Prop
  | .other _ | .last => False
  | _ => True

theorem fmtConv_known (hn : n < 2 ^ 64) (h : out.length + 1 < n) (hp : (convPiece d).Known) :
    fmtConv args d (fmtAt b out k) =
      some (fmtAt b ((out ++ (convPiece d).text decOutput args (args.word k)).take (n - 1)) (k + (convPiece d).takes)) := by
  have hlt : out.length < n := by omega
  have hnext : { fmtAt b out k with arg := (fmtAt b out k).arg + 1 } = fmtAt b out (k + 1) := rfl
  have hword : args.word (fmtAt b out k).arg = args.word k := rfl
  unfold convPiece at hp ⊢
  rw [fmtConv, hnext, hword]
  by_cases hs : d = 0x73#8
  · simp only [if_pos hs, FmtPiece.text, FmtPiece.takes]
    exact putWhile_fmtAt hn hlt
  simp only [if_neg hs] at hp ⊢
  by_cases hd : d = 0x64#8
  · -- the sign and the digits are cut one after the other
    have hcut : ∀ l : List U8, ((out ++ l).take (n - 1)).length < n := fun l => by
      rw [List.length_take]
      omega
    simp only [if_pos hd, FmtPiece.text, FmtPiece.takes, putWhile_fmtAt hn hlt, Option.bind_eq_bind, Option.bind_some,
      putWhile_fmtAt hn (hcut _), List.take_append_take, List.append_assoc]
    rfl
  simp only [if_neg hd] at hp ⊢
  by_cases hx : d = 0x78#8
  · simp only [if_pos hx, FmtPiece.text, FmtPiece.takes, ← hexBytes_eq]
    exact putWhile_fmtAt hn hlt
  simp only [if_neg hx] at hp ⊢
  by_cases hc : d = 0x63#8
  · have hfits : (out ++ [(args.word k).setWidth 8]).take (n - 1) = out ++ [(args.word k).setWidth 8] :=
      List.take_of_length_le (by simp; omega)
    simp only [if_pos hc, FmtPiece.text, FmtPiece.takes, hfits]
    exact put_fmtAt hlt _
  · rw [if_neg hc] at hp
    exact hp.elim

/-- An unknown conversion is copied, without a look at the room for its second byte. -/
theorem fmtConv_other (h : out.length + 1 < n) (hp : convPiece d = .other d) (hd : d ≠ 0#8) :
    fmtConv args d (fmtAt b out k) = some (fmtAt b (out ++ [0x25#8, d]) k) := by
  have hne : d ≠ 0x73#8 ∧ d ≠ 0x64#8 ∧ d ≠ 0x78#8 ∧ d ≠ 0x63#8 := by
    refine ⟨?_, ?_, ?_, ?_⟩ <;> rintro rfl <;> exact absurd hp (by decide)
  have hlen : (out ++ [0x25#8]).length < n := by simpa using h
  rw [fmtConv]
  simp only [hne, if_false, put_fmtAt (show out.length < n by omega), Option.bind_eq_bind, Option.bind_some,
    ne_eq, hd, not_false_eq_true, if_true, put_fmtAt hlen, List.append_assoc, List.singleton_append]

/-- The `%` at the end of a format is copied. -/
theorem fmtConv_nul (h : out.length < n) :
    fmtConv args 0#8 (fmtAt b out k) = some (fmtAt b (out ++ [0x25#8]) k) := by
  rw [fmtConv]
  simp [put_fmtAt h]

theorem fmtConv_full (h : n ≤ s.i) (hs : fmtConv args d s = some s') : n ≤ s'.i := by
  have hnext : n ≤ { s with arg := s.arg + 1 }.i := h
  rw [fmtConv] at hs
  by_cases hstr : d = 0x73#8
  · rw [if_pos hstr] at hs
    exact putWhile_full hnext hs
  rw [if_neg hstr] at hs
  by_cases hdec : d = 0x64#8
  · rw [if_pos hdec] at hs
    obtain ⟨s₁, h₁, h₂⟩ := Option.bind_eq_some_iff.mp hs
    exact putWhile_full (putWhile_full hnext h₁) h₂
  rw [if_neg hdec] at hs
  by_cases hhex : d = 0x78#8
  · rw [if_pos hhex] at hs
    exact putWhile_full hnext hs
  rw [if_neg hhex] at hs
  by_cases hchr : d = 0x63#8
  · rw [if_pos hchr, put_full hnext] at hs
    cases hs
  · rw [if_neg hchr, put_full h] at hs
    cases hs

/-! ## The loop -/

/-- What the code needs at a piece that the text of length `len` comes before. -/
def FmtPiece.Fits (n len : Nat) : FmtPiece → Prop
  | .other _ => len + 2 ≠ n
  | .last => n ≤ len + 1
  | _ => True

/-- Every piece of the rest of the format has what it needs. -/
def FmtFits (n : Nat) (dec : BitVec 32 → List U8) (args : VaList) : Nat → Nat → List FmtPiece → Prop
  | _, _, [] => True
  | k, len, p :: ps => p.Fits n len ∧ FmtFits n dec args (k + p.takes) (len + (p.text dec args (args.word k)).length) ps

/-- Nothing more is read once the array is full. -/
theorem fmtFits_of_le {len : Nat} (h : n ≤ len + 1) : FmtFits n dec args k len ps := by
  induction ps generalizing k len with
  | nil => trivial
  | cons p ps ih =>
    refine ⟨?_, ih (by omega)⟩
    cases p with
    | other c => exact Nat.ne_of_gt (by omega)
    | last => exact h
    | _ => trivial

theorem fmtLoop_stop {c : U8} {fmt : List U8} (h : (decide (c = 0#8) || !s.room) = true) :
    fmtLoop args (c :: fmt) s = some s := by
  cases fmt <;> simp [fmtLoop, h]

theorem fmtLoop_lit {c : U8} {fmt : List U8} (h : ¬(decide (c = 0#8) || !s.room) = true) (hc : c ≠ 0x25#8) :
    fmtLoop args (c :: fmt) s = (s.put c).bind fun s => fmtLoop args fmt s := by
  cases fmt <;> simp [fmtLoop, h, hc]

theorem fmtLoop_conv {c d : U8} {fmt : List U8} (h : ¬(decide (c = 0#8) || !s.room) = true) (hc : ¬c ≠ 0x25#8) :
    fmtLoop args (c :: d :: fmt) s = (fmtConv args d s).bind fun s => fmtLoop args fmt s := by
  simp [fmtLoop, h, hc]

/-- A full array stays full, and there is no room for the NUL. -/
theorem fmtLoop_full {fmt : List U8} (h : n ≤ s.i) (hs : fmtLoop args fmt s = some s') : n ≤ s'.i := by
  induction fmt, s using fmtLoop.induct with
  | case1 s => simp [fmtLoop] at hs
  | case2 c fmt s hstop =>
    rw [fmtLoop_stop hstop] at hs
    cases hs
    exact h
  | case3 c fmt s hstop hc ih =>
    rw [fmtLoop_lit hstop hc, put_full h] at hs
    cases hs
  | case4 c s hstop hc => simp [fmtLoop, hstop, hc] at hs
  | case5 c s hstop hc d fmt ih =>
    rw [fmtLoop_conv hstop hc] at hs
    obtain ⟨s₁, h₁, h₂⟩ := Option.bind_eq_some_iff.mp hs
    exact ih s₁ (fmtConv_full h h₁) h₂

/-- A run of the loop that has written the front of `T`, with the pieces `ps` to come: it cuts the text of
all of them where the array ends, or leaves no place for the NUL. -/
structure Prints (b : Buf n) (args : VaList) (T : List U8) (k : Nat) (ps : List FmtPiece) (r : Option (FmtState n)) :
    Prop where
  fits : FmtFits n decOutput args k T.length ps →
    ∃ k', r = some (fmtAt b ((T ++ expand decOutput args k ps).take (n - 1)) k')
  unfit : ¬FmtFits n decOutput args k T.length ps → ∀ s, r = some s → n ≤ s.i

namespace Prints

variable {T : List U8} {p : FmtPiece} {r : Option (FmtState n)}

theorem nil (hr : r = some (fmtAt b (T.take (n - 1)) k)) : Prints b args T k [] r := by
  refine ⟨fun _ => ⟨k, ?_⟩, fun h => absurd trivial h⟩
  rw [hr, expand, List.append_nil]

/-- The array is full. -/
theorem cut (h : n ≤ T.length + 1) (hr : r = some (fmtAt b (T.take (n - 1)) k)) : Prints b args T k ps r := by
  refine ⟨fun _ => ⟨k, ?_⟩, fun hps => absurd (fmtFits_of_le h) hps⟩
  rw [hr, List.take_append_of_le_length (by omega)]

theorem cons (hp : p.Fits n T.length)
    (h : Prints b args (T ++ p.text decOutput args (args.word k)) (k + p.takes) ps r) : Prints b args T k (p :: ps) r := by
  obtain ⟨hfits, hunfit⟩ := h
  rw [List.length_append] at hfits hunfit
  rw [List.append_assoc] at hfits
  exact ⟨fun hps => hfits hps.2, fun hps => hunfit fun hrest => hps ⟨hp, hrest⟩⟩

theorem stuck (hp : ¬p.Fits n T.length) (hr : ∀ s, r = some s → n ≤ s.i) : Prints b args T k (p :: ps) r :=
  ⟨fun hps => absurd hps.1 hp, fun _ => hr⟩

end Prints

theorem fmtAt_goes (hn : n < 2 ^ 64) (h : out.length + 1 < n) {c : U8} (hc : c ≠ 0#8) :
    ¬(decide (c = 0#8) || !(fmtAt b out k).room) = true := by
  rw [room_fmtAt hn (by omega)]
  simpa [h] using hc

/-- Where the text fills the array, no character of the format counts. -/
theorem fmtLoop_cut (hn : n < 2 ^ 64) (hpos : 0 < n) {T : List U8} (h : n ≤ T.length + 1) (fmt : List U8) :
    Prints b args T k ps (fmtLoop args (fmt ++ [0#8]) (fmtAt b (T.take (n - 1)) k)) := by
  have hlen : (T.take (n - 1)).length = n - 1 := by
    rw [List.length_take]
    omega
  have hroom : (fmtAt b (T.take (n - 1)) k).room = false := by
    rw [room_fmtAt hn (by omega), hlen]
    exact decide_eq_false (by omega)
  refine .cut h ?_
  cases fmt <;> exact fmtLoop_stop (by simp [hroom])

theorem convPiece_cases (d : U8) : (convPiece d).Known ∨ convPiece d = .other d := by
  unfold convPiece
  split_ifs <;> simp [FmtPiece.Known]

theorem FmtPiece.Known.fits {p : FmtPiece} (h : p.Known) (n len : Nat) : p.Fits n len := by
  cases p with
  | other | last => exact h.elim
  | _ => trivial

theorem fmtLoop_prints (b : Buf n) (args : VaList) (hn : n < 2 ^ 64) (hpos : 0 < n) {fmt T : List U8}
    (hfmt : 0#8 ∉ fmt) :
    Prints b args T k (fmtPieces fmt) (fmtLoop args (fmt ++ [0#8]) (fmtAt b (T.take (n - 1)) k)) := by
  induction fmt using fmtPieces.induct generalizing T k with
  | case1 => exact .nil (by simp [fmtLoop])
  | case2 c fmt hc ih =>
    rcases Nat.lt_or_ge (T.length + 1) n with hroom | hfull
    · have hTc : (T ++ [c]).take (n - 1) = T ++ [c] := List.take_of_length_le (by simp; omega)
      have hnext := ih (T := T ++ [c]) (k := k) fun h => hfmt (List.mem_cons_of_mem _ h)
      rw [hTc] at hnext
      rw [List.take_of_length_le (by omega), List.cons_append,
        fmtLoop_lit (fmtAt_goes hn hroom fun h => hfmt (by simp [h])) hc,
        put_fmtAt (by omega), Option.bind_some, fmtPieces_lit hc]
      exact .cons trivial hnext
    · exact fmtLoop_cut hn hpos hfull _
  | case3 c hc =>
    rcases Nat.lt_or_ge (T.length + 1) n with hroom | hfull
    · -- the loop goes on behind the NUL
      rw [List.take_of_length_le (by omega), List.singleton_append,
        fmtLoop_conv (fmtAt_goes hn hroom fun h => hfmt (by simp [h])) hc, fmtConv_nul (by omega), Option.bind_some]
      simp only [fmtPieces, if_neg hc]
      exact .stuck (Nat.not_le.mpr hroom) nofun
    · exact fmtLoop_cut hn hpos hfull _
  | case4 c hc d fmt ih =>
    rcases Nat.lt_or_ge (T.length + 1) n with hroom | hfull
    · have hfmt' : 0#8 ∉ fmt := fun h => hfmt (by simp [h])
      have hd : d ≠ 0#8 := fun h => hfmt (by simp [h])
      rw [List.take_of_length_le (by omega), List.cons_append, List.cons_append,
        fmtLoop_conv (fmtAt_goes hn hroom fun h => hfmt (by simp [h])) hc, fmtPieces_conv hc]
      rcases convPiece_cases d with hp | hp
      · rw [fmtConv_known hn hroom hp, Option.bind_some]
        exact .cons (hp.fits _ _) (ih hfmt')
      · rw [fmtConv_other hroom hp hd, Option.bind_some, hp]
        by_cases hfit : T.length + 2 = n
        · refine .stuck (fun h => h hfit) fun s hs => fmtLoop_full ?_ hs
          simp [fmtAt, ← hfit]
        · have hnext := ih (T := T ++ [0x25#8, d]) (k := k) hfmt'
          rw [List.take_of_length_le (by simp; omega)] at hnext
          exact .cons hfit hnext
    · exact fmtLoop_cut hn hpos hfull _

/-! ## The result -/

/-- The array is filled with the front of the expansion and a NUL. -/
theorem vsnprintf_fits (hn : n < 2 ^ 64) (hpos : 0 < n) {fmt : CString}
    (h : FmtFits n decOutput args 0 0 (fmtPieces fmt.chars)) :
    vsnprintf b fmt args = some (b.overlay ((expand decOutput args 0 (fmtPieces fmt.chars)).take (n - 1) ++ [0#8]),
      BitVec.ofNat 32 (min (n - 1) (expand decOutput args 0 (fmtPieces fmt.chars)).length)) := by
  have hrun := fmtLoop_prints b args (k := 0) (T := []) hn hpos fmt.nonzero
  obtain ⟨k', hrun⟩ := hrun.fits h
  have hstart : fmtAt b (List.take (n - 1) []) 0 = ⟨b, 0, 0⟩ := by simp [fmtAt]
  rw [hstart, List.nil_append] at hrun
  rw [vsnprintf, hrun, Option.bind_eq_bind, Option.bind_some, fmtAt, Buf.write_overlay (by rw [List.length_take]; omega),
    List.length_take]
  rfl

/-- Otherwise something goes wrong. -/
theorem vsnprintf_unfit (hn : n < 2 ^ 64) (hpos : 0 < n) {fmt : CString}
    (h : ¬FmtFits n decOutput args 0 0 (fmtPieces fmt.chars)) : vsnprintf b fmt args = none := by
  have hrun := fmtLoop_prints b args (k := 0) (T := []) hn hpos fmt.nonzero
  have hstart : fmtAt b (List.take (n - 1) []) 0 = ⟨b, 0, 0⟩ := by simp [fmtAt]
  rw [hstart] at hrun
  rw [vsnprintf]
  cases hs : fmtLoop args (fmt.chars ++ [0#8]) ⟨b, 0, 0⟩ with
  | none => rfl
  | some s =>
    have hfull := hrun.unfit h s hs
    rw [Option.bind_eq_bind, Option.bind_some, Buf.write_full hfull]
    rfl

end PpoOS
