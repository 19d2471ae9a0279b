import PpoOS.Lib.Runs
import PpoOS.Str.String

/-!
# `strtok_r` in an array (`string.c`)

The tokens of a string are cut out in place: each call writes a NUL over the delimiter
behind its token and saves the place behind that.  **`strtokR_run`**: the calls up to the first
NULL give the runs of the string without delimiters, and change nothing but
delimiters.  `strtokR`, which the search for a program uses, gives the same runs
(`strtokTokens_eq`).
-/

namespace PpoOS

variable {n : Nat}

/-- The string at a place of an array. -/
def strAt (b : Buf n) (p : Nat) : Option CString := CString.read (b.bytes.drop p)

/-- `strtok_r(str, delim, &saveptr)` for a string in an array.  A pointer is a place of the array, or NULL; the
array, `saveptr` and the result. -/
def strtokRIn (delim : CString) (str : Option Nat) (saveptr : Nat) (b : Buf n) :
    Option (Buf n × Nat × Option Nat) := do
  let str := str.getD saveptr
  let token := str + strspn delim.chars (← strAt b str).chars
  if (← b.bytes[token]?) = 0#8 then return (b, token, none)
  let s ← strAt b token
  match strpbrk delim.chars s.chars with
  | none => return (b, token + s.length, some token)
  | some i => return (← b.write (token + i) 0#8, token + i + 1, some token)

/-- `strtok_r(str, delim, &saveptr)` and then `strtok_r(NULL, delim, &saveptr)` until it gives NULL: the tokens with
their places, as each call left them, the array and `saveptr`. -/
def strtokRun (delim : CString) : Nat → Option Nat → Nat → Buf n → Option (List (Nat × CString) × Buf n × Nat)
  | 0, _, _, _ => none
  | fuel + 1, str, saveptr, b => do
    let (b, saveptr, token) ← strtokRIn delim str saveptr b
    match token with
    | none => return ([], b, saveptr)
    | some p =>
      let text ← strAt b p
      let (tokens, b, saveptr) ← strtokRun delim fuel none saveptr b
      return ((p, text) :: tokens, b, saveptr)

/-- The tokens that `strtok` gives one after the other. -/
def strtokTokens (delim : List (BitVec 8)) : Nat → List (BitVec 8) → List (List (BitVec 8))
  | 0, _ => []
  | fuel + 1, l =>
    match strtokR delim l with
    | none => []
    | some (token, rest) => token :: strtokTokens delim fuel rest

/-! ## The two scans -/

variable {d pre run l : List (BitVec 8)} {c : BitVec 8}

theorem strspn_append (hpre : ∀ c ∈ pre, c ∈ d) (l : List (BitVec 8)) :
    strspn d (pre ++ l) = pre.length + strspn d l := by
  induction pre with
  | nil => rw [List.nil_append, List.length_nil, Nat.zero_add]
  | cons c pre ih =>
    rw [List.cons_append, strspn, if_pos (hpre c List.mem_cons_self), ih fun a ha => hpre a (List.mem_cons_of_mem _ ha),
      List.length_cons]
    omega

/-- A run ends the first scan. -/
theorem strspn_run (hne : run ≠ []) (hrun : ∀ c ∈ run, c ∉ d) (l : List (BitVec 8)) : strspn d (run ++ l) = 0 := by
  obtain ⟨c, run, rfl⟩ := List.exists_cons_of_ne_nil hne
  exact if_neg (hrun c List.mem_cons_self)

theorem strpbrk_run (hrun : ∀ c ∈ run, c ∉ d) : strpbrk d run = none := by
  induction run with
  | nil => rfl
  | cons c run ih =>
    rw [strpbrk, if_neg (hrun c List.mem_cons_self), ih fun a ha => hrun a (List.mem_cons_of_mem _ ha)]
    rfl

theorem strpbrk_cut (hrun : ∀ c ∈ run, c ∉ d) (hc : c ∈ d) (l : List (BitVec 8)) :
    strpbrk d (run ++ c :: l) = some run.length := by
  induction run with
  | nil => exact if_pos hc
  | cons a run ih =>
    rw [List.cons_append, strpbrk, if_neg (hrun a List.mem_cons_self),
      ih fun x hx => hrun x (List.mem_cons_of_mem _ hx)]
    rfl

/-! ## Tokens of a list -/

/-- A delimiter. -/
def isDelim (d : List (BitVec 8)) (c : BitVec 8) : Bool := d.contains c

theorem isDelim_eq_true {d : List (BitVec 8)} {c : BitVec 8} : isDelim d c = true ↔ c ∈ d := List.contains_iff_mem

theorem isDelim_eq_false {d : List (BitVec 8)} {c : BitVec 8} : isDelim d c = false ↔ c ∉ d := by
  rw [← isDelim_eq_true, Bool.not_eq_true]

/-- The ways in which a call ends, for a string `l`. -/
inductive TokenCase (d l : List (BitVec 8)) : Prop
  | none (hl : ∀ c ∈ l, c ∈ d)
  | last (pre run : List (BitVec 8)) (hpre : ∀ c ∈ pre, c ∈ d) (hne : run ≠ []) (hrun : ∀ c ∈ run, c ∉ d)
      (hl : l = pre ++ run)
  | cut (pre run : List (BitVec 8)) (c : BitVec 8) (rest : List (BitVec 8)) (hpre : ∀ c ∈ pre, c ∈ d) (hne : run ≠ [])
      (hrun : ∀ c ∈ run, c ∉ d) (hc : c ∈ d) (hl : l = pre ++ (run ++ c :: rest))

theorem tokenCase (d l : List (BitVec 8)) : TokenCase d l := by
  obtain ⟨pre, hpre, hl⟩ := List.runs_cases (isDelim d) l
  have hpre' : ∀ c ∈ pre, c ∈ d := fun c hc => isDelim_eq_true.mp (hpre c hc)
  rcases hl with rfl | ⟨run, hne, hrun, hl⟩
  · exact .none hpre'
  have hrun' : ∀ c ∈ run, c ∉ d := fun c hc => isDelim_eq_false.mp (hrun c hc)
  rcases hl with hl | ⟨c, rest, hc, hl⟩
  · exact .last pre run hpre' hne hrun' hl
  · exact .cut pre run c rest hpre' hne hrun' (isDelim_eq_true.mp hc) hl

theorem runs_none (hl : ∀ c ∈ l, c ∈ d) : List.runs (isDelim d) l = [] := by
  have h : List.runs (isDelim d) (l ++ []) = List.runs (isDelim d) [] :=
    List.runs_skip (fun c hc => isDelim_eq_true.mpr (hl c hc)) []
  rwa [List.append_nil, List.runs_nil] at h

theorem runs_last (hpre : ∀ c ∈ pre, c ∈ d) (hne : run ≠ []) (hrun : ∀ c ∈ run, c ∉ d) :
    List.runs (isDelim d) (pre ++ run) = [run] := by
  rw [List.runs_skip (p := isDelim d) fun c hc => isDelim_eq_true.mpr (hpre c hc),
    List.runs_all (p := isDelim d) hne fun c hc => isDelim_eq_false.mpr (hrun c hc)]

theorem runs_cut (hpre : ∀ c ∈ pre, c ∈ d) (hne : run ≠ []) (hrun : ∀ c ∈ run, c ∉ d) (hc : c ∈ d)
    (rest : List (BitVec 8)) :
    List.runs (isDelim d) (pre ++ (run ++ c :: rest)) = run :: List.runs (isDelim d) rest := by
  rw [List.runs_skip (p := isDelim d) fun c hc => isDelim_eq_true.mpr (hpre c hc),
    List.runs_cut (p := isDelim d) hne (fun c hc => isDelim_eq_false.mpr (hrun c hc)) (isDelim_eq_true.mpr hc)]

theorem strtokTokens_nil (fuel : Nat) : strtokTokens d fuel [] = [] := by
  cases fuel <;> rfl

/-- The tokens are the runs. -/
theorem strtokTokens_eq {fuel : Nat} (h : l.length < fuel) : strtokTokens d fuel l = List.runs (isDelim d) l := by
  induction fuel generalizing l with
  | zero => omega
  | succ fuel ih =>
    rw [strtokTokens]
    cases tokenCase d l with
    | none hl =>
      have hspan := strspn_append hl []
      rw [List.append_nil] at hspan
      rw [runs_none hl, strtokR, hspan, strspn, Nat.add_zero, List.drop_length]
    | last pre run hpre hne hrun hl =>
      have hspan := strspn_run hne hrun []
      rw [List.append_nil] at hspan
      obtain ⟨a, t, rfl⟩ := List.exists_cons_of_ne_nil hne
      rw [hl, runs_last hpre hne hrun, strtokR, strspn_append hpre, hspan, Nat.add_zero, List.drop_left]
      dsimp only
      rw [strpbrk_run hrun]
      dsimp only
      rw [strtokTokens_nil]
    | cut pre run c rest hpre hne hrun hc hl =>
      have hspan := strspn_run hne hrun (c :: rest)
      obtain ⟨a, t, rfl⟩ := List.exists_cons_of_ne_nil hne
      have hrest : rest.length < fuel := by
        rw [hl] at h
        simp only [List.length_append, List.length_cons] at h
        omega
      have hcut := strpbrk_cut hrun hc rest
      have hback : (a :: t ++ c :: rest).drop ((a :: t).length + 1) = rest := by
        rw [← List.drop_drop, List.drop_left]
        rfl
      rw [hl, runs_cut hpre hne hrun hc, strtokR, strspn_append hpre, hspan, Nat.add_zero, List.drop_left,
        List.cons_append]
      dsimp only
      rw [← List.cons_append, hcut]
      dsimp only
      rw [List.take_left, hback, ih hrest]

/-! ## Strings in an array -/

variable {b b' : Buf n} {p k save : Nat} {s delim : CString} {str : Option Nat}

theorem strAt_eq_some_iff : strAt b p = some s ↔ ∃ rest, b.bytes.drop p = s.chars ++ 0#8 :: rest :=
  CString.read_eq_some_iff

/-- The string and its NUL, byte by byte. -/
theorem strAt_iff : strAt b p = some s ↔ ∀ i ≤ s.length, b.bytes[p + i]? = (s.chars ++ [0#8])[i]? := by
  have hprefix : (∃ rest, b.bytes.drop p = s.chars ++ 0#8 :: rest) ↔ s.chars ++ [0#8] <+: b.bytes.drop p := by
    constructor
    · rintro ⟨rest, h⟩
      exact ⟨rest, by rw [h, List.append_assoc, List.singleton_append]⟩
    · rintro ⟨rest, h⟩
      exact ⟨rest, by rw [← h, List.append_assoc, List.singleton_append]⟩
  have hlen : (s.chars ++ [0#8]).length = s.length + 1 := by simp [CString.length]
  rw [strAt_eq_some_iff, hprefix, List.prefix_iff_getElem?]
  constructor
  · intro h i hi
    rw [← List.getElem?_drop, h i (by omega), List.getElem?_eq_getElem]
  · intro h i hi
    rw [List.getElem?_drop, h i (by omega), List.getElem?_eq_getElem]

/-- It depends on its own bytes. -/
theorem strAt_congr (h : strAt b p = some s) (hsame : ∀ i ≤ s.length, b'.bytes[p + i]? = b.bytes[p + i]?) :
    strAt b' p = some s :=
  strAt_iff.mpr fun i hi => (hsame i hi).trans (strAt_iff.mp h i hi)

theorem strAt_nul (h : strAt b p = some s) : b.bytes[p + s.length]? = some 0#8 := by
  rw [strAt_iff.mp h _ (Nat.le_refl _), CString.length, List.getElem?_append_right (Nat.le_refl _), Nat.sub_self]
  rfl

theorem strAt_char (h : strAt b p = some s) {i : Nat} (hi : i < s.length) : b.bytes[p + i]? = s.chars[i]? := by
  rw [strAt_iff.mp h i (Nat.le_of_lt hi), List.getElem?_append_left hi]

/-- The end of a string. -/
theorem strAt_drop (h : strAt b p = some s) (hk : k ≤ s.length) : strAt b (p + k) = some (s.drop k) := by
  obtain ⟨rest, hrest⟩ := strAt_eq_some_iff.mp h
  refine strAt_eq_some_iff.mpr ⟨rest, ?_⟩
  rw [← List.drop_drop, hrest, List.drop_append_of_le_length hk]
  rfl

/-- A NUL in a string cuts it. -/
theorem strAt_cut (h : strAt b p = some s) (hk : k < s.length) (hw : b.write (p + k) 0#8 = some b') :
    strAt b' p = some (s.take k) := by
  obtain ⟨rest, hrest⟩ := strAt_eq_some_iff.mp h
  obtain ⟨-, hbytes⟩ := Buf.write_some_iff.mp hw
  obtain ⟨x, t, hx⟩ := List.exists_cons_of_ne_nil (l := s.chars.drop k) fun hnil => by
    have hlen := List.drop_eq_nil_iff.mp hnil
    exact absurd hk (Nat.not_lt.mpr hlen)
  have hlen : (s.chars.take k).length = k := List.length_take_of_le (Nat.le_of_lt hk)
  have hs : s.chars = s.chars.take k ++ x :: t := by rw [← hx, List.take_append_drop]
  refine strAt_eq_some_iff.mpr ⟨t ++ 0#8 :: rest, ?_⟩
  rw [hbytes, List.drop_set, if_neg (by omega), Nat.add_sub_cancel_left, hrest, CString.chars_take]
  nth_rewrite 1 [hs]
  rw [List.append_assoc, List.set_append_right _ _ (Nat.le_of_eq hlen), hlen, Nat.sub_self]
  rfl

/-! ## One call -/

section Call

variable {rest : List (BitVec 8)} (h : strAt b p = some s) (hstr : str.getD save = p)

include h hstr

/-- There are only delimiters. -/
theorem strtokRIn_none (hl : ∀ c ∈ s.chars, c ∈ delim.chars) :
    strtokRIn delim str save b = some (b, p + s.length, none) := by
  have hspan : strspn delim.chars s.chars = s.length := by
    have happend := strspn_append hl []
    rwa [List.append_nil, strspn, Nat.add_zero] at happend
  rw [strtokRIn]
  simp only [hstr, h, Option.bind_eq_bind, Option.bind_some, hspan, strAt_nul h]
  rfl

/-- A token, up to the end of the string or to a delimiter. -/
theorem strtokRIn_token (hs : s.chars = pre ++ (run ++ l)) (hpre : ∀ c ∈ pre, c ∈ delim.chars) (hne : run ≠ [])
    (hrun : ∀ c ∈ run, c ∉ delim.chars) :
    strtokRIn delim str save b =
      match strpbrk delim.chars (run ++ l) with
      | none => some (b, p + s.length, some (p + pre.length))
      | some i => (b.write (p + pre.length + i) 0#8).map fun b' => (b', p + pre.length + i + 1, some (p + pre.length)) := by
  have hlen : s.length = pre.length + (run ++ l).length := by rw [CString.length, hs, List.length_append]
  have hspan : strspn delim.chars s.chars = pre.length := by
    rw [hs, strspn_append hpre, strspn_run hne hrun, Nat.add_zero]
  obtain ⟨a, t, rfl⟩ := List.exists_cons_of_ne_nil hne
  have htail : (s.drop pre.length).chars = a :: t ++ l := by rw [CString.chars_drop, hs, List.drop_left]
  have hfirst : b.bytes[p + pre.length]? = some a := by
    rw [strAt_char h (by rw [hlen, List.length_append, List.length_cons]; omega), hs,
      List.getElem?_append_right (Nat.le_refl _), Nat.sub_self]
    rfl
  have ha : a ≠ 0#8 := by
    rintro rfl
    exact s.nonzero (hs ▸ by simp)
  have hdrop := strAt_drop h (k := pre.length) (by omega)
  rw [strtokRIn]
  simp only [hstr, h, Option.bind_eq_bind, Option.bind_some, hspan, hfirst, if_neg ha, hdrop, htail]
  cases strpbrk delim.chars (a :: t ++ l) with
  | none =>
    have hrest : p + pre.length + (s.drop pre.length).length = p + s.length := by
      rw [CString.length, htail, hlen]
      omega
    rw [hrest]
    rfl
  | some i =>
    dsimp only
    rw [Option.map_eq_bind]
    rfl

end Call

/-! ## All calls -/

/-- What the calls up to the first NULL make of the string `s` at `p`: the tokens are its runs and stay where they
are, only delimiters of the string are overwritten, and every further call gives NULL. -/
structure StrtokSplits (delim s : CString) (p : Nat) (b : Buf n) (tokens : List (Nat × CString)) (b' : Buf n)
    (saveptr : Nat) : Prop where
  runs : tokens.map (fun t => t.2.chars) = List.runs (isDelim delim.chars) s.chars
  texts : ∀ t ∈ tokens, strAt b' t.1 = some t.2
  delims : ∀ i, b'.bytes[i]? = b.bytes[i]? ∨
    p ≤ i ∧ i < p + s.length ∧ b'.bytes[i]? = some 0#8 ∧ ∃ c ∈ delim.chars, b.bytes[i]? = some c
  ends : strtokRIn delim none saveptr b' = some (b', saveptr, none)

/-- A call that gives NULL, and those after it. -/
theorem StrtokSplits.none (h : strAt b p = some s) (hl : ∀ c ∈ s.chars, c ∈ delim.chars) :
    StrtokSplits delim s p b [] b (p + s.length) where
  runs := (runs_none hl).symm
  texts _ ht := nomatch ht
  delims _ := .inl rfl
  ends := by
    have hend := strAt_drop h (Nat.le_refl s.length)
    have hempty : s.drop s.length = CString.empty := by
      ext1
      exact List.drop_length
    rw [hempty] at hend
    have hcall : strtokRIn delim .none (p + s.length) b = some (b, p + s.length + CString.empty.length, .none) :=
      strtokRIn_none hend rfl nofun
    exact hcall

/-- A call on the string `s` at `p` that turns `b` into `b₁` and gives the token `text` at `q`: the string `rest` at `next` is
what the next call finds. -/
structure TokenStep (delim s : CString) (p : Nat) (b b₁ : Buf n) (q next : Nat) (text rest : CString) : Prop where
  token : strAt b₁ q = some text
  follows : strAt b₁ next = some rest
  shorter : rest.length < s.length
  before : rest.length = 0 ∨ q + text.length < next
  le_next : p ≤ next
  next_le : next + rest.length ≤ p + s.length
  runs : List.runs (isDelim delim.chars) s.chars = text.chars :: List.runs (isDelim delim.chars) rest.chars
  delims : ∀ i, b₁.bytes[i]? = b.bytes[i]? ∨
    p ≤ i ∧ i < next ∧ b₁.bytes[i]? = some 0#8 ∧ ∃ c ∈ delim.chars, b.bytes[i]? = some c

/-- A token in front of the rest. -/
theorem StrtokSplits.cons {b₁ : Buf n} {q next : Nat} {text rest : CString} {tokens : List (Nat × CString)}
    (h : StrtokSplits delim rest next b₁ tokens b' save) (hstep : TokenStep delim s p b b₁ q next text rest) :
    StrtokSplits delim s p b ((q, text) :: tokens) b' save where
  runs := by rw [List.map_cons, h.runs, hstep.runs]
  texts t ht := by
    rcases List.mem_cons.mp ht with rfl | ht
    · refine strAt_congr hstep.token fun i hi => (h.delims _).resolve_right ?_
      have hi : i ≤ text.length := hi
      have hbefore := hstep.before
      rintro ⟨hge, hlt, -⟩
      omega
    · exact h.texts t ht
  delims i := by
    have hp := hstep.le_next
    have hend := hstep.next_le
    rcases h.delims i with hsame | ⟨hge, hlt, hzero, c, hc, hat⟩
    · rcases hstep.delims i with hold | ⟨hge, hlt, hzero, hat⟩
      · exact .inl (hsame.trans hold)
      · exact .inr ⟨hge, by omega, hsame.trans hzero, hat⟩
    · have hold := (hstep.delims i).resolve_right fun hin => by omega
      exact .inr ⟨by omega, by omega, hzero, c, hc, hold.symm.trans hat⟩
  ends := h.ends

/-- A token up to the end of the string. -/
theorem tokenStep_last (h : strAt b p = some s) (hpre : ∀ c ∈ pre, c ∈ delim.chars) (hne : run ≠ [])
    (hrun : ∀ c ∈ run, c ∉ delim.chars) (hs : s.chars = pre ++ run) :
    TokenStep delim s p b b (p + pre.length) (p + s.length) (s.drop pre.length) (s.drop s.length) := by
  have hlen : s.length = pre.length + run.length := by rw [CString.length, hs, List.length_append]
  have hpos := List.length_pos_iff.mpr hne
  have htext : (s.drop pre.length).chars = run := by rw [CString.chars_drop, hs, List.drop_left]
  have hzero : (s.drop s.length).length = 0 := by rw [CString.length, CString.chars_drop, CString.length]; simp
  have hrest : (s.drop s.length).chars = [] := List.length_eq_zero_iff.mp hzero
  refine ⟨strAt_drop h (by omega), strAt_drop h (Nat.le_refl _), by omega, .inl hzero, by omega, by omega, ?_,
    fun _ => .inl rfl⟩
  rw [htext, hrest, List.runs_nil, hs, runs_last hpre hne hrun]

/-- A token up to a delimiter, which is overwritten. -/
theorem tokenStep_cut (h : strAt b p = some s) (hpre : ∀ c ∈ pre, c ∈ delim.chars) (hne : run ≠ [])
    (hrun : ∀ c ∈ run, c ∉ delim.chars) {c : BitVec 8} {rest : List (BitVec 8)} (hc : c ∈ delim.chars)
    (hs : s.chars = pre ++ (run ++ c :: rest)) {b₁ : Buf n} (hwrite : b.write (p + pre.length + run.length) 0#8 = some b₁) :
    TokenStep delim s p b b₁ (p + pre.length) (p + pre.length + run.length + 1)
      ((s.drop pre.length).take run.length) (s.drop (pre.length + run.length + 1)) := by
  have hlen : s.length = pre.length + run.length + (rest.length + 1) := by
    rw [CString.length, hs, List.length_append, List.length_append, List.length_cons, Nat.add_assoc]
  have hat : b.bytes[p + pre.length + run.length]? = some c := by
    rw [Nat.add_assoc, strAt_char h (by omega), hs, List.getElem?_append_right (Nat.le_add_right _ _),
      Nat.add_sub_cancel_left, List.getElem?_append_right (Nat.le_refl _), Nat.sub_self]
    rfl
  obtain ⟨hlt, hbytes⟩ := Buf.write_some_iff.mp hwrite
  have hpre' := strAt_drop h (k := pre.length) (by omega)
  have hdrop : (s.drop pre.length).length = s.length - pre.length := List.length_drop
  have htext : ((s.drop pre.length).take run.length).chars = run := by
    rw [CString.chars_take, CString.chars_drop, hs, List.drop_left, List.take_left]
  have hafter := strAt_drop h (k := pre.length + run.length + 1) (by omega)
  have hrest : (s.drop (pre.length + run.length + 1)).chars = rest := by
    rw [CString.chars_drop, hs, ← List.drop_drop, ← List.drop_drop, List.drop_left, List.drop_left]
    rfl
  have hrestLen : (s.drop (pre.length + run.length + 1)).length = rest.length := congrArg List.length hrest
  have hother : ∀ i ≠ p + pre.length + run.length, b₁.bytes[i]? = b.bytes[i]? := fun i hi => by
    rw [hbytes]
    exact List.getElem?_set_ne (Ne.symm hi)
  have hnext : strAt b₁ (p + (pre.length + run.length + 1)) = some (s.drop (pre.length + run.length + 1)) :=
    strAt_congr hafter fun i _ => hother _ (by omega)
  have hplace : p + (pre.length + run.length + 1) = p + pre.length + run.length + 1 := by omega
  rw [hplace] at hnext
  refine ⟨strAt_cut hpre' (by omega) hwrite, hnext, by omega, .inr ?_, by omega, by omega, ?_, fun i => ?_⟩
  · rw [CString.length, htext]
    omega
  · rw [htext, hrest, hs, runs_cut hpre hne hrun hc]
  · by_cases hi : i = p + pre.length + run.length
    · subst hi
      refine .inr ⟨by omega, by omega, ?_, c, hc, hat⟩
      rw [hbytes, List.getElem?_set_self (b.length_eq.symm ▸ hlt)]
    · exact .inl (hother i hi)

theorem strtokRun_cons {b₁ : Buf n} {q next : Nat} {text : CString} {tokens : List (Nat × CString)} {save' fuel : Nat}
    (hcall : strtokRIn delim str save b = some (b₁, next, some q)) (htext : strAt b₁ q = some text)
    (hrest : strtokRun delim fuel none next b₁ = some (tokens, b', save')) :
    strtokRun delim (fuel + 1) str save b = some ((q, text) :: tokens, b', save') := by
  rw [strtokRun, hcall, Option.bind_eq_bind, Option.bind_some]
  dsimp only
  rw [htext, Option.bind_eq_bind, Option.bind_some, hrest]
  rfl

/-- **The calls of `strtok_r`** come to an end, and split the string. -/
theorem strtokR_run (delim : CString) (h : strAt b p = some s) (hstr : str.getD save = p) :
    ∃ tokens b' save', (∀ fuel > s.length, strtokRun delim fuel str save b = some (tokens, b', save')) ∧
      StrtokSplits delim s p b tokens b' save' := by
  induction hk : s.length using Nat.strong_induction_on generalizing s p b str save with
  | _ k ih =>
    subst hk
    -- the string behind a token is shorter
    have htoken : ∀ {b₁ : Buf n} {q next : Nat} {text rest : CString},
        strtokRIn delim str save b = some (b₁, next, some q) → TokenStep delim s p b b₁ q next text rest →
        ∃ tokens b' save', (∀ fuel > s.length, strtokRun delim fuel str save b = some (tokens, b', save')) ∧
          StrtokSplits delim s p b tokens b' save' := by
      intro b₁ q next text rest hcall hstep
      have hlt := hstep.shorter
      obtain ⟨tokens, b', save', hrun, hsplits⟩ := ih rest.length hlt hstep.follows
        (show (none : Option Nat).getD next = next from rfl) rfl
      refine ⟨(q, text) :: tokens, b', save', fun fuel hfuel => ?_, hsplits.cons hstep⟩
      obtain ⟨fuel, rfl⟩ := Nat.exists_eq_succ_of_ne_zero (Nat.ne_zero_of_lt hfuel)
      exact strtokRun_cons hcall hstep.token (hrun fuel (by omega))
    cases tokenCase delim.chars s.chars with
    | none hl =>
      refine ⟨_, _, _, fun fuel hfuel => ?_, StrtokSplits.none h hl⟩
      obtain ⟨fuel, rfl⟩ := Nat.exists_eq_succ_of_ne_zero (Nat.ne_zero_of_lt hfuel)
      rw [strtokRun, strtokRIn_none h hstr hl]
      rfl
    | last pre run hpre hne hrun hs =>
      have hcall := strtokRIn_token h hstr (l := []) (by rwa [List.append_nil]) hpre hne hrun
      rw [List.append_nil, strpbrk_run hrun] at hcall
      exact htoken hcall (tokenStep_last h hpre hne hrun hs)
    | cut pre run c rest hpre hne hrun hc hs =>
      have hlen : s.length = pre.length + (run.length + (rest.length + 1)) := by
        rw [CString.length, hs, List.length_append, List.length_append, List.length_cons]
      have hfit : p + pre.length + run.length < n := by
        obtain ⟨hlt, -⟩ := List.getElem?_eq_some_iff.mp (strAt_nul h)
        rw [b.length_eq] at hlt
        omega
      have hwrite : b.write (p + pre.length + run.length) 0#8 = some _ := if_pos hfit
      have hcall := strtokRIn_token h hstr hs hpre hne hrun
      rw [strpbrk_cut hrun hc] at hcall
      dsimp only at hcall
      rw [hwrite, Option.map_some] at hcall
      exact htoken hcall (tokenStep_cut h hpre hne hrun hc hs hwrite)

end PpoOS
