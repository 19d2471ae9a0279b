import PpoOS.Shell.Shell

/-!
# The modules of the boot loader (`main.c`)

`getFile` looks for the first module whose file name ends with a given text.
`checkStringEndsWith` goes backwards through both texts and stops when it comes to the
first character of one of them, before it compares that character.
-/

namespace PpoOS

/-- The loop of `checkStringEndsWith`.  A pointer is given by the bytes from the start of its array up to it, the
last one first, so that there is nothing to read in front of the array; `_str` has `front` bytes in
front of it, and `_end` none. -/
def endsWithLoop (front : Nat) : List U8 → List U8 → Option Bool
  | a :: str, b :: stop =>
    if a ≠ b then some false
    else if stop.length = 1 ∨ str.length = front + 1 ∧ stop.length = 1 then some true
    else if str.length = front + 1 then some false
    else endsWithLoop front str stop
  | _, _ => none

/-- `checkStringEndsWith`, where `str` stands behind the bytes `front` in its array.  Both pointers start at
the last character. -/
def checkStringEndsWith (front : List U8) (str stop : CString) : Option Bool :=
  endsWithLoop front.length (front ++ str.chars).reverse stop.chars.reverse

/-- `last_slash`: the place behind the last slash or backslash of the characters, the first of which is at `i`. -/
def lastSlash : List U8 → Nat → Nat → Nat
  | [], _, last => last
  | c :: filename, i, last => lastSlash filename (i + 1) (if c = 0x2F#8 ∨ c = 0x5C#8 then i + 1 else last)

/-- The loop of `getFile`, over the paths of the modules. -/
def getFileLoop (name : CString) : List CString → Option (Option CString)
  | [] => some none
  | path :: modules => do
    let start := lastSlash path.chars 0 0
    if ← checkStringEndsWith (path.chars.take start) (path.drop start) name then return some path
    else getFileLoop name modules

/-- `getFile`: the path of the module that is found.  There is no result without a response of the boot loader,
where it halts, nor where it reads in front of a text. -/
def Modules.getFile (response : Option (List CString)) (name : CString) : Option (Option CString) :=
  response.bind fun modules => getFileLoop name modules

/-! ## Suffixes -/

theorem cons_suffix_iff {α : Type*} {c : α} {t s : List α} :
    c :: t <:+ s ↔ t <:+ s ∧ t.length < s.length ∧ s[s.length - (t.length + 1)]? = some c := by
  constructor
  · rintro ⟨p, rfl⟩
    have hplace : (p ++ c :: t).length - (t.length + 1) = p.length := by
      rw [List.length_append, List.length_cons]
      omega
    refine ⟨⟨p ++ [c], by simp⟩, by rw [List.length_append, List.length_cons]; omega, ?_⟩
    rw [hplace, List.getElem?_append_right (Nat.le_refl _), Nat.sub_self]
    rfl
  · rintro ⟨⟨p, rfl⟩, hlen, hc⟩
    rcases List.eq_nil_or_concat p with rfl | ⟨p, x, rfl⟩
    · exact absurd hlen (Nat.lt_irrefl _)
    · have hplace : (p ++ [x] ++ t).length - (t.length + 1) = p.length := by
        simp only [List.length_append, List.length_singleton]
        omega
      rw [List.concat_eq_append] at hc ⊢
      rw [hplace, List.append_assoc, List.getElem?_append_right (Nat.le_refl _), Nat.sub_self] at hc
      rw [List.append_assoc]
      obtain rfl : x = c := Option.some.inj hc
      exact List.suffix_append p (x :: t)

theorem strEndsWith_iff (s e : CString) : strEndsWith (some s) (some e) = true ↔ e.chars <:+ s.chars := by
  unfold strEndsWith
  dsimp only
  by_cases hlen : e.length > s.length
  · rw [if_pos hlen]
    exact ⟨nofun, fun h => absurd h.length_le (Nat.not_le.mpr hlen)⟩
  · rw [if_neg hlen, decide_eq_true_iff, strcmp_eq_zero, CString.ext_iff, CString.chars_drop]
    exact ⟨fun h => h ▸ List.drop_suffix _ _, fun h => (List.suffix_iff_eq_drop.mp h).symm⟩

/-! ## The loop -/

variable {front : Nat} {a b : U8} {F S E : List U8} {s e : CString}

/-- The last characters differ. -/
theorem endsWithLoop_ne (hab : a ≠ b) (str stop : List U8) : endsWithLoop front (a :: str) (b :: stop) = some false := by
  rw [endsWithLoop, if_pos hab]

/-- The last characters are equal, and go. -/
theorem endsWithLoop_eq (c : U8) (S F E : List U8) : endsWithLoop F.length (c :: (S ++ F)) (c :: E) =
    if E.length = 1 then some true
    else if S.length = 1 then some false
    else endsWithLoop F.length (S ++ F) E := by
  have hlen : (S ++ F).length = F.length + 1 ↔ S.length = 1 := by
    rw [List.length_append]
    omega
  rw [endsWithLoop, if_neg (not_not.mpr rfl)]
  by_cases hone : E.length = 1
  · rw [if_pos (.inl hone), if_pos hone]
  · rw [if_neg (by rintro (h | ⟨-, h⟩) <;> exact hone h), if_neg hone]
    by_cases hend : S.length = 1
    · rw [if_pos (hlen.mpr hend), if_pos hend]
    · rw [if_neg (mt hlen.mp hend), if_neg hend]

/-- Texts of two and more characters: the first character of the suffix does not count. -/
theorem endsWithLoop_long (hS : 2 ≤ S.length) (hE : 2 ≤ E.length) :
    endsWithLoop F.length (S ++ F) E = some (decide (E.length ≤ S.length ∧ E.dropLast <+: S)) := by
  induction S generalizing E with
  | nil => simp at hS
  | cons a S ih =>
    obtain ⟨b, E, rfl⟩ := List.exists_cons_of_length_pos (by omega : 0 < E.length)
    rw [List.length_cons] at hS hE
    have hfirst : (b :: E).dropLast = b :: E.dropLast := List.dropLast_cons_of_ne_nil (by rintro rfl; simp at hE)
    simp only [List.cons_append, hfirst, List.cons_prefix_cons]
    by_cases hab : a = b
    · subst hab
      rw [endsWithLoop_eq]
      by_cases hone : E.length = 1
      · obtain ⟨c, rfl⟩ := List.length_eq_one_iff.mp hone
        rw [if_pos hone, decide_eq_true]
        exact ⟨by simp only [List.length_cons] at hS ⊢; omega, rfl, List.nil_prefix⟩
      · rw [if_neg hone]
        by_cases hend : S.length = 1
        · rw [if_pos hend, decide_eq_false]
          rintro ⟨hle, -⟩
          simp only [List.length_cons] at hle
          omega
        · rw [if_neg hend, ih (by omega) (by omega)]
          simp only [List.length_cons, Nat.add_le_add_iff_right, true_and]
    · rw [endsWithLoop_ne hab, decide_eq_false]
      rintro ⟨-, hba, -⟩
      exact hab hba.symm

/-! ## The two tests -/

/-- A suffix without its first character. -/
def LooseEnd (s e : CString) : Prop := e.length ≤ s.length ∧ e.chars.tail <:+ s.chars

instance (s e : CString) : Decidable (LooseEnd s e) := by unfold LooseEnd; infer_instance

/-- Behind any bytes. -/
theorem checkStringEndsWith_long (F : List U8) (hs : 2 ≤ s.length) (he : 2 ≤ e.length) :
    checkStringEndsWith F s e = some (decide (LooseEnd s e)) := by
  have hloose : e.chars.reverse.length ≤ s.chars.reverse.length ∧ e.chars.reverse.dropLast <+: s.chars.reverse ↔
      LooseEnd s e := by
    rw [List.length_reverse, List.length_reverse, List.dropLast_reverse, List.reverse_prefix]
    rfl
  have hrun := endsWithLoop_long (F := F.reverse) (S := s.chars.reverse) (E := e.chars.reverse)
    (by rwa [List.length_reverse]) (by rwa [List.length_reverse])
  rw [List.length_reverse] at hrun
  rw [checkStringEndsWith, List.reverse_append, hrun]
  simp only [hloose]

/-- The two functions agree on what is a suffix, and nothing in front of a text is read. -/
def EndsAgree (s e : CString) : Prop :=
  checkStringEndsWith [] s e = some (strEndsWith (some s) (some e)) ∧
    (strEndsWith (some s) (some e) = true ↔ e.chars <:+ s.chars)

/-- Where they agree. -/
inductive EndsFit (s e : CString) : Prop
  | differ (h : s.chars.getLast? ≠ e.chars.getLast?)
  /-- The first character is right where the others are. -/
  | long (hs : 2 ≤ s.length) (he : 2 ≤ e.length)
      (first : LooseEnd s e → s.chars[s.length - e.length]? = e.chars[0]?)

theorem suffix_iff_loose (he : 0 < e.length) :
    e.chars <:+ s.chars ↔ LooseEnd s e ∧ s.chars[s.length - e.length]? = e.chars[0]? := by
  obtain ⟨c, t, hct⟩ := List.exists_cons_of_length_pos he
  rw [LooseEnd, CString.length, CString.length, hct, cons_suffix_iff, List.tail_cons, List.getElem?_cons_zero,
    List.length_cons]
  constructor
  · rintro ⟨h1, h2, h3⟩
    exact ⟨⟨h2, h1⟩, h3⟩
  · rintro ⟨⟨h2, h1⟩, h3⟩
    exact ⟨h1, h2, h3⟩

theorem getLast?_eq_of_suffix (he : 0 < e.length) (h : e.chars <:+ s.chars) :
    s.chars.getLast? = e.chars.getLast? := by
  obtain ⟨p, hp⟩ := h
  rw [← hp, List.getLast?_append_of_ne_nil _ (List.ne_nil_of_length_pos he)]

/-- The texts from behind. -/
theorem reverse_cons (h : 0 < s.length) : ∃ a S, s.chars.reverse = a :: S ∧ s.chars.getLast? = some a ∧
    S.length + 1 = s.length := by
  obtain ⟨a, S, hS⟩ := List.exists_cons_of_length_pos (by rwa [List.length_reverse] : 0 < s.chars.reverse.length)
  have hlen := congrArg List.length hS
  rw [List.length_reverse, List.length_cons] at hlen
  exact ⟨a, S, hS, by rw [← List.head?_reverse, hS, List.head?_cons], hlen.symm⟩

/-- Texts whose last characters differ. -/
theorem checkStringEndsWith_differ (F : List U8) (hs : 0 < s.length) (he : 0 < e.length)
    (h : s.chars.getLast? ≠ e.chars.getLast?) : checkStringEndsWith F s e = some false := by
  obtain ⟨a, S, hS, ha, -⟩ := reverse_cons hs
  obtain ⟨b, E, hE, hb, -⟩ := reverse_cons he
  rw [checkStringEndsWith, List.reverse_append, hS, hE, List.cons_append]
  refine endsWithLoop_ne ?_ _ _
  rintro rfl
  exact h (ha.trans hb.symm)

/-- One character on one side, and the same at the end of the other. -/
theorem checkStringEndsWith_short (hs : 0 < s.length) (he : 0 < e.length)
    (h : s.chars.getLast? = e.chars.getLast?) (hshort : s.length = 1 ∨ e.length = 1) :
    checkStringEndsWith [] s e ≠ some (strEndsWith (some s) (some e)) := by
  obtain ⟨a, S, hS, ha, hSlen⟩ := reverse_cons hs
  obtain ⟨b, E, hE, hb, hElen⟩ := reverse_cons he
  obtain rfl : a = b := Option.some.inj (ha.symm.trans (h.trans hb))
  have hstep := endsWithLoop_eq a S [] E
  rw [List.append_nil] at hstep
  rw [checkStringEndsWith, List.nil_append, hS, hE, List.length_nil]
  rw [List.length_nil] at hstep
  rw [hstep]
  by_cases hone : e.length = 1
  · -- the suffix is the last character, and its pointer goes past the start
    obtain rfl : E = [] := List.length_eq_zero_iff.mp (by omega)
    have hends : strEndsWith (some s) (some e) = true := by
      rw [strEndsWith_iff, ← List.reverse_prefix, hS, hE]
      exact ⟨S, rfl⟩
    rw [hends, if_neg (by simp)]
    by_cases htwo : S.length = 1
    · rw [if_pos htwo]
      decide
    · rw [if_neg htwo]
      cases S <;> exact nofun
  · -- the text is shorter than the suffix, and its pointer goes past the start
    have hslen : s.length = 1 := hshort.resolve_right hone
    obtain rfl : S = [] := List.length_eq_zero_iff.mp (by omega)
    have hends : strEndsWith (some s) (some e) = false := by
      rw [← Bool.not_eq_true, strEndsWith_iff]
      intro hsuffix
      have hle : e.length ≤ s.length := hsuffix.length_le
      omega
    rw [hends, if_neg (by simp : ¬([] : List U8).length = 1)]
    by_cases htwo : E.length = 1
    · rw [if_pos htwo]
      decide
    · rw [if_neg htwo]
      exact nofun

theorem endsAgree_iff (hs : 0 < s.length) (he : 0 < e.length) : EndsAgree s e ↔ EndsFit s e := by
  rw [EndsAgree, and_iff_left (strEndsWith_iff s e)]
  by_cases hlast : s.chars.getLast? = e.chars.getLast?
  · by_cases hlong : 2 ≤ s.length ∧ 2 ≤ e.length
    · have hloose : decide (LooseEnd s e) = strEndsWith (some s) (some e) ↔
          (LooseEnd s e → s.chars[s.length - e.length]? = e.chars[0]?) := by
        rw [Bool.eq_iff_iff, decide_eq_true_iff, strEndsWith_iff, suffix_iff_loose he]
        exact ⟨fun h hl => (h.mp hl).2, fun h => ⟨fun hl => ⟨hl, h hl⟩, And.left⟩⟩
      rw [checkStringEndsWith_long [] hlong.1 hlong.2, Option.some.injEq, hloose]
      constructor
      · exact fun h => .long hlong.1 hlong.2 h
      · intro h
        cases h with
        | differ h => exact absurd hlast h
        | long _ _ first => exact first
    · constructor
      · exact fun h => absurd h (checkStringEndsWith_short hs he hlast (by omega))
      · intro h
        cases h with
        | differ h => exact absurd hlast h
        | long hs' he' => exact absurd ⟨hs', he'⟩ hlong
  · rw [checkStringEndsWith_differ [] hs he hlast, Option.some.injEq, eq_comm (a := false), ← Bool.not_eq_true,
      strEndsWith_iff]
    exact ⟨fun _ => .differ hlast, fun _ hsuffix => hlast (getLast?_eq_of_suffix he hsuffix)⟩

/-! ## Files -/

/-- The name of a file, behind the last slash or backslash of its path. -/
def fileName (path : CString) : CString := path.drop (lastSlash path.chars 0 0)

/-- A test of a pair that fits, behind any bytes. -/
theorem checkStringEndsWith_fits (F : List U8) (hs : 0 < s.length) (he : 0 < e.length) (h : EndsFit s e) :
    checkStringEndsWith F s e = some (decide (e.chars <:+ s.chars)) := by
  cases h with
  | differ h =>
    rw [checkStringEndsWith_differ F hs he h, decide_eq_false fun hsuffix => h (getLast?_eq_of_suffix he hsuffix)]
  | long hs' he' first =>
    have hloose : LooseEnd s e ↔ e.chars <:+ s.chars := by
      rw [suffix_iff_loose he]
      exact ⟨fun hl => ⟨hl, first hl⟩, And.left⟩
    rw [checkStringEndsWith_long F hs' he']
    simp only [hloose]

/-- Where the test of each module has a result, the first module that passes is found. -/
theorem getFile_find {test : CString → Bool} {modules : List CString} {name : CString}
    (h : ∀ path ∈ modules, checkStringEndsWith (path.chars.take (lastSlash path.chars 0 0)) (fileName path) name =
      some (test path)) :
    Modules.getFile (some modules) name = some (modules.find? test) := by
  rw [Modules.getFile, Option.bind_some]
  induction modules with
  | nil => rfl
  | cons path modules ih =>
    have hpath := h path List.mem_cons_self
    rw [fileName] at hpath
    rw [getFileLoop, hpath, List.find?_cons, Option.bind_eq_bind, Option.bind_some,
      ih fun p hp => h p (List.mem_cons_of_mem _ hp)]
    cases test path <;> rfl

/-- The first module whose file name ends with the text is found. -/
theorem getFile_fits {modules : List CString} {name : CString} (hname : 0 < name.length)
    (h : ∀ path ∈ modules, 0 < (fileName path).length ∧ EndsFit (fileName path) name) :
    Modules.getFile (some modules) name =
      some (modules.find? fun path => decide (name.chars <:+ (fileName path).chars)) :=
  getFile_find fun path hp => checkStringEndsWith_fits _ (h path hp).1 hname (h path hp).2

/-- With two characters and more, the first character of the text does not count. -/
theorem getFile_long {modules : List CString} {name : CString} (hname : 2 ≤ name.length)
    (h : ∀ path ∈ modules, 2 ≤ (fileName path).length) :
    Modules.getFile (some modules) name = some (modules.find? fun path => decide (LooseEnd (fileName path) name)) :=
  getFile_find fun path hp => checkStringEndsWith_long _ (h path hp) hname

/-- **Where the suffix tests agree**, and what `getFile` finds where they do. -/
theorem suffixTests_agree_iff (s e : CString) (hs : 0 < s.length) (he : 0 < e.length) :
    (EndsAgree s e ↔ EndsFit s e) ∧
      ∀ modules : List CString, (∀ path ∈ modules, 0 < (fileName path).length ∧ EndsFit (fileName path) e) →
        Modules.getFile (some modules) e = some (modules.find? fun path => decide (e.chars <:+ (fileName path).chars)) :=
  ⟨endsAgree_iff hs he, fun _ h => getFile_fits he h⟩

/-- `"bsh"` and `"ash"` -/
def bshText : CString := CString.ofChars ['b', 's', 'h']
def ashText : CString := CString.ofChars ['a', 's', 'h']

theorem suffixTests_agree_iff_ash : (EndsAgree ashText ashText ↔ EndsFit ashText ashText) ∧
    ∀ modules : List CString, (∀ path ∈ modules, 0 < (fileName path).length ∧ EndsFit (fileName path) ashText) →
      Modules.getFile (some modules) ashText =
        some (modules.find? fun path => decide (ashText.chars <:+ (fileName path).chars)) :=
  suffixTests_agree_iff ashText ashText (by decide) (by decide)

/-- A request for `ash` gets the module `/bin/bsh`, and a suffix of one character leads in front of it. -/
theorem suffixTests_disagree : ¬EndsAgree bshText ashText ∧
    Modules.getFile (some [CString.ofChars ['/', 'b', 'i', 'n', '/'] ++ bshText]) ashText =
      some (some (CString.ofChars ['/', 'b', 'i', 'n', '/'] ++ bshText)) ∧
    ¬ashText.chars <:+ (fileName (CString.ofChars ['/', 'b', 'i', 'n', '/'] ++ bshText)).chars ∧
    checkStringEndsWith [] ashText (CString.ofChars ['h']) = none :=
  ⟨fun h => absurd h.1 (by decide), by decide, by decide, by decide⟩

end PpoOS
