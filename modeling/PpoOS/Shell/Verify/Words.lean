import PpoOS.Lib.FrontBuf
import PpoOS.Shell.CommandLine
import PpoOS.Shell.Verify.Env

/-!
# Words of a command line

A line is cut at the blanks outside of quotes and the quotes are dropped (`segments`).  The
words are the segments that are not empty; the arguments that the shell makes are the
words, except that the last segment counts also where it is empty and does not count where
a quote is open (`arguments`).
-/

namespace PpoOS

/-- A space or a tab. -/
def isBlank (c : U8) : Bool := c = 0x20#8 || c = 0x09#8

/-- The pieces of a line between the blanks outside of quotes, without the quotes; `q` says whether a quote is open
in front of it. -/
def segments : Bool → List U8 → List (List U8)
  | _, [] => [[]]
  | q, c :: l =>
    if c = 0x22#8 then segments (!q) l
    else if isBlank c && !q then [] :: segments q l
    else (segments q l).modifyHead (c :: ·)

/-- Whether a quote is open behind the line. -/
def openQuote (line : List U8) : Bool := line.count 0x22#8 % 2 = 1

/-- The words of a line. -/
def words (line : List U8) : List (List U8) := (segments false line).filter (· ≠ [])

/-- The arguments that the shell makes of a line. -/
def arguments (line : List U8) : List (List U8) :=
  (segments false line).dropLast.filter (· ≠ []) ++ if openQuote line then [] else (segments false line).getLast?.toList

/-! ## Arguments from left to right -/

/-- The arguments of the rest of a line, behind a started one. -/
def argsFrom : Bool → List U8 → List U8 → List (List U8)
  | q, acc, [] => if q then [] else [acc]
  | q, acc, c :: l =>
    if c = 0x22#8 then argsFrom (!q) acc l
    else if isBlank c && !q then if acc = [] then argsFrom q [] l else acc :: argsFrom q [] l
    else argsFrom q (acc ++ [c]) l

theorem segments_ne_nil (q : Bool) (l : List U8) : segments q l ≠ [] := by
  induction l generalizing q with
  | nil => simp [segments]
  | cons c l ih =>
    rw [segments]
    split_ifs with hc hb
    · exact ih _
    · simp
    · simpa using ih q

/-- Segments are made of characters of the line. -/
theorem mem_segments {q : Bool} {l w : List U8} (hw : w ∈ segments q l) : ∀ c ∈ w, c ∈ l := by
  induction l generalizing q w with
  | nil =>
    obtain rfl := List.mem_singleton.mp hw
    exact fun c hc => hc
  | cons d l ih =>
    intro c hc
    rw [segments] at hw
    split_ifs at hw with hd hb
    · exact List.mem_cons_of_mem _ (ih hw c hc)
    · rcases List.mem_cons.mp hw with rfl | hw
      · cases hc
      · exact List.mem_cons_of_mem _ (ih hw c hc)
    · obtain ⟨v, vs, hvs⟩ := List.exists_cons_of_ne_nil (segments_ne_nil q l)
      rw [hvs, List.modifyHead_cons] at hw
      rcases List.mem_cons.mp hw with rfl | hw
      · rcases List.mem_cons.mp hc with rfl | hc
        · exact List.mem_cons_self
        · exact List.mem_cons_of_mem _ (ih (hvs ▸ List.mem_cons_self) c hc)
      · exact List.mem_cons_of_mem _ (ih (hvs ▸ List.mem_cons_of_mem _ hw) c hc)

/-- The arguments of the rest of a line are those of its segments, the first of which is already started. -/
theorem argsFrom_eq (q : Bool) (acc l : List U8) : argsFrom q acc l =
    ((segments q l).modifyHead (acc ++ ·)).dropLast.filter (· ≠ []) ++
      if q ^^ openQuote l then [] else ((segments q l).modifyHead (acc ++ ·)).getLast?.toList := by
  induction l generalizing q acc with
  | nil => cases q <;> simp [argsFrom, segments, openQuote]
  | cons c l ih =>
    obtain ⟨w, ws, hws⟩ := List.exists_cons_of_ne_nil (segments_ne_nil q l)
    rw [argsFrom, segments]
    by_cases hc : c = 0x22#8
    · have hodd : (q ^^ openQuote (c :: l)) = ((!q) ^^ openQuote l) := by
        have hcount : (c :: l).count 0x22#8 = l.count 0x22#8 + 1 := by rw [hc, List.count_cons_self]
        rw [openQuote, openQuote, hcount]
        rcases Nat.mod_two_eq_zero_or_one (l.count 0x22#8) with h | h <;> cases q <;> simp [Nat.add_mod, h]
      rw [if_pos hc, if_pos hc, ih, hodd]
    · have hsame : openQuote (c :: l) = openQuote l := by rw [openQuote, openQuote, List.count_cons_of_ne hc]
      rw [if_neg hc, if_neg hc, hsame]
      by_cases hb : (isBlank c && !q) = true
      · have hnil := ih q []
        simp only [hws, List.modifyHead_cons, List.nil_append] at hnil
        rw [if_pos hb, if_pos hb, List.modifyHead_cons, List.append_nil, hws, List.dropLast_cons_cons,
          List.getLast?_cons_cons,
          hnil]
        by_cases hacc : acc = []
        · simp [hacc]
        · simp [hacc]
      · rw [if_neg hb, if_neg hb, ih, hws]
        simp

theorem arguments_eq (line : List U8) : arguments line = argsFrom false [] line := by
  obtain ⟨w, ws, hws⟩ := List.exists_cons_of_ne_nil (segments_ne_nil false line)
  rw [argsFrom_eq, arguments, hws]
  simp

/-- Without an open quote the arguments are the words and an empty last segment. -/
theorem arguments_closed {line : List U8} (h : openQuote line = false) :
    arguments line = words line ++ if (segments false line).getLast? = some [] then [[]] else [] := by
  have hne := segments_ne_nil false line
  have hwords : (segments false line).filter (· ≠ []) =
      (segments false line).dropLast.filter (· ≠ []) ++ [(segments false line).getLast hne].filter (· ≠ []) := by
    rw [← List.filter_append, List.dropLast_append_getLast hne]
  rw [arguments, words, h, List.getLast?_eq_some_getLast hne, hwords, List.append_assoc]
  by_cases hnil : (segments false line).getLast hne = []
  · simp [hnil]
  · simp [hnil]

/-! ## Expansion -/

/-- The value of the first variable with the name. -/
def EnvTable.value (env : EnvTable) (name : CString) : Option CString :=
  (env.toList.find? fun x => x.entry.any fun e => e.1 = name).bind fun x => x.value.text

/-- `get_env_var` finds the first variable. -/
theorem EnvTable.Texts.get_value {env : EnvTable} (h : env.Texts) (name : CString) :
    getEnvVar env name = some (env.value name) := by
  rw [getEnvVar, findEnvVar_eq h.holds_of_mem, EnvTable.value, List.find?_eq_bind_findIdx?_getElem?]
  rcases findIdx_slot env fun x => x.entry.any fun e => e.1 = name with ⟨i, hi, -⟩ | ⟨hnone, -⟩
  · obtain ⟨n, w, hx⟩ := h i
    have hget : env[i.val]? = some env[i] := by simp
    have hlist : env.toList[i.val]? = some env[i] := by simp
    rw [hi]
    simp only [Option.map_some, Nat.add_zero, Option.bind_eq_bind, Option.bind_some, hget, hlist, hx.value]
    rfl
  · rw [hnone]
    rfl

/-- What becomes of an argument: a front of 63 characters, or where it starts with `$`, of the value of
the variable that is named behind it. -/
def expandArg (env : EnvTable) (w : List U8) : CString :=
  let arg := (cstringOf w).take (shellMaxArgLen - 1)
  if arg.chars.head? = some 0x24#8 then ((env.value (arg.drop 1)).getD arg).take (shellMaxArgLen - 1) else arg

theorem cstringOf_chars {w : List U8} (h : 0#8 ∉ w) : (cstringOf w).chars = w := by
  refine List.filter_eq_self.mpr fun c hc => decide_eq_true ?_
  rintro rfl
  exact h hc

/-- The expansion of the argument that a row holds. -/
theorem expandRow_text {env : EnvTable} (henv : env.Texts) {row : Buf shellMaxArgLen} {w : List U8}
    (hrow : row.text = some ((cstringOf w).take (shellMaxArgLen - 1))) :
    ∃ row', expandRow env row = some row' ∧ row'.text = some (expandArg env w) := by
  generalize hs : (cstringOf w).take (shellMaxArgLen - 1) = s at hrow
  obtain ⟨rest, hbytes⟩ := Buf.text_eq_some_iff.mp hrow
  have hlen : s.length ≤ shellMaxArgLen - 1 := by
    rw [← hs, CString.length_take]
    exact Nat.min_le_left _ _
  rw [expandRow, expandArg, hs, hbytes]
  obtain ⟨cs, hcs⟩ := s
  cases cs with
  | nil => exact ⟨row, rfl, hrow⟩
  | cons c cs =>
    by_cases hc : c = 0x24#8
    · have hread : CString.read (((c :: cs) ++ 0#8 :: rest).drop 1) = some (CString.drop 1 ⟨c :: cs, hcs⟩) :=
        CString.read_append (CString.drop 1 ⟨c :: cs, hcs⟩) rest
      have hfront : ((c :: cs) ++ 0#8 :: rest)[0]? = some c := rfl
      have hhead : (CString.mk (c :: cs) hcs).chars.head? = some 0x24#8 := congrArg some hc
      simp only [hfront, Option.bind_eq_bind, Option.bind_some, if_pos hc, hread, henv.get_value, if_pos hhead]
      cases hv : env.value (CString.drop 1 ⟨c :: cs, hcs⟩) with
      | none =>
        have hwrite : (row.write (shellMaxArgLen - 1) 0#8).isSome = true := by
          rw [Buf.write, if_pos (by decide)]
          rfl
        obtain ⟨row', hrow'⟩ := Option.isSome_iff_exists.mp hwrite
        refine ⟨row', hrow', ?_⟩
        rw [Option.getD_none, CString.take_of_length_le hlen]
        exact Buf.text_write_zero hrow hlen hrow'
      | some v =>
        refine ⟨_, strncpyCut_eq row v (by decide), ?_⟩
        exact Buf.text_ofText (take_length_lt v (by decide))
    · have hhead : ¬(CString.mk (c :: cs) hcs).chars.head? = some 0x24#8 := fun h => hc (Option.some.inj h)
      rw [if_neg hhead]
      exact ⟨row, if_neg hc, hrow⟩

end PpoOS
