import PpoOS.Shell.Verify.Words

/-!
# What the shell makes of a line

`SplitDone` says that the first entries of `argv` lead to rows with given texts.  The loop over a line ends with the
expansions of the first eight arguments of the line (`splitLoop_done`).  So there is no place left
for the null pointer where the line has eight of them (`readCommand_isSome_iff`), and the arguments are
the words where the last segment is not empty or the table is full (`splitLine_words_iff`).
-/

namespace PpoOS

variable {env : EnvTable} {done : List CString} {acc : List U8} {q : Bool} {s s' : SplitState} {c : U8}

/-! ## Checked stores -/

section Store

variable {α : Type} {n i j : Nat} {v v' : Vector α n} {x : α}

theorem storeAt_some (h : i < n) (x : α) : storeAt v i x = some (v.set i x) := dif_pos h

theorem storeAt_isSome_iff : (storeAt v i x).isSome = true ↔ i < n := by
  unfold storeAt
  split <;> simp [*]

end Store

/-! ## The invariant of the loop -/

/-- The arguments that are complete. -/
structure SplitDone (done : List CString) (s : SplitState) : Prop where
  argc : s.argc = done.length
  le : done.length ≤ shellMaxArgs
  argv : ∀ i < done.length, s.argv[i]? = some (some i)
  text : ∀ i (h : i < done.length), ∃ row, s.argBufs[i]? = some row ∧ row.text = some done[i]

/-- An argument is started with the characters `acc`, of which the row holds 63. -/
structure Splits (done : List CString) (acc : List U8) (q : Bool) (s : SplitState) : Prop extends SplitDone done s where
  argIdx : s.argIdx = (acc.take (shellMaxArgLen - 1)).length
  row : done.length < shellMaxArgs →
    ∃ b : Buf shellMaxArgLen, s.argBufs[done.length]? = some (b.overlay (acc.take (shellMaxArgLen - 1)))
  quotes : s.inQuotes = q

theorem splits_start (argv : Vector (Option Nat) shellMaxArgs) (argBufs : Vector (Buf shellMaxArgLen) shellMaxArgs) :
    Splits [] [] false ⟨0, argv, argBufs, 0, false⟩ where
  argc := rfl
  le := Nat.zero_le _
  argv i h := absurd h (Nat.not_lt_zero i)
  text i h := absurd h (Nat.not_lt_zero i)
  argIdx := rfl
  row hdone := ⟨argBufs[0], by rw [List.take_nil, Buf.overlay_nil]; exact Vector.getElem?_eq_getElem hdone⟩
  quotes := rfl

/-- The row of the next argument may change. -/
theorem SplitDone.setRow (h : SplitDone done s) (hdone : done.length < shellMaxArgs) (row : Buf shellMaxArgLen)
    (k : Nat) :
    SplitDone done { s with argBufs := s.argBufs.set done.length row hdone, argIdx := k } := by
  refine { h with text := fun i hi => ?_ }
  obtain ⟨row', hrow', htext⟩ := h.text i hi
  exact ⟨row', by rw [Vector.getElem?_set_ne hdone (Nat.ne_of_gt hi), hrow'], htext⟩

/-- The next argument is complete. -/
theorem SplitDone.push (h : SplitDone done s) (hdone : done.length < shellMaxArgs) {row : Buf shellMaxArgLen}
    {w : CString} (hrow : row.text = some w) (k : Nat) :
    SplitDone (done ++ [w]) { s with
      argBufs := s.argBufs.set done.length row hdone
      argv := s.argv.set done.length (some done.length) hdone
      argc := done.length + 1
      argIdx := k } := by
  have hlen : (done ++ [w]).length = done.length + 1 := by simp
  refine ⟨hlen.symm, by omega, fun i hi => ?_, fun i hi => ?_⟩
  · rw [hlen] at hi
    rcases Nat.lt_succ_iff_lt_or_eq.mp hi with hlt | rfl
    · rw [Vector.getElem?_set_ne hdone (Nat.ne_of_gt hlt), h.argv i hlt]
    · exact Vector.getElem?_set_self hdone
  · rcases Nat.lt_succ_iff_lt_or_eq.mp (hlen ▸ hi) with hlt | rfl
    · obtain ⟨row', hget, htext⟩ := h.text i hlt
      refine ⟨row', ?_, by rw [htext, List.getElem_append_left hlt]⟩
      rw [Vector.getElem?_set_ne hdone (Nat.ne_of_gt hlt), hget]
    · exact ⟨row, Vector.getElem?_set_self hdone, by rw [hrow, List.getElem_concat_length rfl]⟩

/-- Without room for more arguments, those that are there are all. -/
theorem SplitDone.take_full (h : SplitDone done s) (hdone : ¬done.length < shellMaxArgs) (more : List CString) :
    SplitDone ((done ++ more).take shellMaxArgs) s := by
  rw [List.take_append_of_le_length (by omega), List.take_of_length_le h.le]
  exact h

/-- A blank behind a character, or the end of the line, ends the argument. -/
theorem splitChar_break (env : EnvTable) (hq : s.inQuotes = false) (hc : isBlank c = true ∧ s.argIdx > 0 ∨ c = 0#8) :
    splitChar env c s = endArg env s := by
  have hquote : c ≠ 0x22#8 := by
    rintro rfl
    rcases hc with ⟨hb, -⟩ | hc
    · exact absurd hb (by decide)
    · exact absurd hc (by decide)
  have hin : (c = 0x20#8 ∨ c = 0x09#8 ∨ c = 0#8) ∧ s.inQuotes = false := by
    refine ⟨?_, hq⟩
    rcases hc with ⟨hb, -⟩ | rfl
    · simp only [isBlank, Bool.or_eq_true, decide_eq_true_eq] at hb
      exact hb.imp_right Or.inl
    · simp
  rw [splitChar, if_neg hquote, if_pos hin, if_pos (hc.imp_left And.right)]

namespace Splits

theorem quote (env : EnvTable) (h : Splits done acc q s) :
    splitChar env 0x22#8 s = some { s with inQuotes := !s.inQuotes } ∧
      Splits done acc (!q) { s with inQuotes := !s.inQuotes } :=
  ⟨if_pos rfl, { h with quotes := congrArg not h.quotes }⟩

/-- A character goes into the row, as long as it fits. -/
theorem char (env : EnvTable) (h : Splits done acc q s) (hdone : done.length < shellMaxArgs) (hq : c ≠ 0x22#8)
    (hb : isBlank c = true ∨ c = 0#8 → q = true) :
    ∃ s', splitChar env c s = some s' ∧ Splits done (acc ++ [c]) q s' := by
  have hin : ¬((c = 0x20#8 ∨ c = 0x09#8 ∨ c = 0#8) ∧ s.inQuotes = false) := by
    rintro ⟨hc, hfalse⟩
    rw [h.quotes] at hfalse
    rw [hb (by simpa [isBlank, or_assoc] using hc)] at hfalse
    cases hfalse
  rw [splitChar, if_neg hq, if_neg hin]
  by_cases hroom : acc.length < shellMaxArgLen - 1
  · obtain ⟨b, hrow⟩ := h.row hdone
    have hidx : s.argIdx = acc.length := by rw [h.argIdx, List.take_of_length_le (Nat.le_of_lt hroom)]
    have hcut : (acc ++ [c]).take (shellMaxArgLen - 1) = acc ++ [c] :=
      List.take_of_length_le (by rw [List.length_append, List.length_singleton]; omega)
    rw [List.take_of_length_le (Nat.le_of_lt hroom)] at hrow
    have hwrite := Buf.write_overlay (b := b) (l := acc) (show acc.length < shellMaxArgLen by omega) c
    refine ⟨{ s with argBufs := s.argBufs.set done.length (b.overlay (acc ++ [c])) hdone, argIdx := acc.length + 1 }, ?_, ?_⟩
    · rw [hidx, if_pos hroom, h.argc, hrow]
      simp only [Option.bind_eq_bind, Option.bind_some, hwrite, storeAt_some hdone]
      rfl
    · refine { h.toSplitDone.setRow hdone _ _ with argIdx := ?_, row := fun _ => ⟨b, ?_⟩, quotes := h.quotes }
      · rw [hcut, List.length_append]
        rfl
      · rw [hcut]
        exact Vector.getElem?_set_self hdone
  · have hidx : s.argIdx = shellMaxArgLen - 1 := by
      rw [h.argIdx, List.length_take]
      omega
    have hcut : (acc ++ [c]).take (shellMaxArgLen - 1) = acc.take (shellMaxArgLen - 1) :=
      List.take_append_of_le_length (by omega)
    rw [hidx, if_neg (Nat.lt_irrefl _)]
    exact ⟨s, rfl, { h with argIdx := by rw [hcut, h.argIdx], row := by rw [hcut]; exact h.row }⟩

/-- A blank behind nothing. -/
theorem skip (h : Splits done [] false s) (hb : isBlank c = true) : splitChar env c s = some s := by
  have hc : c = 0x20#8 ∨ c = 0x09#8 := by simpa [isBlank] using hb
  have hidx : s.argIdx = 0 := h.argIdx
  rcases hc with rfl | rfl <;> simp [splitChar, hidx, h.quotes]

/-- An argument ends. -/
theorem finish (henv : env.Texts) (h : Splits done acc false s) (hdone : done.length < shellMaxArgs) (hacc : 0#8 ∉ acc)
    (hc : isBlank c = true ∧ acc ≠ [] ∨ c = 0#8) :
    ∃ s', splitChar env c s = some s' ∧ Splits (done ++ [expandArg env acc]) [] false s' := by
  obtain ⟨b, hrow⟩ := h.row hdone
  have hwrite := Buf.write_overlay (b := b) (l := acc.take (shellMaxArgLen - 1)) (by
    rw [List.length_take, shellMaxArgLen]
    omega) 0#8
  have htext : (b.overlay (acc.take (shellMaxArgLen - 1) ++ [0#8])).text =
      some ((cstringOf acc).take (shellMaxArgLen - 1)) := by
    have hover := Buf.text_overlay (b := b) (take_length_lt (n := shellMaxArgLen) (cstringOf acc) (by decide))
    rwa [CString.chars_take, cstringOf_chars hacc] at hover
  obtain ⟨row', hexpand, htext'⟩ := expandRow_text henv htext
  have hend : endArg env s = some { s with
      argBufs := s.argBufs.set done.length row' hdone
      argv := s.argv.set done.length (some done.length) hdone
      argc := done.length + 1
      argIdx := 0 } := by
    simp only [endArg, h.argc, h.argIdx, hrow, Option.bind_eq_bind, Option.bind_some, hwrite, hexpand, storeAt_some hdone]
    rfl
  have hsome : isBlank c = true ∧ s.argIdx > 0 ∨ c = 0#8 := by
    refine hc.imp_left fun hacc => ⟨hacc.1, ?_⟩
    rw [h.argIdx, List.length_take]
    have hpos := List.length_pos_iff.mpr hacc.2
    unfold shellMaxArgLen
    omega
  rw [splitChar_break env h.quotes hsome]
  refine ⟨_, hend, h.toSplitDone.push hdone htext' 0, rfl, fun hlt => ?_, h.quotes⟩
  have hlen : (done ++ [expandArg env acc]).length = done.length + 1 := by simp
  rw [hlen] at hlt
  refine ⟨s.argBufs[done.length + 1], ?_⟩
  rw [hlen, Vector.getElem?_set_ne hdone (Nat.ne_of_lt (Nat.lt_succ_self _)), List.take_nil, Buf.overlay_nil]
  exact Vector.getElem?_eq_getElem hlt

/-- The end of the line. -/
theorem last (henv : env.Texts) (h : Splits done acc q s) (hdone : done.length < shellMaxArgs) (hacc : 0#8 ∉ acc) :
    ∃ s', splitChar env 0#8 s = some s' ∧
      SplitDone ((done ++ (argsFrom q acc []).map (expandArg env)).take shellMaxArgs) s' := by
  rw [argsFrom]
  cases q with
  | true =>
    obtain ⟨s', hs', hsplit⟩ := h.char env (c := 0#8) hdone (by decide) fun _ => rfl
    refine ⟨s', hs', ?_⟩
    rw [if_pos rfl, List.map_nil, List.append_nil, List.take_of_length_le h.le]
    exact hsplit.toSplitDone
  | false =>
    obtain ⟨s', hs', hsplit⟩ := h.finish henv hdone hacc (.inr rfl)
    refine ⟨s', hs', ?_⟩
    rw [if_neg Bool.false_ne_true, List.map_singleton, List.take_of_length_le hsplit.le]
    exact hsplit.toSplitDone

end Splits

/-- Eight arguments end the loop. -/
theorem splitLoop_full (h : SplitDone done s) (hdone : ¬done.length < shellMaxArgs) (buffer : Buf shellBufsz)
    (left i : Nat) :
    splitLoop env buffer left i s = some s := by
  cases left with
  | zero => rfl
  | succ left => rw [splitLoop, h.argc, if_neg hdone]; rfl

theorem splitLoop_step (h : SplitDone done s) (hdone : done.length < shellMaxArgs) {buffer : Buf shellBufsz}
    {rest : List U8} {i : Nat} (hbuf : buffer.bytes.drop i = c :: rest) (hs : splitChar env c s = some s') (left : Nat) :
    splitLoop env buffer (left + 1) i s = splitLoop env buffer left (i + 1) s' := by
  have hget : buffer.bytes[i]? = some c := by
    have hhead := congrArg (·[0]?) hbuf
    simpa using hhead
  rw [splitLoop, h.argc, if_pos hdone, hget, Option.bind_eq_bind, Option.bind_some, hs]
  rfl

/-- The loop over the rest of a line. -/
theorem splitLoop_done (henv : env.Texts) {buffer : Buf shellBufsz} {l rest : List U8} {i : Nat} (hl : 0#8 ∉ l)
    (hacc : 0#8 ∉ acc) (hbuf : buffer.bytes.drop i = l ++ 0#8 :: rest) (h : Splits done acc q s) :
    ∃ s', splitLoop env buffer (l.length + 1) i s = some s' ∧
      SplitDone ((done ++ (argsFrom q acc l).map (expandArg env)).take shellMaxArgs) s' := by
  induction l generalizing done acc q s i with
  | nil =>
    by_cases hdone : done.length < shellMaxArgs
    · obtain ⟨s', hs', hlast⟩ := h.last henv hdone hacc
      exact ⟨s', splitLoop_step h.toSplitDone hdone hbuf hs' 0, hlast⟩
    · exact ⟨s, splitLoop_full h.toSplitDone hdone _ _ _, h.toSplitDone.take_full hdone _⟩
  | cons c l ih =>
    by_cases hdone : done.length < shellMaxArgs
    · have hc : c ≠ 0#8 := fun h => hl (by simp [h])
      have hl' : 0#8 ∉ l := fun h => hl (List.mem_cons_of_mem _ h)
      have hnext : buffer.bytes.drop (i + 1) = l ++ 0#8 :: rest := by
        rw [← List.drop_drop, hbuf]
        rfl
      have hstep := fun {s'} (hs : splitChar env c s = some s') => splitLoop_step h.toSplitDone hdone hbuf hs
      rw [List.length_cons, argsFrom]
      by_cases hq : c = 0x22#8
      · obtain ⟨hs', hsplit⟩ := h.quote env
        rw [if_pos hq, hstep (hq ▸ hs')]
        exact ih hl' hacc hnext hsplit
      rw [if_neg hq]
      by_cases hb : (isBlank c && !q) = true
      · rw [if_pos hb]
        rw [Bool.and_eq_true, Bool.not_eq_true'] at hb
        obtain ⟨hb, rfl⟩ := hb
        by_cases hnil : acc = []
        · subst hnil
          rw [if_pos rfl, hstep (h.skip hb)]
          exact ih hl' hacc hnext h
        · obtain ⟨s', hs', hsplit⟩ := h.finish henv hdone hacc (.inl ⟨hb, hnil⟩)
          have hrest := ih hl' (by simp) hnext hsplit
          rw [List.append_assoc] at hrest
          rw [if_neg hnil, hstep hs']
          exact hrest
      · obtain ⟨s', hs', hsplit⟩ := h.char env hdone hq fun hbz => by
          have hbc := hbz.resolve_right hc
          simpa [hbc] using hb
        rw [if_neg hb, hstep hs']
        exact ih hl' (by simp [hacc, Ne.symm hc]) hnext hsplit
    · exact ⟨s, splitLoop_full h.toSplitDone hdone _ _ _, h.toSplitDone.take_full hdone _⟩

/-- The loop over a line. -/
theorem splitLine_done (henv : env.Texts) (argv : Vector (Option Nat) shellMaxArgs)
    (argBufs : Vector (Buf shellMaxArgLen) shellMaxArgs) {buffer : Buf shellBufsz} {line : CString}
    (hline : buffer.text = some line) : ∃ s, splitLine env argv argBufs ⟨buffer, line.length⟩ = some s ∧
      SplitDone (((arguments line.chars).map (expandArg env)).take shellMaxArgs) s := by
  obtain ⟨rest, hrest⟩ := Buf.text_eq_some_iff.mp hline
  have hdrop : buffer.bytes.drop 0 = line.chars ++ 0#8 :: rest := hrest
  rw [arguments_eq]
  exact splitLoop_done henv line.nonzero (by simp) hdrop (splits_start argv argBufs)

/-! ## Words -/

/-- What becomes of a word. -/
def expandWord (env : EnvTable) (w : List U8) : CString :=
  if w.head? = some 0x24#8 then
    match env.value (cstringOf (w.drop 1)) with
    | some v => v.take 63
    | none => cstringOf w
  else cstringOf w

theorem expandArg_eq_word {w : List U8} (hw : 0#8 ∉ w) (h : w.length ≤ 63) : expandArg env w = expandWord env w := by
  have hlen : (cstringOf w).length = w.length := by rw [CString.length, cstringOf_chars hw]
  have hcut : (cstringOf w).take (shellMaxArgLen - 1) = cstringOf w := CString.take_of_length_le (hlen ▸ h)
  have htail : (cstringOf w).drop 1 = cstringOf (w.drop 1) := by
    ext1
    rw [CString.chars_drop, cstringOf_chars hw, cstringOf_chars fun h => hw (List.mem_of_mem_drop h)]
  rw [expandArg, expandWord, hcut, cstringOf_chars hw, htail]
  by_cases hhead : w.head? = some 0x24#8
  · rw [if_pos hhead, if_pos hhead]
    cases env.value (cstringOf (w.drop 1)) with
    | some v => rfl
    | none => exact hcut
  · rw [if_neg hhead, if_neg hhead]

/-- `argc` and `argv` are the words of the line, expanded. -/
def HasWords (env : EnvTable) (line : List U8) (s : SplitState) : Prop :=
  s.argc = (words line).length ∧ ∀ k (h : k < (words line).length), ∃ i row, s.argv[k]? = some (some i) ∧
    s.argBufs[i]? = some row ∧ row.text = some (expandWord env (words line)[k])

/-- The arguments of a line whose quotes are closed are its words, unless it has room for an empty last one. -/
theorem splitLine_words_iff (henv : env.Texts) (argv : Vector (Option Nat) shellMaxArgs)
    (argBufs : Vector (Buf shellMaxArgLen) shellMaxArgs) {buffer : Buf shellBufsz} {line : CString}
    (hline : buffer.text = some line) (hclosed : line.chars.count 0x22#8 % 2 = 0) (hmany : (words line.chars).length ≤ 8)
    (hlong : ∀ w ∈ words line.chars, w.length ≤ 63) :
    (∃ s, splitLine env argv argBufs ⟨buffer, line.length⟩ = some s ∧ HasWords env line.chars s) ↔
      (segments false line.chars).getLast? ≠ some [] ∨ (words line.chars).length = 8 := by
  obtain ⟨s, hs, hdone⟩ := splitLine_done henv argv argBufs hline
  have hargs : arguments line.chars = _ := arguments_closed (by rw [openQuote, hclosed]; rfl)
  constructor
  · rintro ⟨s', hs', hargc, -⟩
    obtain rfl := Option.some.inj (hs.symm.trans hs')
    have hlen := hdone.argc
    rw [hargc, hargs, List.length_take, List.length_map, List.length_append] at hlen
    by_contra hnot
    obtain ⟨hlast, hne⟩ := not_or.mp hnot
    rw [if_pos (not_not.mp hlast), List.length_singleton, shellMaxArgs] at hlen
    omega
  · intro hcond
    have heq : ((arguments line.chars).map (expandArg env)).take shellMaxArgs = (words line.chars).map (expandArg env) := by
      rw [hargs, List.map_append]
      rcases hcond with hlast | hfull
      · rw [if_neg hlast, List.map_nil, List.append_nil, List.take_of_length_le (by rw [List.length_map]; exact hmany)]
      · rw [List.take_append_of_le_length (by rw [List.length_map, hfull]; exact Nat.le_refl 8),
          List.take_of_length_le (by rw [List.length_map]; exact hmany)]
    rw [heq] at hdone
    refine ⟨s, hs, by rw [hdone.argc, List.length_map], fun k hk => ?_⟩
    have hk' : k < ((words line.chars).map (expandArg env)).length := by rwa [List.length_map]
    obtain ⟨row, hrow, htext⟩ := hdone.text k hk'
    refine ⟨k, row, hdone.argv k hk', hrow, ?_⟩
    have hmem : (words line.chars)[k] ∈ words line.chars := List.getElem_mem hk
    have hnul : 0#8 ∉ (words line.chars)[k] := fun h0 =>
      line.nonzero (mem_segments (List.mem_of_mem_filter hmem) _ h0)
    rw [htext, List.getElem_map, expandArg_eq_word hnul (hlong _ hmem)]

/-! ## The line editor -/

/-- A character that the editor keeps. -/
def isPrintable (c : U8) : Bool := 0x20 ≤ c.toNat && c.toNat < 0x7F

/-- The editor compares signed characters. -/
theorem isPrintable_iff (c : U8) : isPrintable c = true ↔ ((0x20#8).sle c && c.slt 0x7F#8) = true := by
  have hint := BitVec.toInt_eq_toNat_cond c
  have hlt := c.isLt
  have h20 : (0x20#8).toInt = 32 := rfl
  have h7f : (0x7F#8).toInt = 127 := rfl
  rw [isPrintable, BitVec.sle, BitVec.slt, h20, h7f, Bool.and_eq_true, Bool.and_eq_true, decide_eq_true_eq,
    decide_eq_true_eq,
    decide_eq_true_eq, decide_eq_true_eq]
  split at hint <;> omega

/-- The line that keys make of a started one, when it is complete. -/
def typedLine (line keys : List U8) : Option (List U8) :=
  if line.length < 255 then
    match keys with
    | [] => none
    | c :: keys =>
      if c = 0x0A#8 ∨ c = 0x0D#8 then some line
      else if c = 0x08#8 ∨ c = 0x7F#8 then typedLine line.dropLast keys
      else if isPrintable c then typedLine (line ++ [c]) keys
      else typedLine line keys
  else some line

/-- The front of the buffer is the line so far. -/
structure Typed (line : List U8) (e : LineEdit) : Prop where
  bufIdx : e.bufIdx = line.length
  front : e.buffer.bytes.take line.length = line
  le : line.length ≤ 255
  nonzero : 0#8 ∉ line

theorem typed_start : Typed [] ⟨Buf.zero shellBufsz, 0⟩ := ⟨rfl, rfl, Nat.zero_le _, by simp⟩

namespace Typed

variable {line : List U8} {e : LineEdit}

theorem push (h : Typed line e) (hlt : line.length < 255) (hc : c ≠ 0#8) :
    ∃ b, e.buffer.write e.bufIdx c = some b ∧ Typed (line ++ [c]) ⟨b, e.bufIdx + 1⟩ := by
  have hidx : e.bufIdx < shellBufsz := by
    rw [h.bufIdx]
    unfold shellBufsz
    omega
  obtain ⟨b, hb⟩ : ∃ b, e.buffer.write e.bufIdx c = some b := ⟨_, if_pos hidx⟩
  obtain ⟨-, hbytes⟩ := Buf.write_some_iff.mp hb
  have hlen : (line ++ [c]).length = line.length + 1 := by simp
  refine ⟨b, hb, by rw [hlen, h.bufIdx], ?_, by omega, by simp [h.nonzero, Ne.symm hc]⟩
  rw [hlen, hbytes, h.bufIdx, List.take_add_one, List.take_set_of_le (Nat.le_refl _), h.front,
    List.getElem?_set_self (by rw [e.buffer.length_eq, ← h.bufIdx]; exact hidx)]
  rfl

theorem pop (h : Typed line e) (hpos : 0 < line.length) :
    ∃ b, e.buffer.write (e.bufIdx - 1) 0#8 = some b ∧ Typed line.dropLast ⟨b, e.bufIdx - 1⟩ := by
  have hle := h.le
  obtain ⟨b, hb⟩ : ∃ b, e.buffer.write (e.bufIdx - 1) 0#8 = some b :=
    ⟨_, if_pos (by rw [h.bufIdx]; unfold shellBufsz; omega)⟩
  obtain ⟨-, hbytes⟩ := Buf.write_some_iff.mp hb
  refine ⟨b, hb, by rw [List.length_dropLast, h.bufIdx], ?_, by rw [List.length_dropLast]; omega,
    fun h0 => h.nonzero (List.mem_of_mem_dropLast h0)⟩
  have hfront : e.buffer.bytes.take (line.length - 1) = line.dropLast := by
    have hcut := congrArg (List.take (line.length - 1)) h.front
    rwa [List.take_take, Nat.min_eq_left (Nat.sub_le _ _), ← List.dropLast_eq_take] at hcut
  rw [List.length_dropLast, hbytes, h.bufIdx, List.take_set_of_le (Nat.le_refl _), hfront]

/-- The NUL behind the line. -/
theorem terminate (h : Typed line e) :
    ∃ b, e.buffer.write e.bufIdx 0#8 = some b ∧ b.text = some (cstringOf line) := by
  have hle := h.le
  have hlt : line.length < shellBufsz := by
    unfold shellBufsz
    omega
  obtain ⟨b, hb⟩ : ∃ b, e.buffer.write e.bufIdx 0#8 = some b := ⟨_, if_pos (by rw [h.bufIdx]; exact hlt)⟩
  obtain ⟨-, hbytes⟩ := Buf.write_some_iff.mp hb
  refine ⟨b, hb, Buf.text_eq_some_iff.mpr ⟨e.buffer.bytes.drop (line.length + 1), ?_⟩⟩
  rw [hbytes, h.bufIdx, List.set_eq_take_append_cons_drop, if_pos (by rw [e.buffer.length_eq]; exact hlt), h.front,
    cstringOf_chars h.nonzero]

end Typed

/-- The editor makes the line of the keys. -/
theorem editLine_typed {line : List U8} {e : LineEdit} (keys : List U8) (h : Typed line e) :
    ∃ e' left, editLine keys e = some (e', left) ∧
      ((typedLine line keys = none ∧ left = none) ∨
        ∃ line' keys', typedLine line keys = some line' ∧ left = some keys' ∧ Typed line' e') := by
  have hidx : ∀ {line e}, Typed line e → (e.bufIdx < shellBufsz - 1 ↔ line.length < 255) := fun {line e} h => by
    rw [h.bufIdx]
    rfl
  induction keys generalizing line e with
  | nil =>
    rw [editLine, typedLine]
    by_cases hlt : line.length < 255
    · rw [if_pos ((hidx h).mpr hlt), if_pos hlt]
      exact ⟨e, none, rfl, .inl ⟨rfl, rfl⟩⟩
    · rw [if_neg (fun hroom => hlt ((hidx h).mp hroom)), if_neg hlt]
      exact ⟨e, some [], rfl, .inr ⟨line, [], rfl, rfl, h⟩⟩
  | cons c keys ih =>
    rw [editLine, typedLine]
    by_cases hlt : line.length < 255
    swap
    · rw [if_neg (fun hroom => hlt ((hidx h).mp hroom)), if_neg hlt]
      exact ⟨e, some (c :: keys), rfl, .inr ⟨line, c :: keys, rfl, rfl, h⟩⟩
    rw [if_pos ((hidx h).mpr hlt), if_pos hlt]
    by_cases hc : c = 0#8
    · subst hc
      exact ih h
    rw [if_neg hc]
    by_cases henter : c = 0x0A#8 ∨ c = 0x0D#8
    · rw [if_pos henter, if_pos henter]
      exact ⟨e, some keys, rfl, .inr ⟨line, keys, rfl, rfl, h⟩⟩
    rw [if_neg henter, if_neg henter]
    by_cases hback : c = 0x08#8 ∨ c = 0x7F#8
    · rw [if_pos hback, if_pos hback, h.bufIdx]
      by_cases hpos : line.length > 0
      · obtain ⟨b, hb, hpop⟩ := h.pop hpos
        rw [h.bufIdx] at hb hpop
        rw [if_pos hpos, hb, Option.bind_some]
        exact ih hpop
      · obtain rfl := List.length_eq_zero_iff.mp (Nat.eq_zero_of_not_pos hpos)
        exact ih h
    rw [if_neg hback, if_neg hback]
    by_cases hprint : isPrintable c = true
    · obtain ⟨b, hb, hpush⟩ := h.push hlt hc
      rw [if_pos ((isPrintable_iff c).mp hprint), if_pos hprint, hb, Option.bind_some]
      exact ih hpush
    · rw [if_neg (fun hs => hprint ((isPrintable_iff c).mpr hs)), if_neg hprint]
      exact ih h

/-! ## A whole command -/

section Command

variable (henv : env.Texts) (argv : Vector (Option Nat) shellMaxArgs) (argBufs : Vector (Buf shellMaxArgLen) shellMaxArgs)
  {keys line : List U8}

include henv

/-- With a complete line the null pointer goes behind its arguments, of which there are at most eight. -/
theorem readCommand_eq (hline : typedLine [] keys = some line) : ∃ s left, SplitDone
    (((arguments line).map (expandArg env)).take shellMaxArgs) s ∧ readCommand env argv argBufs keys =
      (storeAt s.argv (min shellMaxArgs (arguments line).length) none).map fun argv =>
        some ({ s with argv := argv }, left) := by
  obtain ⟨e, left, hread, hend⟩ := editLine_typed keys typed_start
  rcases hend with ⟨hnone, -⟩ | ⟨line', left', hline', rfl, htyped⟩
  · cases hnone.symm.trans hline
  obtain rfl := Option.some.inj (hline'.symm.trans hline)
  obtain ⟨b, hb, htext⟩ := htyped.terminate
  have hchars := cstringOf_chars htyped.nonzero
  obtain ⟨s, hs, hdone⟩ := splitLine_done henv argv argBufs htext
  have hlen : (cstringOf line').length = e.bufIdx := by rw [CString.length, hchars, htyped.bufIdx]
  rw [hlen] at hs
  rw [hchars] at hdone
  have hargc : s.argc = min shellMaxArgs (arguments line').length := by
    rw [hdone.argc, List.length_take, List.length_map]
  refine ⟨s, left', hdone, ?_⟩
  rw [readCommand, hread, Option.bind_eq_bind, Option.bind_some]
  simp only [hb, Option.bind_eq_bind, Option.bind_some, hs, ← hargc]
  cases storeAt s.argv s.argc none <;> rfl

/-- Every access to the arrays is inside of them exactly where the line has fewer than eight arguments. -/
theorem readCommand_isSome_iff : (readCommand env argv argBufs keys).isSome = true ↔
    ∀ line, typedLine [] keys = some line → (arguments line).length < shellMaxArgs := by
  cases hline : typedLine [] keys with
  | none =>
    obtain ⟨e, left, hread, hend⟩ := editLine_typed keys typed_start
    rcases hend with ⟨-, rfl⟩ | ⟨line', keys', hline', -⟩
    · rw [readCommand, hread]
      exact ⟨fun _ line h => (nomatch h), fun _ => rfl⟩
    · cases hline.symm.trans hline'
  | some line =>
    obtain ⟨s, left, -, hread⟩ := readCommand_eq henv argv argBufs hline
    rw [hread, Option.isSome_map, storeAt_isSome_iff]
    constructor
    · intro h line' hline'
      obtain rfl := Option.some.inj hline'
      omega
    · intro h
      have hlt := h line rfl
      omega

end Command

/-- `argv` and `arg_bufs` before the first command. -/
def argvZero : Vector (Option Nat) shellMaxArgs := Vector.replicate shellMaxArgs none

def argBufsZero : Vector (Buf shellMaxArgLen) shellMaxArgs := Vector.replicate shellMaxArgs (Buf.zero shellMaxArgLen)

theorem readCommand_isSome_iff_ls :
    (readCommand EnvTable.zero argvZero argBufsZero [0x6C#8, 0x73#8, 0x0A#8]).isSome = true ↔
      ∀ line, typedLine [] [0x6C#8, 0x73#8, 0x0A#8] = some line → (arguments line).length < shellMaxArgs :=
  readCommand_isSome_iff envInv_zero.texts argvZero argBufsZero

/-- `a a a a a a a a` and the enter key. -/
def eightWords : List U8 := (List.replicate 7 [0x61#8, 0x20#8]).flatten ++ [0x61#8, 0x0A#8]

/-- With eight words the null pointer goes behind the end of `argv`. -/
theorem readCommand_eightWords : readCommand EnvTable.zero argvZero argBufsZero eightWords = none := by
  have hline : typedLine [] eightWords = some eightWords.dropLast := by decide
  have hargs : (arguments eightWords.dropLast).length = 8 := by decide
  obtain ⟨s, left, -, hread⟩ := readCommand_eq envInv_zero.texts argvZero argBufsZero hline
  rw [hread, hargs, storeAt, dif_neg (by decide)]
  rfl

/-- `ls` with a blank behind it. -/
def lsBlank : CString := CString.ofChars ['l', 's', ' ']

theorem splitLine_words_iff_ls : (∃ s,
    splitLine EnvTable.zero argvZero argBufsZero ⟨Buf.ofText shellBufsz lsBlank, 3⟩ = some s ∧
    HasWords EnvTable.zero lsBlank.chars s) ↔
      (segments false lsBlank.chars).getLast? ≠ some [] ∨ (words lsBlank.chars).length = 8 :=
  splitLine_words_iff envInv_zero.texts argvZero argBufsZero (Buf.text_ofText (by decide)) (by decide) (by decide)
    (by decide)

/-- The blank adds an empty argument. -/
theorem splitLine_lsBlank : ¬∃ s,
    splitLine EnvTable.zero argvZero argBufsZero ⟨Buf.ofText shellBufsz lsBlank, 3⟩ = some s ∧
    HasWords EnvTable.zero lsBlank.chars s := by
  rintro ⟨s, hs, hargc, -⟩
  obtain ⟨s', hs', hdone⟩ := splitLine_done envInv_zero.texts argvZero argBufsZero
    (Buf.text_ofText (show lsBlank.length < shellBufsz by decide))
  obtain rfl := Option.some.inj (hs.symm.trans hs')
  have hargs : (arguments lsBlank.chars).length = 2 := by decide
  have hwords : (words lsBlank.chars).length = 1 := by decide
  have hlen := hdone.argc
  rw [hargc, hwords, List.length_take, List.length_map, hargs] at hlen
  cases hlen

end PpoOS
