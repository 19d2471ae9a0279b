import PpoOS.Flanterm.Verify.Control

/-!
# Commands on a table

Whatever commands are written to a terminal, one after the other, its table is what they mean
(`commands_run`).
-/

namespace PpoOS

section Inside

variable {n m : Nat} {st : Style} {g g' : Grid}

/-- The cursor moves, and characters change. -/
theorem Grid.Inside.changed (h : g.Inside n m st) (hcolours : g'.colours = g.colours) {x y : Nat}
    (hpen : g'.pen = { g.pen with cursorX := x, cursorY := y }) (hx : x ≤ n) (hy : y < m) : g'.Inside n m st := by
  have hfg : st.fgColour g.colours = g.pen.textFg := congrArg (fun g : Grid => g.pen.textFg) h.style
  have hbg : st.bgColour g.colours = g.pen.textBg := congrArg (fun g : Grid => g.pen.textBg) h.style
  obtain ⟨colours, pen, cells⟩ := g'
  cases hcolours
  cases hpen
  refine ⟨hx, hy, ?_⟩
  rw [Grid.styled, Grid.withPen]
  dsimp only
  rw [hfg, hbg]

theorem Grid.erased_inside (h : g.Inside n m st) (hn : 0 < n) (v : Nat) (e : Erasure) :
    (g.erased n m v e).Inside n m st ∧ (g.erased n m v e).colours = g.colours := by
  rw [Grid.erased]
  split_ifs
  · exact ⟨h.changed rfl rfl (Nat.le_of_lt (column_lt hn)) h.row, rfl⟩
  · exact ⟨h.changed rfl rfl h.column h.row, rfl⟩

theorem Grid.edited_inside (h : g.Inside n m st) (hn : 0 < n) (v : Nat) (e : TextEdit) :
    (g.edited n m v e).Inside n m st ∧ (g.edited n m v e).colours = g.colours := by
  rw [Grid.edited]
  split_ifs
  · exact ⟨h.changed rfl rfl (Nat.le_of_lt (column_lt hn)) h.row, rfl⟩
  · exact ⟨h.changed rfl rfl h.column h.row, rfl⟩

/-- The cursor moves from a place of the screen to another one. -/
theorem cursorMoves_inside {v w x y : Nat} (hx : x < n) (hy : y < m) {c : U8} {x' y' : Nat}
    (hmove : (c, x', y') ∈ cursorMoves n m v w x y) : x' < n ∧ y' < m := by
  have hcolumn := placeOf_lt hx v
  have hrow := placeOf_lt hy v
  simp only [cursorMoves, List.mem_cons, List.not_mem_nil, or_false, Prod.mk.injEq] at hmove
  rcases hmove with ⟨-, rfl, rfl⟩ | ⟨-, rfl, rfl⟩ | ⟨-, rfl, rfl⟩ | ⟨-, rfl, rfl⟩ | ⟨-, rfl, rfl⟩ | ⟨-, rfl, rfl⟩ |
    ⟨-, rfl, rfl⟩ | ⟨-, rfl, rfl⟩ | ⟨-, rfl, rfl⟩ | ⟨-, rfl, rfl⟩ | ⟨-, rfl, rfl⟩ | ⟨-, rfl, rfl⟩ |
    ⟨-, rfl, rfl⟩ <;> omega

theorem lookup_of_mem {c : U8} {l : List (U8 × Nat × Nat)} (h : c ∈ l.map Prod.fst) :
    ∃ p, l.lookup c = some p ∧ (c, p) ∈ l := by
  induction l with
  | nil => exact absurd h List.not_mem_nil
  | cons q l ih =>
    obtain ⟨d, p⟩ := q
    rw [List.lookup_cons]
    by_cases heq : c = d
    · subst heq
      exact ⟨p, by rw [beq_self_eq_true], List.mem_cons_self⟩
    · obtain ⟨p', hp', hmem⟩ := ih ((List.mem_cons.mp h).resolve_left heq)
      exact ⟨p', by rw [beq_eq_false_iff_ne.mpr heq, hp'], List.mem_cons_of_mem _ hmem⟩

end Inside

section Run

variable {n m k : Nat} {st : Style} {t : FlantermContext} {g : Grid}

/-- A command does what it means. -/
theorem command_run (ht : t.Ready n m k st) (h : g.Inside n m st) (hmn : m ≤ n) (hn : n ≤ 2 ^ 31) (hk : 1 < k)
    {cmd : TerminalCommand} (hcmd : cmd.Ok n m k) :
    ∃ t', (cmd.bytes.forM (flantermPutchar gridBackend)).run (t, g) = some ((), t', (cmd.exec n m k (g, st)).1) ∧
      t'.Ready n m k (cmd.exec n m k (g, st)).2 ∧ (cmd.exec n m k (g, st)).1.Inside n m (cmd.exec n m k (g, st)).2 ∧
      (cmd.exec n m k (g, st)).1.colours = g.colours := by
  have hn' : n ≤ 2 ^ 64 := Nat.le_trans hn (by decide)
  have hpos : 0 < n := Nat.lt_of_lt_of_le (Nat.zero_lt_of_lt h.row) hmn
  have hk' : 0 < k := Nat.zero_lt_of_lt hk
  cases cmd with
  | text item => exact item_run ht h hmn hn' hcmd
  | move c params last =>
    obtain ⟨⟨x, y⟩, hlookup, hmem⟩ := lookup_of_mem (l := cursorMoves n m (sequenceValue k params last c 0)
      (sequenceValue k params last c 1) (g.column n) g.pen.cursorY) hcmd
    obtain ⟨t', hrun, ht'⟩ := move_run ht h hmn hk hn' params last hmem
    obtain ⟨hx, hy⟩ := cursorMoves_inside (column_lt hpos) h.row hmem
    have hexec : (TerminalCommand.move c params last).exec n m k (g, st) = (g.moveTo x y, st) := by
      rw [TerminalCommand.exec, hlookup]
      rfl
    rw [hexec]
    exact ⟨t', hrun, ht', h.changed rfl rfl (Nat.le_of_lt hx) hy, rfl⟩
  | erase e params last =>
    obtain ⟨t', hrun, ht'⟩ := erase_run ht h hmn hk' hn' params last e
    exact ⟨t', hrun, ht', g.erased_inside h hpos _ e⟩
  | edit e params last =>
    obtain ⟨t', hrun, ht'⟩ := edit_run ht h hmn hk' hn params last e hcmd
    exact ⟨t', hrun, ht', g.edited_inside h hpos _ e⟩

/-- Commands one after the other -/
theorem commands_run (ht : t.Ready n m k st) (h : g.Inside n m st) (hmn : m ≤ n) (hn : n ≤ 2 ^ 31) (hk : 1 < k)
    {cmds : List TerminalCommand} (hcmds : ∀ cmd ∈ cmds, cmd.Ok n m k) :
    ∃ t', ((commandBytes cmds).forM (flantermPutchar gridBackend)).run (t, g) =
        some ((), t', (execAll n m k cmds (g, st)).1) ∧
      t'.Ready n m k (execAll n m k cmds (g, st)).2 := by
  induction cmds generalizing t g st with
  | nil => exact ⟨t, rfl, ht⟩
  | cons cmd cmds ih =>
    obtain ⟨t₁, hrun₁, ht₁, h₁, -⟩ := command_run ht h hmn hn hk (hcmds cmd List.mem_cons_self)
    obtain ⟨t₂, hrun₂, ht₂⟩ := ih ht₁ h₁ fun c hc => hcmds c (List.mem_cons_of_mem cmd hc)
    refine ⟨t₂, ?_, ht₂⟩
    rw [commandBytes, List.flatMap_cons, List.forM_eq_forM, List.forM_append]
    exact (FaultState.run_bind_eq hrun₁).trans hrun₂

end Run

end PpoOS
