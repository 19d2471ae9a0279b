import PpoOS.Flanterm.Verify.Init
import PpoOS.Flanterm.Verify.Commands
import PpoOS.Flanterm.Verify.Transcript

/-!
# What is on the screen

* `terminal_shows`: after any run the framebuffer is the picture of the table of characters.
* `terminal_batches`: how the bytes are divided among writes does not matter.
* `terminal_commands`: what is on the screen is what the commands mean.
* `terminal_transcript`: after a text it is the last rows of the text.
* `terminal_once`: one terminal is set up, for the first framebuffer that it can be set up for.
-/

namespace PpoOS

/-! ## Writes and flushes -/

section Written

/-- A table knows no flush. -/
theorem gridOp_eq (op : TerminalOp) (p : FlantermContext × Grid) :
    gridOp op p = ((op.bytes.forM (flantermPutchar gridBackend)).run p).map Prod.snd := by
  cases op with
  | write bytes =>
    rw [gridOp, TerminalOp.bytes]
    cases hrun : (bytes.forM (flantermPutchar gridBackend)).run p with
    | none =>
      have hwrite : (gridBackend.flantermWrite bytes).run p = none := by
        rw [Backend.flantermWrite, StateT.run_bind, hrun]
        rfl
      rw [hwrite]
    | some r =>
      obtain ⟨⟨⟩, t, g⟩ := r
      have hwrite : (gridBackend.flantermWrite bytes).run p = some ((), t, g) := by
        refine (FaultState.run_bind_eq hrun).trans ?_
        change (if t.autoflush then flantermFlush gridBackend else pure ()).run (t, g) = _
        split <;> rfl
      rw [hwrite]
  | flush => rfl
  | fullRefresh => rfl

theorem gridSession_eq (ops : List TerminalOp) (p : FlantermContext × Grid) :
    gridSession ops p = (((writtenBytes ops).forM (flantermPutchar gridBackend)).run p).map Prod.snd := by
  induction ops generalizing p with
  | nil => rfl
  | cons op ops ih =>
    have hbytes : writtenBytes (op :: ops) = op.bytes ++ writtenBytes ops := List.flatMap_cons
    rw [gridSession, List.foldlM_cons, gridOp_eq, hbytes, List.forM_eq_forM, List.forM_append, StateT.run_bind]
    cases (op.bytes.forM (flantermPutchar gridBackend)).run p with
    | none => rfl
    | some r => exact ih r.2

/-- The table and the framebuffer at the start say what is in the terminal. -/
theorem Synced.unique {n m : Nat} {display : Display} {t : FlantermContext} {s s' : FbContext} {g : Grid}
    (h : Synced n m display t s g) (h' : Synced n m display t s' g) : s' = s := by
  have hscreen : s'.screen = s.screen := h'.screen.trans h.screen.symm
  have hcolours : s'.colours = s.colours := h'.colours.trans h.colours.symm
  have hold := h'.oldCursor.trans h.oldCursor.symm
  have hdraws := h'.draws
  rw [hscreen, hcolours] at hdraws
  cases s
  cases s'
  cases hcolours
  cases hscreen
  cases h'.pen.trans h.pen.symm
  cases h'.buffer.trans h.buffer.symm
  obtain ⟨hx, hy⟩ := Prod.mk.inj hold
  cases hx
  cases hy
  cases h.draws.unique hdraws
  rfl

end Written

/-! ## Terminals -/

/-- What the kernel asks for with a framebuffer of 640 by 480 pixels -/
def vgaArgs : FbArgs := kernelFbArgs ⟨0#64, 640#32, 480#32, 640#32⟩

theorem vgaArgs_fits : vgaArgs.Fits 307200 := ⟨by decide, by decide, by decide, by decide, by decide⟩

/-- The glyph of `A` in `builtin_font`; the others are left empty. -/
def fontA : Nat → U8 := fun i =>
  if i / 16 = 0x41 then
    [0x00#8, 0x00#8, 0x38#8, 0x6c#8, 0xc6#8, 0xc6#8, 0xc6#8, 0xc6#8, 0xfe#8, 0xc6#8, 0xc6#8, 0xc6#8, 0xc6#8, 0x00#8,
      0x00#8, 0x00#8].getD (i % 16) 0#8
  else 0#8

theorem fbSizes_fit : FbSizes.Fit ⟨1296, 12, 32, 8⟩ := ⟨by decide, by decide, by decide, by decide⟩

section Terminal

variable {sizes : FbSizes} (hsizes : sizes.Fit) {maxEscValues : Nat} (hmax : 2 ≤ maxEscValues) (builtinFont : Nat → U8)

include hsizes hmax

/-- A terminal in use -/
theorem terminalSession_synced {a : FbArgs} {pixels : Nat} (h : a.Fits pixels) (hmasks : a.badMasks = false)
    (framebuffer : Nat → U32) {pool : BumpPool} (hptr : pool.ptr = 0) (hinstance : pool.allocatedInstance = false)
    (ops : List TerminalOp) :
    ∃ t s g, terminalSession sizes maxEscValues builtinFont a pixels framebuffer pool ops = some (some (t, s)) ∧
      gridSession ops (initialContext a maxEscValues, initialGrid a) = some (t, g) ∧
      Synced a.cols a.rows (fbDisplay builtinFont a pixels framebuffer) t s g := by
  obtain ⟨s₀, pool', hinit, -, hsynced⟩ :=
    flantermFbInit_synced builtinFont h hmasks hsizes hmax framebuffer hptr hinstance
  obtain ⟨t, s, g, hs, hg, -, hend⟩ := fbSession_synced ops (initialContext_ok h hmax) hsynced
  refine ⟨t, s, g, ?_, hg, hend⟩
  rw [terminalSession, hinit, Option.bind_eq_bind, Option.bind_some]
  dsimp only
  rw [Option.mapM_some, hs]
  rfl

/-- After any run, the framebuffer is the picture of the table of characters and of the cursor, and the memory
around it is as it was. -/
theorem terminal_shows {a : FbArgs} {pixels : Nat} (h : a.Fits pixels) (hmasks : a.badMasks = false)
    (framebuffer : Nat → U32) {pool : BumpPool} (hptr : pool.ptr = 0) (hinstance : pool.allocatedInstance = false)
    (ops : List TerminalOp) :
    ∃ t s g, terminalSession sizes maxEscValues builtinFont a pixels framebuffer pool ops = some (some (t, s)) ∧
      gridSession ops (initialContext a maxEscValues, initialGrid a) = some (t, g) ∧
      Draws a.colours (fbScreen builtinFont a pixels) a.cols a.rows framebuffer (g.shown t) s.framebuffer := by
  obtain ⟨t, s, g, hs, hg, hsynced⟩ := terminalSession_synced hsizes hmax builtinFont h hmasks
    framebuffer hptr hinstance ops
  refine ⟨t, s, g, hs, hg, ?_⟩
  have hdraws := hsynced.draws
  rw [hsynced.palette, hsynced.screen] at hdraws
  exact hdraws

omit hsizes hmax in
theorem terminal_shows_vga : ∃ t s g, terminalSession ⟨1296, 12, 32, 8⟩ 16 fontA vgaArgs 307200 (fun _ => 0#32)
      ⟨0, 0, false, false⟩ [.write [0x41#8], .flush] = some (some (t, s)) ∧
    gridSession [.write [0x41#8], .flush] (initialContext vgaArgs 16, initialGrid vgaArgs) = some (t, g) ∧
    Draws vgaArgs.colours (fbScreen fontA vgaArgs 307200) vgaArgs.cols vgaArgs.rows (fun _ => 0#32) (g.shown t)
      s.framebuffer :=
  terminal_shows fbSizes_fit (by decide) _ vgaArgs_fits rfl _ rfl rfl _

/-- Runs that write the same bytes end in the same terminal, also where they flush or draw anew in between. -/
theorem terminal_batches {a : FbArgs} {pixels : Nat} (h : a.Fits pixels) (hmasks : a.badMasks = false)
    (framebuffer : Nat → U32) {pool : BumpPool} (hptr : pool.ptr = 0) (hinstance : pool.allocatedInstance = false)
    {ops ops' : List TerminalOp} (hbytes : writtenBytes ops = writtenBytes ops') :
    ∃ p, terminalSession sizes maxEscValues builtinFont a pixels framebuffer pool ops = some (some p) ∧
      terminalSession sizes maxEscValues builtinFont a pixels framebuffer pool ops' = some (some p) := by
  obtain ⟨t, s, g, hs, hg, hsynced⟩ := terminalSession_synced hsizes hmax builtinFont h hmasks
    framebuffer hptr hinstance ops
  obtain ⟨t', s', g', hs', hg', hsynced'⟩ := terminalSession_synced hsizes hmax builtinFont h hmasks
    framebuffer hptr hinstance ops'
  rw [gridSession_eq, hbytes, ← gridSession_eq, hg'] at hg
  obtain ⟨rfl, rfl⟩ := Prod.mk.inj (Option.some.inj hg)
  exact ⟨(t', s), hs, by rw [hs', hsynced.unique hsynced']⟩

omit hsizes hmax in
theorem terminal_batches_vga : ∃ p, terminalSession ⟨1296, 12, 32, 8⟩ 16 fontA vgaArgs 307200 (fun _ => 0#32)
      ⟨0, 0, false, false⟩ [.write [0x1B#8], .fullRefresh, .write [0x5B#8, 0x4A#8]] = some (some p) ∧
    terminalSession ⟨1296, 12, 32, 8⟩ 16 fontA vgaArgs 307200 (fun _ => 0#32)
      ⟨0, 0, false, false⟩ [.write [0x1B#8, 0x5B#8, 0x4A#8]] = some (some p) :=
  terminal_batches fbSizes_fit (by decide) _ vgaArgs_fits rfl _ rfl rfl rfl

omit hsizes hmax in
/-- A new terminal waits for a text. -/
theorem initial_ready (a : FbArgs) : (initialContext a maxEscValues).Ready a.cols a.rows maxEscValues .plain where
  text := ⟨rfl, rfl, rfl, rfl, rfl, rfl, rfl⟩
  style := rfl
  cols := rfl
  rows := rfl
  top := rfl
  bottom := rfl
  scrollEnabled := rfl
  cursorEnabled := rfl
  insertMode := rfl
  charset := rfl
  onlcr := rfl
  room := List.length_replicate

omit hsizes hmax in
theorem initial_shown (a : FbArgs) : (Transcript.start a.colours).Shown a.cols a.rows (initialGrid a) := by
  refine ⟨fun x _ y _ => ?_, ?_, Nat.zero_le _, rfl⟩
  · rw [Transcript.cell, Transcript.rows_getD]
    change Transcript.blank a.colours = _
    split_ifs
    · rename_i h
      exact absurd h (Nat.not_lt_zero _)
    · rfl
    · rfl
  · rw [Transcript.cursor]
    exact congrArg (Prod.mk 0) (Nat.zero_min _).symm

/-- A terminal that commands are written to -/
theorem terminalSession_commands {a : FbArgs} {pixels : Nat} (h : a.Fits pixels) (hmasks : a.badMasks = false)
    (framebuffer : Nat → U32) {pool : BumpPool} (hptr : pool.ptr = 0) (hinstance : pool.allocatedInstance = false)
    (hshape : a.rows ≤ a.cols) {cmds : List TerminalCommand} (hcmds : ∀ cmd ∈ cmds, cmd.Ok a.cols a.rows maxEscValues)
    {ops : List TerminalOp} (hops : writtenBytes ops = commandBytes cmds) :
    ∃ t s, terminalSession sizes maxEscValues builtinFont a pixels framebuffer pool ops = some (some (t, s)) ∧
      Draws a.colours (fbScreen builtinFont a pixels) a.cols a.rows framebuffer
        (execAll a.cols a.rows maxEscValues cmds (initialGrid a, .plain)).1.picture s.framebuffer := by
  obtain ⟨t, s, g, hs, hg, hsynced⟩ := terminalSession_synced hsizes hmax builtinFont h hmasks
    framebuffer hptr hinstance ops
  have hrows : 0 < a.rows := (initialContext_ok h hmax).top
  have hwide : a.cols ≤ 2 ^ 31 := by
    have hcols : a.cols ≤ 1920 := Nat.le_trans (Nat.div_le_self _ _)
      (Nat.le_trans (Nat.sub_le _ _) (Nat.min_le_right _ _))
    omega
  have hinside : (initialGrid a).Inside a.cols a.rows .plain := ⟨Nat.zero_le _, hrows, (initial_shown a).style⟩
  obtain ⟨t', hrun, hready⟩ := commands_run (initial_ready a) hinside hshape hwide hmax hcmds
  rw [gridSession_eq, hops, hrun] at hg
  obtain ⟨rfl, rfl⟩ := Prod.mk.inj (Option.some.inj hg)
  refine ⟨t', s, hs, ?_⟩
  have hdraws := hsynced.draws
  rw [hsynced.palette, hsynced.screen] at hdraws
  refine hdraws.congr fun p _ => ?_
  rw [Grid.shown, hready.cursorEnabled, Grid.picture]
  simp only [true_and]

/-- The framebuffer shows what the commands mean. -/
theorem terminal_commands {a : FbArgs} {pixels : Nat} (h : a.Fits pixels) (hmasks : a.badMasks = false)
    (framebuffer : Nat → U32) {pool : BumpPool} (hptr : pool.ptr = 0) (hinstance : pool.allocatedInstance = false)
    (hshape : a.rows ≤ a.cols) (cmds : List TerminalCommand) (hcmds : ∀ cmd ∈ cmds, cmd.Ok a.cols a.rows maxEscValues) :
    ∃ t s, terminalSession sizes maxEscValues builtinFont a pixels framebuffer pool [.write (commandBytes cmds)] =
        some (some (t, s)) ∧
      Draws a.colours (fbScreen builtinFont a pixels) a.cols a.rows framebuffer
        (execAll a.cols a.rows maxEscValues cmds (initialGrid a, .plain)).1.picture s.framebuffer :=
  terminalSession_commands hsizes hmax builtinFont h hmasks framebuffer hptr hinstance hshape hcmds
    (List.flatMap_singleton _ _)

omit hsizes hmax in
theorem terminal_commands_vga : ∃ t s, terminalSession ⟨1296, 12, 32, 8⟩ 16 fontA vgaArgs 307200 (fun _ => 0#32)
      ⟨0, 0, false, false⟩ [.write (commandBytes [.text (.char 'A'), .erase .line [] (some 1)])] = some (some (t, s)) ∧
    Draws vgaArgs.colours (fbScreen fontA vgaArgs 307200) vgaArgs.cols vgaArgs.rows (fun _ => 0#32)
      (execAll vgaArgs.cols vgaArgs.rows 16 [.text (.char 'A'), .erase .line [] (some 1)]
        (initialGrid vgaArgs, .plain)).1.picture s.framebuffer := by
  refine terminal_commands fbSizes_fit (by decide) _ vgaArgs_fits rfl _ rfl rfl (by decide) _ ?_
  exact List.forall_mem_cons.mpr ⟨Or.inl ⟨by decide, by decide⟩,
    List.forall_mem_cons.mpr ⟨trivial, List.forall_mem_nil _⟩⟩

omit hsizes hmax in
/-- A text is commands. -/
theorem textBytes_commands (items : List TextItem) : textBytes items = commandBytes (items.map .text) := by
  rw [textBytes, commandBytes, List.flatMap_map]
  rfl

/-- The framebuffer shows the last rows of a text, with the cursor behind it. -/
theorem terminal_transcript {a : FbArgs} {pixels : Nat} (h : a.Fits pixels) (hmasks : a.badMasks = false)
    (framebuffer : Nat → U32) {pool : BumpPool} (hptr : pool.ptr = 0) (hinstance : pool.allocatedInstance = false)
    (hshape : a.rows ≤ a.cols) {items : List TextItem} (hitems : ∀ item ∈ items, item.Ok maxEscValues)
    {ops : List TerminalOp} (hops : writtenBytes ops = textBytes items) :
    ∃ t s, terminalSession sizes maxEscValues builtinFont a pixels framebuffer pool ops = some (some (t, s)) ∧
      Draws a.colours (fbScreen builtinFont a pixels) a.cols a.rows framebuffer
        ((transcript a.cols a.rows a.colours items).shown a.rows a.colours) s.framebuffer := by
  have hrows : 0 < a.rows := (initialContext_ok h hmax).top
  have hcmds : ∀ cmd ∈ items.map TerminalCommand.text, cmd.Ok a.cols a.rows maxEscValues := by
    intro cmd hcmd
    obtain ⟨item, hitem, rfl⟩ := List.mem_map.mp hcmd
    exact hitems item hitem
  obtain ⟨t, s, hs, hdraws⟩ := terminalSession_commands hsizes hmax builtinFont h hmasks framebuffer hptr hinstance
    hshape hcmds (hops.trans (textBytes_commands items))
  obtain ⟨hshown, hcolours⟩ := (initial_shown a).text (k := maxEscValues) hrows (Nat.lt_of_lt_of_le hrows hshape) items
  refine ⟨t, s, hs, hdraws.congr fun p hp => ?_⟩
  obtain ⟨hx, hy⟩ := mem_places.mp hp
  have hcell : (execAll a.cols a.rows maxEscValues (items.map .text) (initialGrid a, .plain)).1.cells p =
      (transcript a.cols a.rows a.colours items).cell a.rows a.colours p := by
    have hplace := hshown.cells p.1 hx p.2 hy
    rw [hcolours] at hplace
    exact hplace
  have hcursor := hshown.cursor
  rw [Grid.picture, Transcript.shown, hcell]
  exact congrArg (fun place => if p = place then _ else _) hcursor

omit hsizes hmax in
theorem terminal_transcript_vga : ∃ t s, terminalSession ⟨1296, 12, 32, 8⟩ 16 fontA vgaArgs 307200
      (fun _ => 0#32) ⟨0, 0, false, false⟩ [.write [0x41#8], .write [0x0A#8]] = some (some (t, s)) ∧
    Draws vgaArgs.colours (fbScreen fontA vgaArgs 307200) vgaArgs.cols vgaArgs.rows (fun _ => 0#32)
      ((transcript vgaArgs.cols vgaArgs.rows vgaArgs.colours [.char 'A', .newline]).shown vgaArgs.rows vgaArgs.colours)
      s.framebuffer := by
  have hbytes : writtenBytes [.write [0x41#8], .write [0x0A#8]] = textBytes [.char 'A', .newline] := by decide
  refine terminal_transcript fbSizes_fit (by decide) _ vgaArgs_fits rfl _ rfl rfl (by decide) ?_ hbytes
  exact List.forall_mem_cons.mpr ⟨Or.inl ⟨by decide, by decide⟩,
    List.forall_mem_cons.mpr ⟨trivial, List.forall_mem_nil _⟩⟩

omit hsizes hmax in
/-- There is no terminal without masks for it, and none but the first from the pool. -/
theorem flantermFbInit_refused {a : FbArgs} {pixels : Nat} {framebuffer : Nat → U32} {pool : BumpPool}
    (h : a.badMasks = true ∨ pool.allocatedInstance = true) :
    (flantermFbInit sizes maxEscValues builtinFont a pixels framebuffer).run pool = some (none, pool) := by
  change flantermFbInit sizes maxEscValues builtinFont a pixels framebuffer pool = _
  rw [flantermFbInit, if_pos h]
  rfl

omit hsizes hmax in
theorem fbInits_cons {f : FbArgs × Nat × (Nat → U32)} {fs : List (FbArgs × Nat × (Nat → U32))} {pool pool₁ pool₂ : BumpPool}
    {terminal : Option (FlantermContext × FbContext)} {terminals : List (Option (FlantermContext × FbContext))}
    (hf : (flantermFbInit sizes maxEscValues builtinFont f.1 f.2.1 f.2.2).run pool = some (terminal, pool₁))
    (hfs : (fbInits sizes maxEscValues builtinFont fs).run pool₁ = some (terminals, pool₂)) :
    (fbInits sizes maxEscValues builtinFont (f :: fs)).run pool = some (terminal :: terminals, pool₂) := by
  rw [fbInits, List.mapM_cons]
  refine (FaultState.run_bind_eq hf).trans ?_
  exact (FaultState.run_bind_eq hfs).trans rfl

omit hsizes hmax in
theorem fbInits_refused (fs : List (FbArgs × Nat × (Nat → U32))) {pool : BumpPool}
    (h : pool.allocatedInstance = true) :
    (fbInits sizes maxEscValues builtinFont fs).run pool = some (List.replicate fs.length none, pool) := by
  induction fs with
  | nil => rfl
  | cons f fs ih => exact fbInits_cons builtinFont (flantermFbInit_refused builtinFont (.inr h)) ih

/-- Of several framebuffers, the first one with masks for a terminal gets the terminal. -/
theorem terminal_once {fs : List (FbArgs × Nat × (Nat → U32))} (h : ∀ f ∈ fs, f.1.Fits f.2.1)
    {pool : BumpPool} (hptr : pool.ptr = 0) (hinstance : pool.allocatedInstance = false) :
    ∃ terminals pool', (fbInits sizes maxEscValues builtinFont fs).run pool = some (terminals, pool') ∧
      ∀ i, (∃ p, terminals[i]? = some (some p)) ↔ i < fs.length ∧ i = fs.findIdx fun f => !f.1.badMasks := by
  induction fs with
  | nil =>
    refine ⟨[], pool, rfl, fun i => ⟨fun hp => ?_, fun hi => absurd hi.1 (Nat.not_lt_zero i)⟩⟩
    obtain ⟨p, hp⟩ := hp
    cases hp
  | cons f fs ih =>
    cases hmasks : f.1.badMasks with
    | true =>
      obtain ⟨terminals, pool', hrun, hfirst⟩ := ih fun f' hf' => h f' (List.mem_cons_of_mem f hf')
      refine ⟨none :: terminals, pool', fbInits_cons builtinFont (flantermFbInit_refused builtinFont (.inl hmasks)) hrun, fun i => ?_⟩
      rw [List.findIdx_cons, hmasks, List.length_cons]
      cases i with
      | zero => simp
      | succ i =>
        rw [List.getElem?_cons_succ, hfirst]
        simp
    | false =>
      obtain ⟨s, pool', hinit, halloc, -⟩ := flantermFbInit_synced builtinFont
        (h f List.mem_cons_self) hmasks hsizes hmax f.2.2 hptr hinstance
      refine ⟨_, pool', fbInits_cons builtinFont hinit (fbInits_refused builtinFont fs halloc), fun i => ?_⟩
      rw [List.findIdx_cons, hmasks, List.length_cons]
      cases i with
      | zero => simp
      | succ i => simp [List.getElem?_replicate]

omit hsizes hmax in
theorem terminal_once_vga : ∃ terminals pool', (fbInits ⟨1296, 12, 32, 8⟩ 16 fontA
      [({ vgaArgs with redMaskSize := 5#8 }, 307200, fun _ => 0#32), (vgaArgs, 307200, fun _ => 0#32)]).run
        ⟨0, 0, false, false⟩ = some (terminals, pool') ∧
    ∀ i, (∃ p, terminals[i]? = some (some p)) ↔ i < 2 ∧
      i = [({ vgaArgs with redMaskSize := 5#8 }, 307200, fun _ => 0#32),
        ((vgaArgs, 307200, fun _ => 0#32) : FbArgs × Nat × (Nat → U32))].findIdx fun f => !f.1.badMasks := by
  refine terminal_once fbSizes_fit (by decide) _ ?_ rfl rfl
  exact List.forall_mem_cons.mpr ⟨⟨by decide, by decide, by decide, by decide, by decide⟩,
    List.forall_mem_cons.mpr ⟨vgaArgs_fits, List.forall_mem_nil _⟩⟩

end Terminal

end PpoOS
