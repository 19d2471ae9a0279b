import PpoOS.Process.Session
import PpoOS.Process.Verify.Duplicate
import PpoOS.Process.Verify.Leaks
import Mathlib.Data.List.Infix

/-!
# Descriptors that outlive their program

Nothing empties the descriptor table when a program ends, so an entry is in use
exactly where a call opened it and no later call closed it (`inUse_iff_leftOpen`).
**`clean_starts_iff`**: every program of a session starts on an empty table exactly
where every program before it has closed what it opened.
-/

namespace PpoOS

open ByteMem FaultState SysM Transition

variable {s t : SysState} {num arg1 arg2 arg3 r fd : U64} {es : List SessionEvent} {e : SessionEvent}

/-! ## Opens and closes -/

/-- A call of open that gave the descriptor. -/
def SessionEvent.Opens (fd : U64) : SessionEvent → Prop
  | .call num _ _ _ r => SysNum.ofNum? num = some .open ∧ r ≠ -1#64 ∧ r = fd
  | _ => False

/-- A call of close that freed the descriptor. -/
def SessionEvent.Closes (fd : U64) : SessionEvent → Prop
  | .call num arg1 _ _ r => SysNum.ofNum? num = some .close ∧ r = 0#64 ∧ arg1 = fd
  | _ => False

/-- A call opened the descriptor, and none after it closed it. -/
def LeftOpen (es : List SessionEvent) (fd : U64) : Prop :=
  ∃ before e after, es = before ++ e :: after ∧ e.Opens fd ∧ ∀ e' ∈ after, ¬e'.Closes fd

theorem leftOpen_nil : ¬LeftOpen [] fd := by
  rintro ⟨before, e, after, h, -⟩
  exact absurd (congrArg List.length h) (by simp)

theorem leftOpen_concat : LeftOpen (es ++ [e]) fd ↔ e.Opens fd ∨ LeftOpen es fd ∧ ¬e.Closes fd := by
  constructor
  · rintro ⟨before, e', after, h, hopen, hafter⟩
    rcases List.eq_nil_or_concat after with rfl | ⟨after, e'', rfl⟩
    · obtain ⟨-, he⟩ := List.append_inj' h rfl
      obtain rfl := (List.cons.inj he).1
      exact .inl hopen
    · have hcat : es ++ [e] = before ++ e' :: after ++ [e''] := by rw [h]; simp
      obtain ⟨rfl, he⟩ := List.append_inj' hcat rfl
      obtain rfl := (List.cons.inj he).1
      refine .inr ⟨⟨before, e', after, rfl, hopen, fun x hx => hafter x (by simp [hx])⟩, hafter e (by simp)⟩
  · rintro (hopen | ⟨⟨before, e', after, rfl, hopen, hafter⟩, hclose⟩)
    · exact ⟨es, e, [], rfl, hopen, fun _ h => nomatch h⟩
    · refine ⟨before, e', after ++ [e], by simp, hopen, fun x hx => ?_⟩
      rcases List.mem_append.mp hx with hx | hx
      · exact hafter x hx
      · rw [List.mem_singleton.mp hx]
        exact hclose

/-! ## What a step does to the table -/

/-- Replacing an entry. -/
theorem inUse_set {d : FileDescriptor} {i : Nat} (hi : i < maxFds) (ht : t.fdTable = s.fdTable.setIfInBounds i d) :
    t.InUse fd ↔ if fd.toNat = i then d.used = true else s.InUse fd := by
  unfold SysState.InUse
  rw [ht]
  by_cases hfd : fd.toNat = i
  · rw [if_pos hfd, hfd, Vector.getElem?_setIfInBounds, if_pos rfl, if_pos hi]
    simp
  · rw [if_neg hfd, Vector.getElem?_setIfInBounds, if_neg (Ne.symm hfd)]

theorem inUse_congr (ht : t.fdTable = s.fdTable) : t.InUse fd ↔ s.InUse fd := by
  unfold SysState.InUse
  rw [ht]

/-- A call puts an entry in use where it opens it, and frees it where it closes it. -/
theorem syscall_inUse (h : TableOk s.fdTable) (hrun : (syscall num arg1 arg2 arg3).run s = some (r, t)) :
    t.InUse fd ↔ (SessionEvent.call num arg1 arg2 arg3 r).Opens fd ∨
      s.InUse fd ∧ ¬(SessionEvent.call num arg1 arg2 arg3 r).Closes fd := by
  have hchange := syscall_change h hrun
  unfold SessionEvent.Opens SessionEvent.Closes
  by_cases hopen : SysNum.ofNum? num = some .open
  · have hclose : SysNum.ofNum? num ≠ some .close := by rw [hopen]; decide
    rcases hchange.open hopen with ⟨rfl, hsame⟩ | ⟨i, file, hfree, rfl, hset⟩
    · simp [inUse_congr hsame, hclose]
    · obtain ⟨-, hlt⟩ := hfree.range
      have hi : (BitVec.ofNat 64 i).toNat = i := Nat.mod_eq_of_lt (Nat.lt_trans hlt (by decide))
      have hne : BitVec.ofNat 64 i ≠ -1#64 := fun heq => by
        have hn := congrArg BitVec.toNat heq
        rw [hi] at hn
        rw [hn] at hlt
        exact absurd hlt (by decide)
      rw [inUse_set hlt hset]
      by_cases hfd : fd.toNat = i
      · have heq : BitVec.ofNat 64 i = fd := by rw [← hfd, BitVec.ofNat_toNat, BitVec.setWidth_eq]
        rw [if_pos hfd]
        exact iff_of_true rfl (.inl ⟨hopen, hne, heq⟩)
      · have heq : BitVec.ofNat 64 i ≠ fd := fun heq => hfd (heq ▸ hi)
        simp [hfd, hclose, heq]
  by_cases hclose : SysNum.ofNum? num = some .close
  · obtain ⟨hiff, hfreed, hkept⟩ := hchange.close hclose
    by_cases hzero : r = 0#64
    · obtain ⟨d, hd⟩ := Option.isSome_iff_exists.mp (h.inUse_iff.mp (hiff.mp hzero))
      have hlt : arg1.toNat < maxFds := (Vector.getElem?_eq_some_iff.mp (inUse?_some.mp hd).2.1).1
      rw [inUse_set hlt (hfreed hzero)]
      by_cases hfd : fd.toNat = arg1.toNat
      · have heq : arg1 = fd := BitVec.eq_of_toNat_eq hfd.symm
        simp [hclose, hzero, heq, FileDescriptor.free]
      · have heq : arg1 ≠ fd := fun heq => hfd (heq ▸ rfl)
        simp [hfd, hclose, heq]
    · simp [inUse_congr (hkept hzero).2, hclose, hzero]
  · have hsame : t.InUse fd ↔ s.InUse fd := by
      by_cases hread : SysNum.ofNum? num = some .read
      · rcases hchange.read hread with hsame | ⟨d, hd, hused, -, -, hset⟩
        · exact inUse_congr hsame
        · rw [inUse_set (Vector.getElem?_eq_some_iff.mp hd).1 hset]
          by_cases hfd : fd.toNat = arg1.toNat
          · rw [if_pos hfd]
            exact iff_of_true hused ⟨d, by rw [hfd]; exact hd, hused⟩
          · rw [if_neg hfd]
      · exact inUse_congr (hchange.others hopen hclose hread)
    simp [hsame, hopen, hclose]

/-! ## Sessions -/

/-- The table is well formed, and its entries in use are those that were opened and not closed. -/
structure SessionInv (es : List SessionEvent) (s : Session) : Prop where
  table : TableOk s.sys.fdTable
  inUse : ∀ fd, s.sys.InUse fd ↔ LeftOpen es fd

theorem sessionInv_boot (s : SysState) : SessionInv [] (Session.boot s) where
  table := TableOk.init
  inUse fd := by
    refine iff_of_false (fun ⟨d, hd, hused⟩ => ?_) leftOpen_nil
    obtain ⟨_, hget⟩ := Vector.getElem?_eq_some_iff.mp hd
    rw [← hget] at hused
    simp [Session.boot, syscallInit, FileDescriptor.free] at hused

namespace SessionInv

/-- A step that is no open and no close, and leaves the table alone. -/
theorem quiet {σ τ : Session} (h : SessionInv es σ) (ht : τ.sys.fdTable = σ.sys.fdTable)
    (hopen : ∀ fd, ¬e.Opens fd) (hclose : ∀ fd, ¬e.Closes fd) : SessionInv (es ++ [e]) τ where
  table := ht ▸ h.table
  inUse fd := by
    rw [leftOpen_concat, inUse_congr ht, h.inUse]
    simp [hopen fd, hclose fd]

theorem call {u : Option UserEntry} (h : SessionInv es ⟨s, u⟩)
    (hrun : (syscall num arg1 arg2 arg3).run s = some (r, t)) :
    SessionInv (es ++ [.call num arg1 arg2 arg3 r]) ⟨t, u⟩ where
  table := (SysStep.call hrun).tableOk h.table
  inUse fd := by
    rw [leftOpen_concat, ← h.inUse]
    exact syscall_inUse h.table hrun

theorem step {σ τ : Session} (h : SessionInv es σ) (hstep : SessionStep σ e τ) : SessionInv (es ++ [e]) τ := by
  cases hstep with
  | enter => exact h.quiet rfl (fun _ => id) fun _ => id
  | call hrun => exact h.call hrun
  | program hprogram =>
    cases hprogram with
    | program fdTable => exact h.quiet fdTable (fun _ => id) fun _ => id
  | exit hrun hcleanup =>
    have hquiet := syscall_quiet (by decide) (by decide) (by decide) hrun
    exact h.quiet hquiet.fdTable (fun _ => id) fun _ => id
  | fault => exact h.quiet rfl (fun _ => id) fun _ => id
  | shell fdTable => exact h.quiet fdTable (fun _ => id) fun _ => id

end SessionInv

/-- **An entry is in use exactly where it was opened and not closed**, by whichever program. -/
theorem inUse_iff_leftOpen {s₀ : SysState} {σ : Session} (h : Run SessionStep (Session.boot s₀) es σ) (fd : U64) :
    σ.sys.InUse fd ↔ LeftOpen es fd :=
  (h.history (I := SessionInv) (fun _ _ _ _ hinv hstep => hinv.step hstep) (sessionInv_boot s₀)).inUse fd

/-! ## Starting on an empty table -/

/-- No entry of the table is in use. -/
def CleanTable (table : Vector FileDescriptor maxFds) : Prop :=
  ∀ (i : Nat) (d : FileDescriptor), table[i]? = some d → d.used = false

theorem cleanTable_iff : CleanTable s.fdTable ↔ ∀ fd, ¬s.InUse fd := by
  constructor
  · rintro h fd ⟨d, hd, hused⟩
    rw [h _ d hd] at hused
    cases hused
  · intro h i d hd
    have hi : (BitVec.ofNat 64 i).toNat = i :=
      Nat.mod_eq_of_lt (Nat.lt_trans (Vector.getElem?_eq_some_iff.mp hd).1 (by decide))
    by_contra hused
    exact h (BitVec.ofNat 64 i) ⟨d, by rw [hi]; exact hd, by simpa using hused⟩

/-- On an empty table no descriptor can be read, and an open is not refused for want of one. -/
theorem CleanTable.start (h : CleanTable s.fdTable) :
    (∀ fd, s.inUse? fd = none) ∧ freeFd s.fdTable = some 3 := by
  constructor
  · intro fd
    by_contra hne
    obtain ⟨d, hd⟩ := Option.ne_none_iff_exists'.mp hne
    obtain ⟨-, hget, hused⟩ := inUse?_some.mp hd
    rw [h _ d hget] at hused
    cases hused
  · have hfree : ∀ i : Nat, i < maxFds → (s.fdTable[i]?.any fun d => !d.used) = true := by
      intro i hi
      rw [Vector.getElem?_eq_getElem hi, Option.any_some, h i _ (Vector.getElem?_eq_getElem hi)]
      rfl
    rw [freeFd, List.find?_range_eq_some]
    refine ⟨by simp [hfree 3 (by decide)], List.mem_range.mpr (by decide), fun i hi => ?_⟩
    simp [show ¬3 ≤ i by omega]

/-- A program starts on an empty table exactly where everything that was opened before was closed. -/
theorem clean_start_iff {s₀ : SysState} {σ : Session} (h : Run SessionStep (Session.boot s₀) es σ)
    {before : List SessionEvent} {filename : CString} {table : Vector FileDescriptor maxFds}
    (hpre : before ++ [.enter filename table] <+: es) : CleanTable table ↔ ∀ fd, ¬LeftOpen before fd := by
  have hinv := h.history (I := fun es σ => SessionInv es σ ∧ ∀ before filename table,
      before ++ [.enter filename table] <+: es → (CleanTable table ↔ ∀ fd, ¬LeftOpen before fd))
    (fun ls σ e τ hI hstep => ⟨hI.1.step hstep, fun before filename table hpre => ?_⟩)
    ⟨sessionInv_boot s₀, fun before filename table hpre => absurd hpre.length_le (by simp)⟩
  · exact hinv.2 before filename table hpre
  · rcases List.prefix_concat_iff.mp hpre with heq | hpre
    · obtain ⟨rfl, he⟩ := List.append_inj' heq rfl
      obtain rfl := (List.cons.inj he).1
      cases hstep with
      | @enter s =>
        rw [cleanTable_iff]
        exact forall_congr' fun fd => not_congr (hI.1.inUse fd)
    · exact hI.2 before filename table hpre

/-- **Every program starts on an empty table exactly where the programs before it have closed what they opened.** -/
theorem clean_starts_iff {s₀ : SysState} {σ : Session} (h : Run SessionStep (Session.boot s₀) es σ) :
    (∀ filename table, .enter filename table ∈ es → CleanTable table) ↔
      ∀ before filename table, before ++ [.enter filename table] <+: es → ∀ fd, ¬LeftOpen before fd := by
  constructor
  · intro hclean before filename table hpre
    exact (clean_start_iff h hpre).mp (hclean filename table (hpre.subset (by simp)))
  · intro hclosed filename table hmem
    obtain ⟨before, after, rfl⟩ := List.append_of_mem hmem
    have hpre : before ++ [.enter filename table] <+: before ++ .enter filename table :: after := ⟨after, by simp⟩
    exact (clean_start_iff h hpre).mpr (hclosed before filename table hpre)

/-! ## Starting a program -/

theorem tableAt_zero (f : Nat) (i : Idx) : tableAt (fun _ => 0#8) f i = 0#64 := by
  unfold tableAt load64
  beta_reduce
  decide

/-- In empty memory only the root is reached. -/
theorem walk_zero {r f : Nat} {q : List Idx} (h : walk (fun _ => 0#8) r q = some f) : q = [] ∧ f = r := by
  cases q with
  | nil => exact ⟨rfl, (Option.some.inj h).symm⟩
  | cons i q =>
    have hchild : entryChild (tableAt (fun _ => 0#8) r i) = none := by rw [tableAt_zero]; decide
    rw [walk, Radix.walk, hchild] at h
    cases h

theorem roomy_handover : Handover 1 roomyKernel where
  spaces := rfl
  root := rfl
  pos := by decide
  forest := by
    refine ⟨fullOwned_closed _ _ _, ?_, ?_, ?_⟩
    · intro r q r' q' f hD hD' _ _ hw hw'
      obtain ⟨rfl, rfl⟩ := walk_zero hw
      obtain ⟨rfl, rfl⟩ := walk_zero hw'
      exact ⟨rfl, rfl⟩
    · rintro f ⟨r, q, hD, -, hw⟩
      obtain ⟨rfl, rfl⟩ := walk_zero hw
      obtain ⟨rfl, -⟩ := hD.resolve_right fun hc => List.not_mem_nil hc.1
      refine ⟨by decide, fun hfree => absurd hfree.1 (by decide)⟩
    · intro r q i f _ _ hw he
      have hpresent : entryPresent (tableAt (fun _ => 0#8) f i) = false := by rw [tableAt_zero]; decide
      exact absurd (hpresent.symm.trans he) Bool.false_ne_true
  supervisor := by
    intro q i e _ hl he
    obtain ⟨f, hf, -⟩ := Option.bind_eq_some_iff.mp he
    obtain ⟨rfl, -⟩ := walk_zero hf
    cases hl

section Starts

variable {k₀ k : Kernel} {g : Nat} {f : ElfFile}

/-- With four frames for every page and one more, a file that begins to load is started. -/
theorem Valid.exec_starts (h : Valid (bootLayout g k₀) k) (hacc : f.Accepted) (htab : ¬f.TableTooLarge)
    (hfree : 4 * f.setupJobs.length + 1 ≤ k.pmm.freeCount) :
    ∃ u k', (execElf (some f)).run k = some (some u, k') := by
  obtain ⟨o, k', hrun⟩ := h.exec_ends (some f)
  have hneed := framesNeeded_le (kernelReaches k) f.setupJobs
  have hstarts := (h.starts_iff hrun).mpr ⟨⟨hacc, htab, by omega⟩, by omega⟩
  obtain ⟨u, rfl⟩ := Option.isSome_iff_exists.mp hstarts
  exact ⟨u, k', hrun⟩

end Starts

/-! ## Two programs -/

/-- A program without segments. -/
def idleFile : ElfFile := fileOf (headerBytes 64 0) (by decide +kernel)

/-- `"a"` -/
def idleName : CString := CString.ofChars ['a']

/-- The program as the only file, with its name in the memory of a program. -/
def idleFs : FsState :=
  { FsState.zero with
    fs :=
      { FsMount.zero with
        files := FsMount.zero.files.set 0
          { FsFile.zero with name := Buf.ofText 32 idleName, data := .pool 0#64, size := 64#64, capacity := 64#64 }
            (by decide)
        fileCount := 1 }
    memUsed := 64#64
    mem := ⟨idleFile.data, fun a => if a = 0x400000#64 then 0x61#8 else 0#8, 0#64⟩ }

/-- The table of `syscall_init`, and the one after the first open. -/
def emptyFds : Vector FileDescriptor maxFds := Vector.replicate maxFds .free
def openFds : Vector FileDescriptor maxFds := emptyFds.setIfInBounds 3 ⟨some (.slot 0), 0#64, true⟩

def idleSys (k : Kernel) (table : Vector FileDescriptor maxFds) : SysState := ⟨table, idleFs, k, fun _ => true, [], none⟩

theorem idle_open : (fsOpen idleName).run idleFs = some (some (.slot 0), idleFs) := by
  have hlookup : idleFs.fs.activeFs ≠ .ext2 ∧ (∀ f ∈ idleFs.fs.liveFiles, f.name.text.isSome = true) ∧
      fsLookup idleFs.fs idleName = some 0 := by decide +kernel
  obtain ⟨hfs, hnames, hlookup⟩ := hlookup
  rw [fsOpen_run hfs hnames, hlookup]
  rfl

theorem idle_bytes : FileBytes idleFs (.slot 0) idleFile where
  size := by decide +kernel
  data i := by
    change some (idleFile.data (0#64 + i)) = _
    rw [BitVec.zero_add]

theorem idle_opens (k : Kernel) : (syscall 3#64 0x400000#64 0#64 0#64).run (idleSys k emptyFds) =
    some (3#64, idleSys k (openFds)) := by
  rw [syscall_run (n := .open) rfl nofun]
  change (sysOpen 0x400000#64).run _ = _
  have hfree : freeFd (idleSys k emptyFds).fdTable = some 3 := by
    change freeFd emptyFds = some 3
    decide +kernel
  have hvalid : validateUserMemory 0x400000#64 255#64 = true := by decide +kernel
  have hpath : CString.read (idleFs.mem.bytes (.addr 0x400000#64) 255 ++ [0#8]) = some idleName := by decide +kernel
  have hcopy : (copyFromUser 256 0x400000#64 255#64).run (idleSys k emptyFds) =
      some (some (idleFs.mem.bytes (.addr 0x400000#64) 255), idleSys k emptyFds) := by
    rw [copyFromUser, if_pos hvalid, run_getSys_bind, if_pos ⟨by simp [SysState.mappedRange, idleSys], by decide⟩]
    rfl
  rw [sysOpen, run_getSys_bind]
  rw [hfree]
  dsimp only
  rw [run_bind_eq hcopy]
  dsimp only
  rw [hpath]
  dsimp only
  rw [if_neg (by decide), run_ofFs_bind]
  change Option.bind ((fsOpen idleName).run idleFs) _ = _
  rw [idle_open]
  rfl

theorem idle_closes (k : Kernel) : (syscall 4#64 3#64 0#64 0#64).run (idleSys k openFds) =
    some (0#64, idleSys k emptyFds) := by
  have hused : (idleSys k openFds).inUse? 3#64 = some ⟨some (.slot 0), 0#64, true⟩ := by
    change (if 3#64 ≥ 3#64 then openFds[3]?.filter FileDescriptor.used else none) = _
    decide +kernel
  have hfree : openFds.setIfInBounds 3 .free = emptyFds := by decide +kernel
  rw [syscall_run (n := .close) rfl nofun]
  change (sysClose 3#64).run _ = _
  rw [sysClose_run, hused, ← hfree]
  rfl

/-- The program can be started, and again after a fault. -/
theorem idle_starts : ∃ u k u' k', (execElf (some idleFile)).run roomyKernel = some (some u, k) ∧
    isrUserFault k = some { k with cr3 := 0x1000#64 } ∧
      (execElf (some idleFile)).run { k with cr3 := 0x1000#64 } = some (some u', k') := by
  have hfile : idleFile.Accepted ∧ ¬idleFile.TableTooLarge ∧ phdrOffsets idleFile.phoff idleFile.phnum = [] ∧
      idleFile.setupJobs.length = 8 ∧ 66 ≤ roomyKernel.pmm.freeCount := by decide +kernel
  obtain ⟨hacc, htab, hoffs, hjobs, hfree⟩ := hfile
  have huser : idleFile.UserHalf := by
    intro off hoff _
    exact absurd (hoffs ▸ hoff.1) List.not_mem_nil
  have hvalid : Valid (bootLayout 1 roomyKernel) roomyKernel := (run_valid_boot (.nil _) roomy_handover).kernel
  obtain ⟨u, k, hrun⟩ := hvalid.exec_starts hacc htab (by omega)
  obtain ⟨-, -, hroot, hleft⟩ := roomy_valid.exec_leaves huser hrun
  have hg : k.gKernelPml4 = 0x1000#64 := hroot
  have hstep : Run MachineStep ⟨roomyKernel, []⟩ _ _ := .snoc (.snoc (.nil _) (.exec hrun)) (.switch 0x1000#64)
  have hvalid' := (run_valid_boot hstep roomy_handover).kernel
  obtain ⟨u', k', hrun'⟩ := hvalid'.exec_starts (f := idleFile) hacc htab (by
    change _ ≤ k.pmm.freeCount
    omega)
  refine ⟨u, k, u', k', hrun, ?_, hrun'⟩
  rw [isrUserFault, hg, if_neg (by decide)]

/-- The program starts. -/
theorem idle_enters {k k' : Kernel} {table : Vector FileDescriptor maxFds} {u : UserEntry}
    (h : (execElf (some idleFile)).run k = some (some u, k')) :
    SessionStep ⟨idleSys k table, none⟩ (.enter idleName table) ⟨idleSys k' table, some u⟩ := by
  have hkernel : ∀ a, a ≥ kernelVmaBase → idleFs.mem.other a = idleFs.mem.other a := fun _ _ => rfl
  exact .enter (s := idleSys k table) idle_open idle_bytes h hkernel

/-- A program opens a file, closes it and faults, and then the next one starts. -/
def closingEvents : List SessionEvent :=
  [.enter idleName emptyFds, .call 3#64 0x400000#64 0#64 0#64 3#64, .call 4#64 3#64 0#64 0#64 0#64, .finish .fault,
    .enter idleName emptyFds]

theorem clean_starts_closing : (∃ σ, Run SessionStep (Session.boot (idleSys roomyKernel emptyFds)) closingEvents σ) ∧
    ((∀ filename table, .enter filename table ∈ closingEvents → CleanTable table) ↔
      ∀ before filename table, before ++ [.enter filename table] <+: closingEvents → ∀ fd, ¬LeftOpen before fd) := by
  obtain ⟨u, k, u', k', hrun, hfault, hrun'⟩ := idle_starts
  have hfirst := Run.snoc (.nil (Session.boot (idleSys roomyKernel emptyFds))) (idle_enters hrun)
  have hopens := hfirst.snoc (.call (idle_opens k))
  have hcloses := hopens.snoc (.call (idle_closes k))
  have hfaults := hcloses.snoc (.fault (s := idleSys k emptyFds) hfault)
  have hsecond : Run SessionStep (Session.boot (idleSys roomyKernel emptyFds)) closingEvents _ :=
    hfaults.snoc (idle_enters hrun')
  exact ⟨⟨_, hsecond⟩, clean_starts_iff hsecond⟩

/-- A program opens a file and faults, and the next one starts with its descriptor. -/
theorem idle_inherits : (∃ σ, Run SessionStep (Session.boot (idleSys roomyKernel emptyFds))
    [.enter idleName emptyFds, .call 3#64 0x400000#64 0#64 0#64 3#64, .finish .fault, .enter idleName openFds] σ) ∧
      ¬CleanTable openFds := by
  constructor
  · obtain ⟨u, k, u', k', hrun, hfault, hrun'⟩ := idle_starts
    have hfirst := Run.snoc (.nil (Session.boot (idleSys roomyKernel emptyFds))) (idle_enters hrun)
    have hopens := hfirst.snoc (.call (idle_opens k))
    have hfaults := hopens.snoc (.fault (s := idleSys k openFds) hfault)
    exact ⟨_, hfaults.snoc (idle_enters hrun')⟩
  · intro h
    exact absurd (h 3 ⟨some (.slot 0), 0#64, true⟩ (by decide +kernel)) (by decide)

end PpoOS
