import PpoOS.Process.Verify.Duplicate

/-!
# Runs with forks

**`entries_distinct`**: every frame that a present entry of a user half refers to, at any level, is
marked used, and no two entries refer to one frame.  **`sysFork_isolated`**: a fork changes no other
address space, and shares no frame with one.

The second one is about runs in which the kernel may see the pages that `exec_elf` has mapped
(`SeenStep`).  It needs that no file has a segment in the slots of the kernel's PML4: a page of zeros
over `pmm_bitmap` makes every frame free, and the next fork may get the parent's own PML4
(`overBitmap_fork`).
-/

namespace PpoOS

open ByteMem FaultState Transition

/-- **In every run from boot over files in the user half, every frame that a present entry of a user
half refers to is marked used, and no two entries refer to one frame.** -/
theorem entries_distinct {k₀ : Kernel} {es : List Event} {m : Machine}
    (hrun : Run MachineStep ⟨k₀, []⟩ es m) (h₀ : k₀.spaces = []) (hes : ∀ e ∈ es, e.UserHalf) :
    (∀ r q i d, Refers m.kernel r q i d → m.kernel.pmm.used d = true) ∧
    ∀ r q i r' q' i' d, Refers m.kernel r q i d → Refers m.kernel r' q' i' d →
      r = r' ∧ q = q' ∧ i = i' := by
  have h := (run_valid_user hrun h₀ hes).kernel
  exact ⟨fun r q i d => h.refers_used, fun r q i r' q' i' d => h.refers_inj⟩

/-! ## A program that forks and ends -/

/-- A machine at boot with room for two programs. -/
def forkingKernel : Kernel := imageKernel roomyKernel.pmm

theorem forking_exec_checked : ((execElf (some unalignedFile)).run forkingKernel).any
    (fun r => decide (r.1.isSome = true ∧ r.2.spaces = [256])) = true := by decide +kernel

theorem forking_exec_runs : ((execElf (some unalignedFile)).run forkingKernel).isSome = true :=
  isSome_of_any forking_exec_checked

theorem forking_exec_starts : (((execElf (some unalignedFile)).run forkingKernel).get
    forking_exec_runs).1.isSome = true := (get_of_any forking_exec_checked forking_exec_runs).1

/-- The program of `unalignedFile` on `forkingKernel`. -/
def forkingEntry : UserEntry :=
  (((execElf (some unalignedFile)).run forkingKernel).get forking_exec_runs).1.get forking_exec_starts

/-- `forkingKernel` with the program running. -/
def forkingStarted : Kernel :=
  (((execElf (some unalignedFile)).run forkingKernel).get forking_exec_runs).2

theorem forkingStarted_spaces : forkingStarted.spaces = [256] := by
  rw [forkingStarted]
  exact (get_of_any forking_exec_checked forking_exec_runs).2

theorem forking_exec :
    (execElf (some unalignedFile)).run forkingKernel = some (some forkingEntry, forkingStarted) := by
  rw [forkingEntry, forkingStarted]
  exact eq_some_get forking_exec_runs (Option.some_get forking_exec_starts).symm

theorem forkingKernel_valid : Valid userLayout forkingKernel :=
  (run_valid_user (Run.nil (⟨forkingKernel, []⟩ : Machine)) rfl (by simp)).kernel

theorem unalignedFile_event : (Event.exec (some unalignedFile)).UserHalf := by
  intro f hf
  obtain rfl := Option.some.inj hf
  exact unalignedFile_user

theorem forking_forks : ∃ k', sysFork.run forkingStarted = some (1#64, k') := by
  have hlen := unalignedFile_page.2.2.2
  have hroomy : 74 ≤ forkingKernel.pmm.freeCount := by decide +kernel
  exact forkingKernel_valid.exec_fork (g := 1) unalignedFile_user forking_exec rfl (by decide) (by decide)
    unalignedFile_flags (by omega)

/-- The fork of the program makes a child. -/
theorem forking_child : ∃ k' c, sysFork.run forkingStarted = some (1#64, k') ∧
    k'.spaces = c :: forkingStarted.spaces := by
  obtain ⟨k', hfork⟩ := forking_forks
  obtain ⟨h, r, hr, -, -, -, hcur, hb⟩ := forkingKernel_valid.exec_current unalignedFile_user forking_exec
  obtain ⟨c, hspaces, -⟩ := h.fork_duplicates hr unalignedFile_user hb hcur hfork (by decide)
  exact ⟨k', c, hfork, hspaces⟩

theorem forking_started : MachineStep ⟨forkingKernel, []⟩ (.exec (some unalignedFile))
    ⟨forkingStarted, [forkingEntry]⟩ := by
  have hstep := MachineStep.exec (m := ⟨forkingKernel, []⟩) forking_exec
  rw [List.append_nil, Option.toList_some] at hstep
  exact hstep

/-- The program forks and comes back. -/
theorem forking_run : ∃ c k, k.spaces = [c, 256] ∧ Run MachineStep ⟨forkingKernel, []⟩
    [.exec (some unalignedFile), .fork, .exit forkingEntry] ⟨k, []⟩ := by
  obtain ⟨k', c, hfork, hspaces⟩ := forking_child
  obtain ⟨h, -, hentry⟩ := forkingKernel_valid.exec unalignedFile_event.allows forking_exec
  have hstarted := forking_started
  rw [forkingStarted_spaces] at hspaces
  -- the started kernel is a closed term that must not be computed
  generalize forkingStarted = k₁ at *
  obtain ⟨r, hr, hu⟩ := hentry forkingEntry (by simp)
  obtain ⟨h', hkeep⟩ := h.fork hfork
  obtain ⟨k'', hexit, hfrees⟩ := execCleanup_spec h'.sound hu
    fun va hva => userOwned_path (hkeep r hr) hva
  refine ⟨c, k'', ?_, ?_⟩
  · have hsame : k''.spaces = k'.spaces := by rw [hfrees.rest]
    rw [hsame, hspaces]
  · have hstep := MachineStep.exit (m := ⟨k', [forkingEntry]⟩) (List.mem_singleton.mpr rfl) hexit
    rw [List.erase_cons_head] at hstep
    exact (((Run.nil _).snoc hstarted).snoc (.fork hfork)).snoc hstep

theorem entries_distinct_forking : ∃ c m, m.kernel.spaces = [c, 256] ∧
    Run MachineStep ⟨forkingKernel, []⟩ [.exec (some unalignedFile), .fork, .exit forkingEntry] m ∧
    (∀ r q i d, Refers m.kernel r q i d → m.kernel.pmm.used d = true) ∧
    ∀ r q i r' q' i' d, Refers m.kernel r q i d → Refers m.kernel r' q' i' d →
      r = r' ∧ q = q' ∧ i = i' := by
  obtain ⟨c, k, hspaces, hrun⟩ := forking_run
  refine ⟨c, ⟨k, []⟩, hspaces, hrun, entries_distinct hrun rfl ?_⟩
  simp [Event.UserHalf, unalignedFile_user]

/-! ## Forking -/

/-- One step.  The kernel may see its bitmap through the pages of a program that `exec_elf` has
mapped: at the latest when the control register is written. -/
inductive SeenStep (b : U64) : Machine → Event → Machine → Prop
  | step {m m' : Machine} {e : Event} (h : MachineStep m e m') : SeenStep b m e m'
  | seen {m m' : Machine} {f : ElfFile} (h : MachineStep m (.exec (some f)) m') :
      SeenStep b m (.exec (some f))
        { m' with kernel := m'.kernel.readAgain b (f.segmentJobs.map PageJob.va) }

/-- No segment of a file that the event starts lies in a slot of the kernel's PML4. -/
def Event.OffKernel (k : Kernel) (e : Event) : Prop :=
  ∀ f, e = .exec (some f) → ∀ j ∈ f.segmentJobs, ¬SharedPage k j.va

theorem Event.UserHalf.offKernel {k : Kernel} {e : Event} (h : e.UserHalf) : e.OffKernel k := by
  rintro f rfl j hj
  exact ((h f rfl).pages j hj).not_shared

section

variable {b : U64} {k₀ : Kernel} {m m' : Machine} {es : List Event} {e : Event}

/-- The kernel sees nothing new through pages that lie in none of its slots. -/
theorem SeenStep.machineStep (hb : BitmapShared b k₀) (he : e.OffKernel k₀) (h : SeenStep b m e m') :
    MachineStep m e m' := by
  cases h with
  | step h => exact h
  | @seen m₁ f h =>
    rw [hb.readAgain fun page hpage => ?_]
    · exact h
    · obtain ⟨j, hj, rfl⟩ := List.mem_map.mp hpage
      exact he f rfl j hj

theorem machineRun_of_seen (hb : BitmapShared b k₀) (hes : ∀ e ∈ es, e.OffKernel k₀)
    (hrun : Run (SeenStep b) m es m') : Run MachineStep m es m' := by
  induction hrun with
  | nil => exact Run.nil _
  | snoc _ last ih =>
    have hlast := last.machineStep hb (hes _ (by simp))
    exact (ih fun e he => hes e (by simp [he])).snoc hlast

end

/-- **A fork, whether it succeeds or fails part way, changes no page of the address spaces there
are and shares no frame with them**, in every run from boot in which no file has a segment in the
slots of the kernel's PML4.  Where all files and writes are in the user half, nothing is asked of the
kernel's tables. -/
theorem sysFork_isolated {b : U64} {k₀ k' : Kernel} {es : List Event} {m : Machine} {pid : U64}
    (hrun : Run (SeenStep b) ⟨k₀, []⟩ es m) (hb : BitmapShared b k₀)
    (h₀ : (k₀.spaces = [] ∧ ∀ e ∈ es, e.UserHalf) ∨
      (∃ g, Handover g k₀) ∧ ∀ e ∈ es, e.OffKernel k₀)
    (hfork : sysFork.run m.kernel = some (pid, k')) : ForkIsolated m.kernel k' := by
  rcases h₀ with ⟨hspaces, hes⟩ | ⟨⟨g, hboot⟩, hes⟩
  · have hmachine := machineRun_of_seen hb (fun e he => (hes e he).offKernel) hrun
    exact (run_valid_user hmachine hspaces hes).kernel.fork_isolated hfork
  · have hmachine := machineRun_of_seen hb hes hrun
    exact (run_valid_boot hmachine hboot).kernel.user.fork_isolated hfork

/-- The fork of the program on `forkingKernel`, which makes a child. -/
theorem sysFork_isolated_forking : ∃ k' c, sysFork.run forkingStarted = some (1#64, k') ∧
    k'.spaces = c :: forkingStarted.spaces ∧ ForkIsolated forkingStarted k' := by
  obtain ⟨k', c, hfork, hspaces⟩ := forking_child
  have hstarted := forking_started
  generalize forkingStarted = k₁ at *
  refine ⟨k', c, hfork, hspaces, ?_⟩
  refine sysFork_isolated (m := ⟨k₁, [forkingEntry]⟩) ((Run.nil _).snoc (.step hstarted))
    (imageKernel_bitmap _)
    (Or.inr ⟨⟨1, imageKernel_handover _⟩, ?_⟩) hfork
  intro e he
  rw [List.mem_singleton.mp he]
  exact unalignedFile_event.offKernel

/-! ### A segment over the bitmap -/

section

variable {k k₁ : Kernel} {c : Nat}

/-- Nothing is mapped below a PML4 whose lower half is empty. -/
theorem translate_empty {va : U64} (hlow : ∀ i : Idx, i.toNat < 256 → tableAt k.mem c i = 0#64)
    (hva : UserHalf va) : translate k.mem c va = none := by
  have hpath : tablePath va = rootIdx va :: [va.extractLsb' 30 9, va.extractLsb' 21 9] := rfl
  refine translate_of_none ?_
  rw [hpath]
  simp [walk, Radix.walk, hlow _ hva]

/-- So the copy loop finds nothing there. -/
theorem forkCopyPages_empty (h : Forest (UserOwned [c]) k)
    (hlow : ∀ i : Idx, i.toNat < 256 → tableAt k.mem c i = 0#64)
    {vas : List U64} (hvas : ∀ va ∈ vas, UserHalf va) (child : U64) :
    (vas.allM fun va => forkCopyPage (frameAddr c) child va).run k = some (true, k) := by
  induction vas with
  | nil => rfl
  | cons va vas ih =>
    have hva := hvas va List.mem_cons_self
    have hown : Owns (UserOwned [c]) k c va c := Owns.self h (userOwned_path List.mem_cons_self hva)
    have hget := vmmGetPhysicalAddress_spec h hown
    rw [translate_empty hlow hva] at hget
    have hone : (forkCopyPage (frameAddr c) child va).run k = some (true, k) := by
      rw [forkCopyPage, run_bind_eq hget]
      rfl
    exact (run_allM_true hone).trans (ih fun va' hva' => hvas va' (List.mem_cons_of_mem va hva'))

/-- A fork that gets the parent's own PML4 empties it, and copies nothing. -/
theorem fork_of_own (hparent : k.cr3 &&& pageMask = frameAddr c) (hc0 : frameAddr c ≠ 0#64)
    (hcreate : vmmCreateAddressSpace.run k = some (frameAddr c, k₁)) (hc : Creates k k₁ c) :
    ∃ k', sysFork.run k = some (k₁.nextPid, k') ∧ ∀ va, UserHalf va → translate k'.mem c va = none := by
  have hforest : Forest (UserOwned [c]) k₁ := forest_cons (forest_nil k) hc
  have hcopy := forkCopyPages_empty hforest hc.lower forkVaddrs_user (frameAddr c)
  have hcur : vmmGetCurrentAddressSpace.run k = some (frameAddr c, k) := by
    rw [← hparent]
    rfl
  refine ⟨{ k₁ with nextPid := k₁.nextPid + 1#64 }, ?_, fun va hva => translate_empty hc.lower hva⟩
  rw [sysFork, run_bind_eq hcur, if_neg hc0, run_bind_eq hcreate, if_neg hc0, run_bind_eq hcopy]
  rfl

end

/-- A machine at boot with as many free frames as a program of one page takes. -/
def tightPmm : Pmm where
  bitmap := fun _ => 0#8
  lastAllocIndex := 0
  highestAddress := 269 * 4096
  highest_aligned := Nat.dvd_mul_left _ _
  highest_le := by decide
  lastAllocIndex_le := by decide

/-- A file with a page of zeros over the start of the bitmap. -/
def overBitmap : ElfFile :=
  fileOf (headerBytes 64 1 ++ segmentBytes 120 0xffffffff80000000 0 0x1000) (by decide +kernel)

/-- The kernel after the program has been started and its page over the bitmap seen. -/
def overBitmapSeen (k : Kernel) : Kernel := k.readAgain imageBase (overBitmap.segmentJobs.map PageJob.va)

theorem overBitmap_checked : ((execElf (some overBitmap)).run (imageKernel tightPmm)).any (fun r => decide
    (r.1.isSome = true ∧ (overBitmapSeen r.2).spaces = [256] ∧
      (overBitmapSeen r.2).cr3 &&& pageMask = frameAddr 256 ∧
      translate (overBitmapSeen r.2).mem 256 userStackTopVaddr ≠ none ∧
      (vmmCreateAddressSpace.run (overBitmapSeen r.2)).any
        (fun q => decide (q.1 = frameAddr 256)) = true)) = true := by
  decide +kernel

/-- A fork of that program is given the program's own PML4: its stack is lost. -/
theorem overBitmap_fork : BitmapShared imageBase (imageKernel tightPmm) ∧ Handover 1 (imageKernel tightPmm) ∧
    ∃ es m pid k', Run (SeenStep imageBase) ⟨imageKernel tightPmm, []⟩ es m ∧
      sysFork.run m.kernel = some (pid, k') ∧ ¬ForkIsolated m.kernel k' := by
  refine ⟨imageKernel_bitmap _, imageKernel_handover _, [.exec (some overBitmap)], ?_⟩
  have hruns := isSome_of_any overBitmap_checked
  obtain ⟨-, hspaces, hcur, hstack, hcreates⟩ := get_of_any overBitmap_checked hruns
  have hexec := eq_some_get hruns rfl
  generalize (((execElf (some overBitmap)).run (imageKernel tightPmm)).get hruns).1 = o at *
  generalize (((execElf (some overBitmap)).run (imageKernel tightPmm)).get hruns).2 = k at *
  have hseen : SeenStep imageBase ⟨imageKernel tightPmm, []⟩ (.exec (some overBitmap))
      ⟨overBitmapSeen k, o.toList ++ []⟩ := .seen (.exec (m := ⟨imageKernel tightPmm, []⟩) hexec)
  have hc0 : frameAddr 256 ≠ 0#64 := by decide
  have hcreate := eq_some_get (isSome_of_any hcreates) (get_of_any hcreates (isSome_of_any hcreates))
  obtain ⟨hzero, -, -⟩ | ⟨c, hframe, hc⟩ := vmmCreateAddressSpace_inv hcreate
  · exact absurd hzero hc0
  · have hc256 : c = 256 := by
      have hlt := hc.free.lt
      have hof := congrArg frameOf hframe
      rw [frameOf_frameAddr (by omega), frameOf_frameAddr (by omega)] at hof
      exact hof.symm
    subst hc256
    obtain ⟨k', hfork, hempty⟩ := fork_of_own hcur hc0 hcreate hc
    refine ⟨_, _, k', (Run.nil _).snoc hseen, hfork, fun hisolated => hstack ?_⟩
    have huser : UserHalf userStackTopVaddr := by decide
    have hkeep := hisolated.1 256 (by rw [hspaces]; exact List.mem_singleton.mpr rfl) _ huser
    exact hkeep.1.symm.trans (hempty _ huser)

end PpoOS
