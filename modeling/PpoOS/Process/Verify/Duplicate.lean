import PpoOS.Process.Verify.Isolation
import PpoOS.Exec.Verify.Overlap
import PpoOS.Exec.Verify.Frames

/-!
# A fork of a loaded program

The copy loop of `sys_fork` looks at the pages below 2 GiB and rebuilds the flags
from the address: only stack pages are writable.  **`sysFork_duplicates_iff`**:
the child of a program that `exec_elf` has built is a duplicate exactly when every
page of the program's segments lies below 2 GiB and is not writable, stack pages
apart.
-/

namespace PpoOS

open ByteMem FaultState Transition

section

variable {k k₁ k₂ k' : Kernel} {m m' : Machine} {c r : Nat} {va e : U64} {js : List PageJob}
  {T : U64 → Prop} {f : ElfFile} {u : UserEntry} {b : Bool}

/-! ## The parent's tables until the fork -/

/-- Loading into one address space keeps the pages of the others. -/
theorem LoadOutcome.keeps {rs : List Nat} (hl : LoadOutcome (UserOwned rs) T (fun _ => c) k js b k')
    (hr : r ∈ rs) (hne : r ≠ c) (hva : UserHalf va) :
    translate k'.mem r va = translate k.mem r va := by
  have hD : UserOwned rs r (tablePath va) := userOwned_path hr hva
  cases hl with
  | all hl => exact hl.others hD rfl fun j _ hc => hne hc.1
  | stalled hl hs =>
    exact (hs.leaves r _ _ hD rfl).trans (hl.others hD rfl fun j _ hc => hne hc.1)

/-- What the loading code did to the pages of the other address spaces. -/
theorem Valid.setup_keeps (h : Valid userLayout k) (hc : c ∈ k.spaces) (hf : f.UserHalf)
    (hrun : (execSetup f (frameAddr c)).run k = some (b, k')) (hr : r ∈ k.spaces) (hne : r ≠ c)
    (hva : UserHalf va) : translate k'.mem r va = translate k.mem r va := by
  rcases execSetup_spec (T := fun _ => True) (fun _ _ _ _ => trivial)
    (userLayout.pages_setupJobs hf.pages) (h.loading hc) with ⟨-, hrun'⟩ | ⟨-, b', k'', hrun', hout⟩
  · cases hrun.symm.trans hrun'
    rfl
  · cases hrun.symm.trans hrun'
    exact hout.keeps hr hne hva

theorem Valid.exec_keeps {file : Option ElfFile} {o : Option UserEntry} (h : Valid userLayout k)
    (hfile : ∀ f, file = some f → f.UserHalf) (hrun : (execElf file).run k = some (o, k'))
    (hr : r ∈ k.spaces) (hva : UserHalf va) : translate k'.mem r va = translate k.mem r va := by
  have hcreated : ∀ {f : ElfFile} {rs : List U64} {c : Nat} {k₁ k₂ : Kernel} {b : Bool},
      file = some f → Creates (k.log rs) k₁ c → (execSetup f (frameAddr c)).run k₁ = some (b, k₂) →
      translate k₂.mem r va = translate k.mem r va := by
    intro f rs c k₁ k₂ b hfile' hc hsetup
    have hspaces : k₁.spaces = c :: k.spaces := by rw [hc.rest]; rfl
    have h₀ := h.log rs
    have hne : r ≠ c := fun hrc => h₀.create_fresh hc (hrc ▸ hr)
    have hstep := (h₀.create hc).setup_keeps (by rw [hspaces]; exact List.mem_cons_self)
      (hfile f hfile') hsetup (by rw [hspaces]; exact List.mem_cons_of_mem _ hr) hne hva
    exact hstep.trans (h₀.create_keepsSpace hc hr va hva).1
  cases execElf_outcome hrun with
  | rejected _ _ => rfl
  | noFrame _ _ _ => rfl
  | failed _ _ created setup => exact hcreated rfl created setup
  | started _ _ created setup =>
    have hkeep := hcreated rfl created setup
    exact hkeep

/-- The event takes down the program `u`. -/
def Event.Exits (u : UserEntry) : Event → Prop
  | .exit v => v.userPml4 = u.userPml4
  | _ => False

/-- A step that does not take down its program keeps the pages of an address space. -/
theorem MachineStep.keeps {ev : Event} (h : ValidMachine userLayout m) (he : ev.UserHalf)
    (hu : u.userPml4 = frameAddr r) (hr : r ∈ m.kernel.spaces) (hexit : ¬ev.Exits u)
    (hstep : MachineStep m ev m') (hva : UserHalf va) :
    translate m'.kernel.mem r va = translate m.kernel.mem r va ∧ r ∈ m'.kernel.spaces := by
  cases hstep with
  | exec hrun =>
    exact ⟨h.kernel.exec_keeps he hrun hr hva, (h.kernel.exec (Event.UserHalf.allows he) hrun).2.1 r hr⟩
  | exit hv hrun =>
    obtain ⟨r', hr', hvr⟩ := h.running _ hv
    have hne : r ≠ r' := by
      rintro rfl
      exact hexit (hvr.trans hu.symm)
    obtain ⟨k₁, hrun', hf⟩ := execCleanup_spec h.kernel.sound hvr fun va hva => userOwned_path hr' hva
    cases hrun.symm.trans hrun'
    refine ⟨hf.leaves r _ _ (userOwned_path hr hva) rfl hne, ?_⟩
    exact (h.kernel.exit hr' hvr hrun).2 r hr
  | fork hrun =>
    refine ⟨?_, (h.kernel.fork hrun).2 r hr⟩
    rcases h.kernel.fork_keeps hrun with rfl | ⟨c, -, -, hkeep⟩
    · rfl
    · exact (hkeep r hr va hva).1
  | switch pml4 => exact ⟨rfl, hr⟩
  | @store r' va' e' b hr' ht _ =>
    have hleaf := h.kernel.dataLeaf hr' he ht
    have hdata := h.kernel.sound.frames.data _ _ _ _ hleaf
    refine ⟨?_, hr⟩
    have hm : ∀ a, IsTable (UserOwned m.kernel.spaces) m.kernel (frameOf a) →
        (m.kernel.setMem (ByteMem.blit m.kernel.mem (byteAddr e' va') 1 fun _ => b)).mem a =
          m.kernel.mem a :=
      fun a ha => blit_byte_outside _ (fun hc => hdata (hc ▸ ha)) b
    exact h.kernel.sound.forest.lookup_agree hm (userOwned_path hr hva) (Nat.le_refl 3) _

/-- What `exec_elf` has built from the file: each page of the user half is that of the last job for
it, in a frame of its own. -/
def BuiltBy (f : ElfFile) (k : Kernel) (r : Nat) : Prop :=
  ∀ va, UserHalf va →
    (∀ j, lastJob f.setupJobs va = some j → ∃ d, 0 < d ∧ d < 2 ^ 20 ∧
      translate k.mem r va = some (frameAddr d ||| j.flags)) ∧
    (lastJob f.setupJobs va = none → translate k.mem r va = none)

/-- A call that starts a program makes address space `c` and loads the file there. -/
structure ExecBuilt (f : ElfFile) (k : Kernel) (u : UserEntry) (k' : Kernel) (rs : List U64) (c : Nat)
    (k₁ k₂ : Kernel) : Prop where
  created : Creates (k.log rs) k₁ c
  valid : Valid userLayout (k₁.log tableReads)
  mem : c ∈ k₁.spaces
  loaded : LoadOutcome (UserOwned k₁.spaces) (fun _ => True) (fun _ => c) (k₁.log tableReads) f.setupJobs true k₂
  entry : u.userPml4 = frameAddr c
  last : k' = { k₂ with cr3 := frameAddr c }

theorem Valid.exec_built (h : Valid userLayout k) (hf : f.UserHalf)
    (hrun : (execElf (some f)).run k = some (some u, k')) :
    ∃ rs c k₁ k₂, ExecBuilt f k u k' rs c k₁ k₂ := by
  cases execElf_outcome hrun with
  | @started _ rs c k₁ k₂ _ _ created setup =>
    have hspaces : k₁.spaces = c :: k.spaces := by rw [created.rest]; rfl
    have hc : c ∈ k₁.spaces := by rw [hspaces]; exact List.mem_cons_self
    have h₁ := (h.log rs).create created
    rcases execSetup_spec (T := fun _ => True) (fun _ _ _ _ => trivial)
      (userLayout.pages_setupJobs hf.pages) (h₁.loading hc) with ⟨-, hrun'⟩ | ⟨-, b, k₃, hrun', hout⟩
    · cases setup.symm.trans hrun'
    · cases setup.symm.trans hrun'
      exact ⟨rs, c, k₁, k₂, created, h₁.log tableReads, hc, hout, rfl, rfl⟩

theorem Valid.exec_builds (h : Valid userLayout k) (hf : f.UserHalf)
    (hrun : (execElf (some f)).run k = some (some u, k')) :
    ∃ r ∈ k'.spaces, u.userPml4 = frameAddr r ∧ BuiltBy f k' r := by
  obtain ⟨rs, c, k₁, k₂, hb⟩ := h.exec_built hf hrun
  have hforest := hb.valid.sound.forest
  obtain rfl := hb.last
  refine ⟨c, ?_, hb.entry, fun va hva => ?_⟩
  · have hs := (hb.loaded.evolves hforest).spaces
    show c ∈ k₂.spaces
    rw [hs]
    exact hb.mem
  · have hD : UserOwned k₁.spaces c (tablePath va) := userOwned_path hb.mem hva
    obtain ⟨hsome, hnone⟩ := hb.loaded.loaded.page_shows hforest hD
    refine ⟨fun j hj => ?_, fun hl => ?_⟩
    · obtain ⟨d, hd⟩ := hsome j hj
      have hflags := setupJobs_userFlags f j (lastJob_some hj).1
      have hpres : entryPresent (frameAddr d ||| j.flags) = true := by
        rw [entryPresent, BitVec.getLsbD_or, ← entryPresent, ← entryPresent, hflags.present,
          Bool.or_true]
      exact ⟨d, hd.frame.pos, hd.frame.lt, hd.leaf.trans (if_pos hpres)⟩
    · have hempty : translate k₁.mem c va = none := translate_of_none (hb.created.lower_none hva _)
      exact (hnone hl).trans hempty

/-- What was built stays until its program comes back. -/
theorem run_builtBy {es : List Event} (hrun : Run MachineStep m es m')
    (h : ValidMachine userLayout m) (hes : ∀ e ∈ es, e.UserHalf ∧ ¬e.Exits u)
    (hu : u.userPml4 = frameAddr r) (hr : r ∈ m.kernel.spaces) (hb : BuiltBy f m.kernel r) :
    ValidMachine userLayout m' ∧ r ∈ m'.kernel.spaces ∧ BuiltBy f m'.kernel r := by
  induction hrun with
  | nil => exact ⟨h, hr, hb⟩
  | snoc _ last ih =>
    obtain ⟨hv, hr', hb'⟩ := ih fun e he => hes e (by simp [he])
    obtain ⟨he, hexit⟩ := hes _ (List.mem_append.mpr (Or.inr (List.mem_singleton.mpr rfl)))
    refine ⟨last.valid hv (Event.UserHalf.allows he), ?_, fun va hva => ?_⟩
    · have h0 : UserHalf 0#64 := by decide
      exact (last.keeps hv he hu hr' hexit h0).2
    · rw [(last.keeps hv he hu hr' hexit hva).1]
      exact hb' va hva

/-! ## The copy loop -/

/-- The address that the copy loop finds for a page of address space `r`, or 0. -/
def forkSource (m : Mem) (r : Nat) (va : U64) : U64 := leafAddress (translate m r va) va

/-- The job of the copy loop for a page. -/
def forkJobOf (m : Mem) (r : Nat) (va : U64) : Option PageJob :=
  if forkSource m r va = 0#64 then none else some (forkJob va (forkSource m r va) m)

/-- The copy loop can read the page, if there is one. -/
def ForkReads (m : Mem) (r : Nat) (va : U64) : Prop :=
  forkSource m r va = 0#64 ∨ inDirectMap (forkSource m r va) 4096

theorem leafAddress_aligned (hva : va.toNat % 4096 = 0) : leafAddress (some e) va = e &&& pageMask := by
  have hzero : va &&& ~~~pageMask = 0#64 := by
    apply BitVec.eq_of_toNat_eq
    rw [and_not_pageMask_toNat, hva]
    rfl
  rw [leafAddress, hzero, BitVec.or_zero]

/-- Loading into another address space changes nothing that the copy loop reads. -/
theorem Valid.forkJobOf_keep (h : Valid userLayout k) (hr : r ∈ k.spaces) (hva : UserHalf va)
    (hal : va.toNat % 4096 = 0) (he : Evolves (UserOwned k.spaces) k k')
    (ht : translate k'.mem r va = translate k.mem r va) :
    forkJobOf k'.mem r va = forkJobOf k.mem r va := by
  unfold forkJobOf forkSource
  rw [ht]
  cases hl : translate k.mem r va with
  | none => rfl
  | some e =>
    have hleaf := userLeaf hr hva hl
    rw [leafAddress_aligned hal]
    by_cases h0 : e &&& pageMask = 0#64
    · rw [if_pos h0, if_pos h0]
    · have hbytes : ∀ i, k'.mem ((e &&& pageMask) + BitVec.ofNat 64 (i % 4096)) =
          k.mem ((e &&& pageMask) + BitVec.ofNat 64 (i % 4096)) := by
        intro i
        have hframe : frameOf ((e &&& pageMask) + BitVec.ofNat 64 (i % 4096)) = e.toNat / 4096 := by
          have hlt := e.isLt
          rw [frameOf, BitVec.toNat_add, and_pageMask_toNat, BitVec.toNat_ofNat]
          omega
        by_cases heq : e.toNat / 4096 = entryFrame e
        · exact (he.keep_data (h.sound.frames.used _ _ _ _ hleaf)
            (h.sound.frames.data _ _ _ _ hleaf)).2 _ (hframe.trans heq)
        · -- the address has more bits than a frame has
          have hbig : 2 ^ 40 ≤ e.toNat / 4096 := by
            rw [entryFrame_eq] at heq
            omega
          refine he.memory _ ?_ ?_
          · rw [hframe]
            intro hfree
            have := hfree.lt
            omega
          · rw [hframe]
            intro htab
            have hlt := (h.sound.forest.live _ htab).1
            unfold frameBound at hlt
            omega
      rw [if_neg h0, if_neg h0, forkJob, forkJob]
      simp only [hbytes]

/-- **The copy loop**: the jobs of the parent's pages, or it does not come back. -/
theorem forkCopyPages_spec {vas : List U64}
    (hvas : ∀ va ∈ vas, UserHalf va ∧ va.toNat % 4096 = 0) :
    ∀ {k : Kernel}, Valid userLayout k → c ∈ k.spaces → r ∈ k.spaces → r ≠ c →
      (∃ b k', (vas.allM fun va => forkCopyPage (frameAddr r) (frameAddr c) va).run k =
          some (b, k') ∧
        LoadOutcome (UserOwned k.spaces) T (fun _ => c) k (vas.filterMap (forkJobOf k.mem r)) b k' ∧
        (b = true → ∀ va ∈ vas, ForkReads k.mem r va)) ∨
      ((∃ va ∈ vas, ¬ForkReads k.mem r va) ∧
        ∀ k', (vas.allM fun va => forkCopyPage (frameAddr r) (frameAddr c) va).run k ≠
          some (true, k')) := by
  induction vas with
  | nil =>
    intro k h hc hr hne
    exact Or.inl ⟨true, k, rfl, .all .nil, fun _ _ hva => absurd hva List.not_mem_nil⟩
  | cons va vas ih =>
    intro k h hc hr hne
    obtain ⟨hva, hal⟩ := hvas va (by simp)
    have hrest : ∀ va' ∈ vas, UserHalf va' ∧ va'.toNat % 4096 = 0 :=
      fun va' hva' => hvas va' (by simp [hva'])
    have hget := vmmGetPhysicalAddress_spec h.sound.forest (@Layout.owns userLayout _ _ va h.inv hr hva)
    by_cases h0 : forkSource k.mem r va = 0#64
    · have hone : (forkCopyPage (frameAddr r) (frameAddr c) va).run k = some (true, k) := by
        rw [forkCopyPage, run_bind_eq hget]
        exact congrFun (congrArg StateT.run (if_pos h0)) k
      have hjobs : (va :: vas).filterMap (forkJobOf k.mem r) = vas.filterMap (forkJobOf k.mem r) :=
        List.filterMap_cons_none (if_pos h0)
      rw [hjobs, run_allM_true hone]
      rcases ih hrest h hc hr hne with ⟨b, k', hrun, hout, hmap⟩ | ⟨⟨va', hva', hno⟩, hrun⟩
      · refine Or.inl ⟨b, k', hrun, hout, fun hb va' hva' => ?_⟩
        rcases List.mem_cons.mp hva' with rfl | hva'
        · exact Or.inl h0
        · exact hmap hb va' hva'
      · exact Or.inr ⟨⟨va', by simp [hva'], hno⟩, hrun⟩
    · by_cases hmap : inDirectMap (forkSource k.mem r va) 4096
      · have hjobs : (va :: vas).filterMap (forkJobOf k.mem r) =
            forkJob va (forkSource k.mem r va) k.mem :: vas.filterMap (forkJobOf k.mem r) :=
          List.filterMap_cons_some (if_neg h0)
        rw [hjobs]
        have howns := @Layout.owns userLayout _ _ va h.inv hc hva
        rcases forkCopyPage_spec (T := T) h.sound.forest howns hget h0 hmap with ⟨k₁, d, hone, hl⟩ | ⟨k₁, hone, hs⟩
        · have hspaces : k₁.spaces = k.spaces := hl.toEvolves.spaces
          have hloaded : Loaded (UserOwned k.spaces) T (fun _ => c) k
              ([] ++ [forkJob va (forkSource k.mem r va) k.mem]) k₁ := .page .nil hl
          have h₁ : Valid userLayout k₁ := h.loaded hloaded fun j hj => by
            rw [List.mem_singleton.mp hj]
            exact forkJob_userFlags _ _ _
          have hkeep : ∀ va' ∈ vas, forkJobOf k₁.mem r va' = forkJobOf k.mem r va' := by
            intro va' hva'
            obtain ⟨hva', hal'⟩ := hrest va' hva'
            refine h.forkJobOf_keep hr hva' hal' hl.toEvolves ?_
            exact hl.others _ _ _ (userOwned_path hr hva') rfl fun hc => hne hc.1
          have hreads : ∀ va' ∈ vas, ForkReads k₁.mem r va' ↔ ForkReads k.mem r va' := by
            intro va' hva'
            have ht : translate k₁.mem r va' = translate k.mem r va' :=
              hl.others _ _ _ (userOwned_path hr (hrest va' hva').1) rfl fun hc => hne hc.1
            rw [ForkReads, ForkReads, forkSource, forkSource, ht]
          rw [run_allM_true hone]
          rcases ih hrest h₁ (by rw [hspaces]; exact hc) (by rw [hspaces]; exact hr) hne with
            ⟨b, k', hrun, hout, hall⟩ | ⟨⟨va', hva', hno⟩, hrun⟩
          · rw [hspaces, List.filterMap_congr hkeep] at hout
            refine Or.inl ⟨b, k', hrun, LoadOutcome.after hloaded hout, fun hb va' hva' => ?_⟩
            rcases List.mem_cons.mp hva' with rfl | hva'
            · exact Or.inr hmap
            · exact (hreads va' hva').mp (hall hb va' hva')
          · exact Or.inr ⟨⟨va', by simp [hva'], fun hc => hno ((hreads va' hva').mpr hc)⟩, hrun⟩
        · refine Or.inl ⟨false, k₁, run_allM_false hone, ?_, fun hb => Bool.noConfusion hb⟩
          have hnone : Loaded (UserOwned k.spaces) T (fun _ => c) k [] k := .nil
          exact .stalled hnone hs
      · have hno : ¬ForkReads k.mem r va := fun hc => hc.elim h0 hmap
        refine Or.inr ⟨⟨va, by simp, hno⟩, fun k' hrun => ?_⟩
        rcases run_allM_cons_iff.mp hrun with ⟨-, hc⟩ | ⟨k₁, hone, -⟩
        · cases hc
        · obtain ⟨hc, -⟩ := forkCopyPage_faults hget h0 hmap h.sound.forest hone
          cases hc

/-! ## The pages of the child -/

/-- An aligned address of the user half is the base of its page. -/
theorem pageBase_userPage (hva : va.toNat < 2 ^ 47) (hal : va.toNat % 4096 = 0) :
    pageBase (userPage va) = va := by
  apply BitVec.eq_of_toNat_eq
  rw [pageBase_toNat, userPage_toNat]
  omega

theorem pageIdx_pageBase (hva : UserHalf va) : pageIdx (pageBase (userPage va)) = pageIdx va :=
  (pageIdx_eq_iff (userHalf_pageBase _) hva).mpr (userPage_pageBase _)

theorem mem_forkVaddrs (hva : va.toNat < forkUserEnd) (hal : va.toNat % 4096 = 0) :
    va ∈ forkVaddrs := by
  have h4096 : pageSize.toNat = 4096 := by decide
  unfold forkUserEnd at hva
  refine List.mem_map.mpr ⟨va.toNat / 4096, ?_, ?_⟩
  · rw [List.mem_range]
    unfold forkUserEnd
    omega
  · apply BitVec.eq_of_toNat_eq
    rw [BitVec.toNat_mul, BitVec.toNat_ofNat, h4096]
    omega

theorem forkJobOf_va {mem : Mem} {j : PageJob} (h : forkJobOf mem r va = some j) :
    j = forkJob va (forkSource mem r va) mem ∧ forkSource mem r va ≠ 0#64 := by
  unfold forkJobOf at h
  split at h
  · cases h
  · next h0 => exact ⟨(Option.some.inj h).symm, h0⟩

/-- The job for a page is the one of its base, if that is below 2 GiB. -/
theorem lastJob_fork (mem : Mem) (r : Nat) (hva : UserHalf va) :
    lastJob (forkVaddrs.filterMap (forkJobOf mem r)) va =
      if (pageBase (userPage va)).toNat < forkUserEnd then forkJobOf mem r (pageBase (userPage va))
      else none := by
  have hbase : ∀ va' ∈ forkVaddrs, pageIdx va' = pageIdx va → va' = pageBase (userPage va) := by
    intro va' hva' hpage
    obtain ⟨hlt, hal⟩ := forkVaddrs_lt hva'
    unfold forkUserEnd at hlt
    rw [← (pageIdx_eq_iff (forkVaddrs_user va' hva') hva).mp hpage,
      pageBase_userPage (by omega) hal]
  cases hl : lastJob (forkVaddrs.filterMap (forkJobOf mem r)) va with
  | some j =>
    obtain ⟨hj, hpage⟩ := lastJob_some hl
    obtain ⟨va', hva', hjob⟩ := List.mem_filterMap.mp hj
    have hjva : j.va = va' := by
      rw [(forkJobOf_va hjob).1]
      rfl
    have hb := hbase va' hva' (hjva ▸ hpage)
    rw [← hb, if_pos (forkVaddrs_lt hva').1, hjob]
  | none =>
    by_cases hlt : (pageBase (userPage va)).toNat < forkUserEnd
    · rw [if_pos hlt]
      cases hjob : forkJobOf mem r (pageBase (userPage va)) with
      | none => rfl
      | some j =>
        have hal : (pageBase (userPage va)).toNat % 4096 = 0 := by
          rw [pageBase_toNat]
          omega
        have hjva : j.va = pageBase (userPage va) := by
          rw [(forkJobOf_va hjob).1]
          rfl
        have hin := List.mem_filterMap.mpr ⟨_, mem_forkVaddrs hlt hal, hjob⟩
        exact absurd (hjva ▸ pageIdx_pageBase hva) (lastJob_eq_none.mp hl j hin)
    · rw [if_neg hlt]

/-! ## Duplicates -/

/-- Address space `c` has the pages of address space `r`, with the same bytes and the same WRITABLE
and NX bits. -/
structure Duplicates (m : Mem) (r c : Nat) : Prop where
  pages : ∀ va, UserHalf va → ((translate m c va).isSome = true ↔ (translate m r va).isSome = true)
  bytes : ∀ va e e', UserHalf va → translate m r va = some e → translate m c va = some e' →
    m (byteAddr e' va) = m (byteAddr e va)
  flags : ∀ va e e', UserHalf va → translate m r va = some e → translate m c va = some e' →
    entryWritable e' = entryWritable e ∧ entryNx e' = entryNx e

/-- Every page that shows a segment, and not the stack, lies below 2 GiB and is not writable. -/
def ElfFile.Forkable (f : ElfFile) : Prop :=
  ∀ j ∈ f.segmentJobs, lastJob f.setupJobs j.va = some j →
    j.va.toNat < forkUserEnd ∧ entryWritable j.flags = false

theorem lastJob_of_pageIdx {va' : U64} (h : pageIdx va = pageIdx va') :
    lastJob js va = lastJob js va' := by
  rw [lastJob, lastJob, h]

/-- The stack comes last. -/
theorem lastJob_setup_stack {j : PageJob} (hva : va ∈ stackVaddrs)
    (hj : lastJob f.setupJobs va = some j) : j ∈ stackJobs := by
  have hne : lastJob stackJobs va ≠ none := by
    rw [ne_eq, lastJob_eq_none]
    intro hall
    exact hall (stackJob va) (List.mem_map.mpr ⟨va, hva, rfl⟩) rfl
  obtain ⟨j', hl⟩ := Option.ne_none_iff_exists'.mp hne
  rw [ElfFile.setupJobs, lastJob_append, hl, Option.some_or] at hj
  obtain rfl := Option.some.inj hj
  exact (lastJob_some hl).1

theorem segment_not_stack {j : PageJob} (hj : j ∈ f.segmentJobs) : j ∉ stackJobs := by
  intro hs
  obtain ⟨off, -, hj⟩ := List.mem_flatMap.mp hj
  obtain ⟨-, n, -, rfl⟩ := mem_segmentJobs.mp hj
  obtain ⟨va, -, hva⟩ := List.mem_map.mp hs
  exact absurd (congrArg PageJob.content hva) (by simp [stackJob, pageJob, segmentJob])

theorem mem_stackVaddrs_iff (hal : va.toNat % 4096 = 0) :
    va ∈ stackVaddrs ↔ va ≥ userStackBottomVaddr ∧ va ≤ userStackTopVaddr := by
  have hbottom : userStackBottomVaddr.toNat = 0x7FFF8000 := by decide
  have htop : userStackTopVaddr.toNat = 0x7FFFF000 := by decide
  have h4096 : pageSize.toNat = 4096 := by decide
  rw [ge_iff_le, BitVec.le_def, BitVec.le_def, hbottom, htop]
  constructor
  · intro h
    have hlt := stackVaddrs_lt h
    omega
  · rintro ⟨hlo, hhi⟩
    refine List.mem_map.mpr ⟨(va.toNat - 0x7FFF8000) / 4096, ?_, ?_⟩
    · rw [List.mem_range, userStackPages]
      omega
    · apply BitVec.eq_of_toNat_eq
      rw [BitVec.toNat_add, BitVec.toNat_mul, BitVec.toNat_ofNat, hbottom, h4096]
      omega

/-- The low and high flag bits of an entry are those of its flags. -/
theorem entry_flags {d : Nat} (hd : d < 2 ^ 20) (flags : U64) :
    entryWritable (frameAddr d ||| flags) = entryWritable flags ∧
      entryNx (frameAddr d ||| flags) = entryNx flags := by
  have hbit : ∀ i, i < 12 ∨ 40 ≤ i → (frameAddr d).getLsbD i = false := by
    intro i hi
    have ha : (frameAddr d).toNat = d * 2 ^ 12 := by
      have h := frameAddr_toNat (f := d) (by omega)
      omega
    rw [BitVec.getLsbD, ha]
    rcases hi with hi | hi
    · rw [Nat.testBit_mul_two_pow, decide_eq_false (by omega), Bool.false_and]
    · refine Nat.testBit_lt_two_pow (Nat.lt_of_lt_of_le ?_ (Nat.pow_le_pow_right (by omega) hi))
      omega
  rw [entryWritable, entryNx, BitVec.getLsbD_or, BitVec.getLsbD_or, hbit 1 (by omega),
    hbit 63 (by omega), Bool.false_or, Bool.false_or]
  exact ⟨rfl, rfl⟩

theorem forkFlags_bits (va : U64) :
    entryWritable (forkFlags va) = decide (va ≥ userStackBottomVaddr ∧ va ≤ userStackTopVaddr) ∧
      entryNx (forkFlags va) = false := by
  unfold forkFlags
  by_cases h : va ≥ userStackBottomVaddr ∧ va ≤ userStackTopVaddr
  · rw [if_pos h, decide_eq_true h]
    decide
  · rw [if_neg h, decide_eq_false h]
    decide

/-- The flags that the parent's page and the child's page have agree where the loop gets to it. -/
theorem forkable_page (hf : f.Forkable) {j : PageJob} (hva : UserHalf va)
    (hj : lastJob f.setupJobs va = some j) :
    pageBase (userPage va) = j.va ∧ j.va.toNat < forkUserEnd ∧
      entryWritable j.flags =
        decide (j.va ≥ userStackBottomVaddr ∧ j.va ≤ userStackTopVaddr) := by
  obtain ⟨hin, hpage⟩ := lastJob_some hj
  have hself : lastJob f.setupJobs j.va = some j := (lastJob_of_pageIdx hpage).trans hj
  have hbase : j.va.toNat % 4096 = 0 → j.va.toNat < forkUserEnd →
      pageBase (userPage va) = j.va := by
    intro hal hlt
    unfold forkUserEnd at hlt
    have hju : UserHalf j.va := userHalf_of_lt (by omega)
    rw [← (pageIdx_eq_iff hju hva).mp hpage, pageBase_userPage (by omega) hal]
  rcases List.mem_append.mp hin with hseg | hstack
  · obtain ⟨hlt, hw⟩ := hf j hseg hself
    have hal : j.va.toNat % 4096 = 0 := by
      obtain ⟨off, -, hseg⟩ := List.mem_flatMap.mp hseg
      obtain ⟨-, n, -, rfl⟩ := mem_segmentJobs.mp hseg
      show ((_ : U64) &&& pageMask).toNat % 4096 = 0
      rw [and_pageMask_toNat]
      omega
    refine ⟨hbase hal hlt, hlt, hw.trans (decide_eq_false fun hc => ?_).symm⟩
    exact segment_not_stack hseg (lastJob_setup_stack ((mem_stackVaddrs_iff hal).mpr hc) hself)
  · obtain ⟨va', hva', rfl⟩ := List.mem_map.mp hstack
    obtain ⟨-, hlt, hal⟩ := stackVaddrs_lt hva'
    refine ⟨hbase hal hlt, hlt, ?_⟩
    have hr := (mem_stackVaddrs_iff hal).mp hva'
    show entryWritable (ptePresent ||| pteUser ||| pteWritable) = _
    rw [show (stackJob va').va = va' from rfl, decide_eq_true hr]
    decide

/-- The child after the copy loop, page by page: nothing, or a copy of the parent's page. -/
theorem Loaded.child (h : Valid userLayout k₁) (hc : c ∈ k₁.spaces)
    (hempty : ∀ va, UserHalf va → translate k₁.mem c va = none)
    (hl : Loaded (UserOwned k₁.spaces) T (fun _ => c) k₁
      (forkVaddrs.filterMap (forkJobOf k₁.mem r)) k₂) (hva : UserHalf va) :
    (translate k₂.mem c va = none ∧ ((pageBase (userPage va)).toNat < forkUserEnd →
      forkSource k₁.mem r (pageBase (userPage va)) = 0#64)) ∨
    ((pageBase (userPage va)).toNat < forkUserEnd ∧
      forkSource k₁.mem r (pageBase (userPage va)) ≠ 0#64 ∧
      ∃ d, d < 2 ^ 20 ∧
        translate k₂.mem c va = some (frameAddr d ||| forkFlags (pageBase (userPage va))) ∧
        entryFrame (frameAddr d ||| forkFlags (pageBase (userPage va))) = d ∧
        ∀ i, i < 4096 → k₂.mem (frameAddr d + BitVec.ofNat 64 i) =
          k₁.mem (forkSource k₁.mem r (pageBase (userPage va)) + BitVec.ofNat 64 i)) := by
  have hD : UserOwned k₁.spaces c (tablePath va) := userOwned_path hc hva
  obtain ⟨hsome, hnone⟩ := hl.page_shows h.sound.forest hD
  have hlast := lastJob_fork k₁.mem r hva
  cases hj : lastJob (forkVaddrs.filterMap (forkJobOf k₁.mem r)) va with
  | none =>
    refine Or.inl ⟨(hnone hj).trans (hempty va hva), fun hlt => ?_⟩
    rw [hj, if_pos hlt] at hlast
    by_contra h0
    rw [forkJobOf, if_neg h0] at hlast
    cases hlast
  | some j =>
    by_cases hlt : (pageBase (userPage va)).toNat < forkUserEnd
    · rw [hj, if_pos hlt] at hlast
      obtain ⟨rfl, h0⟩ := forkJobOf_va hlast.symm
      obtain ⟨d, hd⟩ := hsome _ hj
      have hflags := forkJob_userFlags (pageBase (userPage va))
        (forkSource k₁.mem r (pageBase (userPage va))) k₁.mem
      have hpres : entryPresent (frameAddr d ||| forkFlags (pageBase (userPage va))) = true := by
        rw [entryPresent, BitVec.getLsbD_or, ← entryPresent, ← entryPresent]
        exact (congrArg (entryPresent (frameAddr d) || ·) hflags.present).trans (Bool.or_true _)
      refine Or.inr ⟨hlt, h0, d, hd.frame.lt, hd.leaf.trans (if_pos hpres),
        entryFrame_or (Nat.lt_trans hd.frame.lt (by omega)) hflags.plain, fun i hi => ?_⟩
      rw [hd.content i hi]
      simp only [PageJob.byte, forkJob, Nat.mod_eq_of_lt hi]
    · rw [hj, if_neg hlt] at hlast
      cases hlast

/-- A successful fork of what `exec_elf` has built. -/
theorem Valid.duplicates_iff (h : Valid userLayout k₁) (hc : c ∈ k₁.spaces) (hr : r ∈ k₁.spaces)
    (hne : r ≠ c) (hempty : ∀ va, UserHalf va → translate k₁.mem c va = none)
    (hf : f.UserHalf) (hb : BuiltBy f k₁ r)
    (hl : Loaded (UserOwned k₁.spaces) T (fun _ => c) k₁
      (forkVaddrs.filterMap (forkJobOf k₁.mem r)) k₂)
    (hreads : ∀ va ∈ forkVaddrs, ForkReads k₁.mem r va) :
    Duplicates k₂.mem r c ↔ f.Forkable := by
  have hkeep : ∀ va, UserHalf va → translate k₂.mem r va = translate k₁.mem r va :=
    fun va hva => hl.others (userOwned_path hr hva) rfl fun j _ hc => hne hc.1
  have hsame := h.keepsSpace (hl.evolves h.sound.forest) hr hkeep
  have hbase : ∀ va, UserHalf va →
      translate k₁.mem r (pageBase (userPage va)) = translate k₁.mem r va :=
    fun va hva => translate_of_pageIdx (pageIdx_pageBase hva) _ _
  constructor
  · intro hdup j hj hself
    have hva : UserHalf j.va := hf.pages j hj
    obtain ⟨d, hd0, hd, hleaf⟩ := (hb j.va hva).1 j hself
    have hparent : translate k₂.mem r j.va = some (frameAddr d ||| j.flags) :=
      (hkeep j.va hva).trans hleaf
    have hmapped := (hdup.pages j.va hva).mpr (by rw [hparent]; rfl)
    rcases Loaded.child h hc hempty hl hva with ⟨hnone, -⟩ | ⟨hlt, -, d', hd', hchild, -, -⟩
    · rw [hnone] at hmapped
      cases hmapped
    · obtain ⟨off, hoff, hseg⟩ := List.mem_flatMap.mp hj
      obtain ⟨htype, n, hn, rfl⟩ := mem_segmentJobs.mp hseg
      have hne0 : (f.phdr off).p_memsz ≠ 0#64 := by
        intro hz
        rw [hz] at hn
        exact absurd hn (Nat.not_lt_zero _)
      have hend := hf off ⟨hoff, htype⟩ hne0
      have hal : (pageJob f off n).va.toNat % 4096 = 0 := by
        rw [pageJob_va hend hn]
        omega
      have heq := pageBase_userPage (pageJob_lt hend hn) hal
      rw [heq] at hlt hchild
      obtain ⟨hw, -⟩ := hdup.flags _ _ _ hva hparent hchild
      rw [(entry_flags hd _).1, (entry_flags hd' _).1, (forkFlags_bits _).1] at hw
      refine ⟨hlt, hw.symm.trans (decide_eq_false fun hrange => ?_)⟩
      exact segment_not_stack hj (lastJob_setup_stack ((mem_stackVaddrs_iff hal).mpr hrange) hself)
  · intro hfork
    -- where the parent has a page, the child has the copy of it
    have hpage : ∀ va e, UserHalf va → translate k₁.mem r va = some e →
        ∃ d, d < 2 ^ 20 ∧ translate k₂.mem c va =
            some (frameAddr d ||| forkFlags (pageBase (userPage va))) ∧
          entryFrame (frameAddr d ||| forkFlags (pageBase (userPage va))) = d ∧
          entryWritable e = entryWritable (forkFlags (pageBase (userPage va))) ∧
          entryNx e = false ∧
          ∀ i, i < 4096 → k₂.mem (frameAddr d + BitVec.ofNat 64 i) =
            k₁.mem (frameAddr (entryFrame e) + BitVec.ofNat 64 i) := by
      intro va e hva he
      cases hj : lastJob f.setupJobs va with
      | none =>
        rw [(hb va hva).2 hj] at he
        cases he
      | some j =>
        obtain ⟨d₀, hd0, hd₀, hleaf⟩ := (hb va hva).1 j hj
        obtain rfl := Option.some.inj (he.symm.trans hleaf)
        obtain ⟨hbva, hlt, hw⟩ := forkable_page hfork hva hj
        have hplain := (setupJobs_userFlags f j (lastJob_some hj).1).plain
        have hframe : entryFrame (frameAddr d₀ ||| j.flags) = d₀ := entryFrame_or (by omega) hplain
        have hal : (pageBase (userPage va)).toNat % 4096 = 0 := by
          rw [pageBase_toNat]
          omega
        have hsrc : forkSource k₁.mem r (pageBase (userPage va)) =
            (frameAddr d₀ ||| j.flags) &&& pageMask := by
          rw [forkSource, hbase va hva, he, leafAddress_aligned hal]
        have h0 : forkSource k₁.mem r (pageBase (userPage va)) ≠ 0#64 := by
          intro hz
          have hn := congrArg BitVec.toNat (hsrc.symm.trans hz)
          rw [and_pageMask_toNat, BitVec.toNat_ofNat] at hn
          rw [entryFrame_eq] at hframe
          omega
        have hmap := (hreads _ (mem_forkVaddrs (hbva ▸ hlt) hal)).resolve_left h0
        rw [inDirectMap, directMapEnd, hsrc, and_pageMask_toNat] at hmap
        have hsmall : (frameAddr d₀ ||| j.flags).toNat < 2 ^ 47 := by omega
        rcases Loaded.child h hc hempty hl hva with ⟨-, hz⟩ | ⟨-, -, d, hd, hchild, hfd, hbytes⟩
        · exact absurd (hz (hbva ▸ hlt)) h0
        · refine ⟨d, hd, hchild, hfd, ?_, ?_, fun i hi => ?_⟩
          · rw [(entry_flags hd₀ _).1, hw, (forkFlags_bits _).1, hbva]
          · exact Nat.testBit_lt_two_pow (Nat.lt_trans hsmall (by omega))
          · rw [hbytes i hi, hsrc, and_pageMask_plain hsmall]
    have hnone : ∀ va, UserHalf va → translate k₁.mem r va = none → translate k₂.mem c va = none := by
      intro va hva he
      rcases Loaded.child h hc hempty hl hva with ⟨hno, -⟩ | ⟨-, h0, -⟩
      · exact hno
      · rw [forkSource, hbase va hva, he] at h0
        exact absurd rfl h0
    refine ⟨fun va hva => ?_, ?_, ?_⟩
    · rw [hkeep va hva]
      cases he : translate k₁.mem r va with
      | none => rw [hnone va hva he]
      | some e =>
        obtain ⟨d, -, hchild, -⟩ := hpage va e hva he
        rw [hchild]
        simp
    · intro va e e' hva he he'
      rw [hkeep va hva] at he
      obtain ⟨d, hd, hchild, hfd, -, -, hbytes⟩ := hpage va e hva he
      obtain rfl := Option.some.inj (he'.symm.trans hchild)
      rw [(hsame va hva).2 e he, byteAddr, byteAddr, hfd]
      exact hbytes _ (Nat.mod_lt _ (by omega))
    · intro va e e' hva he he'
      rw [hkeep va hva] at he
      obtain ⟨d, hd, hchild, -, hw, hnx, -⟩ := hpage va e hva he
      obtain rfl := Option.some.inj (he'.symm.trans hchild)
      rw [(entry_flags hd _).1, (entry_flags hd _).2, hw, hnx, (forkFlags_bits _).2]
      exact ⟨rfl, rfl⟩

/-- The state in which a fork begins to copy. -/
theorem Valid.fork_created (h : Valid userLayout k) (hc : Creates k k₁ c) (hr : r ∈ k.spaces)
    (hb : BuiltBy f k r) :
    Valid userLayout k₁ ∧ c ∈ k₁.spaces ∧ r ∈ k₁.spaces ∧ r ≠ c ∧ BuiltBy f k₁ r ∧
      ∀ va, UserHalf va → translate k₁.mem r va = translate k.mem r va := by
  have hspaces : k₁.spaces = c :: k.spaces := by rw [hc.rest]
  have hkeep := h.create_keepsSpace hc hr
  refine ⟨h.create hc, ?_, ?_, fun hrc => h.create_fresh hc (hrc ▸ hr), fun va hva => ?_,
    fun va hva => (hkeep va hva).1⟩
  · rw [hspaces]
    exact List.mem_cons_self
  · rw [hspaces]
    exact List.mem_cons_of_mem _ hr
  · rw [(hkeep va hva).1]
    exact hb va hva

/-! ## A fork that comes back -/

theorem framesNeeded_le (P : List Idx → Bool) (js : List PageJob) :
    framesNeeded P js ≤ 4 * js.length := by
  have hthree : ∀ j : PageJob, (pageTables j.va).length = 3 := fun _ => rfl
  have hlen : (js.flatMap fun j => pageTables j.va).length = 3 * js.length := by
    simp [List.length_flatMap, hthree, Nat.mul_comm]
  have hcard : (neededTables P js).card ≤ (js.flatMap fun j => pageTables j.va).length :=
    (List.toFinset_card_le _).trans (List.length_filter_le _ _)
  rw [framesNeeded]
  omega

theorem forkVaddrs_nodup : forkVaddrs.Nodup := by
  have h4096 : pageSize.toNat = 4096 := by decide
  refine List.Nodup.map_on (fun i hi j hj hij => ?_) List.nodup_range
  have hi := List.mem_range.mp hi
  have hj := List.mem_range.mp hj
  have hn := congrArg BitVec.toNat hij
  unfold forkUserEnd at hi hj
  rw [BitVec.toNat_mul, BitVec.toNat_mul, BitVec.toNat_ofNat, BitVec.toNat_ofNat, h4096] at hn
  omega

/-- The copy loop has no more jobs than the loader had. -/
theorem fork_jobs_length (hb : BuiltBy f k r) :
    (forkVaddrs.filterMap (forkJobOf k.mem r)).length ≤ f.setupJobs.length := by
  have hmap : (forkVaddrs.filterMap (forkJobOf k.mem r)).map PageJob.va =
      forkVaddrs.filter fun va => decide (forkSource k.mem r va ≠ 0#64) := by
    rw [List.map_filterMap, ← List.filterMap_eq_filter]
    refine List.filterMap_congr fun va _ => ?_
    unfold forkJobOf Option.guard
    by_cases h0 : forkSource k.mem r va = 0#64
    · simp [h0]
    · simp [h0, forkJob]
  have hnodup := forkVaddrs_nodup.filter fun va => decide (forkSource k.mem r va ≠ 0#64)
  rw [← hmap] at hnodup
  have hsub : (forkVaddrs.filterMap (forkJobOf k.mem r)).map PageJob.va ⊆
      f.setupJobs.map fun j => pageBase (userPage j.va) := by
    intro va hva
    rw [hmap, List.mem_filter, decide_eq_true_iff] at hva
    obtain ⟨hin, h0⟩ := hva
    have huser := forkVaddrs_user va hin
    obtain ⟨hlt, hal⟩ := forkVaddrs_lt hin
    unfold forkUserEnd at hlt
    cases hj : lastJob f.setupJobs va with
    | none =>
      rw [forkSource, (hb va huser).2 hj] at h0
      exact absurd rfl h0
    | some j =>
      obtain ⟨hjin, hpage⟩ := lastJob_some hj
      refine List.mem_map.mpr ⟨j, hjin, ?_⟩
      have hroot : UserHalf j.va := by
        rw [UserHalf, rootIdx_of_pageIdx hpage]
        exact huser
      rw [(pageIdx_eq_iff hroot huser).mp hpage, pageBase_userPage (by omega) hal]
  have hle := (hnodup.subperm hsub).length_le
  rwa [List.length_map, List.length_map] at hle

/-- With low flags and enough frames a fork comes back with the next process number. -/
theorem Valid.fork_returns {g : Nat} (h : Valid userLayout k) (hr : r ∈ k.spaces)
    (hb : BuiltBy f k r) (hcur : k.cr3 &&& pageMask = frameAddr r) (hr0 : 0 < r)
    (hg : k.gKernelPml4 = frameAddr g) (hg0 : 0 < g) (hgb : g < frameBound)
    (hlow : ∀ j ∈ f.setupJobs, j.flags.toNat < 4096)
    (hfree : 4 * f.setupJobs.length + 1 ≤ k.pmm.freeCount) :
    ∃ k', sysFork.run k = some (k.nextPid, k') := by
  have hrb := (h.sound.forest.root_live ⟨hr, by simp⟩).1
  have hparent : frameAddr r ≠ 0#64 := by
    unfold frameBound at hrb
    exact frameAddr_ne_zero (by omega) hr0
  have hget : vmmGetCurrentAddressSpace.run k = some (frameAddr r, k) := by
    rw [← hcur]
    rfl
  obtain ⟨p, k₁, hcreate⟩ := vmmCreateAddressSpace_ends hg hg0 hgb
  rw [sysFork, run_bind_eq hget, if_neg hparent, run_bind_eq hcreate]
  rcases vmmCreateAddressSpace_inv hcreate with ⟨-, -, hfull⟩ | ⟨c, rfl, hc⟩
  · have hpos : 0 < k.pmm.freeCount := by omega
    rw [Pmm.freeCount, Finset.card_pos] at hpos
    obtain ⟨x, hx⟩ := hpos
    exact absurd (Pmm.mem_freeFrames.mp hx) (hfull x)
  · have hc52 : c < 2 ^ 52 := Nat.lt_trans hc.free.lt (by omega)
    obtain ⟨h₁, hcin, hr₁, hne, hb₁, -⟩ := h.fork_created hc hr hb
    have hvas : ∀ va ∈ forkVaddrs, UserHalf va ∧ va.toNat % 4096 = 0 :=
      fun va hva => ⟨forkVaddrs_user va hva, (forkVaddrs_lt hva).2⟩
    have hreads : ∀ va ∈ forkVaddrs, ForkReads k₁.mem r va := by
      intro va hva
      unfold ForkReads forkSource
      cases hj : lastJob f.setupJobs va with
      | none =>
        rw [(hb₁ va (forkVaddrs_user va hva)).2 hj]
        exact Or.inl rfl
      | some j =>
        obtain ⟨d, -, hd, hleaf⟩ := (hb₁ va (forkVaddrs_user va hva)).1 j hj
        have hsmall : (frameAddr d ||| j.flags).toNat < 2 ^ 33 := by
          have hda : (frameAddr d).toNat = d * 4096 := frameAddr_toNat (by omega)
          have hj' := hlow j (lastJob_some hj).1
          rw [BitVec.toNat_or]
          exact Nat.or_lt_two_pow (by omega) (by omega)
        rw [hleaf, leafAddress_aligned (forkVaddrs_lt hva).2]
        refine Or.inr ?_
        rw [inDirectMap, directMapEnd, and_pageMask_toNat]
        omega
    rw [if_neg (frameAddr_ne_zero hc52 hc.free.pos)]
    rcases forkCopyPages_spec (T := fun _ => True) hvas h₁ hcin hr₁ hne with
      ⟨b, k₂, hcopy, hout, -⟩ | ⟨⟨va, hva, hno⟩, -⟩
    · have hpres : Present (UserOwned k₁.spaces) (fun _ => c) (fun _ => false) k₁.mem := by
        intro i p hD _
        rw [reaches, hc.lower_none (hD.2 i rfl)]
        rfl
      have hcount := Pmm.freeCount_of_marked hc.free hc.maxBits hc.used
      have hneed := framesNeeded_le (fun _ => false) (forkVaddrs.filterMap (forkJobOf k₁.mem r))
      have hlen := fork_jobs_length hb₁
      obtain rfl : b = true := (hout.reached h₁.sound.forest hpres).1.mpr (by omega)
      have hpid : k₂.nextPid = k.nextPid := by
        rw [(hout.evolves h₁.sound.forest).rest, hc.rest]
      rw [run_bind_eq hcopy, ← hpid]
      exact ⟨_, rfl⟩
    · exact absurd (hreads va hva) hno

/-- What a fork with a positive process number has done to a program that was built. -/
theorem Valid.fork_duplicates {pid : U64} (h : Valid userLayout k) (hr : r ∈ k.spaces)
    (hf : f.UserHalf) (hb : BuiltBy f k r) (hcur : k.cr3 &&& pageMask = frameAddr r)
    (hfork : sysFork.run k = some (pid, k')) (hpid : 0 < pid.toInt) :
    ∃ c, k'.spaces = c :: k.spaces ∧ (Duplicates k'.mem r c ↔ f.Forkable) := by
  have hneg : ¬(0 : Int) < (-1#64 : U64).toInt := by decide
  cases sysFork_outcome hfork with
  | noParent _ => exact absurd hpid hneg
  | noFrame _ => exact absurd hpid hneg
  | failed _ _ _ => exact absurd hpid hneg
  | @forked c k₁ k₂ _ created copy =>
    obtain ⟨h₁, hc, hr₁, hne, hb₁, -⟩ := h.fork_created created hr hb
    rw [hcur] at copy
    have hvas : ∀ va ∈ forkVaddrs, UserHalf va ∧ va.toNat % 4096 = 0 :=
      fun va hva => ⟨forkVaddrs_user va hva, (forkVaddrs_lt hva).2⟩
    rcases forkCopyPages_spec (T := fun _ => True) hvas h₁ hc hr₁ hne with
      ⟨b, k₃, hcopy, hout, hreads⟩ | ⟨-, hno⟩
    · cases copy.symm.trans hcopy
      have hspaces : k₂.spaces = c :: k.spaces := by
        rw [(hout.evolves h₁.sound.forest).spaces, created.rest]
      have hiff := h₁.duplicates_iff hc hr₁ hne (fun va hva => translate_of_none
        (created.lower_none hva _)) hf hb₁ hout.loaded (hreads rfl)
      exact ⟨c, hspaces, hiff⟩
    · exact absurd copy (hno k₂)

/-- What a call that starts a program leaves to a fork of it. -/
theorem Valid.exec_leaves (h : Valid userLayout k)
    (hf : f.UserHalf) (hrun : (execElf (some f)).run k = some (some u, k')) :
    (∃ c, 0 < c ∧ c < 2 ^ 52 ∧ u.userPml4 = frameAddr c ∧ k'.cr3 = frameAddr c) ∧
      k'.nextPid = k.nextPid ∧ k'.gKernelPml4 = k.gKernelPml4 ∧
      k.pmm.freeCount ≤ k'.pmm.freeCount + 4 * f.setupJobs.length + 1 := by
  obtain ⟨rs, c, k₁, k₂, hb⟩ := h.exec_built hf hrun
  have hforest := hb.valid.sound.forest
  have created := hb.created
  obtain rfl := hb.last
  have hrest := (hb.loaded.evolves hforest).rest
  have hpres : Present (UserOwned k₁.spaces) (fun _ => c) (fun _ => false) k₁.mem := by
    intro i p hD _
    rw [reaches, created.lower_none (hD.2 i rfl)]
    rfl
  have hcount := Pmm.freeCount_of_marked created.free created.maxBits created.used
  have hloaded := (hb.loaded.loaded.frames hforest hpres).1
  have hneed := framesNeeded_le (fun _ => false) f.setupJobs
  rw [Kernel.log_pmm] at hcount hloaded
  refine ⟨⟨c, created.free.pos, Nat.lt_trans created.free.lt (by omega), hb.entry, rfl⟩, ?_, ?_, ?_⟩
  · show k₂.nextPid = k.nextPid
    rw [hrest, created.rest]
    rfl
  · show k₂.gKernelPml4 = k.gKernelPml4
    rw [hrest, created.rest]
    rfl
  · show _ ≤ k₂.pmm.freeCount + _ + _
    omega

/-- A program that was started is the one a fork would copy. -/
theorem Valid.exec_current (h : Valid userLayout k) (hf : f.UserHalf)
    (hrun : (execElf (some f)).run k = some (some u, k')) :
    Valid userLayout k' ∧ ∃ r ∈ k'.spaces, 0 < r ∧ frameOf u.userPml4 = r ∧
      u.userPml4 = frameAddr r ∧ k'.cr3 &&& pageMask = frameAddr r ∧ BuiltBy f k' r := by
  obtain ⟨⟨c, hc0, hc52, hu, hcr3⟩, -⟩ := h.exec_leaves hf hrun
  obtain ⟨r, hr, hur, hb⟩ := h.exec_builds hf hrun
  have hexec : Event.UserHalf (.exec (some f)) := fun _ hf' => by
    cases hf'
    exact hf
  have h' := (h.exec (Event.UserHalf.allows hexec) hrun).1
  have hrb := (h'.sound.forest.root_live ⟨hr, by simp⟩).1
  unfold frameBound at hrb
  have hframe : frameOf u.userPml4 = r := by rw [hur, frameOf_frameAddr (by omega)]
  have hrc : r = c := by rw [← hframe, hu, frameOf_frameAddr hc52]
  refine ⟨h', r, hr, hrc ▸ hc0, hframe, hur, ?_, hb⟩
  rw [hcr3, hrc, and_pageMask_eq, frameOf_frameAddr hc52]

/-- With low flags and frames for two such programs, a started program forks. -/
theorem Valid.exec_fork {g : Nat}
    (h : Valid userLayout k) (hf : f.UserHalf)
    (hrun : (execElf (some f)).run k = some (some u, k'))
    (hg : k.gKernelPml4 = frameAddr g) (hg0 : 0 < g) (hgb : g < frameBound)
    (hlow : ∀ j ∈ f.setupJobs, j.flags.toNat < 4096)
    (hfree : 8 * f.setupJobs.length + 2 ≤ k.pmm.freeCount) :
    ∃ k'', sysFork.run k' = some (k.nextPid, k'') := by
  obtain ⟨-, hpid, hkernel, hleft⟩ := h.exec_leaves hf hrun
  obtain ⟨h', r, hr, hr0, -, -, hcur, hb⟩ := h.exec_current hf hrun
  rw [← hpid]
  exact h'.fork_returns hr hb hcur hr0 (hkernel.trans hg) hg0 hgb hlow (by omega)

end

/-- **A fork that returns a positive process number has duplicated the program exactly when each page
that shows a segment, and not the stack, lies below 2 GiB and is not writable.** The program was
built by `exec_elf`; any run in which it does not come back may lie in between. -/
theorem sysFork_duplicates_iff {k₀ k₁ k' : Kernel} {es es' : List Event} {m m' : Machine}
    {f : ElfFile} {u : UserEntry} {pid : U64}
    (hrun : Run MachineStep ⟨k₀, []⟩ es m) (h₀ : k₀.spaces = []) (hes : ∀ e ∈ es, e.UserHalf)
    (hf : f.UserHalf) (hexec : (execElf (some f)).run m.kernel = some (some u, k₁))
    (hrun' : Run MachineStep ⟨k₁, u :: m.running⟩ es' m')
    (hes' : ∀ e ∈ es', e.UserHalf ∧ ¬e.Exits u) (hcur : m'.kernel.cr3 &&& pageMask = u.userPml4)
    (hfork : sysFork.run m'.kernel = some (pid, k')) (hpid : 0 < pid.toInt) :
    ∃ c, k'.spaces = c :: m'.kernel.spaces ∧
      (Duplicates k'.mem (frameOf u.userPml4) c ↔ f.Forkable) := by
  have hm := run_valid_user hrun h₀ hes
  obtain ⟨r, hr, hur, hb⟩ := hm.kernel.exec_builds hf hexec
  have hexec' : Event.UserHalf (.exec (some f)) := fun _ hf' => by cases hf'; exact hf
  have hm₁ := (MachineStep.exec (m := m) hexec).valid hm (Event.UserHalf.allows hexec')
  obtain ⟨hm', hr', hb'⟩ := run_builtBy hrun' hm₁ hes' hur hr hb
  have hroot : frameOf u.userPml4 = r := by
    have hlt := (hm'.kernel.sound.forest.root_live ⟨hr', by simp⟩).1
    unfold frameBound at hlt
    rw [hur, frameOf_frameAddr (by omega)]
  rw [hroot]
  exact hm'.kernel.fork_duplicates hr' hf hb' (hcur.trans hur) hfork hpid

/-! ## A writable segment -/

/-- A machine with 128 free frames. -/
def roomyKernel : Kernel where
  mem := fun _ => 0#8
  pmm :=
    { bitmap := fun _ => 0#8
      lastAllocIndex := 0
      highestAddress := 384 * 4096
      highest_aligned := Nat.dvd_mul_left _ _
      highest_le := by decide
      lastAllocIndex_le := by decide }
  gKernelPml4 := 0x1000#64
  cr3 := 0x1000#64
  nextPid := 1#64
  spaces := []
  reads := []

theorem roomy_exec_checked : ((execElf (some unalignedFile)).run roomyKernel).any
    (fun r => decide (r.1.isSome = true)) = true := by decide +kernel

theorem roomy_exec_runs : ((execElf (some unalignedFile)).run roomyKernel).isSome = true :=
  isSome_of_any roomy_exec_checked

theorem roomy_exec_starts : (((execElf (some unalignedFile)).run roomyKernel).get
    roomy_exec_runs).1.isSome = true := get_of_any roomy_exec_checked roomy_exec_runs

/-- The program of `unalignedFile`, whose segment is writable and executable, on `roomyKernel`. -/
def roomyEntry : UserEntry :=
  (((execElf (some unalignedFile)).run roomyKernel).get roomy_exec_runs).1.get roomy_exec_starts

/-- `roomyKernel` with the program running. -/
def roomyStarted : Kernel := (((execElf (some unalignedFile)).run roomyKernel).get roomy_exec_runs).2

theorem roomy_exec :
    (execElf (some unalignedFile)).run roomyKernel = some (some roomyEntry, roomyStarted) := by
  rw [roomyEntry, roomyStarted]
  exact eq_some_get roomy_exec_runs (Option.some_get roomy_exec_starts).symm

theorem unalignedFile_user : unalignedFile.UserHalf := by
  intro off hoff _
  have hend := unalignedFile_endsBelow off hoff
  unfold Phdr.EndsBelow at hend ⊢
  omega

theorem unalignedFile_jobs {j : PageJob} (hj : j ∈ unalignedFile.segmentJobs) :
    j = pageJob unalignedFile 64#64 0 := by
  obtain ⟨off, hoff, hseg⟩ := List.mem_flatMap.mp hj
  obtain ⟨htype, n, hn, hjn⟩ := mem_segmentJobs.mp hseg
  have ho := unalignedFile_loadable ⟨hoff, htype⟩
  rw [ho] at hn hjn
  rw [unalignedFile_header.2.2.2] at hn
  have hn0 : n = 0 := by omega
  rw [← hjn, hn0]

/-- The only page of `unalignedFile`, and how many pages are mapped with the stack. -/
theorem unalignedFile_page : (pageJob unalignedFile 64#64 0).va = 0x400000#64 ∧
    entryWritable (pageJob unalignedFile 64#64 0).flags = true ∧ (pageJob unalignedFile 64#64 0).flags.toNat < 4096 ∧
      unalignedFile.setupJobs.length = 9 := by decide +kernel

theorem unalignedFile_not_forkable : ¬unalignedFile.Forkable := by
  intro hf
  have hin : pageJob unalignedFile 64#64 0 ∈ unalignedFile.segmentJobs := by
    obtain ⟨⟨-, -, hoffs⟩, htype, -, hm⟩ := unalignedFile_header
    refine List.mem_flatMap.mpr ⟨64#64, hoffs ▸ List.mem_singleton.mpr rfl, ?_⟩
    exact mem_segmentJobs.mpr ⟨htype, 0, by omega, rfl⟩
  have hstack : lastJob stackJobs (pageJob unalignedFile 64#64 0).va = none := by
    rw [lastJob_eq_none, unalignedFile_page.1]
    intro j hj hpage
    obtain ⟨va, hva, rfl⟩ := List.mem_map.mp hj
    obtain ⟨hlo, hhi, -⟩ := stackVaddrs_lt hva
    have hn : (pageIdx va).toNat = (pageIdx 0x400000#64).toNat := congrArg BitVec.toNat hpage
    rw [pageIdx, pageIdx, BitVec.extractLsb'_toNat, BitVec.extractLsb'_toNat,
      Nat.shiftRight_eq_div_pow, Nat.shiftRight_eq_div_pow, BitVec.toNat_ofNat] at hn
    omega
  have hlast : lastJob unalignedFile.setupJobs (pageJob unalignedFile 64#64 0).va =
      some (pageJob unalignedFile 64#64 0) := by
    rw [ElfFile.setupJobs, lastJob_append, hstack, Option.none_or]
    have hne : lastJob unalignedFile.segmentJobs (pageJob unalignedFile 64#64 0).va ≠ none := by
      rw [ne_eq, lastJob_eq_none]
      exact fun hall => hall _ hin rfl
    obtain ⟨j, hj⟩ := Option.ne_none_iff_exists'.mp hne
    rw [hj, unalignedFile_jobs (lastJob_some hj).1]
  have hwritable := unalignedFile_page.2.1
  rw [(hf _ hin hlast).2] at hwritable
  cases hwritable

theorem unalignedFile_flags : ∀ j ∈ unalignedFile.setupJobs, j.flags.toNat < 4096 := by
  intro j hj
  rcases List.mem_append.mp hj with hj | hj
  · rw [unalignedFile_jobs hj]
    exact unalignedFile_page.2.2.1
  · obtain ⟨va, -, rfl⟩ := List.mem_map.mp hj
    exact (by decide : (ptePresent ||| pteUser ||| pteWritable).toNat < 4096)

theorem roomy_valid : Valid userLayout roomyKernel :=
  (run_valid_user (Run.nil (⟨roomyKernel, []⟩ : Machine)) rfl (by simp)).kernel

/-- The program forks, and the child gets the process number 1. -/
theorem roomy_forks : ∃ k', sysFork.run roomyStarted = some (1#64, k') := by
  have hlen := unalignedFile_page.2.2.2
  have hroomy : 74 ≤ roomyKernel.pmm.freeCount := by decide +kernel
  exact roomy_valid.exec_fork (g := 1) unalignedFile_user roomy_exec rfl (by decide) (by decide)
    unalignedFile_flags (by omega)

theorem sysFork_duplicates_iff_roomy : ∃ k' c, sysFork.run roomyStarted = some (1#64, k') ∧
    (Duplicates k'.mem (frameOf roomyEntry.userPml4) c ↔ unalignedFile.Forkable) := by
  obtain ⟨k', hfork⟩ := roomy_forks
  obtain ⟨-, r, -, -, -, hur, hcur, -⟩ := roomy_valid.exec_current unalignedFile_user roomy_exec
  have hexec := roomy_exec
  -- the started kernel is a closed term that must not be computed
  generalize roomyStarted = k₁ at *
  obtain ⟨c, -, hiff⟩ := sysFork_duplicates_iff (Run.nil (⟨roomyKernel, []⟩ : Machine)) rfl (by simp)
    unalignedFile_user hexec (Run.nil (⟨k₁, [roomyEntry]⟩ : Machine)) (by simp)
    (hcur.trans hur.symm) hfork (by decide)
  exact ⟨k', c, hfork, hiff⟩

/-- The program has a writable page, and its child has not. -/
theorem unalignedFile_not_duplicated :
    unalignedFile.UserHalf ∧
    (execElf (some unalignedFile)).run roomyKernel = some (some roomyEntry, roomyStarted) ∧
    ∃ c k', sysFork.run roomyStarted = some (1#64, k') ∧ k'.spaces = c :: roomyStarted.spaces ∧
      ¬Duplicates k'.mem (frameOf roomyEntry.userPml4) c := by
  obtain ⟨k', hfork⟩ := roomy_forks
  obtain ⟨h, r, hr, -, hframe, -, hcur, hb⟩ := roomy_valid.exec_current unalignedFile_user roomy_exec
  obtain ⟨c, hspaces, hiff⟩ := h.fork_duplicates hr unalignedFile_user hb hcur hfork (by decide)
  refine ⟨unalignedFile_user, roomy_exec, c, k', hfork, hspaces, fun hdup => ?_⟩
  rw [hframe] at hdup
  exact unalignedFile_not_forkable (hiff.mp hdup)

end PpoOS
