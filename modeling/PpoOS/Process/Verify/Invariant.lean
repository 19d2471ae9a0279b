import PpoOS.Process.Machine
import PpoOS.Process.Verify.Layout
import PpoOS.Syscall.Verify.Fork

/-!
# The invariant of the machine

`Valid L k` is kept by every step of the machine, for either layout of the
tables (`run_valid`).  At boot it holds of the lower halves whatever the tables
are, as long as only the lower halves are used (`run_valid_user`), and of all of
the address spaces where the kernel's tables are a forest (`run_valid_boot`).
-/

namespace PpoOS

open ByteMem FaultState Transition

section

variable {L : Layout} {T : U64 → Prop} {k k₁ k' : Kernel} {m m' : Machine} {c : Nat}
  {js : List PageJob} {b : Bool}

/-- The invariant of the kernel state. -/
structure Valid (L : Layout) (k : Kernel) : Prop where
  sound : Sound (L.owned k.spaces) k
  tables : TablesUsed (UserOwned k.spaces) k
  inv : L.inv k

theorem Valid.evolves (h : Valid L k) (he : Evolves (L.owned k.spaces) k k')
    (hs : Sound (L.owned k.spaces) k') : Valid L k' := by
  have hspaces : k'.spaces = k.spaces := he.spaces
  refine ⟨by rw [hspaces]; exact hs, ?_, ?_⟩
  · rw [hspaces]
    exact h.tables.evolves (fun _ _ => L.user) he
  · exact L.keep h.inv ⟨he.roots, by rw [he.rest], hspaces⟩

theorem Valid.log (h : Valid L k) (rs : List U64) : Valid L (k.log rs) :=
  h.evolves ((Evolves.refl h.sound.forest).log rs) (h.sound.log rs)

theorem Valid.create (h : Valid L k) (hc : Creates k k' c) : Valid L k' := by
  have hspaces : k'.spaces = c :: k.spaces := by rw [hc.rest]
  obtain ⟨hinv, hempty⟩ := L.create h.inv h.sound.forest hc
  refine ⟨?_, ?_, hinv⟩
  · rw [hspaces]
    exact h.sound.create hc (L.closed _) (fun _ _ => L.cons) hempty
  · rw [hspaces]
    have huser : Forest (UserOwned k.spaces) k :=
      (h.sound.restrict (userOwned_closed _) fun _ _ => L.user).forest
    exact h.tables.create huser hc (fun _ _ => userLayout.cons) fun i q hq => hempty i q (L.user hq)

/-- The new root is none of the old ones. -/
theorem Valid.create_fresh (h : Valid L k) (hc : Creates k k' c) : c ∉ k.spaces := by
  intro hr
  exact (h.sound.forest.root_live (L.user ⟨hr, by simp⟩)).2 hc.free

theorem Valid.frees (h : Valid L k) (hf : Frees (L.owned k.spaces) c k k') : Valid L k' := by
  have hspaces : k'.spaces = k.spaces := by rw [hf.rest]
  refine ⟨by rw [hspaces]; exact hf.sound, ?_, ?_⟩
  · rw [hspaces]
    exact h.tables.frees (fun _ _ => L.user) hf
  · exact L.keep h.inv ⟨hf.roots, by rw [hf.rest], hspaces⟩

/-- Whatever the layout, the invariant holds of the lower halves. -/
theorem Valid.user (h : Valid L k) : Valid userLayout k :=
  ⟨h.sound.restrict (userOwned_closed _) fun _ _ => L.user, h.tables, trivial⟩

/-- Writing outside the tables. -/
theorem Valid.write (h : Valid L k) {mem : Mem}
    (hm : ∀ b, IsTable (L.owned k.spaces) k (frameOf b) → mem b = k.mem b) :
    Valid L (k.setMem mem) := by
  have hf := h.sound.forest
  refine ⟨h.sound.write hm, ?_, ?_⟩
  · rintro f ⟨r, q, hq, hl, hw⟩
    exact h.tables f ⟨r, q, hq, hl, (hf.walk_agree hm (L.user hq) hl).symm.trans hw⟩
  · refine L.keep h.inv ⟨?_, rfl, rfl⟩
    exact fun r i hr _ => hf.entries_agree hm r i ⟨r, [], hr, Nat.zero_le _, rfl⟩

theorem Valid.congr (h : Valid L k) (hm : k'.mem = k.mem) (hp : k'.pmm = k.pmm)
    (hs : k'.spaces = k.spaces) (hg : k'.gKernelPml4 = k.gKernelPml4) : Valid L k' := by
  refine ⟨by rw [hs]; exact h.sound.congr hm hp, ?_, ?_⟩
  · intro f hf
    rw [hs, IsTable, hm] at hf
    rw [hp]
    exact h.tables f hf
  · refine L.keep h.inv ⟨?_, hg, hs⟩
    intro r i _ _
    rw [hm]

/-- A root of a present address space can be loaded. -/
theorem Valid.loading (h : Valid L k) (hc : c ∈ k.spaces) :
    Loading (L.owned k.spaces) (L.own c) L.pages c k :=
  ⟨h.sound.forest, fun _ hva => L.owns h.inv hc hva⟩

theorem Valid.loaded (h : Valid L k) (hl : Loaded (L.owned k.spaces) T (L.own c) k js k')
    (hjs : ∀ j ∈ js, j.UserFlags) : Valid L k' :=
  h.evolves (hl.evolves h.sound.forest) (h.sound.loaded hl fun j hj => (hjs j hj).plain)

theorem Valid.stalls (h : Valid L k) (hs : Stalls (L.owned k.spaces) k k') : Valid L k' :=
  h.evolves hs.toEvolves (h.sound.stalls hs)

theorem Valid.outcome (h : Valid L k) (hl : LoadOutcome (L.owned k.spaces) T (L.own c) k js b k')
    (hjs : ∀ j ∈ js, j.UserFlags) : Valid L k' :=
  h.evolves (hl.evolves h.sound.forest) (h.sound.outcome hl fun j hj => (hjs j hj).plain)

/-! ## The calls -/

theorem stackJob_userFlags (va : U64) : (stackJob va).UserFlags :=
  userFlags_of_eq ⟨true, false, by simp [stackJob, userFlags]⟩

theorem setupJobs_userFlags (f : ElfFile) : ∀ j ∈ f.setupJobs, j.UserFlags := by
  intro j hj
  rcases List.mem_append.mp hj with hj | hj
  · obtain ⟨off, -, hj⟩ := List.mem_flatMap.mp hj
    exact (segmentJobs_userFlags hj).1
  · obtain ⟨va, -, rfl⟩ := List.mem_map.mp hj
    exact stackJob_userFlags va

theorem stackJobs_user : ∀ j ∈ stackJobs, UserHalf j.va := by
  intro j hj
  obtain ⟨va, hva, rfl⟩ := List.mem_map.mp hj
  exact stackVaddrs_user va hva

/-- The layout covers all that the event touches. -/
def Layout.Allows (L : Layout) : Event → Prop
  | .exec file => ∀ f, file = some f → ∀ j ∈ f.segmentJobs, L.pages j.va
  | .store _ va _ => L.pages va
  | _ => True

theorem Layout.pages_setupJobs (L : Layout) {f : ElfFile} (h : ∀ j ∈ f.segmentJobs, L.pages j.va) :
    ∀ j ∈ f.setupJobs, L.pages j.va := by
  intro j hj
  rcases List.mem_append.mp hj with hj | hj
  · exact h j hj
  · exact L.userPages _ (stackJobs_user j hj)

/-- What the loading code of `exec_elf` leaves. -/
theorem Valid.setup {f : ElfFile} (h : Valid L k) (hc : c ∈ k.spaces)
    (hf : ∀ j ∈ f.segmentJobs, L.pages j.va)
    (hrun : (execSetup f (frameAddr c)).run k = some (b, k')) :
    Valid L k' ∧ k'.spaces = k.spaces := by
  rcases execSetup_spec (T := fun _ => True) (fun _ _ _ _ => trivial) (L.pages_setupJobs hf)
    (h.loading hc) with ⟨-, hrun'⟩ | ⟨-, b', k'', hrun', hout⟩
  · cases hrun.symm.trans hrun'
    exact ⟨h.log tableReads, rfl⟩
  · cases hrun.symm.trans hrun'
    have h₁ := h.log tableReads
    exact ⟨h₁.outcome hout (setupJobs_userFlags f), (hout.evolves h₁.sound.forest).spaces⟩

theorem Valid.exec {file : Option ElfFile} {o : Option UserEntry} (h : Valid L k)
    (hfile : L.Allows (.exec file)) (hrun : (execElf file).run k = some (o, k')) :
    Valid L k' ∧ (∀ r ∈ k.spaces, r ∈ k'.spaces) ∧
      ∀ u ∈ o.toList, ∃ r ∈ k'.spaces, u.userPml4 = frameAddr r := by
  have hcreated : ∀ {f : ElfFile} {rs : List U64} {c : Nat} {k₁ k₂ : Kernel} {b : Bool},
      file = some f → Creates (k.log rs) k₁ c → (execSetup f (frameAddr c)).run k₁ = some (b, k₂) →
      Valid L k₂ ∧ k₂.spaces = c :: k.spaces := by
    intro f rs c k₁ k₂ b hfile' hc hsetup
    have hspaces : k₁.spaces = c :: k.spaces := by rw [hc.rest]; rfl
    have hmem : c ∈ k₁.spaces := by rw [hspaces]; exact List.mem_cons_self
    have h₂ := ((h.log rs).create hc).setup hmem (hfile f hfile') hsetup
    exact ⟨h₂.1, h₂.2.trans hspaces⟩
  cases execElf_outcome hrun with
  | rejected _ _ => exact ⟨h.log _, fun _ hr => hr, fun u hu => by cases hu⟩
  | noFrame _ _ _ => exact ⟨h.log _, fun _ hr => hr, fun u hu => by cases hu⟩
  | failed _ _ created setup =>
    obtain ⟨hv, hspaces⟩ := hcreated rfl created setup
    refine ⟨hv, fun r hr => ?_, fun u hu => by cases hu⟩
    rw [hspaces]
    exact List.mem_cons_of_mem _ hr
  | @started f rs c k₁ k₂ _ _ created setup =>
    obtain ⟨hv, hspaces⟩ := hcreated rfl created setup
    refine ⟨hv.congr rfl rfl rfl rfl, fun r hr => ?_, fun u hu => ?_⟩
    · show r ∈ k₂.spaces
      rw [hspaces]
      exact List.mem_cons_of_mem _ hr
    · rw [List.mem_singleton.mp hu]
      refine ⟨c, ?_, rfl⟩
      show c ∈ k₂.spaces
      rw [hspaces]
      exact List.mem_cons_self

/-- What a fork has done to the state `k₁` in which its address space `c` was created. -/
theorem Valid.copy {parent : U64} (h : Valid L k) (hc : c ∈ k.spaces)
    (hrun : (forkVaddrs.allM fun va => forkCopyPage parent (frameAddr c) va).run k = some (b, k')) :
    Valid L k' ∧ ∃ js k₁, (∀ j ∈ js, j.UserFlags) ∧
      Loaded (L.owned k.spaces) (fun _ => True) (L.own c) k js k₁ ∧
      Stalls (L.owned k.spaces) k₁ k' := by
  have hload : Loading (L.owned k.spaces) (L.own c) UserHalf c k :=
    ⟨h.sound.forest, fun va hva => L.owns h.inv hc (L.userPages va hva)⟩
  obtain ⟨js, k₁, hjs, hl, hs⟩ := forkCopyPages_inv (T := fun _ => True) forkVaddrs_user hload hrun
  have hspaces := (hl.evolves h.sound.forest).spaces
  have h₁ := h.loaded hl hjs
  refine ⟨h₁.stalls (by rw [hspaces]; exact hs), js, k₁, hjs, hl, hs⟩

theorem Valid.fork {pid : U64} (h : Valid L k) (hrun : sysFork.run k = some (pid, k')) :
    Valid L k' ∧ ∀ r ∈ k.spaces, r ∈ k'.spaces := by
  have hcreated : ∀ {c : Nat} {k₁ k₂ : Kernel} {b : Bool} {parent : U64}, Creates k k₁ c →
      (forkVaddrs.allM fun va => forkCopyPage parent (frameAddr c) va).run k₁ = some (b, k₂) →
      Valid L k₂ ∧ ∀ r ∈ k.spaces, r ∈ k₂.spaces := by
    intro c k₁ k₂ b parent hc hcopy
    have hspaces : k₁.spaces = c :: k.spaces := by rw [hc.rest]
    have hmem : c ∈ k₁.spaces := by rw [hspaces]; exact List.mem_cons_self
    have h₁ := h.create hc
    obtain ⟨hv, js, k₃, -, hl, hs⟩ := h₁.copy hmem hcopy
    refine ⟨hv, fun r hr => ?_⟩
    rw [hs.toEvolves.spaces, (hl.evolves h₁.sound.forest).spaces, hspaces]
    exact List.mem_cons_of_mem _ hr
  cases sysFork_outcome hrun with
  | noParent _ => exact ⟨h, fun _ hr => hr⟩
  | noFrame _ => exact ⟨h, fun _ hr => hr⟩
  | failed _ created copy => exact hcreated created copy
  | forked _ created copy =>
    obtain ⟨hv, hspaces⟩ := hcreated created copy
    exact ⟨hv.congr rfl rfl rfl rfl, hspaces⟩

theorem Valid.exit {u : UserEntry} {r : Nat} (h : Valid L k) (hr : r ∈ k.spaces)
    (hu : u.userPml4 = frameAddr r) (hrun : (execCleanup u).run k = some ((), k')) :
    Valid L k' ∧ ∀ r ∈ k.spaces, r ∈ k'.spaces := by
  obtain ⟨k₁, hrun', hf⟩ := execCleanup_spec h.sound hu
    fun va hva => L.user (userOwned_path hr hva)
  cases hrun.symm.trans hrun'
  have h₁ : Valid L { k with cr3 := u.kernelPml4 } := h.congr rfl rfl rfl rfl
  refine ⟨h₁.frees hf, fun r' hr' => ?_⟩
  rw [hf.rest]
  exact hr'

/-! ## Runs -/

/-- The invariant of the machine. -/
structure ValidMachine (L : Layout) (m : Machine) : Prop where
  kernel : Valid L m.kernel
  running : ∀ u ∈ m.running, ∃ r ∈ m.kernel.spaces, u.userPml4 = frameAddr r

/-- A program's page, found through accessible tables, is a data leaf of the layout. -/
theorem Valid.dataLeaf {r : Nat} {va e : U64} (h : Valid L k) (hr : r ∈ k.spaces) (hva : L.pages va)
    (ht : userTranslate k.mem r va = some e) :
    DataLeaf (L.owned k.spaces) k (L.own r (rootIdx va)) (tablePath va) (leafIdx va) e := by
  have ho := L.owns h.inv hr hva
  obtain ⟨hlookup, huser⟩ : translate k.mem r va = some e ∧ entryUser e = true :=
    userTranslate_some ht
  rw [ho.translate_eq] at hlookup
  exact ⟨ho.path, rfl, hlookup, Or.inr huser⟩

/-- A program's write stays in the frame that its page is mapped to. -/
theorem blit_byte_outside (mem : Mem) {e va a : U64} (ha : frameOf a ≠ entryFrame e) (b : U8) :
    blit mem (byteAddr e va) 1 (fun _ => b) a = mem a := by
  have hf : entryFrame e < 2 ^ 40 := (e.extractLsb' 12 40).isLt
  have hbase : (byteAddr e va).toNat = entryFrame e * 4096 + va.toNat % 4096 := by
    rw [byteAddr, BitVec.toNat_add, frameAddr_toNat (by omega), BitVec.toNat_ofNat]
    omega
  have hd := BitVec.toNat_sub a (byteAddr e va)
  have hlt := a.isLt
  unfold frameOf at ha
  exact blit_outside (by omega)

theorem MachineStep.valid {e : Event} (h : ValidMachine L m) (he : L.Allows e)
    (hstep : MachineStep m e m') : ValidMachine L m' := by
  cases hstep with
  | exec hrun =>
    obtain ⟨hv, hspaces, hnew⟩ := h.kernel.exec he hrun
    refine ⟨hv, fun u hu => ?_⟩
    rcases List.mem_append.mp hu with hu | hu
    · exact hnew u hu
    · obtain ⟨r, hr, hur⟩ := h.running u hu
      exact ⟨r, hspaces r hr, hur⟩
  | exit hu hrun =>
    obtain ⟨r, hr, hur⟩ := h.running _ hu
    obtain ⟨hv, hspaces⟩ := h.kernel.exit hr hur hrun
    refine ⟨hv, fun v hv => ?_⟩
    obtain ⟨r', hr', hvr⟩ := h.running v (List.mem_of_mem_erase hv)
    exact ⟨r', hspaces r' hr', hvr⟩
  | fork hrun =>
    obtain ⟨hv, hspaces⟩ := h.kernel.fork hrun
    refine ⟨hv, fun u hu => ?_⟩
    obtain ⟨r, hr, hur⟩ := h.running u hu
    exact ⟨r, hspaces r hr, hur⟩
  | switch pml4 => exact ⟨h.kernel.congr rfl rfl rfl rfl, h.running⟩
  | @store _ _ _ b hr ht _ =>
    have hleaf := h.kernel.dataLeaf hr he ht
    have hdata := h.kernel.sound.frames.data _ _ _ _ hleaf
    refine ⟨h.kernel.write fun a ha => ?_, h.running⟩
    exact blit_byte_outside _ (fun hc => hdata (hc ▸ ha)) b

theorem run_valid {es : List Event} (hrun : Run MachineStep m es m') (he : ∀ e ∈ es, L.Allows e)
    (h : ValidMachine L m) : ValidMachine L m' := by
  induction hrun with
  | nil => exact h
  | snoc _ last ih =>
    exact last.valid (ih fun e' he' => he e' (by simp [he'])) (he _ (by simp))

/-! ## From boot -/

/-- The segments of the file that are not empty end in the lower half of the address space. -/
def ElfFile.UserHalf (f : ElfFile) : Prop :=
  ∀ off, f.Loadable off → (f.phdr off).p_memsz ≠ 0#64 → (f.phdr off).EndsBelow (2 ^ 47)

/-- The event concerns the lower half of the address space only. -/
def Event.UserHalf : Event → Prop
  | .exec file => ∀ f, file = some f → f.UserHalf
  | .store _ va _ => PpoOS.UserHalf va
  | _ => True

theorem ElfFile.UserHalf.pages {f : ElfFile} (h : f.UserHalf) :
    ∀ j ∈ f.segmentJobs, PpoOS.UserHalf j.va := by
  intro j hj
  obtain ⟨off, hoff, hj⟩ := List.mem_flatMap.mp hj
  obtain ⟨htype, n, hn, rfl⟩ := mem_segmentJobs.mp hj
  have hne : (f.phdr off).p_memsz ≠ 0#64 := by
    intro hz
    rw [hz] at hn
    exact absurd hn (Nat.not_lt_zero _)
  exact userHalf_of_lt (pageJob_lt (h off ⟨hoff, htype⟩ hne) hn)

theorem Event.UserHalf.allows {e : Event} (h : e.UserHalf) : userLayout.Allows e := by
  cases e with
  | exec file => exact fun f hf => (h f hf).pages
  | store r va b => exact h
  | exit u => trivial
  | fork => trivial
  | switch pml4 => trivial

theorem bootLayout_allows (g : Nat) (k : Kernel) (e : Event) : (bootLayout g k).Allows e := by
  cases e with
  | exec file => exact fun _ _ _ _ => trivial
  | store r va b => trivial
  | exit u => trivial
  | fork => trivial
  | switch pml4 => trivial

variable {k₀ : Kernel} {es : List Event}

/-- At boot there are no address spaces, and nothing is known of the tables. -/
theorem run_valid_user (hrun : Run MachineStep ⟨k₀, []⟩ es m) (h₀ : k₀.spaces = [])
    (hes : ∀ e ∈ es, e.UserHalf) : ValidMachine userLayout m := by
  refine run_valid hrun (fun e he => (hes e he).allows) ⟨⟨?_, ?_, trivial⟩, ?_⟩
  · show Sound (UserOwned k₀.spaces) k₀
    rw [h₀]
    exact ⟨forest_nil k₀, ⟨fun _ _ _ _ hl => absurd hl.owned.1 List.not_mem_nil,
      fun _ _ _ _ hl => absurd hl.owned.1 List.not_mem_nil,
      fun _ _ _ _ _ _ _ _ hl => absurd hl.owned.1 List.not_mem_nil⟩⟩
  · show TablesUsed (UserOwned k₀.spaces) k₀
    rw [h₀]
    rintro f ⟨r, q, hq, -⟩
    exact absurd hq.1 List.not_mem_nil
  · exact fun u hu => absurd hu List.not_mem_nil

theorem run_valid_boot {g : Nat} (hrun : Run MachineStep ⟨k₀, []⟩ es m) (h₀ : Handover g k₀) :
    ValidMachine (bootLayout g k₀) m := by
  refine run_valid hrun (fun e _ => bootLayout_allows g k₀ e) ⟨⟨h₀.sound, ?_, h₀.shared⟩, ?_⟩
  · show TablesUsed (UserOwned k₀.spaces) k₀
    rw [h₀.spaces]
    rintro f ⟨r, q, hq, -⟩
    exact absurd hq.1 List.not_mem_nil
  · exact fun u hu => absurd hu List.not_mem_nil

end

end PpoOS
