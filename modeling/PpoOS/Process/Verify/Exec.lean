import PpoOS.Process.Verify.Invariant
import PpoOS.Exec.Verify.Frames

/-!
# Whole calls of `exec_elf`

In every state reached from boot, `exec_elf` comes to an end (`Valid.exec_ends`),
and does of the jobs of its file those that the free frames reach
(`Valid.exec_loads`).  Which frames that takes depends on the file and on the
kernel's tables alone: the tables below the shared slots are there already
(`kernelReaches`), all others have to be made.
-/

namespace PpoOS

open ByteMem FaultState

/-- The upper tables that a new address space already has: those of the kernel half. -/
def kernelReaches (k : Kernel) (q : List Idx) : Bool :=
  (q.head?.any fun i => decide (256 ≤ i.toNat)) && reaches k.mem (frameOf k.gKernelPml4) q

/-- `exec_elf` makes an address space and begins to load. -/
def ElfFile.Begins (f : ElfFile) (k : Kernel) : Prop :=
  f.Accepted ∧ ¬f.TableTooLarge ∧ 0 < k.pmm.freeCount

section

variable {k₀ k k₁ k₂ k₃ k' : Kernel} {g c : Nat} {f : ElfFile} {T : U64 → Prop} {va : U64}
  {o : Option UserEntry} {rs : List U64} {done : List PageJob}

theorem freeCount_pos {p : Pmm} : 0 < p.freeCount ↔ ∃ g, p.Free g := by
  rw [Pmm.freeCount, Finset.card_pos]
  exact exists_congr fun _ => Pmm.mem_freeFrames

/-! ## The kernel's root -/

theorem Valid.gKernelPml4 (h : Valid (bootLayout g k₀) k) :
    k.gKernelPml4 = frameAddr g ∧ 0 < g ∧ g < frameBound ∧ frameOf k.gKernelPml4 = g := by
  have hinv : SharedSlots g (sharedSlots k₀ g) k := h.inv
  have hroot : FullOwned g (sharedSlots k₀ g) k.spaces g [] := Or.inl ⟨rfl, by simp⟩
  have hgb := (h.sound.forest.root_live hroot).1
  refine ⟨hinv.root, hinv.pos, hgb, ?_⟩
  unfold frameBound at hgb
  rw [hinv.root, frameOf_frameAddr (by omega)]

/-- A new address space has the tables of the shared slots and no others. -/
theorem Valid.create_present (h : Valid (bootLayout g k₀) k) (hc : Creates k k₁ c) :
    Present ((bootLayout g k₀).owned k₁.spaces) ((bootLayout g k₀).own c) (kernelReaches k)
      k₁.mem := by
  have hinv : SharedSlots g (sharedSlots k₀ g) k := h.inv
  have hspaces : k₁.spaces = c :: k.spaces := by rw [hc.rest]
  obtain ⟨-, hempty⟩ := (bootLayout g k₀).create h.inv h.sound.forest hc
  have hg := h.gKernelPml4.2.2.2
  intro i p hD hl
  rw [hspaces] at hD
  unfold kernelReaches
  rw [hg, List.head?_cons, Option.any_some]
  by_cases hs : sharedSlots k₀ g i = true
  · have hown : (bootLayout g k₀).own c i = g := if_pos hs
    have hDg : FullOwned g (sharedSlots k₀ g) k.spaces g (i :: p) := by
      refine Or.inl ⟨rfl, fun j hj => ?_⟩
      cases hj
      exact hs
    have hwalk := h.sound.forest.walk_agree (hc.tables h.sound.forest) hDg
      (by rw [List.length_cons]; omega)
    rw [hown, decide_eq_true (hinv.upper i hs), Bool.true_and, reaches, reaches, hwalk]
  · have hown : (bootLayout g k₀).own c i = c := if_neg hs
    rw [hown] at hD ⊢
    have hchild : entryChild (tableAt k₁.mem c i) = none := entryChild_eq_none.mpr (hempty i p hD)
    have hnone : reaches k₁.mem c (i :: p) = false := by
      simp [reaches, walk, Radix.walk, hchild]
    rw [hnone]
    by_cases hi : 256 ≤ i.toNat
    · have hgi : entryChild (tableAt k.mem g i) = none := by
        rw [entryChild_eq_none, hinv.present i hi]
        simpa using hs
      have hnone' : reaches k.mem g (i :: p) = false := by
        simp [reaches, walk, Radix.walk, hgi]
      rw [hnone', Bool.and_false]
    · rw [decide_eq_false hi, Bool.false_and]

/-! ## The end of a call -/

/-- A new address space can be loaded, wherever the segments lie. -/
theorem Valid.create_loading (h : Valid (bootLayout g k₀) k) (hc : Creates k k₁ c) :
    Loading ((bootLayout g k₀).owned k₁.spaces) ((bootLayout g k₀).own c) (fun _ => True) c k₁ := by
  refine (h.create hc).loading ?_
  rw [hc.rest]
  exact List.mem_cons_self

/-- **`exec_elf` comes to an end.** -/
theorem Valid.exec_ends (h : Valid (bootLayout g k₀) k) (file : Option ElfFile) :
    ∃ o k', (execElf file).run k = some (o, k') := by
  cases file with
  | none => exact ⟨none, k, rfl⟩
  | some f =>
    unfold execElf
    dsimp only
    by_cases hs : f.size < elfHeaderSize
    · rw [if_pos hs]
      exact ⟨none, k, rfl⟩
    · obtain ⟨rs, hcheck, -⟩ := elfHeaderOk_run f k
      rw [if_neg hs, run_bind_eq hcheck]
      by_cases hok : f.HeaderOk
      · have h₁ := (h.log rs).log (readIndices 24#64 8)
        obtain ⟨hroot, hpos, hgb, -⟩ := h₁.gKernelPml4
        obtain ⟨p, k₁, hcreate⟩ := vmmCreateAddressSpace_ends hroot hpos hgb
        rw [decide_eq_true hok, if_pos rfl, run_bind_eq (readU64_run f 24#64 _),
          run_bind_eq hcreate]
        rcases vmmCreateAddressSpace_inv hcreate with ⟨rfl, rfl, -⟩ | ⟨c, rfl, hc⟩
        · exact ⟨none, _, rfl⟩
        · have hc52 : c < 2 ^ 52 := Nat.lt_trans hc.free.lt (by omega)
          rw [if_neg (frameAddr_ne_zero hc52 hc.free.pos)]
          rcases execSetup_spec (T := fun _ => True) (fun _ _ _ _ => trivial) (fun _ _ => trivial)
            (h₁.create_loading hc) with ⟨-, hsetup⟩ | ⟨-, b, k₂, hsetup, -⟩
          · rw [run_bind_eq hsetup]
            exact ⟨none, _, rfl⟩
          · rw [run_bind_eq hsetup]
            cases b with
            | false => exact ⟨none, _, rfl⟩
            | true => exact ⟨_, _, rfl⟩
      · rw [decide_eq_false hok]
        exact ⟨none, _, rfl⟩

/-! ## Calls that load -/

/-- A call of `exec_elf` on `f` that makes address space `c` and loads: it did the jobs `done` and
may have linked some tables for the next one. -/
structure ExecLoads (L : Layout) (T : U64 → Prop) (f : ElfFile) (k : Kernel)
    (o : Option UserEntry) (k' : Kernel) (rs : List U64) (c : Nat) (k₁ : Kernel)
    (done : List PageJob) (k₂ k₃ : Kernel) : Prop where
  header : ∀ i ∈ rs, i.toNat < 64
  created : Creates (k.log rs) k₁ c
  loaded : Loaded (L.owned k₁.spaces) T (L.own c) (k₁.log tableReads) done k₂
  stalls : Stalls (L.owned k₁.spaces) k₂ k₃
  stallReads : ReadsOf T [] k₂ k₃
  mem : k'.mem = k₃.mem
  reads : k'.reads = k₃.reads
  spaces : k'.spaces = k₃.spaces
  done_iff : ∀ j, j ∈ done ↔ Reached (kernelReaches k) (k.pmm.freeCount - 1) f.setupJobs j
  starts : o.isSome = true ↔ framesNeeded (kernelReaches k) f.setupJobs + 1 ≤ k.pmm.freeCount
  all : o.isSome = true → done = f.setupJobs
  entry : ∀ u, o = some u → u.userPml4 = frameAddr c

theorem Creates.freeCount (hc : Creates k k₁ c) : k₁.pmm.freeCount + 1 = k.pmm.freeCount :=
  Pmm.freeCount_of_marked hc.free hc.maxBits hc.used

/-- **A call that begins to load does the jobs of its file that the free frames reach**, and starts
the program exactly when they reach all of them. -/
theorem Valid.exec_loads (h : Valid (bootLayout g k₀) k) (hf : f.Begins k)
    (hT : ∀ off ∈ phdrOffsets f.phoff f.phnum, ∀ i ∈ phdrIndices off, T i)
    (hrun : (execElf (some f)).run k = some (o, k')) :
    ∃ rs c k₁ done k₂ k₃,
      ExecLoads (bootLayout g k₀) T f k o k' rs c k₁ done k₂ k₃ := by
  obtain ⟨hacc, htab, hfree⟩ := hf
  have hload : ∀ {rs : List U64} {c : Nat} {k₁ k₃ : Kernel} {b : Bool}, Creates (k.log rs) k₁ c →
      (execSetup f (frameAddr c)).run k₁ = some (b, k₃) →
      (b = true ↔ framesNeeded (kernelReaches k) f.setupJobs + 1 ≤ k.pmm.freeCount) ∧
      ∃ done k₂, Loaded ((bootLayout g k₀).owned k₁.spaces) T ((bootLayout g k₀).own c)
          (k₁.log tableReads) done k₂ ∧
        Stalls ((bootLayout g k₀).owned k₁.spaces) k₂ k₃ ∧ ReadsOf T [] k₂ k₃ ∧
        (b = true → done = f.setupJobs) ∧ ∀ j, j ∈ done ↔ Reached (kernelReaches k) (k.pmm.freeCount - 1) f.setupJobs j := by
    intro rs c k₁ k₃ b hc hsetup
    have h₁ := h.log rs
    have hl := h₁.create_loading hc
    have hpres : Present ((bootLayout g k₀).owned k₁.spaces) ((bootLayout g k₀).own c)
        (kernelReaches k) (k₁.log tableReads).mem := h₁.create_present hc
    have hcount := hc.freeCount
    rw [Kernel.log_pmm] at hcount
    rcases execSetup_spec hT (fun _ _ => trivial) hl with ⟨hc', -⟩ | ⟨-, b', k₄, hsetup', hout⟩
    · exact absurd hc' htab
    · cases hsetup.symm.trans hsetup'
      obtain ⟨hb, done, k₂, hdone, hs, hr, hall, hiff⟩ := hout.reached (hl.forest.log tableReads) hpres
      have hn : (k₁.log tableReads).pmm.freeCount = k.pmm.freeCount - 1 := by
        rw [Kernel.log_pmm]
        omega
      rw [hn] at hb hiff
      exact ⟨hb.trans (by omega), done, k₂, hdone, hs, hr, hall, hiff⟩
  cases execElf_outcome hrun with
  | rejected refused _ => exact absurd hacc (refused f rfl)
  | noFrame _ _ full =>
    obtain ⟨x, hx⟩ := freeCount_pos.mp hfree
    exact absurd hx (full x)
  | failed _ hrs created setup =>
    obtain ⟨hb, done, k₂, hdone, hs, hr, -, hiff⟩ := hload created setup
    exact ⟨_, _, _, done, k₂, _, hrs, created, hdone, hs, hr, rfl, rfl, rfl, hiff, by simpa using hb,
      fun hc => (nomatch hc), fun u hu => by cases hu⟩
  | started _ hrs created setup =>
    obtain ⟨hb, done, k₂, hdone, hs, hr, hall, hiff⟩ := hload created setup
    exact ⟨_, _, _, done, k₂, _, hrs, created, hdone, hs, hr, rfl, rfl, rfl, hiff, by simpa using hb,
      fun _ => hall rfl, fun u hu => by cases hu; rfl⟩

theorem tableReads_lt : ∀ i ∈ tableReads, i.toNat < 64 := by
  intro i hi
  rcases List.mem_append.mp hi with hi | hi
  · exact readIndices_lt (by decide) (by omega) i hi
  · exact readIndices_lt (by decide) (by omega) i hi

/-- A call that does not begin to load reads header bytes, and makes an address space at most. -/
theorem Valid.exec_idle (h : Valid (bootLayout g k₀) k) (hf : ¬f.Begins k)
    (hrun : (execElf (some f)).run k = some (o, k')) :
    o = none ∧ (∃ rs, k'.reads = rs ++ k.reads ∧ ∀ i ∈ rs, i.toNat < f.size.toNat) ∧
      ((k'.mem = k.mem ∧ k'.spaces = k.spaces) ∨
        ∃ rs c k₁, Creates (k.log rs) k₁ c ∧ k'.mem = k₁.mem ∧ k'.spaces = k₁.spaces) := by
  have htable : ∀ {rs : List U64} {c : Nat} {k₁ k₃ : Kernel} {b : Bool}, f.Accepted →
      Creates (k.log rs) k₁ c → (execSetup f (frameAddr c)).run k₁ = some (b, k₃) →
      b = false ∧ k₃ = k₁.log tableReads := by
    intro rs c k₁ k₃ b hacc hc hsetup
    rcases execSetup_spec (T := fun _ => True) (fun _ _ _ _ => trivial) (fun _ _ => trivial)
      ((h.log rs).create_loading hc) with ⟨-, hsetup'⟩ | ⟨htab, -⟩
    · cases hsetup.symm.trans hsetup'
      exact ⟨rfl, rfl⟩
    · refine absurd ⟨hacc, htab, ?_⟩ hf
      exact freeCount_pos.mpr ⟨c, hc.free⟩
  cases execElf_outcome hrun with
  | rejected _ reads => exact ⟨rfl, ⟨_, rfl, reads f rfl⟩, Or.inl ⟨rfl, rfl⟩⟩
  | noFrame accepted reads _ =>
    have hs := Accepted.size_le accepted
    refine ⟨rfl, ⟨_, rfl, fun i hi => ?_⟩, Or.inl ⟨rfl, rfl⟩⟩
    exact Nat.lt_of_lt_of_le (reads i hi) hs
  | @failed _ rs c k₁ _ accepted reads created setup =>
    obtain ⟨-, rfl⟩ := htable accepted created setup
    have hs := Accepted.size_le accepted
    refine ⟨rfl, ⟨tableReads ++ rs, ?_, fun i hi => ?_⟩, Or.inr ⟨rs, c, k₁, created, rfl, rfl⟩⟩
    · rw [Kernel.log, created.rest]
      exact (List.append_assoc _ _ _).symm
    · rcases List.mem_append.mp hi with hi | hi
      · exact Nat.lt_of_lt_of_le (tableReads_lt i hi) hs
      · exact Nat.lt_of_lt_of_le (reads i hi) hs
  | started accepted _ created setup => cases (htable accepted created setup).1

end

end PpoOS
