import PpoOS.Exec.Verify.Header
import PpoOS.Mm.Verify.Create
import PpoOS.Syscall.Fork

/-!
# How `exec_elf` and `sys_fork` end

One inversion lemma for each of the two calls: every way it can end, with the
state it leaves.  All later proofs about whole calls start from these.
-/

namespace PpoOS

open FaultState

/-- Every way the part of `exec_elf` before the jump to user mode can end. -/
inductive ExecOutcome (k : Kernel) : Option ElfFile → Option UserEntry → Kernel → Prop
  /-- There is no file, or its header is refused; at most header bytes were read. -/
  | rejected {file : Option ElfFile} {rs : List U64} (refused : ∀ f, file = some f → ¬f.Accepted)
      (reads : ∀ f, file = some f → ∀ i ∈ rs, i.toNat < f.size.toNat) :
      ExecOutcome k file none (k.log rs)
  /-- There is no frame for the PML4. -/
  | noFrame {f : ElfFile} {rs : List U64} (accepted : f.Accepted) (reads : ∀ i ∈ rs, i.toNat < 64)
      (full : ∀ g, ¬k.pmm.Free g) : ExecOutcome k (some f) none (k.log rs)
  /-- Loading failed. -/
  | failed {f : ElfFile} {rs : List U64} {c : Nat} {k₁ k₂ : Kernel} (accepted : f.Accepted)
      (reads : ∀ i ∈ rs, i.toNat < 64) (created : Creates (k.log rs) k₁ c)
      (setup : (execSetup f (frameAddr c)).run k₁ = some (false, k₂)) :
      ExecOutcome k (some f) none k₂
  /-- The program is entered. -/
  | started {f : ElfFile} {rs : List U64} {c : Nat} {k₁ k₂ : Kernel} (accepted : f.Accepted)
      (reads : ∀ i ∈ rs, i.toNat < 64) (created : Creates (k.log rs) k₁ c)
      (setup : (execSetup f (frameAddr c)).run k₁ = some (true, k₂)) :
      ExecOutcome k (some f)
        (some ⟨f.u64 24#64, userStackTopVaddr + pageSize - 8#64, frameAddr c, k₂.cr3 &&& pageMask⟩)
        { k₂ with cr3 := frameAddr c }

theorem execElf_outcome {file : Option ElfFile} {k k' : Kernel} {o : Option UserEntry}
    (h : (execElf file).run k = some (o, k')) : ExecOutcome k file o k' := by
  cases file with
  | none =>
    cases h
    have hnone : ∀ f : ElfFile, none = some f → ¬f.Accepted := fun f hf => by cases hf
    have hempty : ∀ f : ElfFile, none = some f → ∀ i ∈ ([] : List U64), i.toNat < f.size.toNat :=
      fun _ _ _ hi => absurd hi List.not_mem_nil
    exact .rejected hnone hempty
  | some f =>
    unfold execElf at h
    dsimp only at h
    by_cases hs : f.size < elfHeaderSize
    · rw [if_pos hs] at h
      cases h
      have hrej : ∀ g, some f = some g → ¬g.Accepted := by
        intro g hg
        cases hg
        exact fun ha => ha.1 hs
      have hempty : ∀ g, some f = some g → ∀ i ∈ ([] : List U64), i.toNat < g.size.toNat :=
        fun _ _ _ hi => absurd hi List.not_mem_nil
      exact .rejected hrej hempty
    · have h64 : elfHeaderSize.toNat = 64 := by decide
      have hs64 : 64 ≤ f.size.toNat := by
        rw [BitVec.lt_def, h64] at hs
        omega
      obtain ⟨rs, hcheck, hrs⟩ := elfHeaderOk_run f k
      rw [if_neg hs, run_bind_eq hcheck] at h
      by_cases hok : f.HeaderOk
      · have hacc : f.Accepted := ⟨hs, hok⟩
        rw [decide_eq_true hok, if_pos rfl, run_bind_eq (readU64_run f 24#64 _),
          Kernel.log_log] at h
        have hrs' : ∀ i ∈ readIndices 24#64 8 ++ rs, i.toNat < 64 := by
          intro i hi
          rcases List.mem_append.mp hi with hi | hi
          · exact readIndices_lt (by decide) (by omega) i hi
          · exact hrs i hi
        obtain ⟨p, k₁, hcreate, h⟩ := run_bind_iff.mp h
        rcases vmmCreateAddressSpace_inv hcreate with ⟨rfl, rfl, hfull⟩ | ⟨c, rfl, hc⟩
        · rw [if_pos rfl] at h
          cases h
          exact .noFrame hacc hrs' hfull
        · have hc52 : c < 2 ^ 52 := Nat.lt_trans hc.free.lt (by omega)
          rw [if_neg (frameAddr_ne_zero hc52 hc.free.pos)] at h
          obtain ⟨ok, k₂, hsetup, h⟩ := run_bind_iff.mp h
          cases ok with
          | false =>
            cases h
            exact .failed hacc hrs' hc hsetup
          | true =>
            cases h
            exact .started hacc hrs' hc hsetup
      · rw [decide_eq_false hok] at h
        cases h
        have hrej : ∀ g, some f = some g → ¬g.Accepted := by
          intro g hg
          cases hg
          exact fun ha => hok ha.2
        refine .rejected hrej ?_
        intro g hg i hi
        cases hg
        exact Nat.lt_of_lt_of_le (hrs i hi) hs64

/-- Every way `sys_fork` can end. -/
inductive ForkOutcome (k : Kernel) : U64 → Kernel → Prop
  | noParent (parent : k.cr3 &&& pageMask = 0#64) : ForkOutcome k (-1#64) k
  /-- There is no frame for the PML4. -/
  | noFrame (full : ∀ g, ¬k.pmm.Free g) : ForkOutcome k (-1#64) k
  /-- Copying the pages failed. -/
  | failed {c : Nat} {k₁ k₂ : Kernel} (parent : k.cr3 &&& pageMask ≠ 0#64) (created : Creates k k₁ c)
      (copy : (forkVaddrs.allM fun va =>
        forkCopyPage (k.cr3 &&& pageMask) (frameAddr c) va).run k₁ = some (false, k₂)) :
      ForkOutcome k (-1#64) k₂
  | forked {c : Nat} {k₁ k₂ : Kernel} (parent : k.cr3 &&& pageMask ≠ 0#64) (created : Creates k k₁ c)
      (copy : (forkVaddrs.allM fun va =>
        forkCopyPage (k.cr3 &&& pageMask) (frameAddr c) va).run k₁ = some (true, k₂)) :
      ForkOutcome k k₂.nextPid { k₂ with nextPid := k₂.nextPid + 1#64 }

theorem sysFork_outcome {k k' : Kernel} {pid : U64} (h : sysFork.run k = some (pid, k')) :
    ForkOutcome k pid k' := by
  have hget : vmmGetCurrentAddressSpace.run k = some (k.cr3 &&& pageMask, k) := rfl
  unfold sysFork at h
  rw [run_bind_eq hget] at h
  by_cases hp : k.cr3 &&& pageMask = 0#64
  · rw [if_pos hp] at h
    cases h
    exact .noParent hp
  · rw [if_neg hp] at h
    obtain ⟨p, k₁, hcreate, h⟩ := run_bind_iff.mp h
    rcases vmmCreateAddressSpace_inv hcreate with ⟨rfl, rfl, hfull⟩ | ⟨c, rfl, hc⟩
    · rw [if_pos rfl] at h
      cases h
      exact .noFrame hfull
    · have hc52 : c < 2 ^ 52 := Nat.lt_trans hc.free.lt (by omega)
      rw [if_neg (frameAddr_ne_zero hc52 hc.free.pos)] at h
      obtain ⟨ok, k₂, hcopy, h⟩ := run_bind_iff.mp h
      cases ok with
      | false =>
        cases h
        exact .failed hp hc hcopy
      | true =>
        cases h
        exact .forked hp hc hcopy

end PpoOS
