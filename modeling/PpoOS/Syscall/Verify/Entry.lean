import Mathlib.Tactic.IntervalCases
import PpoOS.Syscall.Entry

/-!
# What a fork captures

The entry leaves nine words: six registers below `syscall_stack_top`, and the three
storage words from that label on.  `sys_fork` takes the first storage word for the
address of the label, so that it reads below the stack pointer of the program.
**`forkContext_not_captured`**: no context is captured from the kernel's stack; its
registers are right exactly where the program has put them below its own stack
pointer.
-/

namespace PpoOS

open ByteMem

variable {l : EntryLabels} {u : Cpu} {mem : Mem}

/-! ## A context that is captured -/

/-- Word `i` of those that the entry leaves. -/
def EntryLabels.word (l : EntryLabels) (i : Nat) : U64 := l.syscallStackTop - 48#64 + BitVec.ofNat 64 (8 * i)

/-- The words of the entry are as it left them; the kernel may have written anywhere else. -/
def AtFork (l : EntryLabels) (u : Cpu) (mem : Mem) : Prop :=
  ∀ i < 9, load64 mem (l.word i) = load64 (syscallAsmEntry l u.syscallInstr).mem (l.word i)

/-- The registers of the program that a context has. -/
def Cpu.context (u : Cpu) : ForkContext where
  r15 := u.r15
  r14 := u.r14
  r13 := u.r13
  r12 := u.r12
  rbx := u.rbx
  rbp := u.rbp
  rip := u.rip
  rsp := u.rsp
  rflags := u.rflags

/-- The addresses of the six words that are read through `stack_ptr`. -/
def forkReads (l : EntryLabels) (mem : Mem) : List U64 :=
  [1, 2, 3, 4, 5, 6].map (stackSlot (forkStackPtr l mem))

/-- The word at the address lies in the stack of the entry. -/
def EntryLabels.InStack (l : EntryLabels) (a : U64) : Prop :=
  l.syscallStackBottom.toNat ≤ a.toNat ∧ a.toNat + 8 ≤ l.syscallStackBottom.toNat + 8192

/-- The context has the program's registers, and is read from the stack of the entry, at places that no
program can change. -/
structure ForkCaptures (l : EntryLabels) (u : Cpu) (mem : Mem) : Prop where
  context : forkContext l mem = u.context
  inStack : ∀ a ∈ forkReads l mem, l.InStack a
  fixed : ∀ u' mem', AtFork l u' mem' → forkReads l mem' = forkReads l mem

/-! ## The words of the entry -/

/-- The word above another one, from which a push comes to it. -/
theorem word_succ (l : EntryLabels) (i : Nat) : l.word i + 8#64 = l.word (i + 1) := by
  rw [EntryLabels.word, EntryLabels.word, Nat.mul_succ, BitVec.ofNat_add, BitVec.add_assoc]

theorem word_push (l : EntryLabels) (i : Nat) : l.word (i + 1) - 8#64 = l.word i := by
  rw [← word_succ, BitVec.add_sub_cancel]

theorem word_top (l : EntryLabels) : l.syscallStackTop = l.word 6 := (BitVec.sub_add_cancel _ _).symm

/-- Word `i`, after a write of word `j`. -/
theorem load64_store64_word (l : EntryLabels) (m : Mem) (v : U64) {i j : Nat} (hi : i < 9) (hj : j < 9) :
    load64 (store64 m (l.word j) v) (l.word i) = if i = j then v else load64 m (l.word i) := by
  by_cases hij : i = j
  · rw [if_pos hij, hij, load64_store64]
  · have hd : (l.word i - l.word j).toNat = _ :=
      distance_sub (l.syscallStackTop - 48#64) (BitVec.ofNat 64 (8 * j)) (i := 8 * i) (by omega)
    rw [BitVec.toNat_ofNat, Nat.mod_eq_of_lt (show 8 * j < 2 ^ 64 by omega)] at hd
    rw [if_neg hij, load64_store64_outside (by omega) (by omega)]

/-- What the entry writes, in its order. -/
def savedWords (u : Cpu) : List (Nat × U64) :=
  [(6, u.rsp), (7, u.rip), (8, u.rflags), (5, u.rbp), (4, u.rbx), (3, u.r12), (2, u.r13), (1, u.r14), (0, u.r15)]

theorem entry_mem (l : EntryLabels) (u : Cpu) : (syscallAsmEntry l u.syscallInstr).mem =
    (savedWords u).foldl (fun m w => store64 m (l.word w.1) w.2) u.mem := by
  simp only [syscallAsmEntry, Cpu.movTo, Cpu.push, Cpu.syscallInstr, EntryLabels.userRspStorage,
    EntryLabels.userRipStorage, EntryLabels.userRflagsStorage, word_top, word_succ, word_push, Nat.reduceAdd]
  rfl

/-- The words, from the lowest one on: the registers of the program in the reverse order of their pushes. -/
def entryWords (u : Cpu) : List U64 := [u.r15, u.r14, u.r13, u.r12, u.rbx, u.rbp, u.rsp, u.rip, u.rflags]

theorem entry_word (l : EntryLabels) (u : Cpu) {i : Nat} (hi : i < 9) :
    (entryWords u)[i]? = some (load64 (syscallAsmEntry l u.syscallInstr).mem (l.word i)) := by
  rw [entry_mem, savedWords]
  simp only [List.foldl_cons, List.foldl_nil]
  interval_cases i <;>
    simp only [load64_store64_word, Nat.reduceLT, Nat.reduceEqDiff, reduceIte, entryWords, List.getElem?_cons_succ,
      List.getElem?_cons_zero]

/-! ## What is captured -/

section Fork

variable (h : AtFork l u mem)

include h

theorem AtFork.word {i : Nat} (hi : i < 9) : (entryWords u)[i]? = some (load64 mem (l.word i)) := by
  rw [entry_word l u hi, h i hi]

/-- The pointer is the stack pointer of the program. -/
theorem AtFork.stackPtr : forkStackPtr l mem = u.rsp := by
  rw [forkStackPtr, word_top]
  exact (Option.some.inj (h.word (i := 6) (by decide))).symm

/-- The storage words are right, whatever the pointer. -/
theorem AtFork.storage (stackPtr : U64) : (forkContextAt l mem stackPtr).rsp = u.rsp ∧
    (forkContextAt l mem stackPtr).rip = u.rip ∧ (forkContextAt l mem stackPtr).rflags = u.rflags := by
  have hrsp : l.userRspStorage = l.word 6 := word_top l
  have hrip : l.userRipStorage = l.word 7 := by rw [EntryLabels.userRipStorage, hrsp, word_succ]
  have hrflags : l.userRflagsStorage = l.word 8 := by rw [EntryLabels.userRflagsStorage, hrip, word_succ]
  dsimp only [forkContextAt]
  rw [hrsp, hrip, hrflags]
  exact ⟨(Option.some.inj (h.word (i := 6) (by decide))).symm, (Option.some.inj (h.word (i := 7) (by decide))).symm,
    (Option.some.inj (h.word (i := 8) (by decide))).symm⟩

/-- From the label itself, the six registers come in the reverse order. -/
theorem AtFork.fromLabel : forkContextAt l mem l.syscallStackTop =
    { u.context with r15 := u.rbp, r14 := u.rbx, r13 := u.r12, r12 := u.r13, rbx := u.r14, rbp := u.r15 } := by
  have hslot : ∀ i ≤ 6, stackSlot l.syscallStackTop i = l.word (6 - i) := by
    intro i hi
    rw [stackSlot, word_top, EntryLabels.word, EntryLabels.word]
    interval_cases i <;> bv_omega
  have hword : ∀ {i v}, i ≤ 6 → (entryWords u)[6 - i]? = some v → load64 mem (stackSlot l.syscallStackTop i) = v :=
    fun {i v} hi hv => by
      rw [hslot i hi]
      exact Option.some.inj ((h.word (by omega)).symm.trans hv)
  obtain ⟨hrsp, hrip, hrflags⟩ := h.storage l.syscallStackTop
  rw [Cpu.context, ← hrsp, ← hrip, ← hrflags, forkContextAt, ForkContext.mk.injEq]
  exact ⟨hword (by decide) rfl, hword (by decide) rfl, hword (by decide) rfl, hword (by decide) rfl,
    hword (by decide) rfl, hword (by decide) rfl, rfl, rfl, rfl⟩

/-- The registers are right where the program has them below its stack pointer. -/
theorem AtFork.context_iff : forkContext l mem = u.context ↔
    (forkReads l mem).map (load64 mem) = [u.r15, u.r14, u.r13, u.r12, u.rbx, u.rbp] := by
  obtain ⟨hrsp, hrip, hrflags⟩ := h.storage (forkStackPtr l mem)
  rw [Cpu.context, ← hrsp, ← hrip, ← hrflags, forkContext, forkContextAt, ForkContext.mk.injEq]
  simp only [forkReads, List.map_cons, List.map_nil, List.cons.injEq, and_true]

/-- The words that are read lie in the stack of the entry where the stack pointer of the program does. -/
theorem AtFork.inStack_iff : (∀ a ∈ forkReads l mem, l.InStack a) ↔
    l.syscallStackBottom.toNat + 48 ≤ u.rsp.toNat ∧ u.rsp.toNat ≤ l.syscallStackBottom.toNat + 8192 := by
  have hfits := l.fits
  have hrsp := u.rsp.isLt
  have hslot : ∀ {i}, i ≤ 6 → (stackSlot u.rsp i).toNat = (2 ^ 64 - 8 * i + u.rsp.toNat) % 2 ^ 64 := fun {i} hi => by
    rw [stackSlot, BitVec.toNat_sub, BitVec.toNat_ofNat, Nat.mod_eq_of_lt (show 8 * i < 2 ^ 64 by omega)]
  rw [forkReads, h.stackPtr]
  constructor
  · intro hall
    obtain ⟨hlow, hlast⟩ := hall _ (List.mem_map_of_mem (show 6 ∈ [1, 2, 3, 4, 5, 6] by decide))
    obtain ⟨hfirst, hhigh⟩ := hall _ (List.mem_map_of_mem (show 1 ∈ [1, 2, 3, 4, 5, 6] by decide))
    rw [hslot (by decide)] at hlow hlast hfirst hhigh
    omega
  · rintro ⟨hlow, hhigh⟩ a ha
    obtain ⟨i, hi, rfl⟩ := List.mem_map.mp ha
    have hrange : 1 ≤ i ∧ i ≤ 6 := (show ∀ i ∈ [1, 2, 3, 4, 5, 6], 1 ≤ i ∧ i ≤ 6 by decide) i hi
    rw [EntryLabels.InStack, hslot hrange.2]
    omega

/-- A program with another stack pointer has other words read. -/
theorem AtFork.not_fixed : ¬∀ u' mem', AtFork l u' mem' → forkReads l mem' = forkReads l mem := by
  intro hfixed
  have hmoved : AtFork l { u with rsp := u.rsp + 1#64 }
      (syscallAsmEntry l ({ u with rsp := u.rsp + 1#64 } : Cpu).syscallInstr).mem := fun _ _ => rfl
  have hreads := hfixed _ _ hmoved
  rw [forkReads, forkReads, h.stackPtr, hmoved.stackPtr] at hreads
  have hslot : u.rsp + 1#64 - BitVec.ofNat 64 (8 * 1) = u.rsp - BitVec.ofNat 64 (8 * 1) := (List.cons.inj hreads).1
  bv_omega

end Fork

/-- **What a fork captures**: never the words of the kernel's stack; and its registers are right exactly where the
six words below the program's own stack pointer are. -/
theorem forkContext_not_captured (h : AtFork l u mem) : ¬ForkCaptures l u mem ∧
    (forkContext l mem = u.context ↔
      [1, 2, 3, 4, 5, 6].map (fun i => load64 mem (stackSlot u.rsp i)) = [u.r15, u.r14, u.r13, u.r12, u.rbx, u.rbp]) ∧
    ((∀ a ∈ forkReads l mem, l.InStack a) ↔
      l.syscallStackBottom.toNat + 48 ≤ u.rsp.toNat ∧ u.rsp.toNat ≤ l.syscallStackBottom.toNat + 8192) := by
  refine ⟨fun hcaptures => h.not_fixed hcaptures.fixed, ?_, h.inStack_iff⟩
  rw [h.context_iff, forkReads, h.stackPtr, List.map_map]
  rfl

/-- A program that has its registers numbered, and nothing on its stack. -/
def numberedCpu : Cpu where
  rax := 6#64
  rbx := 3#64
  rcx := 0#64
  rdx := 0#64
  rsi := 0#64
  rdi := 0#64
  rbp := 5#64
  rsp := 0x7FFFFFF8#64
  r8 := 0#64
  r9 := 0#64
  r10 := 0#64
  r11 := 0#64
  r12 := 12#64
  r13 := 13#64
  r14 := 14#64
  r15 := 15#64
  rip := 0x400010#64
  rflags := 0x202#64
  mem := fun _ => 0#8

def highLabels : EntryLabels := ⟨0xFFFFFFFF80200000#64, by decide⟩

theorem forkContext_not_captured_numbered :
    ¬ForkCaptures highLabels numberedCpu (syscallAsmEntry highLabels numberedCpu.syscallInstr).mem :=
  (forkContext_not_captured fun _ _ => rfl).1

/-- The context has zeros from the stack of the program. -/
theorem numbered_zeros : AtFork highLabels numberedCpu (syscallAsmEntry highLabels numberedCpu.syscallInstr).mem ∧
    forkContext highLabels (syscallAsmEntry highLabels numberedCpu.syscallInstr).mem =
        ⟨0#64, 0#64, 0#64, 0#64, 0#64, 0#64, 0x400010#64, 0x7FFFFFF8#64, 0x202#64⟩ ∧
      ¬ForkCaptures highLabels numberedCpu (syscallAsmEntry highLabels numberedCpu.syscallInstr).mem := by
  have hzeros : forkContext highLabels (syscallAsmEntry highLabels numberedCpu.syscallInstr).mem =
      ⟨0#64, 0#64, 0#64, 0#64, 0#64, 0#64, 0x400010#64, 0x7FFFFFF8#64, 0x202#64⟩ := by decide +kernel
  refine ⟨fun _ _ => rfl, hzeros, fun hcaptures => ?_⟩
  have heq := hzeros.symm.trans hcaptures.context
  exact absurd heq (by decide)

end PpoOS
