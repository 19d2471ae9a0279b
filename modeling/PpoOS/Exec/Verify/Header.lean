import PpoOS.Exec.Elf

/-!
# The header check

Reading the file changes the read history only.  `elfHeaderOk_run` evaluates the
header check: it computes `ElfFile.HeaderOk` and reads bytes of the header.
-/

namespace PpoOS

open ByteMem FaultState

/-- The indices of the `n` bytes from `off` on. -/
def readIndices (off : U64) (n : Nat) : List U64 :=
  (List.range n).map fun i => off + BitVec.ofNat 64 i

/-- `k` after the file bytes `rs` were read. -/
def Kernel.log (k : Kernel) (rs : List U64) : Kernel := { k with reads := rs ++ k.reads }

@[simp] theorem Kernel.log_mem (k : Kernel) (rs : List U64) : (k.log rs).mem = k.mem := rfl
@[simp] theorem Kernel.log_pmm (k : Kernel) (rs : List U64) : (k.log rs).pmm = k.pmm := rfl
@[simp] theorem Kernel.log_reads (k : Kernel) (rs : List U64) :
    (k.log rs).reads = rs ++ k.reads := rfl

theorem Kernel.log_log (k : Kernel) (rs rs' : List U64) :
    (k.log rs).log rs' = k.log (rs' ++ rs) := by
  simp [Kernel.log]

theorem logReads_run (off : U64) (n : Nat) (k : Kernel) :
    (logReads off n).run k = some ((), k.log (readIndices off n)) := rfl

theorem readU8_run (f : ElfFile) (off : U64) (k : Kernel) :
    (readU8 f off).run k = some (f.u8 off, k.log (readIndices off 1)) := rfl

theorem readU16_run (f : ElfFile) (off : U64) (k : Kernel) :
    (readU16 f off).run k = some (f.u16 off, k.log (readIndices off 2)) := rfl

theorem readU32_run (f : ElfFile) (off : U64) (k : Kernel) :
    (readU32 f off).run k = some (f.u32 off, k.log (readIndices off 4)) := rfl

theorem readU64_run (f : ElfFile) (off : U64) (k : Kernel) :
    (readU64 f off).run k = some (f.u64 off, k.log (readIndices off 8)) := rfl

/-- A range of indices that does not wrap stays below its end. -/
theorem readIndices_lt {off : U64} {n b : Nat} (h : off.toNat + n ≤ b) (hb : b < 2 ^ 64) :
    ∀ i ∈ readIndices off n, i.toNat < b := by
  intro i hi
  obtain ⟨j, hj, rfl⟩ := List.mem_map.mp hi
  have hjn := List.mem_range.mp hj
  rw [BitVec.toNat_add, BitVec.toNat_ofNat]
  omega

/-! ## The check -/

/-- The header fields `exec_elf` insists on. -/
def ElfFile.HeaderOk (f : ElfFile) : Prop :=
  f.u32 0#64 = elfMagic ∧ f.u8 4#64 = elfClass64 ∧ f.u8 5#64 = elfData2Lsb ∧
    f.u16 16#64 = etExec ∧ f.u16 18#64 = emX86_64 ∧ f.u8 6#64 = evCurrent

instance (f : ElfFile) : Decidable f.HeaderOk := by unfold ElfFile.HeaderOk; infer_instance

/-- A file that `exec_elf` makes an address space for. -/
def ElfFile.Accepted (f : ElfFile) : Prop := ¬f.size < elfHeaderSize ∧ f.HeaderOk

instance (f : ElfFile) : Decidable f.Accepted := by unfold ElfFile.Accepted; infer_instance

theorem Accepted.size_le {f : ElfFile} (h : f.Accepted) : 64 ≤ f.size.toNat := by
  have h64 : elfHeaderSize.toNat = 64 := by decide
  have hs := h.1
  rw [BitVec.lt_def, h64] at hs
  omega

/-- One field: the check goes on where the field is right and ends where it is wrong. -/
theorem check_run {β : Type} [DecidableEq β] {read : Kern β} {rest : Kern Bool} {k k' : Kernel}
    {v w : β} (hread : read.run k = some (v, k')) :
    (do if (← read) ≠ w then return false
        rest : Kern Bool).run k = if v = w then rest.run k' else some (false, k') := by
  rw [run_bind_eq hread]
  by_cases h : v = w
  · rw [if_neg (not_not.mpr h), if_pos h]
  · rw [if_pos h, if_neg h]
    rfl

/-- The header check computes `HeaderOk` and reads header bytes only. -/
theorem elfHeaderOk_run (f : ElfFile) (k : Kernel) :
    ∃ rs, (elfHeaderOk f).run k = some (decide f.HeaderOk, k.log rs) ∧
      ∀ i ∈ rs, i.toNat < 64 := by
  have hlt : ∀ (off : U64) (n : Nat), off.toNat + n ≤ 64 → ∀ i ∈ readIndices off n, i.toNat < 64 :=
    fun off n h => readIndices_lt h (by omega)
  have happ : ∀ {rs rs' : List U64}, (∀ i ∈ rs, i.toNat < 64) → (∀ i ∈ rs', i.toNat < 64) →
      ∀ i ∈ rs' ++ rs, i.toNat < 64 := by
    intro rs rs' h h' i hi
    rcases List.mem_append.mp hi with hi | hi
    · exact h' i hi
    · exact h i hi
  have r0 := hlt 0#64 4 (by decide)
  have r1 := happ r0 (hlt 4#64 1 (by decide))
  have r2 := happ r1 (hlt 5#64 1 (by decide))
  have r3 := happ r2 (hlt 16#64 2 (by decide))
  have r4 := happ r3 (hlt 18#64 2 (by decide))
  have r5 := happ r4 (hlt 6#64 1 (by decide))
  unfold elfHeaderOk ElfFile.HeaderOk
  rw [check_run (readU32_run f 0#64 k)]
  by_cases h0 : f.u32 0#64 = elfMagic
  · rw [if_pos h0, check_run (readU8_run f 4#64 _), Kernel.log_log]
    by_cases h1 : f.u8 4#64 = elfClass64
    · rw [if_pos h1, check_run (readU8_run f 5#64 _), Kernel.log_log]
      by_cases h2 : f.u8 5#64 = elfData2Lsb
      · rw [if_pos h2, check_run (readU16_run f 16#64 _), Kernel.log_log]
        by_cases h3 : f.u16 16#64 = etExec
        · rw [if_pos h3, check_run (readU16_run f 18#64 _), Kernel.log_log]
          by_cases h4 : f.u16 18#64 = emX86_64
          · rw [if_pos h4, check_run (readU8_run f 6#64 _), Kernel.log_log]
            by_cases h5 : f.u8 6#64 = evCurrent
            · exact ⟨_, by rw [if_pos h5]; simp [h0, h1, h2, h3, h4, h5], r5⟩
            · exact ⟨_, by rw [if_neg h5]; simp [h5], r5⟩
          · exact ⟨_, by rw [if_neg h4]; simp [h4], r4⟩
        · exact ⟨_, by rw [if_neg h3]; simp [h3], r3⟩
      · exact ⟨_, by rw [if_neg h2]; simp [h2], r2⟩
    · exact ⟨_, by rw [if_neg h1]; simp [h1], r1⟩
  · exact ⟨_, by rw [if_neg h0]; simp [h0], r0⟩

/-! ## Sample files -/

/-- `n` bytes of a number, least significant first. -/
def leBytes (n v : Nat) : List U8 := (List.range n).map fun i => BitVec.ofNat 8 (v / 256 ^ i)

/-- A good header with `phnum` program headers at `phoff`. -/
def headerBytes (phoff phnum : Nat) : List U8 :=
  leBytes 4 0x464C457F ++ leBytes 4 0x010102 ++ leBytes 8 0 ++ leBytes 2 2 ++ leBytes 2 62 ++
    leBytes 4 1 ++ leBytes 8 0x400000 ++ leBytes 8 phoff ++ leBytes 8 0 ++ leBytes 4 0 ++
    leBytes 2 64 ++ leBytes 2 56 ++ leBytes 2 phnum ++ leBytes 6 0

/-- A loadable segment, readable, writable and executable. -/
def segmentBytes (offset vaddr filesz memsz : Nat) : List U8 :=
  leBytes 4 1 ++ leBytes 4 7 ++ leBytes 8 offset ++ leBytes 8 vaddr ++ leBytes 8 0 ++
    leBytes 8 filesz ++ leBytes 8 memsz ++ leBytes 8 4096

/-- The file of these bytes, with zeros behind it. -/
def fileOf (bytes : List U8) (h : bytes.length < 2 ^ 47) : ElfFile where
  data := fun i => bytes.getD i.toNat 0#8
  size := BitVec.ofNat 64 bytes.length
  size_lt := by
    rw [BitVec.toNat_ofNat]
    omega

end PpoOS
