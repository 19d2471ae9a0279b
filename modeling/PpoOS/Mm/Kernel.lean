import PpoOS.Mm.Pmm
import PpoOS.Lib.FaultState

/-!
# The kernel state and its memory accesses

The state the memory code reads and writes: physical memory, the allocator's
variables, `g_kernel_pml4`, the control register and `next_pid`.  Two more
fields are history, written and never read by the code: the address spaces
`vmm_create_address_space` returned and the bytes of the program file read so
far.

A computation that faults, or that stops in one of the `for(;;);` loops, has no
result.  Memory is reached through the direct map, which ends with the canonical
addresses; a pointer into it is kept as its offset, the physical address.
-/

namespace PpoOS

open ByteMem

structure Kernel where
  mem : Mem
  pmm : Pmm
  gKernelPml4 : U64
  cr3 : U64
  nextPid : U64
  /-- History: the frames of the PML4 tables created so far, latest first. -/
  spaces : List Nat
  /-- History: the indices of the file bytes read so far, latest first. -/
  reads : List U64

abbrev Kern := StateT Kernel Option

/-- A physical address from here on has no canonical address in the direct map. -/
def directMapEnd : Nat := 2 ^ 47

/-- `phys_to_virt` -/
def physToVirt (physAddr : U64) : U64 := physAddr

@[simp] theorem physToVirt_eq (physAddr : U64) : physToVirt physAddr = physAddr := rfl

/-- An `n`-byte access at `ptr` stays in the direct map. -/
def inDirectMap (ptr : U64) (n : Nat) : Prop := ptr.toNat + n ≤ directMapEnd

instance (ptr : U64) (n : Nat) : Decidable (inDirectMap ptr n) := by
  unfold inDirectMap; infer_instance

/-- Write the `n` bytes at `ptr`, byte `i` with `src i`. -/
def writeBytes (ptr : U64) (n : Nat) (src : Nat → U8) : Kern Unit := do
  if inDirectMap ptr n then modify fun k => { k with mem := blit k.mem ptr n src }
  else failure

def readEntry (ptr : U64) : Kern U64 := do
  if inDirectMap ptr 8 then return load64 (← get).mem ptr
  else failure

def writeEntry (ptr v : U64) : Kern Unit := writeBytes ptr 8 (byteOf v)

def memset (ptr : U64) (c : U8) (n : Nat) : Kern Unit := writeBytes ptr n fun _ => c

/-- `memcpy` between two places of the direct map. -/
def memcpy (dest src : U64) (n : Nat) : Kern Unit := do
  if inDirectMap src n then
    let k ← get
    writeBytes dest n fun i => k.mem (src + BitVec.ofNat 64 i)
  else failure

/-- `pmm_alloc_frame` on the kernel state. -/
def pmmAlloc : Kern U64 := do
  let k ← get
  set { k with pmm := (pmmAllocFrame k.pmm).2 }
  return (pmmAllocFrame k.pmm).1

/-- `pmm_free_frame` on the kernel state. -/
def pmmFree (physAddr : U64) : Kern Unit :=
  modify fun k => { k with pmm := pmmFreeFrame physAddr k.pmm }

/-! ## What an access does to the state -/

def Kernel.setMem (k : Kernel) (m : Mem) : Kernel := { k with mem := m }

def Kernel.setPmm (k : Kernel) (p : Pmm) : Kernel := { k with pmm := p }

@[simp] theorem Kernel.setMem_mem (k : Kernel) (m : Mem) : (k.setMem m).mem = m := rfl
@[simp] theorem Kernel.setMem_pmm (k : Kernel) (m : Mem) : (k.setMem m).pmm = k.pmm := rfl
@[simp] theorem Kernel.setPmm_pmm (k : Kernel) (p : Pmm) : (k.setPmm p).pmm = p := rfl
@[simp] theorem Kernel.setPmm_spaces (k : Kernel) (p : Pmm) : (k.setPmm p).spaces = k.spaces := rfl

theorem writeBytes_run {ptr : U64} {n : Nat} (src : Nat → U8) (k : Kernel)
    (h : inDirectMap ptr n) :
    (writeBytes ptr n src).run k = some ((), k.setMem (blit k.mem ptr n src)) := by
  rw [writeBytes, if_pos h]
  rfl

theorem writeEntry_run {ptr : U64} (v : U64) (k : Kernel) (h : inDirectMap ptr 8) :
    (writeEntry ptr v).run k = some ((), k.setMem (store64 k.mem ptr v)) :=
  writeBytes_run _ k h

theorem memset_run {ptr : U64} {n : Nat} (c : U8) (k : Kernel) (h : inDirectMap ptr n) :
    (memset ptr c n).run k = some ((), k.setMem (fill k.mem ptr n c)) :=
  writeBytes_run _ k h

theorem readEntry_run {ptr : U64} (k : Kernel) (h : inDirectMap ptr 8) :
    (readEntry ptr).run k = some (load64 k.mem ptr, k) := by
  rw [readEntry, if_pos h]
  rfl

theorem pmmAlloc_run (k : Kernel) :
    pmmAlloc.run k = some ((pmmAllocFrame k.pmm).1, k.setPmm (pmmAllocFrame k.pmm).2) := rfl

theorem pmmFree_run (a : U64) (k : Kernel) :
    (pmmFree a).run k = some ((), k.setPmm (pmmFreeFrame a k.pmm)) := rfl

theorem readEntry_inv {ptr e : U64} {k k' : Kernel} (h : (readEntry ptr).run k = some (e, k')) :
    inDirectMap ptr 8 ∧ e = load64 k.mem ptr ∧ k' = k := by
  by_cases hm : inDirectMap ptr 8
  · rw [readEntry_run k hm] at h
    cases h
    exact ⟨hm, rfl, rfl⟩
  · rw [readEntry, if_neg hm] at h
    cases h

theorem writeBytes_inv {ptr : U64} {n : Nat} {src : Nat → U8} {k k' : Kernel} {u : Unit}
    (h : (writeBytes ptr n src).run k = some (u, k')) :
    inDirectMap ptr n ∧ k' = k.setMem (blit k.mem ptr n src) := by
  by_cases hm : inDirectMap ptr n
  · rw [writeBytes_run src k hm] at h
    cases h
    exact ⟨hm, rfl⟩
  · rw [writeBytes, if_neg hm] at h
    cases h

end PpoOS
