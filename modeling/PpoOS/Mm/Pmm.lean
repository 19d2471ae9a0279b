import PpoOS.Mm.Paging

/-!
# The physical memory manager (`vmm.c`, first half)

A bitmap with one bit for each frame below 4 GiB, a rotating start index and the
end of the highest usable frame.  `Pmm` carries the two facts the C code relies
on: the bound is page-aligned and inside the bitmap, and the start index is at
most the number of managed frames.
-/

namespace PpoOS

/-- `PMM_MAX_PHYS_ADDR` -/
def pmmMaxPhysAddr : Nat := 4 * 1024 * 1024 * 1024

theorem pmmMaxPhysAddr_eq : pmmMaxPhysAddr = 1048576 * 4096 := by decide

/-- `PMM_BITMAP_SIZE`, in bytes. -/
def pmmBitmapSize : Nat := pmmMaxPhysAddr / 4096 / 8

abbrev Bitmap := Nat → U8

def pmmBitmapSet (bitmap : Bitmap) (bit : Nat) : Bitmap := fun i =>
  if i = bit / 8 then bitmap i ||| (1#8 <<< (bit % 8)) else bitmap i

def pmmBitmapUnset (bitmap : Bitmap) (bit : Nat) : Bitmap := fun i =>
  if i = bit / 8 then bitmap i &&& ~~~(1#8 <<< (bit % 8)) else bitmap i

def pmmBitmapTest (bitmap : Bitmap) (bit : Nat) : Bool :=
  bitmap (bit / 8) &&& (1#8 <<< (bit % 8)) != 0#8

/-- The allocator's static variables. -/
structure Pmm where
  bitmap : Bitmap
  lastAllocIndex : Nat
  highestAddress : Nat
  highest_aligned : 4096 ∣ highestAddress
  highest_le : highestAddress ≤ pmmMaxPhysAddr
  lastAllocIndex_le : lastAllocIndex ≤ highestAddress / 4096

namespace Pmm

/-- The number of managed frames, `max_bits`. -/
def maxBits (p : Pmm) : Nat := p.highestAddress / 4096

/-- The bit of frame `f`. -/
def used (p : Pmm) (f : Nat) : Bool := pmmBitmapTest p.bitmap f

/-- A frame `pmm_alloc_frame` may hand out: managed, at or above 1 MiB, bit clear. -/
def Free (p : Pmm) (f : Nat) : Prop := 256 ≤ f ∧ f < p.maxBits ∧ p.used f = false

instance (p : Pmm) (f : Nat) : Decidable (p.Free f) := by unfold Free; infer_instance

end Pmm

/-! ## Allocation -/

/-- The scan loop of `pmm_alloc_frame` with `n` iterations left, from iteration `i` on. -/
def pmmScan (p : Pmm) (h : 0 < p.maxBits) : (n i : Nat) → Option (Fin p.maxBits)
  | 0, _ => none
  | n + 1, i =>
    let currentIndex : Fin p.maxBits := ⟨(p.lastAllocIndex + i) % p.maxBits, Nat.mod_lt _ h⟩
    if currentIndex.val * 4096 < 0x100000 then pmmScan p h n (i + 1)
    else if !pmmBitmapTest p.bitmap currentIndex then some currentIndex
    else pmmScan p h n (i + 1)

/-- Mark the frame that was found; the next scan starts after it. -/
def pmmTake (p : Pmm) (currentIndex : Fin p.maxBits) : Pmm :=
  { p with
    bitmap := pmmBitmapSet p.bitmap currentIndex
    lastAllocIndex := currentIndex + 1
    lastAllocIndex_le := currentIndex.isLt }

/-- `pmm_alloc_frame`: the address of a frame, or 0. -/
def pmmAllocFrame (p : Pmm) : U64 × Pmm :=
  if h : 0 < p.maxBits then
    match pmmScan p h p.maxBits 0 with
    | some currentIndex => (frameAddr currentIndex, pmmTake p currentIndex)
    | none => (0#64, p)
  else (0#64, p)

/-- `pmm_free_frame` -/
def pmmFreeFrame (physAddr : U64) (p : Pmm) : Pmm :=
  if physAddr.toNat % 4096 ≠ 0 then p
  else
    let bitIndex := physAddr.toNat / 4096
    if bitIndex * 4096 ≥ p.highestAddress then p
    else { p with bitmap := pmmBitmapUnset p.bitmap bitIndex }

/-! ## Initialisation -/

structure MemmapEntry where
  base : U64
  length : U64
  type : U64

/-- `LIMINE_MEMMAP_USABLE` -/
def limineMemmapUsable : U64 := 0#64

structure KernelAddress where
  physicalBase : U64
  virtualBase : U64

/-- What `pmm_init` is given: the two bootloader responses (which may be missing) and the addresses
the linker gives `_kernel_end` and `pmm_bitmap`. -/
structure BootInfo where
  memmap : Option (List MemmapEntry)
  kernelAddress : Option KernelAddress
  kernelEnd : U64
  pmmBitmapAddr : U64

/-- `for (frame = start; frame < end; frame++)` -/
def forFrames (start stop : U64) (body : Pmm → Nat → Pmm) (p : Pmm) : Pmm :=
  (List.range' start.toNat (stop.toNat - start.toNat)).foldl body p

theorem frame_end_le {frame : Nat} (h : ¬frame * 4096 ≥ pmmMaxPhysAddr) :
    (frame + 1) * 4096 ≤ pmmMaxPhysAddr := by
  rw [pmmMaxPhysAddr_eq] at h ⊢
  omega

/-- The loop body for a usable frame: skip it beyond the bitmap, else clear its bit and raise
`pmm_highest_address` to its end. -/
def pmmMarkFree (p : Pmm) (frame : Nat) : Pmm :=
  if h : frame * 4096 ≥ pmmMaxPhysAddr then p
  else
    { p with
      bitmap := pmmBitmapUnset p.bitmap frame
      highestAddress := max p.highestAddress ((frame + 1) * 4096)
      highest_aligned := by
        rcases Nat.le_total p.highestAddress ((frame + 1) * 4096) with hle | hle
        · rw [Nat.max_eq_right hle]; exact Nat.dvd_mul_left _ _
        · rw [Nat.max_eq_left hle]; exact p.highest_aligned
      highest_le := Nat.max_le.mpr ⟨p.highest_le, frame_end_le h⟩
      lastAllocIndex_le :=
        Nat.le_trans p.lastAllocIndex_le (Nat.div_le_div_right (Nat.le_max_left _ _)) }

/-- The loop body for a frame of the kernel image or of the bitmap. -/
def pmmMarkUsed (p : Pmm) (frame : Nat) : Pmm :=
  if frame * 4096 ≥ pmmMaxPhysAddr then p
  else { p with bitmap := pmmBitmapSet p.bitmap frame }

/-- Mark the full frames of a usable memory map entry as free. -/
def pmmAddEntry (p : Pmm) (entry : MemmapEntry) : Pmm :=
  if entry.type = limineMemmapUsable then
    let startFrame := (entry.base + pageSize - 1#64) / pageSize
    let endFrame := (entry.base + entry.length) / pageSize
    forFrames startFrame endFrame pmmMarkFree p
  else p

/-- The size of the kernel image, 16 MiB where the linker symbols make no sense. -/
def kernelSize (ka : KernelAddress) (kernelEnd : U64) : U64 :=
  let size := kernelEnd - ka.virtualBase
  if size = 0#64 ∨ size > 0x20000000#64 then 0x1000000#64 else size

def kernelStartFrame (ka : KernelAddress) : U64 := ka.physicalBase / pageSize

def kernelEndFrame (ka : KernelAddress) (kernelEnd : U64) : U64 :=
  (ka.physicalBase + kernelSize ka kernelEnd + pageSize - 1#64) / pageSize

/-- `memset(pmm_bitmap, 0xFF, PMM_BITMAP_SIZE)` -/
def pmmMarkAll (p : Pmm) : Pmm :=
  { p with bitmap := fun i => if i < pmmBitmapSize then 0xFF#8 else p.bitmap i }

/-- `pmm_last_alloc_index = 0` -/
def pmmResetIndex (p : Pmm) : Pmm :=
  { p with lastAllocIndex := 0, lastAllocIndex_le := Nat.zero_le _ }

/-- `pmm_init`.  Without a response it does not return. -/
def pmmInit (b : BootInfo) (p : Pmm) : Option Pmm := do
  let entries ← b.memmap
  let p := entries.foldl pmmAddEntry (pmmMarkAll p)
  let ka ← b.kernelAddress
  let p := forFrames (kernelStartFrame ka) (kernelEndFrame ka b.kernelEnd) pmmMarkUsed p
  let bitmapStartFrame := b.pmmBitmapAddr / pageSize
  let bitmapEndFrame :=
    (b.pmmBitmapAddr + BitVec.ofNat 64 pmmBitmapSize + pageSize - 1#64) / pageSize
  let p := forFrames bitmapStartFrame bitmapEndFrame pmmMarkUsed p
  return pmmResetIndex p

end PpoOS
