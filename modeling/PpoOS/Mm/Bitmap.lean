import PpoOS.Mm.Verify.UserHalf

/-!
# Where the bitmap lies

`Kernel` has the allocator's variables beside the memory: the kernel reaches them in its own half,
through tables that every address space shares.  `exec_elf` maps a segment wherever its header
says, so a program's page may come to lie over them.  `vmm_map_page` invalidates no translation
that the processor holds, so the kernel goes on with its own page until the tables are walked
again.  `Kernel.readAgain` is that moment, for the pages of a program: the bytes of `pmm_bitmap`
that lie on them are from then on the bytes of the program's frames.

Of the kernel's variables only `pmm_bitmap` is given a place; a theorem that says that no page of
a program lies in a slot of the kernel's PML4 says so of all of them.
-/

namespace PpoOS

open ByteMem

/-- Where the byte at `va` lies that the leaf `e` maps. -/
def byteAddr (e va : U64) : U64 := frameAddr (entryFrame e) + BitVec.ofNat 64 (va.toNat % 4096)

/-- The page of `va` lies below an entry of the kernel's PML4 that the address spaces share. -/
def SharedPage (k : Kernel) (va : U64) : Prop :=
  256 ≤ (rootIdx va).toNat ∧
    entryPresent (tableAt k.mem (frameOf k.gKernelPml4) (rootIdx va)) = true

/-- The address of byte `i` of `pmm_bitmap`, which the linker put at `b`. -/
def bitmapByte (b : U64) (i : Nat) : U64 := b + BitVec.ofNat 64 i

/-- `pmm_bitmap` as the kernel reads it once the entries for `pages` have been read again.  No page
of the kernel is accessible from user mode, and every page of a program is. -/
def bitmapAgain (b : U64) (pages : List U64) (k : Kernel) : Bitmap := fun i =>
  if i < pmmBitmapSize ∧ pageIdx (bitmapByte b i) ∈ pages.map pageIdx then
    match (translate k.mem (frameOf k.gKernelPml4) (bitmapByte b i)).filter entryUser with
    | some e => k.mem (byteAddr e (bitmapByte b i))
    | none => k.pmm.bitmap i
  else k.pmm.bitmap i

def Kernel.readAgain (b : U64) (pages : List U64) (k : Kernel) : Kernel :=
  k.setPmm { k.pmm with bitmap := bitmapAgain b pages k }

/-- The bitmap lies in the kernel half. -/
def BitmapShared (b : U64) (k : Kernel) : Prop := ∀ i < pmmBitmapSize, SharedPage k (bitmapByte b i)

section

variable {b : U64} {pages : List U64} {k k' : Kernel}

theorem SharedPage.of_pageIdx {va va' : U64} (h : SharedPage k va) (hpage : pageIdx va = pageIdx va') :
    SharedPage k va' := by
  have hroot : rootIdx va = rootIdx va' := (List.cons.inj (path_eq_iff.mpr hpage).1).1
  rwa [SharedPage, ← hroot]

/-- A page of the user half lies below none of the shared entries. -/
theorem UserHalf.not_shared {va : U64} (h : UserHalf va) : ¬SharedPage k va := by
  rintro ⟨hhigh, -⟩
  unfold UserHalf at h
  omega

/-- Pages beside the bitmap do not change it. -/
theorem Kernel.readAgain_other
    (h : ∀ page ∈ pages, ∀ i < pmmBitmapSize, pageIdx page ≠ pageIdx (bitmapByte b i)) :
    k.readAgain b pages = k := by
  have hbitmap : bitmapAgain b pages k = k.pmm.bitmap := by
    funext i
    refine if_neg ?_
    rintro ⟨hi, hmem⟩
    obtain ⟨page, hpage, heq⟩ := List.mem_map.mp hmem
    exact h page hpage i hi heq
  rw [Kernel.readAgain, hbitmap]
  rfl

/-- Neither do pages that lie below none of the shared entries. -/
theorem BitmapShared.readAgain (hb : BitmapShared b k) (h : ∀ page ∈ pages, ¬SharedPage k page) :
    k'.readAgain b pages = k' :=
  Kernel.readAgain_other fun page hmem i hi hpage => h page hmem ((hb i hi).of_pageIdx hpage.symm)

end

/-! ## A kernel image at the end of the address space -/

/-- A memory that holds these tables. -/
def tablesMem (entry : Nat → Idx → U64) : Mem := fun a =>
  byteOf (entry (frameOf a) (BitVec.ofNat 9 (a.toNat / 8))) (a.toNat % 8)

theorem tableAt_tablesMem (entry : Nat → Idx → U64) {f : Nat} (hf : f < frameBound) (i : Idx) :
    tableAt (tablesMem entry) f i = entry f i := by
  have hi := i.isLt
  unfold frameBound at hf
  have hat : (entryAddr f i).toNat = f * 4096 + 8 * i.toNat := entryAddr_toNat (by omega)
  have hbyte : ∀ j, j < 8 → tablesMem entry (entryAddr f i + BitVec.ofNat 64 j) = byteOf (entry f i) j := by
    intro j hj
    have haddr : (entryAddr f i + BitVec.ofNat 64 j).toNat = f * 4096 + 8 * i.toNat + j := by
      rw [toNat_add_ofNat (by omega), hat]
    have hframe : frameOf (entryAddr f i + BitVec.ofNat 64 j) = f := by
      rw [frameOf, haddr]
      omega
    have hidx : BitVec.ofNat 9 ((f * 4096 + 8 * i.toNat + j) / 8) = i := by
      apply BitVec.eq_of_toNat_eq
      rw [BitVec.toNat_ofNat]
      omega
    rw [tablesMem, hframe, haddr, hidx, show (f * 4096 + 8 * i.toNat + j) % 8 = j by omega]
  rw [tableAt, ← load64_store64 (tablesMem entry) (entryAddr f i) (entry f i)]
  refine load64_congr fun j hj => ?_
  rw [hbyte j hj, store64, blit_at _ _ _ (by omega) hj]

/-- Four tables below entry 511 of the PML4 in frame 1, and behind them the kernel's pages in
frames 5 to 36: the bitmap fills them. -/
def imageEntry (f : Nat) (i : Idx) : U64 :=
  if f = 1 ∧ i = 511#9 then 0x2003#64
  else if f = 2 ∧ i = 510#9 then 0x3003#64
  else if f = 3 ∧ i = 0#9 then 0x4003#64
  else if f = 4 ∧ i.toNat < 32 then BitVec.ofNat 64 ((5 + i.toNat) * 4096 + 3)
  else 0#64

/-- Where the kernel is linked, and in this image the bitmap too. -/
def imageBase : U64 := 0xffffffff80000000#64

/-- A machine at boot with that image. -/
def imageKernel (pmm : Pmm) : Kernel where
  mem := tablesMem imageEntry
  pmm := pmm
  gKernelPml4 := 0x1000#64
  cr3 := 0x1000#64
  nextPid := 1#64
  spaces := []
  reads := []

theorem imageKernel_bitmap (pmm : Pmm) : BitmapShared imageBase (imageKernel pmm) := by
  intro i hi
  have hsize : pmmBitmapSize = 131072 := by decide
  have hat : (bitmapByte imageBase i).toNat = 0xffffffff80000000 + i := toNat_add_ofNat (by
    rw [show imageBase.toNat = 0xffffffff80000000 by decide]
    omega)
  have hroot : rootIdx (bitmapByte imageBase i) = 511#9 := by
    apply BitVec.eq_of_toNat_eq
    rw [rootIdx, BitVec.extractLsb'_toNat, Nat.shiftRight_eq_div_pow, hat, BitVec.toNat_ofNat]
    omega
  have hframe : frameOf (imageKernel pmm).gKernelPml4 = 1 := (by decide : frameOf 0x1000#64 = 1)
  rw [SharedPage, hroot, hframe]
  refine ⟨by decide, ?_⟩
  rw [show (imageKernel pmm).mem = tablesMem imageEntry from rfl,
    tableAt_tablesMem _ (by unfold frameBound; omega)]
  decide

end PpoOS
