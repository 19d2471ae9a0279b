import PpoOS.Lib.ByteMem

/-!
# Page-table entries and addresses (`vmm.h`)

The constants of `vmm.h`, the four table indices of a virtual address and the
decoding of an entry.  A physical frame is named by its number, so that frames
are compared as numbers; `frameAddr` is its address.
-/

namespace PpoOS

abbrev U8 := BitVec 8
abbrev U16 := BitVec 16
abbrev U32 := BitVec 32
abbrev U64 := BitVec 64

/-! ## Constants -/

def ptePresent : U64 := 1#64 <<< 0
def pteWritable : U64 := 1#64 <<< 1
def pteUser : U64 := 1#64 <<< 2
def pteWriteThrough : U64 := 1#64 <<< 3
def pteCacheDisable : U64 := 1#64 <<< 4
def pteAccessed : U64 := 1#64 <<< 5
def pteDirty : U64 := 1#64 <<< 6
def ptePat : U64 := 1#64 <<< 7
def pteGlobal : U64 := 1#64 <<< 8
def pteNx : U64 := 1#64 <<< 63

def pageSize : U64 := 4096#64

/-- `PAGE_MASK` is an `int` expression: it is sign-extended to 64 bits where it is used. -/
def pageMask : U64 := (~~~(4096#32 - 1#32)).signExtend 64

/-! ## Frames -/

/-- The physical address of frame `f`. -/
def frameAddr (f : Nat) : U64 := BitVec.ofNat 64 (f * 4096)

/-- The frame that holds a physical address. -/
def frameOf (a : U64) : Nat := a.toNat / 4096

theorem frameAddr_toNat {f : Nat} (h : f < 2 ^ 52) : (frameAddr f).toNat = f * 4096 := by
  rw [frameAddr, BitVec.toNat_ofNat, Nat.mod_eq_of_lt (by omega)]

theorem frameAddr_inj {f g : Nat} (hf : f < 2 ^ 52) (hg : g < 2 ^ 52)
    (h : frameAddr f = frameAddr g) : f = g := by
  have h' := congrArg BitVec.toNat h
  rw [frameAddr_toNat hf, frameAddr_toNat hg] at h'
  omega

@[simp] theorem frameOf_frameAddr {f : Nat} (h : f < 2 ^ 52) : frameOf (frameAddr f) = f := by
  rw [frameOf, frameAddr_toNat h, Nat.mul_div_cancel _ (by decide)]

theorem frameAddr_ne_zero {f : Nat} (h : f < 2 ^ 52) (h0 : 0 < f) : frameAddr f ≠ 0#64 := by
  intro hz
  have := congrArg BitVec.toNat hz
  rw [frameAddr_toNat h] at this
  simp at this
  omega

theorem pageMask_eq : pageMask = BitVec.allOnes 64 <<< 12 := by decide

theorem and_pageMask (a : U64) : a &&& pageMask = (a >>> 12) <<< 12 := by
  apply BitVec.eq_of_getLsbD_eq
  intro i hi
  rw [pageMask_eq]
  simp only [BitVec.getLsbD_and, BitVec.getLsbD_shiftLeft, BitVec.getLsbD_allOnes,
    BitVec.getLsbD_ushiftRight]
  by_cases h : i < 12
  · simp [h]
  · have hs : 12 + (i - 12) = i := by omega
    have hr : i - 12 < 64 := by omega
    simp [h, hi, hs, hr]

theorem and_pageMask_toNat (a : U64) : (a &&& pageMask).toNat = a.toNat / 4096 * 4096 := by
  have h := a.isLt
  rw [and_pageMask, BitVec.toNat_shiftLeft, BitVec.toNat_ushiftRight, Nat.shiftRight_eq_div_pow,
    Nat.shiftLeft_eq]
  omega

theorem and_pageMask_idem (a : U64) : (a &&& pageMask) &&& pageMask = a &&& pageMask := by
  rw [BitVec.and_assoc, BitVec.and_self]

/-- Masking an address gives the start of its frame. -/
theorem and_pageMask_eq (a : U64) : a &&& pageMask = frameAddr (frameOf a) := by
  have h := a.isLt
  apply BitVec.eq_of_toNat_eq
  rw [and_pageMask_toNat, frameAddr_toNat (by unfold frameOf; omega), frameOf]

/-! ## Table indices -/

/-- A table index: nine bits of a virtual address. -/
abbrev Idx := BitVec 9

def pml4Index (virtAddr : U64) : U64 := (virtAddr >>> 39) &&& 0x1FF#64
def pdptIndex (virtAddr : U64) : U64 := (virtAddr >>> 30) &&& 0x1FF#64
def pdIndex (virtAddr : U64) : U64 := (virtAddr >>> 21) &&& 0x1FF#64
def ptIndex (virtAddr : U64) : U64 := (virtAddr >>> 12) &&& 0x1FF#64

/-- The indices of the upper three tables. -/
def tablePath (virtAddr : U64) : List Idx :=
  [virtAddr.extractLsb' 39 9, virtAddr.extractLsb' 30 9, virtAddr.extractLsb' 21 9]

/-- The index of the page table. -/
def leafIdx (virtAddr : U64) : Idx := virtAddr.extractLsb' 12 9

/-- `&table->entries[index]` -/
def entryPtr (table index : U64) : U64 := table + 8#64 * index

/-- The address of entry `i` of the table in frame `f`. -/
def entryAddr (f : Nat) (i : Idx) : U64 := entryPtr (frameAddr f) (i.setWidth 64)

theorem index_eq (a : U64) (s : Nat) :
    (a >>> s) &&& 0x1FF#64 = (a.extractLsb' s 9).setWidth 64 := by
  apply BitVec.eq_of_toNat_eq
  have h9 : (0x1FF#64).toNat = 2 ^ 9 - 1 := by decide
  rw [BitVec.toNat_and, BitVec.toNat_ushiftRight, BitVec.toNat_setWidth, BitVec.extractLsb'_toNat,
    h9, Nat.and_two_pow_sub_one_eq_mod]
  omega

theorem entryAddr_toNat {f : Nat} {i : Idx} (h : f < 2 ^ 51) :
    (entryAddr f i).toNat = f * 4096 + 8 * i.toNat := by
  have hi := i.isLt
  have h8 : (8#64).toNat = 8 := by decide
  rw [entryAddr, entryPtr, BitVec.toNat_add, BitVec.toNat_mul, frameAddr_toNat (by omega),
    BitVec.toNat_setWidth, h8]
  omega

/-! ## Entries -/

/-- The frame an entry refers to: its bits 12 to 51. -/
def entryFrame (e : U64) : Nat := (e.extractLsb' 12 40).toNat

def entryPresent (e : U64) : Bool := e.getLsbD 0
def entryWritable (e : U64) : Bool := e.getLsbD 1
def entryUser (e : U64) : Bool := e.getLsbD 2
def entryNx (e : U64) : Bool := e.getLsbD 63

/-- The table or page a present entry refers to. -/
def entryChild (e : U64) : Option Nat := if entryPresent e then some (entryFrame e) else none

/-- A present entry, as a leaf of the translation. -/
def entryLeaf (e : U64) : Option U64 := if entryPresent e then some e else none

theorem entryFrame_eq (e : U64) : entryFrame e = e.toNat / 4096 % 2 ^ 40 := by
  rw [entryFrame, BitVec.extractLsb'_toNat, Nat.shiftRight_eq_div_pow]

theorem and_ptePresent (e : U64) : e &&& ptePresent ≠ 0#64 ↔ entryPresent e = true := by
  have h1 : ptePresent = BitVec.twoPow 64 0 := by decide
  have h0 : BitVec.twoPow 64 0 ≠ 0#64 := by decide
  rw [h1, BitVec.and_twoPow, entryPresent]
  split <;> simp_all

theorem and_ptePresent_eq_zero {e : U64} : e &&& ptePresent = 0#64 ↔ entryPresent e = false := by
  rw [← Bool.not_eq_true, ← and_ptePresent]
  simp

@[simp] theorem entryPresent_zero : entryPresent 0#64 = false := by decide
@[simp] theorem entryChild_zero : entryChild 0#64 = none := by decide
@[simp] theorem entryLeaf_zero : entryLeaf 0#64 = none := by decide

theorem entryChild_of_present {e : U64} (h : entryPresent e = true) :
    entryChild e = some (entryFrame e) := if_pos h

theorem entryChild_eq_none {e : U64} : entryChild e = none ↔ entryPresent e = false := by
  unfold entryChild
  cases entryPresent e <;> simp

theorem entryLeaf_eq_some {e v : U64} : entryLeaf e = some v ↔ entryPresent e = true ∧ e = v := by
  unfold entryLeaf
  cases entryPresent e <;> simp

/-- A frame number put into an entry reads back, when the flags keep out of its bits. -/
theorem entryFrame_or {f : Nat} {flags : U64} (hf : f < 2 ^ 40)
    (h : flags.extractLsb' 12 40 = 0#40) : entryFrame (frameAddr f ||| flags) = f := by
  rw [entryFrame, BitVec.extractLsb'_or, h, BitVec.or_zero]
  have := entryFrame_eq (frameAddr f)
  rw [entryFrame, frameAddr_toNat (by omega)] at this
  omega

/-- The entry `vmm_map_page` puts into an upper table: `phys | PRESENT | WRITABLE | USER`. -/
def tableEntryOf (phys : U64) : U64 := phys ||| ptePresent ||| pteWritable ||| pteUser

theorem tableEntryOf_eq (phys : U64) : tableEntryOf phys = phys ||| 7#64 := by
  have h7 : ptePresent ||| pteWritable ||| pteUser = 7#64 := by decide
  rw [tableEntryOf, BitVec.or_assoc, BitVec.or_assoc, ← h7, BitVec.or_assoc]

theorem entryFrame_tableEntryOf {f : Nat} (hf : f < 2 ^ 40) :
    entryFrame (tableEntryOf (frameAddr f)) = f := by
  rw [tableEntryOf_eq]
  exact entryFrame_or hf (by decide)

theorem entryPresent_tableEntryOf (a : U64) : entryPresent (tableEntryOf a) = true := by
  rw [tableEntryOf_eq, entryPresent, BitVec.getLsbD_or]
  simp

theorem entryUser_tableEntryOf (a : U64) : entryUser (tableEntryOf a) = true := by
  rw [tableEntryOf_eq, entryUser, BitVec.getLsbD_or]
  simp

/-- Bits below the frame number are added to it. -/
theorem frame_add_eq_or {b : Nat} (hb : b < 4096) (f : Nat) : 4096 * f + b = 4096 * f ||| b :=
  Nat.two_pow_add_eq_or_of_lt (i := 12) hb f

theorem tableEntryOf_toNat {f : Nat} (hf : f < 2 ^ 52) :
    (tableEntryOf (frameAddr f)).toNat = f * 4096 + 7 := by
  have h7 : (7#64).toNat = 7 := by decide
  rw [tableEntryOf_eq, BitVec.toNat_or, frameAddr_toNat hf, h7, Nat.mul_comm,
    ← frame_add_eq_or (by decide)]

end PpoOS
