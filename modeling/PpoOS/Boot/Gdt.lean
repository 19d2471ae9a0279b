import PpoOS.Lib.ByteMem
import PpoOS.Lib.CString
import PpoOS.Mm.Paging

/-!
# The descriptor table (`gdt.c`)

`gdt_init` fills the table of seven entries and writes the descriptor of the task state
segment over the last two of them, byte by byte.  The processor reads the base of the
segment from bytes 2, 3, 4, 7 and 8 to 11, and its limit from bytes 0, 1 and half of 6.
**`tssDescriptor_decodes_iff`**: it reads what was meant exactly where bits 24 to 27 of
the address are zero, since `0xF0` masks them out of byte 7.
-/

namespace PpoOS

open ByteMem

/-- `sizeof(gdt)`: seven entries of eight bytes. -/
def gdtSize : Nat := 56

/-- `sizeof(struct tss_entry)` -/
def tssSize : Nat := 104

/-- `gdt`, `gp` and `tss` -/
structure GdtState where
  gdt : Buf gdtSize
  gpLimit : U16
  gpBase : U64
  tss : Buf tssSize

/-- `x & 0xFF` as a `uint8_t`, and the like -/
def maskByte {w : Nat} (x : BitVec w) (mask : BitVec w) : U8 := (x &&& mask).setWidth 8

/-- `set_gdt_entry`, which assigns the fields of `gdt[num]`, here byte by byte. -/
def setGdtEntry (num : Nat) (base limit : U32) (access gran : U8) (gdt : Buf gdtSize) : Option (Buf gdtSize) :=
  gdt.put (8 * num)
    [maskByte limit 0xFF#32, maskByte (limit >>> 8) 0xFF#32,
      maskByte base 0xFF#32, maskByte (base >>> 8) 0xFF#32,
      maskByte (base >>> 16) 0xFF#32, access,
      maskByte (limit >>> 16) 0x0F#32 ||| gran &&& 0xF0#8,
      maskByte (base >>> 24) 0xFF#32]

/-- `desc[0]` to `desc[15]`; the limit is promoted to `int` where it is shifted. -/
def tssDesc (tssBase : U64) (tssLimit : U16) : List U8 :=
  [maskByte tssLimit 0xFF#16,
    maskByte (tssLimit.setWidth 32 >>> 8) 0xFF#32,
    maskByte tssBase 0xFF#64,
    maskByte (tssBase >>> 8) 0xFF#64,
    maskByte (tssBase >>> 16) 0xFF#64,
    0x89#8,
    0#8,
    maskByte (tssLimit.setWidth 32 >>> 16) 0x0F#32 ||| maskByte (tssBase >>> 24) 0xF0#64,
    maskByte (tssBase >>> 32) 0xFF#64,
    maskByte (tssBase >>> 40) 0xFF#64,
    maskByte (tssBase >>> 48) 0xFF#64,
    maskByte (tssBase >>> 56) 0xFF#64,
    0#8, 0#8, 0#8, 0#8]

/-- `gdt_init`, where the linker puts `gdt`, `tss` and `kernel_stack_top` at the given addresses; `tss_limit` is
`sizeof(struct tss_entry) - 1` in the source. -/
def gdtInit (gdtAddr tssAddr kernelStackTop : U64) (tssLimit : U16) (s : GdtState) : Option GdtState := do
  let gdt ← setGdtEntry 0 0#32 0#32 0#8 0#8 s.gdt
  let gdt ← setGdtEntry 1 0#32 0xFFFFF#32 0x9A#8 0xA0#8 gdt
  let gdt ← setGdtEntry 2 0#32 0xFFFFF#32 0x92#8 0xC0#8 gdt
  let gdt ← setGdtEntry 3 0#32 0xFFFFF#32 0xFA#8 0xA0#8 gdt
  let gdt ← setGdtEntry 4 0#32 0xFFFFF#32 0xF2#8 0xC0#8 gdt
  let gdt ← setGdtEntry 5 0#32 0#32 0#8 0#8 gdt
  let gdt ← setGdtEntry 6 0#32 0#32 0#8 0#8 gdt
  let tss ← (Buf.zero tssSize).put 4 ((List.range 8).map (byteOf kernelStackTop))
  let tss ← tss.put 102 [BitVec.ofNat 8 tssSize, 0#8]
  let gdt ← gdt.put 40 (tssDesc tssAddr tssLimit)
  return { gdt, gpLimit := BitVec.ofNat 16 (gdtSize - 1), gpBase := gdtAddr, tss }

/-! ## The descriptor as the processor reads it -/

/-- Byte `i` of the sixteen in `gdt[5]` and `gdt[6]`. -/
def GdtState.descByte (s : GdtState) (i : Nat) : U8 := s.gdt.bytes.getD (40 + i) 0#8

/-- `base_low`, `base_middle1`, `base_middle2` and `base_high`, put together. -/
def descBase (desc : Nat → U8) : U64 :=
  desc 11 ++ desc 10 ++ desc 9 ++ desc 8 ++ desc 7 ++ desc 4 ++ desc 3 ++ desc 2

/-- `limit_low` and the low half of `granularity`, put together. -/
def descLimit (desc : Nat → U8) : BitVec 20 := (desc 6).extractLsb' 0 4 ++ desc 1 ++ desc 0

/-- The descriptor that `gdt_init` writes has the base and the limit of the segment. -/
def TssDecodes (gdtAddr tssAddr kernelStackTop : U64) (tssLimit : U16) (s : GdtState) : Prop :=
  ∃ s', gdtInit gdtAddr tssAddr kernelStackTop tssLimit s = some s' ∧
    descBase s'.descByte = tssAddr ∧ descLimit s'.descByte = tssLimit.setWidth 20

/-! ## The bytes that are written -/

theorem getLsbD_maskByte {w i : Nat} (x mask : BitVec w) (hi : i < 8) :
    (maskByte x mask).getLsbD i = (x.getLsbD i && mask.getLsbD i) := by
  rw [maskByte, BitVec.getLsbD_setWidth, BitVec.getLsbD_and, decide_eq_true hi, Bool.true_and]

theorem maskByte_shift (v : U64) (k : Nat) : maskByte (v >>> k) 0xFF#64 = v.extractLsb' k 8 := by
  have hmask : ∀ i < 8, (0xFF#64).getLsbD i = true := by decide
  refine BitVec.eq_of_getLsbD_eq fun i hi => ?_
  rw [getLsbD_maskByte _ _ hi, hmask i hi, BitVec.getLsbD_ushiftRight, BitVec.getLsbD_extractLsb', decide_eq_true hi,
    Bool.and_true, Bool.true_and]

/-- The high half of byte 3 is all that gets into byte 7. -/
theorem desc_seven (v : U64) (limit : U16) :
    maskByte (limit.setWidth 32 >>> 16) 0x0F#32 ||| maskByte (v >>> 24) 0xF0#64 = byteOf v 3 &&& 0xF0#8 := by
  have hlimit : limit.setWidth 32 >>> 16 = 0#32 := by
    apply BitVec.eq_of_toNat_eq
    have hlt := limit.isLt
    rw [BitVec.toNat_ushiftRight, BitVec.toNat_setWidth, Nat.shiftRight_eq_div_pow, BitVec.toNat_ofNat]
    omega
  have hmask : ∀ i < 8, (0xF0#64).getLsbD i = (0xF0#8).getLsbD i := by decide
  have hzero : maskByte 0#32 0x0F#32 = 0#8 := by decide
  rw [hlimit, hzero, BitVec.zero_or]
  refine BitVec.eq_of_getLsbD_eq fun i hi => ?_
  rw [getLsbD_maskByte _ _ hi, hmask i hi, BitVec.getLsbD_ushiftRight, byteOf, BitVec.getLsbD_and,
    BitVec.getLsbD_extractLsb', decide_eq_true hi, Bool.true_and]

/-- A limit of 16 bits is in its first two bytes. -/
theorem descLimit_bytes (limit : U16) : (0#8).extractLsb' 0 4 ++ maskByte (limit.setWidth 32 >>> 8) 0xFF#32 ++
    maskByte limit 0xFF#16 = limit.setWidth 20 := by
  have hlow : ∀ i < 8, (0xFF#16).getLsbD i = true := by decide
  have hhigh : ∀ i < 8, (0xFF#32).getLsbD i = true := by decide
  refine BitVec.eq_of_getLsbD_eq fun i hi => ?_
  rw [BitVec.getLsbD_append, BitVec.getLsbD_append, BitVec.getLsbD_setWidth, decide_eq_true hi, Bool.true_and]
  by_cases h8 : i < 8
  · rw [if_pos h8, getLsbD_maskByte _ _ h8, hlow i h8, Bool.and_true]
  by_cases h16 : i - 8 < 8
  · have hi8 : 8 + (i - 8) = i := by omega
    rw [if_neg h8, if_pos h16, getLsbD_maskByte _ _ h16, hhigh _ h16, BitVec.getLsbD_ushiftRight,
      BitVec.getLsbD_setWidth, hi8, Bool.and_true, decide_eq_true (by omega), Bool.true_and]
  · have hge : limit.getLsbD i = false := BitVec.getLsbD_of_ge _ _ (by omega)
    have hzero : (0#8).extractLsb' 0 4 = 0#4 := by decide
    rw [if_neg h8, if_neg h16, hzero, hge, BitVec.getLsbD_zero]

/-! ## The table -/

theorem setGdtEntry_isSome (num : Nat) (h : num < 7) (base limit : U32) (access gran : U8) (gdt : Buf gdtSize) :
    ∃ gdt', setGdtEntry num base limit access gran gdt = some gdt' :=
  Option.isSome_iff_exists.mp ((Buf.put_isSome_iff (by unfold gdtSize; omega)).mpr (by
    simp only [List.length_cons, List.length_nil, gdtSize]
    omega))

theorem length_tssDesc (tssBase : U64) (tssLimit : U16) : (tssDesc tssBase tssLimit).length = 16 := rfl

/-- The sixteen bytes of the descriptor are written last. -/
theorem gdtInit_desc (gdtAddr tssAddr kernelStackTop : U64) (tssLimit : U16) (s : GdtState) :
    ∃ s', gdtInit gdtAddr tssAddr kernelStackTop tssLimit s = some s' ∧
      ∀ i < 16, s'.descByte i = (tssDesc tssAddr tssLimit).getD i 0#8 := by
  obtain ⟨g0, h0⟩ := setGdtEntry_isSome 0 (by decide) 0#32 0#32 0#8 0#8 s.gdt
  obtain ⟨g1, h1⟩ := setGdtEntry_isSome 1 (by decide) 0#32 0xFFFFF#32 0x9A#8 0xA0#8 g0
  obtain ⟨g2, h2⟩ := setGdtEntry_isSome 2 (by decide) 0#32 0xFFFFF#32 0x92#8 0xC0#8 g1
  obtain ⟨g3, h3⟩ := setGdtEntry_isSome 3 (by decide) 0#32 0xFFFFF#32 0xFA#8 0xA0#8 g2
  obtain ⟨g4, h4⟩ := setGdtEntry_isSome 4 (by decide) 0#32 0xFFFFF#32 0xF2#8 0xC0#8 g3
  obtain ⟨g5, h5⟩ := setGdtEntry_isSome 5 (by decide) 0#32 0#32 0#8 0#8 g4
  obtain ⟨g6, h6⟩ := setGdtEntry_isSome 6 (by decide) 0#32 0#32 0#8 0#8 g5
  obtain ⟨t1, ht1⟩ := Option.isSome_iff_exists.mp
    ((Buf.put_isSome_iff (b := Buf.zero tssSize) (i := 4) (l := (List.range 8).map (byteOf kernelStackTop))
      (by decide)).mpr (by simp [tssSize]))
  obtain ⟨t2, ht2⟩ := Option.isSome_iff_exists.mp
    ((Buf.put_isSome_iff (b := t1) (i := 102) (l := [BitVec.ofNat 8 tssSize, 0#8]) (by decide)).mpr (by decide))
  obtain ⟨g, hg⟩ := Option.isSome_iff_exists.mp
    ((Buf.put_isSome_iff (b := g6) (i := 40) (l := tssDesc tssAddr tssLimit) (by decide)).mpr (by rw [length_tssDesc, gdtSize]))
  refine ⟨⟨g, BitVec.ofNat 16 (gdtSize - 1), gdtAddr, t2⟩, ?_, fun i hi => ?_⟩
  · rw [gdtInit]
    simp only [Option.bind_eq_bind, Option.pure_def]
    rw [h0, Option.bind_some, h1, Option.bind_some, h2, Option.bind_some, h3, Option.bind_some, h4, Option.bind_some,
      h5, Option.bind_some, h6, Option.bind_some, ht1, Option.bind_some, ht2, Option.bind_some, hg, Option.bind_some]
  · obtain ⟨-, hbytes⟩ := (Buf.put_some_iff (by decide)).mp hg
    have hfront : (g6.bytes.take 40).length = 40 := by
      rw [List.length_take, g6.length_eq]
      rfl
    have hdesc := length_tssDesc tssAddr tssLimit
    rw [GdtState.descByte, hbytes, List.getD_eq_getElem?_getD, List.append_assoc, List.getElem?_append_right (by omega),
      hfront, Nat.add_sub_cancel_left, List.getElem?_append_left (by omega), ← List.getD_eq_getElem?_getD]

/-! ## Decoding -/

theorem eq_mask_iff : ∀ x : U8, x &&& 0xF0#8 = x ↔ x.toNat % 16 = 0 := by decide

/-- The base is right where its byte 3 is. -/
theorem descBase_iff (v : U64) (x : U8) :
    byteOf v 7 ++ byteOf v 6 ++ byteOf v 5 ++ byteOf v 4 ++ x ++ byteOf v 2 ++ byteOf v 1 ++ byteOf v 0 = v ↔
      x = byteOf v 3 := by
  constructor
  · intro h
    have heq := h.trans (bytes_append v).symm
    have hfront := (append_inj (append_inj (append_inj heq).1).1).1
    exact (append_inj hfront).2
  · rintro rfl
    exact bytes_append v

/-- **Where the descriptor decodes back.** -/
theorem tssDescriptor_decodes_iff (gdtAddr tssAddr kernelStackTop : U64) (tssLimit : U16) (s : GdtState) :
    TssDecodes gdtAddr tssAddr kernelStackTop tssLimit s ↔ tssAddr.toNat / 2 ^ 24 % 16 = 0 := by
  obtain ⟨s', hs', hdesc⟩ := gdtInit_desc gdtAddr tssAddr kernelStackTop tssLimit s
  have hlimit : descLimit s'.descByte = tssLimit.setWidth 20 := by
    rw [descLimit, hdesc 6 (by decide), hdesc 1 (by decide), hdesc 0 (by decide)]
    exact descLimit_bytes tssLimit
  have hbase : descBase s'.descByte = byteOf tssAddr 7 ++ byteOf tssAddr 6 ++ byteOf tssAddr 5 ++ byteOf tssAddr 4 ++
      (byteOf tssAddr 3 &&& 0xF0#8) ++ byteOf tssAddr 2 ++ byteOf tssAddr 1 ++ byteOf tssAddr 0 := by
    rw [descBase, hdesc 11 (by decide), hdesc 10 (by decide), hdesc 9 (by decide), hdesc 8 (by decide),
      hdesc 7 (by decide), hdesc 4 (by decide), hdesc 3 (by decide), hdesc 2 (by decide)]
    have hseven := desc_seven tssAddr tssLimit
    have hzero : maskByte tssAddr 0xFF#64 = byteOf tssAddr 0 := maskByte_shift tssAddr 0
    simp only [tssDesc, List.getD_cons_succ, List.getD_cons_zero, hseven, hzero, maskByte_shift]
    rfl
  have hthree : (byteOf tssAddr 3).toNat = tssAddr.toNat / 2 ^ 24 % 256 := by
    rw [byteOf, BitVec.extractLsb'_toNat, Nat.shiftRight_eq_div_pow]
  rw [← Nat.mod_mod_of_dvd (tssAddr.toNat / 2 ^ 24) (by decide : 16 ∣ 256), ← hthree, ← eq_mask_iff, ← descBase_iff]
  constructor
  · rintro ⟨s'', hs'', hdecoded, -⟩
    obtain rfl := Option.some.inj (hs'.symm.trans hs'')
    exact hbase.symm.trans hdecoded
  · intro h
    exact ⟨s', hs', hbase.trans h, hlimit⟩

/-- A segment 16 MiB behind the start of the kernel is taken for one at the start. -/
theorem tssDescriptor_misplaced :
    ¬TssDecodes 0xFFFFFFFF81000000#64 0xFFFFFFFF81000040#64 0xFFFFFFFF81004000#64 103#16
      ⟨Buf.zero gdtSize, 0#16, 0#64, Buf.zero tssSize⟩ := by
  rintro ⟨s', hs', hbase, -⟩
  have hrun : (gdtInit 0xFFFFFFFF81000000#64 0xFFFFFFFF81000040#64 0xFFFFFFFF81004000#64 103#16
      ⟨Buf.zero gdtSize, 0#16, 0#64, Buf.zero tssSize⟩).map (fun s => descBase s.descByte) =
      some 0xFFFFFFFF80000040#64 := by decide
  rw [hs', Option.map_some, hbase] at hrun
  exact absurd hrun (by decide)

end PpoOS
