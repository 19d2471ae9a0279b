import PpoOS.Fs.Verify.Addresses
import PpoOS.Fs.Verify.FlatRead

/-!
# Holes of a file

The loops over a directory take a block pointer of 0 for a hole;
`ext2_read_inode_data` reads block 0 there.  **`sparseRead_iff`**: a read gives zeros
for the holes of a file, and the bytes of its blocks, exactly where block 0 is zero at
the places of the holes that are read, no block address wraps to another byte, and the
end of the request does not wrap around.
-/

namespace PpoOS

open Blocks

variable {e : Ext2} {m : Memory} {inode : Ptr} {offset len : U64}

/-! ## Sparse files -/

/-- The block size is `1024 << log_block_size`, and the blocks lie in the image. -/
structure SparseImage (e : Ext2) (m : Memory) : Prop where
  data : e.data ≠ Ptr.null
  size : ∃ k, 10 ≤ k ∧ k < 32 ∧ e.blockSize.toNat = 2 ^ k
  blocks : 0 < (e.blocksCount m).toNat
  inside : (e.blocksCount m).toNat * e.blockSize.toNat ≤ e.size.toNat

/-- A file of direct blocks and holes. -/
structure SparseFile (e : Ext2) (m : Memory) (inode : Ptr) : Prop where
  size : (inodeFileSize m inode).toNat ≤ 12 * e.blockSize.toNat
  blocks : ∀ k < 12, inodeBlock m inode k = 0#32 ∨ inodeBlock m inode k < e.blocksCount m

/-- The block pointer for byte `n`. -/
def byteBlock (e : Ext2) (m : Memory) (inode : Ptr) (n : Nat) : U32 := inodeBlock m inode (n / e.blockSize.toNat)

/-- Byte `n`: zero in a hole, else that of its block. -/
def sparseByte (e : Ext2) (m : Memory) (inode : Ptr) (n : Nat) : U8 :=
  if byteBlock e m inode n = 0#32 then 0#8
  else m.load (e.data.add (BitVec.ofNat 64 (e.blockPlace (byteBlock e m inode n) + n % e.blockSize.toNat)))

/-- How much there is to read. -/
def sparseLen (m : Memory) (inode : Ptr) (offset len : U64) : Nat :=
  min len.toNat ((inodeFileSize m inode).toNat - offset.toNat)

/-- The read gives every byte that there is. -/
def SparseRead (e : Ext2) (m : Memory) (inode : Ptr) (offset len : U64) : Prop :=
  ext2ReadInodeData e m inode offset len =
    some ((List.range (sparseLen m inode offset len)).map fun j => sparseByte e m inode (offset.toNat + j))

/-- Block 0 is zero where a hole is read, and a block of the file is read at its place, or at one with the
same byte. -/
structure HolesZero (e : Ext2) (m : Memory) (inode : Ptr) (offset len : U64) : Prop where
  hole : ∀ j < sparseLen m inode offset len, byteBlock e m inode (offset.toNat + j) = 0#32 →
    m.load (e.data.add (BitVec.ofNat 64 ((offset.toNat + j) % e.blockSize.toNat))) = 0#8
  block : ∀ j < sparseLen m inode offset len, byteBlock e m inode (offset.toNat + j) ≠ 0#32 →
    e.blockPlace (byteBlock e m inode (offset.toNat + j)) < 2 ^ 32 ∨
      m.load (e.data.add (BitVec.ofNat 64 (e.blockPlace (byteBlock e m inode (offset.toNat + j)) % 2 ^ 32 +
        (offset.toNat + j) % e.blockSize.toNat))) = sparseByte e m inode (offset.toNat + j)

/-- The end of the request does not wrap around.  Where it wraps to zero, the twelve blocks are read to
their end, which may be that of the file. -/
def EndFits (e : Ext2) (m : Memory) (inode : Ptr) (offset len : U64) : Prop :=
  offset.toNat + len.toNat < 2 ^ 64 ∨
    offset.toNat + len.toNat = 2 ^ 64 ∧ (inodeFileSize m inode).toNat = 12 * e.blockSize.toNat

/-- Where a read gives every byte. -/
inductive SparseFits (e : Ext2) (m : Memory) (inode : Ptr) (offset len : U64) : Prop
  | behind (h : (inodeFileSize m inode).toNat ≤ offset.toNat)
  | zeros (ends : EndFits e m inode offset len) (holes : HolesZero e m inode offset len)

/-! ## The bytes that are read -/

/-- Byte `n` as the read has it: at the wrapped address of its block, and of block 0 in a hole. -/
def wrappedByte (e : Ext2) (m : Memory) (inode : Ptr) (n : Nat) : U8 :=
  m.load (e.data.add (BitVec.ofNat 64 (e.blockPlace (byteBlock e m inode n) % 2 ^ 32 + n % e.blockSize.toNat)))

theorem wrappedByte_hole {n : Nat} (h : byteBlock e m inode n = 0#32) :
    wrappedByte e m inode n = m.load (e.data.add (BitVec.ofNat 64 (n % e.blockSize.toNat))) := by
  have hplace : e.blockPlace 0#32 = 0 := Nat.zero_mul _
  rw [wrappedByte, h, hplace, Nat.zero_mod, Nat.zero_add]

theorem holesZero_iff : HolesZero e m inode offset len ↔ ∀ j < sparseLen m inode offset len,
    wrappedByte e m inode (offset.toNat + j) = sparseByte e m inode (offset.toNat + j) := by
  constructor
  · intro h j hj
    by_cases hhole : byteBlock e m inode (offset.toNat + j) = 0#32
    · rw [wrappedByte_hole hhole, sparseByte, if_pos hhole]
      exact h.hole j hj hhole
    · rcases h.block j hj hhole with hlt | hbyte
      · rw [wrappedByte, sparseByte, if_neg hhole, Nat.mod_eq_of_lt hlt]
      · exact hbyte
  · intro h
    refine ⟨fun j hj hhole => ?_, fun j hj _ => Or.inr (h j hj)⟩
    rw [← wrappedByte_hole hhole, h j hj, sparseByte, if_pos hhole]

section Image

variable (himage : SparseImage e m)

include himage

theorem SparseImage.size_pos : 0 < e.blockSize.toNat := by
  obtain ⟨k, -, -, hk⟩ := himage.size
  rw [hk]
  exact Nat.two_pow_pos k

theorem SparseImage.size_ne : e.blockSize ≠ 0#32 := by
  intro hzero
  have hpos := himage.size_pos
  rw [hzero] at hpos
  exact absurd hpos (Nat.lt_irrefl _)

/-- Every block of the image can be read, at its wrapped address. -/
theorem SparseImage.reads {b : U32} (hb : b = 0#32 ∨ b < e.blocksCount m) :
    ext2ReadBlock e m b = some (e.data.add (BitVec.ofNat 64 (e.blockPlace b % 2 ^ 32))) := by
  have hcount : b.toNat < (e.blocksCount m).toNat := by
    rcases hb with rfl | hb
    · exact himage.blocks
    · exact hb
  have hblock : e.blockPlace b + e.blockSize.toNat ≤ e.size.toNat := by
    have hmul : (b.toNat + 1) * e.blockSize.toNat ≤ (e.blocksCount m).toNat * e.blockSize.toNat :=
      Nat.mul_le_mul_right _ hcount
    rw [Nat.succ_mul] at hmul
    exact Nat.le_trans hmul himage.inside
  have hwrapped : e.blockPlace b % 2 ^ 32 ≤ e.blockPlace b := Nat.mod_le _ _
  have hsome : ¬(e.data = Ptr.null ∨ e.blockSize = 0#32 ∨ b ≥ e.blocksCount m) := by
    rintro (h | h | h)
    · exact himage.data h
    · exact himage.size_ne h
    · exact Nat.not_le.mpr hcount h
  rw [ext2ReadBlock_wrapped, if_neg hsome, if_neg (by omega)]

variable (hfile : SparseFile e m inode)

include hfile

/-- The bytes of the file, as the read has them. -/
theorem SparseFile.flatByte {n : Nat} (hn : n < 12 * e.blockSize.toNat) :
    flatByte e m inode n = some (wrappedByte e m inode n) := by
  have hk : n / e.blockSize.toNat < 12 := Nat.div_lt_of_lt_mul (by rwa [Nat.mul_comm])
  have hread := himage.reads (hfile.blocks _ hk)
  rw [PpoOS.flatByte, hread, Option.map_some, Memory.Ptr_add_add, ← BitVec.ofNat_add, wrappedByte, byteBlock]

/-- All of them from `offset` on. -/
theorem SparseFile.bytes {bytes : List U8} {n : Nat} (hlen : bytes.length = n)
    (hn : offset.toNat + n ≤ 12 * e.blockSize.toNat) (hflat : FlatBytes e m inode offset.toNat bytes) :
    bytes = (List.range n).map fun j => wrappedByte e m inode (offset.toNat + j) := by
  refine List.ext_getElem? fun j => ?_
  by_cases hj : j < bytes.length
  · rw [hflat j hj, hfile.flatByte himage (by omega), List.getElem?_map, List.getElem?_range (hlen ▸ hj),
      Option.map_some]
  · rw [List.getElem?_eq_none (Nat.not_lt.mp hj), List.getElem?_eq_none]
    rw [List.length_map, List.length_range]
    omega

/-- A read whose end does not wrap around. -/
theorem SparseFile.read (hoffset : offset.toNat < (inodeFileSize m inode).toNat)
    (hwrap : offset.toNat + len.toNat < 2 ^ 64) :
    ext2ReadInodeData e m inode offset len = some ((List.range (sparseLen m inode offset len)).map fun j =>
      wrappedByte e m inode (offset.toNat + j)) := by
  have hsize := hfile.size
  have hlen : flatLen e m inode offset len = sparseLen m inode offset len := by
    rw [flatLen, sparseLen]
    omega
  have hbound : offset.toNat + sparseLen m inode offset len ≤ 12 * e.blockSize.toNat := by
    rw [sparseLen]
    omega
  have hbegins : offset < (inodeFileSize m inode).setWidth 64 := by
    rw [BitVec.lt_def, toNat_blockSize64]
    exact hoffset
  have hread : FlatReadable e m inode offset len := fun j hj => by
    have hk : (offset.toNat + j) / e.blockSize.toNat < 12 :=
      Nat.div_lt_of_lt_mul (by rw [Nat.mul_comm]; omega)
    rw [himage.reads (hfile.blocks _ hk)]
    rfl
  obtain ⟨bytes, hbytes, hlength, hflat⟩ := ext2ReadInodeData_bytes himage.size_ne hbegins hwrap hread
  rw [hbytes, hfile.bytes himage (hlength.trans hlen) hbound hflat]

end Image

/-! ## Ends that wrap around -/

section Wraps

variable {start stop i : U32}

/-- A request that ends at 2 ^ 64 takes all of a block from its start in it on. -/
theorem inodeDataLoop_rest (h : DataRequest e.blockSize offset len start stop)
    (hend : offset.toNat + len.toNat = 2 ^ 64) (hi : start.toNat ≤ i.toNat) (hlt : i.toNat < 12)
    (hstop : 12 ≤ stop.toNat) {block : Ptr} (hblock : ext2ReadBlock e m (inodeBlock m inode i.toNat) = some block)
    {acc : List U8} (hacc : acc.length = low e.blockSize.toNat offset.toNat i.toNat - offset.toNat) (fuel : Nat) :
    inodeDataLoop e m inode offset len start stop (fuel + 1) i acc =
      inodeDataLoop e m inode offset len start stop fuel (i + 1#32)
        (acc ++ requestBytes e m block offset len i.toNat) := by
  have hB := e.blockSize.isLt
  have hoffset := h.begins
  have hmul : e.blockSize.toNat * i.toNat ≤ e.blockSize.toNat * 11 := Nat.mul_le_mul_left _ (by omega)
  have hhigh : high e.blockSize.toNat (offset.toNat + len.toNat) i.toNat =
      e.blockSize.toNat * i.toNat + e.blockSize.toNat := by
    rw [high, Nat.mul_succ]
    omega
  have hparts := low_lt_high h.size (h.first ▸ hi) (show offset.toNat < offset.toNat + len.toNat by omega)
    (show e.blockSize.toNat * i.toNat < offset.toNat + len.toNat by omega)
  have hfrom : offset.toNat ≤ low e.blockSize.toNat offset.toNat i.toNat := le_low
  have hmulLow : e.blockSize.toNat * i.toNat ≤ low e.blockSize.toNat offset.toNat i.toNat := mul_le_low
  have hfirst := h.part_first (i := i) hi
  have hzero : (offset + len).toNat = 0 := by
    rw [BitVec.toNat_add, hend, Nat.mod_self]
  -- no block ends the request
  have hsecond : (inodeDataPart e.blockSize offset len start stop i).2.toNat =
      high e.blockSize.toNat (offset.toNat + len.toNat) i.toNat - low e.blockSize.toNat offset.toNat i.toNat := by
    rw [inodeDataPart_second h.size, hzero, Nat.zero_mod, if_neg fun h => Nat.lt_irrefl 0 h.2, BitVec.toNat_sub,
      toNat_blockSize64, hfirst]
    omega
  have hbytes : requestBytes e m block offset len i.toNat =
      m.bytes (block.add (inodeDataPart e.blockSize offset len start stop i).1)
        (inodeDataPart e.blockSize offset len start stop i).2.toNat := by
    rw [requestBytes, hsecond, ← hfirst, BitVec.ofNat_toNat, BitVec.setWidth_eq]
  have hcount : (BitVec.ofNat 64 acc.length).toNat = acc.length := by
    rw [BitVec.toNat_ofNat]
    omega
  have hsum := toNat_add_of_lt (a := BitVec.ofNat 64 acc.length)
    (b := (inodeDataPart e.blockSize offset len start stop i).2) (by omega)
  have hcut : ¬BitVec.ofNat 64 acc.length + (inodeDataPart e.blockSize offset len start stop i).2 > len := by
    rw [gt_iff_lt, BitVec.lt_def, hsum, hcount]
    omega
  have hmore : ¬BitVec.ofNat 64 (acc ++ requestBytes e m block offset len i.toNat).length ≥ len := by
    rw [hbytes, List.length_append, Memory.bytes_length, ge_iff_le, BitVec.le_def, BitVec.toNat_ofNat]
    omega
  have hin : i ≤ stop ∧ i < 12#32 := ⟨Nat.le_trans (Nat.le_of_lt hlt) hstop, hlt⟩
  rw [inodeDataLoop, if_pos hin, hblock]
  dsimp only
  rw [if_neg hcut, ← hbytes, if_neg hmore]

/-- Such a request reads the twelve blocks to their end. -/
theorem inodeDataLoop_all (h : DataRequest e.blockSize offset len start stop)
    (hend : offset.toNat + len.toNat = 2 ^ 64) (hstop : 12 ≤ stop.toNat)
    (hread : ∀ k < 12, (ext2ReadBlock e m (inodeBlock m inode k)).isSome = true) (fuel : Nat)
    (hi : start.toNat ≤ i.toNat) (htwelve : i.toNat ≤ 12) (hfuel : 12 ≤ i.toNat + fuel)
    {acc : List U8} (hacc : acc.length = low e.blockSize.toNat offset.toNat i.toNat - offset.toNat)
    (hflat : FlatBytes e m inode offset.toNat acc) :
    (inodeDataLoop e m inode offset len start stop fuel i acc).length =
        low e.blockSize.toNat offset.toNat 12 - offset.toNat ∧
      FlatBytes e m inode offset.toNat (inodeDataLoop e m inode offset len start stop fuel i acc) := by
  have hB := e.blockSize.isLt
  have hoffset := h.begins
  induction fuel generalizing i acc with
  | zero =>
    have heq : i.toNat = 12 := by omega
    exact ⟨by rw [inodeDataLoop, hacc, heq], hflat⟩
  | succ fuel ih =>
    by_cases hlt : i.toNat < 12
    · obtain ⟨block, hblock⟩ := Option.isSome_iff_exists.mp (hread i.toNat hlt)
      have hsucc : (i + 1#32).toNat = i.toNat + 1 := toNat_add_one (by omega)
      have hmul : e.blockSize.toNat * (i.toNat + 1) ≤ e.blockSize.toNat * 12 := Nat.mul_le_mul_left _ hlt
      have hnext : low e.blockSize.toNat offset.toNat (i.toNat + 1) =
          high e.blockSize.toNat (offset.toNat + len.toNat) i.toNat :=
        low_succ h.size (h.first ▸ hi) (by omega)
      have hparts := low_lt_high h.size (h.first ▸ hi) (show offset.toNat < offset.toNat + len.toNat by omega)
        (show e.blockSize.toNat * i.toNat < offset.toNat + len.toNat by rw [Nat.mul_succ] at hmul; omega)
      have hfrom : offset.toNat ≤ low e.blockSize.toNat offset.toNat i.toNat := le_low
      rw [inodeDataLoop_rest h hend hi hlt hstop hblock hacc]
      refine ih (by omega) (by omega) (by omega) ?_ (hflat.append hblock hacc)
      rw [hsucc, hnext, List.length_append, requestBytes, Memory.bytes_length, hacc]
      omega
    · have heq : i.toNat = 12 := by omega
      rw [inodeDataLoop, if_neg fun hin => hlt hin.2]
      exact ⟨by rw [hacc, heq], hflat⟩

variable (himage : SparseImage e m) (hfile : SparseFile e m inode)
  (hoffset : offset.toNat < (inodeFileSize m inode).toNat)

include himage hoffset

/-- Where the end wraps around, the length is not cut to the size of the file. -/
theorem wraps_run (hwrap : 2 ^ 64 ≤ offset.toNat + len.toNat) :
    DataRequest e.blockSize offset len (dataStart e offset) (dataStop e offset len) ∧
      ext2ReadInodeData e m inode offset len =
        some (inodeDataLoop e m inode offset len (dataStart e offset) (dataStop e offset len) 12
          (dataStart e offset) []) := by
  have hlenLt := len.isLt
  have hbegins : offset < (inodeFileSize m inode).setWidth 64 := by
    rw [BitVec.lt_def, toNat_blockSize64]
    exact hoffset
  have hlen : dataLen m inode offset len = len := by
    refine if_neg fun hgt => ?_
    rw [gt_iff_lt, BitVec.lt_def, toNat_blockSize64, BitVec.toNat_add] at hgt
    omega
  have hreq := dataRequest (e := e) len himage.size_ne hbegins
  have hrun : ext2ReadInodeData e m inode offset len = _ := ext2ReadInodeData_run himage.size_ne hbegins
  rw [hlen] at hreq hrun
  exact ⟨hreq, hrun⟩

include hfile

/-- A read whose end wraps around to zero. -/
theorem SparseFile.read_all (hend : offset.toNat + len.toNat = 2 ^ 64) :
    ext2ReadInodeData e m inode offset len = some ((List.range (12 * e.blockSize.toNat - offset.toNat)).map fun j =>
      wrappedByte e m inode (offset.toNat + j)) := by
  obtain ⟨hreq, hrun⟩ := wraps_run himage hoffset (Nat.le_of_eq hend.symm)
  have hsize := hfile.size
  have hstart : (dataStart e offset).toNat < 12 := by
    rw [hreq.first]
    exact Nat.div_lt_of_lt_mul (by rw [Nat.mul_comm]; omega)
  have hstop : 12 ≤ (dataStop e offset len).toNat := by
    obtain ⟨k, -, hk, hpow⟩ := himage.size
    have hlast : (offset + len - 1#64).toNat = 2 ^ 64 - 1 := by
      rw [BitVec.toNat_sub, BitVec.toNat_add, hend]
      rfl
    have hblocks : ∀ k < 32, 12 ≤ (2 ^ 64 - 1) / 2 ^ k % 2 ^ 32 := by decide
    rw [dataStop, BitVec.toNat_setWidth, BitVec.toNat_udiv, toNat_blockSize64, hlast, hpow]
    exact hblocks k hk
  have hread : ∀ k < 12, (ext2ReadBlock e m (inodeBlock m inode k)).isSome = true := fun k hk => by
    rw [himage.reads (hfile.blocks k hk)]
    rfl
  have hfirst : ([] : List U8).length = low e.blockSize.toNat offset.toNat (dataStart e offset).toNat - offset.toNat := by
    rw [hreq.first, low_first, Nat.sub_self]
    rfl
  obtain ⟨hlength, hflat⟩ := inodeDataLoop_all hreq hend hstop hread 12 (Nat.le_refl _) (Nat.le_of_lt hstart)
    (Nat.le_add_left _ _) hfirst fun j hj => absurd hj (Nat.not_lt_zero j)
  have hall : low e.blockSize.toNat offset.toNat 12 = 12 * e.blockSize.toNat := by
    rw [low]
    omega
  rw [hall] at hlength
  rw [hrun, hfile.bytes himage hlength (by omega) hflat]

/-- A read whose end wraps around to a place in the file gives nothing, or as much as was asked for. -/
theorem SparseFile.read_back (hback : 2 ^ 64 < offset.toNat + len.toNat) :
    ∃ bytes, ext2ReadInodeData e m inode offset len = some bytes ∧
      bytes.length ≠ sparseLen m inode offset len := by
  obtain ⟨hreq, hrun⟩ := wraps_run himage hoffset (Nat.le_of_lt hback)
  have hlenLt := len.isLt
  have hfileLt := (inodeFileSize m inode).isLt
  have hsum : (offset + len).toNat = offset.toNat + len.toNat - 2 ^ 64 := by
    rw [BitVec.toNat_add]
    omega
  refine ⟨_, hrun, ?_⟩
  by_cases hsame : WrapsBack e.blockSize offset len
  · -- the first block is copied on and on
    obtain ⟨hstop, hpart, -⟩ := hreq.part_wraps hsame
    have hstart : (dataStart e offset).toNat < 12 := by
      have hsize := hfile.size
      rw [hreq.first]
      exact Nat.div_lt_of_lt_mul (by rw [Nat.mul_comm]; omega)
    have hin : dataStart e offset ≤ dataStart e offset ∧ dataStart e offset < 12#32 := ⟨BitVec.le_refl _, hstart⟩
    have hcut : ¬BitVec.ofNat 64 ([] : List U8).length + len > len := by
      rw [List.length_nil, BitVec.zero_add]
      exact BitVec.lt_irrefl _
    rw [hstop] at hpart ⊢
    rw [inodeDataLoop, if_pos hin, himage.reads (hfile.blocks _ hstart)]
    dsimp only
    rw [hpart, if_neg hcut, if_pos, List.nil_append, Memory.bytes_length, sparseLen]
    · omega
    · rw [List.nil_append, Memory.bytes_length, BitVec.ofNat_toNat, BitVec.setWidth_eq]
      exact BitVec.le_refl _
  · -- the last block is in front of the first one
    have hbefore : ¬(dataStart e offset ≤ dataStop e offset len ∧ dataStart e offset < 12#32) := by
      rintro ⟨hle, -⟩
      have hle : (dataStart e offset).toNat ≤ (dataStop e offset len).toNat := hle
      rw [hreq.first, hreq.last (by omega), Nat.le_div_iff_mul_le hreq.size, Nat.mul_comm] at hle
      exact hsame ⟨by omega, by omega⟩
    rw [inodeDataLoop, if_neg hbefore, List.length_nil, sparseLen]
    omega

end Wraps

/-! ## The read -/

theorem map_range_eq_iff {α : Type} {a b : Nat} {f g : Nat → α} :
    (List.range a).map f = (List.range b).map g ↔ a = b ∧ ∀ j < b, f j = g j := by
  constructor
  · intro h
    have hlen := congrArg List.length h
    rw [List.length_map, List.length_range, List.length_map, List.length_range] at hlen
    refine ⟨hlen, fun j hj => ?_⟩
    have hat : ((List.range a).map f)[j]? = ((List.range b).map g)[j]? := by rw [h]
    rw [List.getElem?_map, List.getElem?_map, List.getElem?_range (hlen ▸ hj), List.getElem?_range hj] at hat
    exact Option.some.inj hat
  · rintro ⟨rfl, h⟩
    exact List.map_congr_left fun j hj => h j (List.mem_range.mp hj)

/-- **Where holes read as zeros.** -/
theorem sparseRead_iff (himage : SparseImage e m) (hfile : SparseFile e m inode) (offset len : U64) :
    SparseRead e m inode offset len ↔ SparseFits e m inode offset len := by
  unfold SparseRead
  by_cases hoffset : offset.toNat < (inodeFileSize m inode).toNat
  case neg =>
    have hnone : sparseLen m inode offset len = 0 := by
      rw [sparseLen]
      omega
    have hend : offset ≥ (inodeFileSize m inode).setWidth 64 := by
      rw [ge_iff_le, BitVec.le_def, toNat_blockSize64]
      exact Nat.not_lt.mp hoffset
    rw [ext2ReadInodeData, hnone, if_pos hend]
    exact ⟨fun _ => .behind (Nat.not_lt.mp hoffset), fun _ => rfl⟩
  have hsize := hfile.size
  have hfits : SparseFits e m inode offset len ↔ EndFits e m inode offset len ∧ HolesZero e m inode offset len := by
    constructor
    · intro h
      cases h with
      | behind h => exact absurd hoffset (Nat.not_lt.mpr h)
      | zeros ends holes => exact ⟨ends, holes⟩
    · exact fun h => .zeros h.1 h.2
  rw [hfits, holesZero_iff]
  rcases Nat.lt_trichotomy (offset.toNat + len.toNat) (2 ^ 64) with hwrap | hend | hback
  · rw [hfile.read himage hoffset hwrap, Option.some.injEq, map_range_eq_iff]
    exact ⟨fun h => ⟨Or.inl hwrap, h.2⟩, fun h => ⟨rfl, h.2⟩⟩
  · rw [hfile.read_all himage hoffset hend, Option.some.injEq, map_range_eq_iff]
    refine and_congr_left fun _ => ?_
    have hfileLt := (inodeFileSize m inode).isLt
    have hiff : 12 * e.blockSize.toNat - offset.toNat = sparseLen m inode offset len ↔
        (inodeFileSize m inode).toNat = 12 * e.blockSize.toNat := by
      rw [sparseLen]
      omega
    rw [hiff, EndFits]
    exact ⟨fun h => Or.inr ⟨hend, h⟩, fun h => (h.resolve_left (by omega)).2⟩
  · obtain ⟨bytes, hbytes, hlength⟩ := hfile.read_back himage hoffset hback
    rw [hbytes, Option.some.injEq]
    constructor
    · rintro rfl
      rw [List.length_map, List.length_range] at hlength
      exact absurd rfl hlength
    · rintro ⟨hends | ⟨hends, -⟩, -⟩
      · omega
      · omega

/-- An image of five blocks, the first one not zero.  Inode 11 is a file of two bytes in a hole. -/
def holeFs : FsState :=
  { FsState.zero with
    mem := ⟨fun i =>
      if i = 0#64 then 0xEB#8
      else if i = 1024#64 ∨ i = 1064#64 then 16#8
      else if i = 1028#64 then 5#8
      else if i = 1044#64 then 1#8
      else if i = 1080#64 then 0x53#8
      else if i = 1081#64 then 0xEF#8
      else if i = 1112#64 ∨ i = 4353#64 then 0x80#8
      else if i = 2056#64 then 3#8
      else if i = 4356#64 then 2#8
      else 0#8, fun _ => 0#8, 0#64⟩
    ext2 := { FsState.zero.ext2 with
      data := .pool 0#64
      size := 5120#64
      superblock := .pool 1024#64
      blockSize := 1024#32
      currentDir := Buf.ofText fsMaxPath slash } }

theorem holeFs_image : SparseImage holeFs.ext2 holeFs.mem where
  data := by decide
  size := ⟨10, by decide, by decide, rfl⟩
  blocks := by decide
  inside := by decide

theorem holeFs_holes : ∀ k < 12, inodeBlock holeFs.mem (.pool 4352#64) k = 0#32 := by decide +kernel

theorem holeFs_file : SparseFile holeFs.ext2 holeFs.mem (.pool 4352#64) where
  size := by decide
  blocks k hk := Or.inl (holeFs_holes k hk)

/-- The second byte is a zero. -/
theorem sparseRead_iff_holeFs : SparseRead holeFs.ext2 holeFs.mem (.pool 4352#64) 1#64 1#64 := by
  refine (sparseRead_iff holeFs_image holeFs_file 1#64 1#64).mpr (.zeros (Or.inl (by decide)) ⟨?_, ?_⟩)
  · exact show ∀ j < 1, _ by decide +kernel
  · exact show ∀ j < 1, _ by decide +kernel

/-- The first byte of the file is that of the boot block. -/
theorem holeFs_not_zero :
    (ext2Init (.pool 0#64) 5120#64).run { holeFs with ext2 := FsState.zero.ext2 } = some (true, holeFs) ∧
      ext2ReadInode holeFs.ext2 holeFs.mem 11#32 = some (some (.pool 4352#64)) ∧
        SparseImage holeFs.ext2 holeFs.mem ∧ SparseFile holeFs.ext2 holeFs.mem (.pool 4352#64) ∧
          ¬SparseRead holeFs.ext2 holeFs.mem (.pool 4352#64) 0#64 1#64 := by
  refine ⟨rfl, by decide +kernel, holeFs_image, holeFs_file, ?_⟩
  have hread : ext2ReadInodeData holeFs.ext2 holeFs.mem (.pool 4352#64) 0#64 1#64 = some [0xEB#8] := by decide +kernel
  have hzero : (List.range (sparseLen holeFs.mem (.pool 4352#64) 0#64 1#64)).map (fun j =>
      sparseByte holeFs.ext2 holeFs.mem (.pool 4352#64) ((0#64 : U64).toNat + j)) = [0#8] := by decide +kernel
  rw [SparseRead, hread, hzero]
  decide

end PpoOS
