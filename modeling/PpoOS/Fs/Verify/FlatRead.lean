import PpoOS.Lib.Blocks
import PpoOS.Fs.Ext2Writes
import PpoOS.Fs.Verify.DataBounds

/-!
# A read block by block is a flat read

`ext2_read_inode_data` copies a part of every block that a request lies in.  The part
of a block is what the request has in it (`DataRequest.part_range`), so that the parts
follow each other without a gap.  **`ext2ReadInodeData_flat`**: where the blocks can be
read, byte `j` of the buffer is byte `offset + j` of the file, up to the end of the
request, of the file or of the twelfth block, and the rest of the buffer is unchanged.
-/

namespace PpoOS

open Blocks ByteMem

variable {e : Ext2} {m : Memory} {inode block : Ptr} {buf : Mem}

/-! ## The part of a block -/

section Part

variable {blockSize : U32} {offset len : U64} {start stop i : U32}

/-- The blocks of a request are those that begin before its end. -/
theorem DataRequest.block_lt_iff (h : DataRequest blockSize offset len start stop)
    (hwrap : offset.toNat + len.toNat < 2 ^ 64) (hlen : 0 < len.toNat) :
    blockSize.toNat * i.toNat < offset.toNat + len.toNat ↔ i.toNat ≤ stop.toNat := by
  have hsum := toNat_add_of_lt hwrap
  have hlast := h.last (by omega)
  rw [hsum] at hlast
  rw [hlast, Nat.le_div_iff_mul_le h.size, Nat.mul_comm]
  omega

/-- A block is read from where the request begins in it. -/
theorem DataRequest.part_first (h : DataRequest blockSize offset len start stop) (hi : start.toNat ≤ i.toNat) :
    (inodeDataPart blockSize offset len start stop i).1.toNat =
      low blockSize.toNat offset.toNat i.toNat - blockSize.toNat * i.toNat := by
  rw [inodeDataPart_first offset len start stop i h.size]
  by_cases his : i = start
  · rw [if_pos his, his, h.first, low_first, Nat.mod_eq_sub_mul_div]
  · have hlater : start.toNat < i.toNat :=
      Nat.lt_of_le_of_ne hi fun heq => his (BitVec.eq_of_toNat_eq heq.symm)
    rw [if_neg his, low_later h.size (h.first ▸ hlater), Nat.sub_self]

/-- What is read of a block is what the request has in it. -/
theorem DataRequest.part_range (h : DataRequest blockSize offset len start stop)
    (hwrap : offset.toNat + len.toNat < 2 ^ 64) (hlen : 0 < len.toNat) (hi : start.toNat ≤ i.toNat)
    (hstop : i.toNat ≤ stop.toNat) :
    (inodeDataPart blockSize offset len start stop i).1.toNat =
        low blockSize.toNat offset.toNat i.toNat - blockSize.toNat * i.toNat ∧
      (inodeDataPart blockSize offset len start stop i).2.toNat =
        high blockSize.toNat (offset.toNat + len.toNat) i.toNat - low blockSize.toNat offset.toNat i.toNat := by
  have hB := blockSize.isLt
  have hsum := toNat_add_of_lt hwrap
  have hends := h.ends
  have hlast := h.last (by omega)
  rw [hsum] at hlast hends
  have hin := (h.block_lt_iff hwrap hlen).mpr hstop
  have hfirst := h.part_first hi
  have hfrom : blockSize.toNat * i.toNat ≤ low blockSize.toNat offset.toNat i.toNat := mul_le_low
  have hparts := low_lt_high h.size (h.first ▸ hi) (show offset.toNat < offset.toNat + len.toNat by omega) hin
  have hto : high blockSize.toNat (offset.toNat + len.toNat) i.toNat ≤
      blockSize.toNat * i.toNat + blockSize.toNat := high_le_mul
  refine ⟨hfirst, ?_⟩
  rw [inodeDataPart_second h.size, hsum]
  by_cases hend : i = stop ∧ 0 < (offset.toNat + len.toNat) % blockSize.toNat
  · -- the request ends in the middle of the block
    have hrest : (offset.toNat + len.toNat) % blockSize.toNat =
        offset.toNat + len.toNat - blockSize.toNat * i.toNat := by
      have hpred := Nat.div_add_mod (offset.toNat + len.toNat - 1) blockSize.toNat
      have hlt := Nat.mod_lt (offset.toNat + len.toNat - 1) h.size
      rw [← hlast, ← hend.1] at hpred
      have hle : offset.toNat + len.toNat ≤ blockSize.toNat * (i.toNat + 1) := by
        rw [Nat.mul_succ]
        omega
      have hne : offset.toNat + len.toNat ≠ blockSize.toNat * (i.toNat + 1) := fun heq => by
        rw [heq, Nat.mul_mod_right] at hend
        exact absurd hend.2 (Nat.lt_irrefl _)
      have hdiv : (offset.toNat + len.toNat) / blockSize.toNat = i.toNat :=
        Nat.div_eq_of_lt_le (by rw [Nat.mul_comm]; omega) (by rw [Nat.mul_comm]; omega)
      rw [Nat.mod_eq_sub_mul_div, hdiv]
    have hmod := Nat.mod_lt (offset.toNat + len.toNat) h.size
    have htoEnd : high blockSize.toNat (offset.toNat + len.toNat) i.toNat = offset.toNat + len.toNat :=
      Nat.min_eq_left (by rw [Nat.mul_succ]; omega)
    rw [if_pos hend, BitVec.toNat_sub, BitVec.toNat_ofNat, hfirst, hrest, htoEnd]
    omega
  · -- the rest of the block
    have htoBlock : high blockSize.toNat (offset.toNat + len.toNat) i.toNat =
        blockSize.toNat * i.toNat + blockSize.toNat := by
      refine Nat.min_eq_right ?_
      by_cases his : i = stop
      · have hzero : (offset.toNat + len.toNat) % blockSize.toNat = 0 :=
          Nat.eq_zero_of_not_pos fun hpos => hend ⟨his, hpos⟩
        obtain ⟨k, hk⟩ := Nat.dvd_of_mod_eq_zero hzero
        have hlt : i.toNat < k := by
          rw [hk] at hin
          exact Nat.lt_of_mul_lt_mul_left hin
        rw [hk]
        exact Nat.mul_le_mul_left _ hlt
      · have hbefore : i.toNat + 1 ≤ stop.toNat :=
          Nat.lt_of_le_of_ne hstop fun heq => his (BitVec.eq_of_toNat_eq heq)
        have hmul : blockSize.toNat * (i.toNat + 1) ≤ blockSize.toNat * stop.toNat := Nat.mul_le_mul_left _ hbefore
        have hdiv := Nat.mul_div_le (offset.toNat + len.toNat - 1) blockSize.toNat
        rw [← hlast] at hdiv
        omega
    rw [if_neg hend, BitVec.toNat_sub, toNat_blockSize64, hfirst, htoBlock]
    omega

/-- All of it is read: what was read before and the part are no more than was asked for. -/
theorem DataRequest.part_whole (h : DataRequest blockSize offset len start stop)
    (hwrap : offset.toNat + len.toNat < 2 ^ 64) (hlen : 0 < len.toNat) (hi : start.toNat ≤ i.toNat)
    (hstop : i.toNat ≤ stop.toNat) {n : U64}
    (hn : n.toNat = low blockSize.toNat offset.toNat i.toNat - offset.toNat) :
    ¬n + (inodeDataPart blockSize offset len start stop i).2 > len ∧
      (n + (inodeDataPart blockSize offset len start stop i).2).toNat =
        high blockSize.toNat (offset.toNat + len.toNat) i.toNat - offset.toNat := by
  obtain ⟨-, hpart⟩ := h.part_range hwrap hlen hi hstop
  have hin := (h.block_lt_iff hwrap hlen).mpr hstop
  have hparts := low_lt_high h.size (h.first ▸ hi) (show offset.toNat < offset.toNat + len.toNat by omega) hin
  have hfrom : offset.toNat ≤ low blockSize.toNat offset.toNat i.toNat := le_low
  have hto : high blockSize.toNat (offset.toNat + len.toNat) i.toNat ≤ offset.toNat + len.toNat := high_le
  have hsum := toNat_add_of_lt (a := n) (b := (inodeDataPart blockSize offset len start stop i).2) (by omega)
  refine ⟨Nat.not_lt.mpr ?_, by omega⟩
  omega

end Part

/-! ## The loop -/

/-- The buffer with the bytes at its front. -/
def overwrite (buf : Mem) (bytes : List U8) : Mem := fun a => bytes[a.toNat]?.getD (buf a)

theorem blit_overwrite (buf : Mem) (acc : List U8) {n : Nat} (src : Nat → U8) (hfit : acc.length + n ≤ 2 ^ 64) :
    blit (overwrite buf acc) (BitVec.ofNat 64 acc.length) n src = overwrite buf (acc ++ (List.range n).map src) := by
  funext a
  have ha := a.isLt
  have hlen : n = 0 ∨ (BitVec.ofNat 64 acc.length).toNat = acc.length := by
    rw [BitVec.toNat_ofNat]
    omega
  by_cases hin : (a - BitVec.ofNat 64 acc.length).toNat < n
  · have hplace := hlen.resolve_left (by omega)
    rw [blit_inside hin, overwrite]
    rw [BitVec.toNat_sub, hplace] at hin ⊢
    have hge : acc.length ≤ a.toNat := by omega
    have hi : (2 ^ 64 - acc.length + a.toNat) % 2 ^ 64 = a.toNat - acc.length := by omega
    rw [hi] at hin ⊢
    rw [List.getElem?_append_right hge, List.getElem?_map, List.getElem?_range hin]
    rfl
  · rw [blit_outside (Nat.not_lt.mp hin), overwrite, overwrite]
    by_cases hfront : a.toNat < acc.length
    · rw [List.getElem?_append_left hfront]
    · have hbehind : acc.length + n ≤ a.toNat := by
        rcases hlen with rfl | hplace
        · omega
        · rw [BitVec.toNat_sub, hplace] at hin
          omega
      rw [List.getElem?_eq_none (Nat.not_lt.mp hfront), List.getElem?_eq_none]
      rw [List.length_append, List.length_map, List.length_range]
      exact hbehind

section Loop

variable {offset len : U64} {start stop i : U32}

/-- What a block has of a request. -/
def requestBytes (e : Ext2) (m : Memory) (block : Ptr) (offset len : U64) (i : Nat) : List U8 :=
  m.bytes (block.add (BitVec.ofNat 64 (low e.blockSize.toNat offset.toNat i - e.blockSize.toNat * i)))
    (high e.blockSize.toNat (offset.toNat + len.toNat) i - low e.blockSize.toNat offset.toNat i)

section Block

variable (h : DataRequest e.blockSize offset len start stop) (hwrap : offset.toNat + len.toNat < 2 ^ 64)
  (hlen : 0 < len.toNat) (hi : start.toNat ≤ i.toNat) (hin : i ≤ stop ∧ i < 12#32)
  {acc : List U8} (hacc : acc.length = low e.blockSize.toNat offset.toNat i.toNat - offset.toNat)

include h hwrap hlen hi hin hacc

/-- What the copy of the block is made from. -/
theorem requestBytes_part (block : Ptr) :
    (if BitVec.ofNat 64 acc.length + (inodeDataPart e.blockSize offset len start stop i).2 > len
      then len - BitVec.ofNat 64 acc.length else (inodeDataPart e.blockSize offset len start stop i).2) =
        (inodeDataPart e.blockSize offset len start stop i).2 ∧
    requestBytes e m block offset len i.toNat =
      m.bytes (block.add (inodeDataPart e.blockSize offset len start stop i).1)
        (inodeDataPart e.blockSize offset len start stop i).2.toNat ∧
    (BitVec.ofNat 64 (acc ++ requestBytes e m block offset len i.toNat).length ≥ len ↔
      ¬e.blockSize.toNat * (i.toNat + 1) < offset.toNat + len.toNat) ∧
    acc.length + (inodeDataPart e.blockSize offset len start stop i).2.toNat ≤ len.toNat := by
  have hstop : i.toNat ≤ stop.toNat := hin.1
  have hlenLt := len.isLt
  have hoffset := h.begins
  obtain ⟨hfirst, hpart⟩ := h.part_range hwrap hlen hi hstop
  have hparts := low_lt_high h.size (h.first ▸ hi) (show offset.toNat < offset.toNat + len.toNat by omega)
    ((h.block_lt_iff hwrap hlen).mpr hstop)
  have hfrom : offset.toNat ≤ low e.blockSize.toNat offset.toNat i.toNat := le_low
  have hto : high e.blockSize.toNat (offset.toNat + len.toNat) i.toNat ≤ offset.toNat + len.toNat := high_le
  have hn : (BitVec.ofNat 64 acc.length).toNat = low e.blockSize.toNat offset.toNat i.toNat - offset.toNat := by
    rw [BitVec.toNat_ofNat, hacc]
    omega
  obtain ⟨hcut, -⟩ := h.part_whole hwrap hlen hi hstop hn
  have hbytes : requestBytes e m block offset len i.toNat =
      m.bytes (block.add (inodeDataPart e.blockSize offset len start stop i).1)
        (inodeDataPart e.blockSize offset len start stop i).2.toNat := by
    rw [requestBytes, hpart, ← hfirst, BitVec.ofNat_toNat, BitVec.setWidth_eq]
  have htotal : acc.length + (inodeDataPart e.blockSize offset len start stop i).2.toNat =
      high e.blockSize.toNat (offset.toNat + len.toNat) i.toNat - offset.toNat := by
    omega
  refine ⟨if_neg hcut, hbytes, ?_, by omega⟩
  rw [hbytes, List.length_append, Memory.bytes_length, htotal, ge_iff_le, BitVec.le_def, BitVec.toNat_ofNat,
    Nat.mod_eq_of_lt (by omega), Nat.not_lt]
  constructor
  · intro hall
    have hend : offset.toNat + len.toNat ≤ high e.blockSize.toNat (offset.toNat + len.toNat) i.toNat := by omega
    exact (Nat.le_min.mp hend).2
  · intro hall
    have hend : offset.toNat + len.toNat ≤ high e.blockSize.toNat (offset.toNat + len.toNat) i.toNat :=
      Nat.le_min.mpr ⟨Nat.le_refl _, hall⟩
    omega

/-- A block that can be read: all that it has of the request is copied. -/
theorem inodeDataLoop_block (hblock : ext2ReadBlock e m (inodeBlock m inode i.toNat) = some block) (fuel : Nat) :
    inodeDataLoop e m inode offset len start stop (fuel + 1) i acc =
      if e.blockSize.toNat * (i.toNat + 1) < offset.toNat + len.toNat then
        inodeDataLoop e m inode offset len start stop fuel (i + 1#32)
          (acc ++ requestBytes e m block offset len i.toNat)
      else acc ++ requestBytes e m block offset len i.toNat := by
  obtain ⟨hcut, hbytes, hdone, -⟩ := requestBytes_part (m := m) h hwrap hlen hi hin hacc block
  rw [inodeDataLoop, if_pos hin, hblock]
  dsimp only
  rw [hcut, ← hbytes]
  by_cases hmore : e.blockSize.toNat * (i.toNat + 1) < offset.toNat + len.toNat
  · rw [if_neg fun hge => hdone.mp hge hmore, if_pos hmore]
  · rw [if_pos (hdone.mpr hmore), if_neg hmore]

theorem inodeDataLoopInto_block (hblock : ext2ReadBlock e m (inodeBlock m inode i.toNat) = some block) (fuel : Nat) :
    inodeDataLoopInto e m inode offset len start stop (fuel + 1) i (BitVec.ofNat 64 acc.length) (overwrite buf acc) =
      if e.blockSize.toNat * (i.toNat + 1) < offset.toNat + len.toNat then
        inodeDataLoopInto e m inode offset len start stop fuel (i + 1#32)
          (BitVec.ofNat 64 (acc ++ requestBytes e m block offset len i.toNat).length)
          (overwrite buf (acc ++ requestBytes e m block offset len i.toNat))
      else (BitVec.ofNat 64 (acc ++ requestBytes e m block offset len i.toNat).length,
        overwrite buf (acc ++ requestBytes e m block offset len i.toNat)) := by
  obtain ⟨hcut, hbytes, hdone, hle⟩ := requestBytes_part (m := m) h hwrap hlen hi hin hacc block
  have hlenLt := len.isLt
  have hcopy := blit_overwrite buf acc (n := (inodeDataPart e.blockSize offset len start stop i).2.toNat)
    (fun k => m.load ((block.add (inodeDataPart e.blockSize offset len start stop i).1).add (BitVec.ofNat 64 k)))
    (by omega)
  have hread : BitVec.ofNat 64 acc.length + (inodeDataPart e.blockSize offset len start stop i).2 =
      BitVec.ofNat 64 (acc ++ requestBytes e m block offset len i.toNat).length := by
    rw [hbytes, List.length_append, Memory.bytes_length, BitVec.ofNat_add, BitVec.ofNat_toNat, BitVec.setWidth_eq]
  rw [inodeDataLoopInto, if_pos hin, hblock]
  dsimp only
  rw [hcut, hread, hcopy, ← Memory.bytes, ← hbytes]
  by_cases hmore : e.blockSize.toNat * (i.toNat + 1) < offset.toNat + len.toNat
  · rw [if_neg fun hge => hdone.mp hge hmore, if_pos hmore]
  · rw [if_pos (hdone.mpr hmore), if_neg hmore]

omit hin in
/-- The next block goes on where this one ends. -/
theorem requestBytes_next (hstop : i.toNat ≤ stop.toNat) (block : Ptr) :
    (acc ++ requestBytes e m block offset len i.toNat).length =
        high e.blockSize.toNat (offset.toNat + len.toNat) i.toNat - offset.toNat ∧
      (e.blockSize.toNat * (i.toNat + 1) < offset.toNat + len.toNat →
        (acc ++ requestBytes e m block offset len i.toNat).length =
          low e.blockSize.toNat offset.toNat (i.toNat + 1) - offset.toNat) := by
  have hparts := low_lt_high h.size (h.first ▸ hi) (show offset.toNat < offset.toNat + len.toNat by omega)
    ((h.block_lt_iff hwrap hlen).mpr hstop)
  have hfrom : offset.toNat ≤ low e.blockSize.toNat offset.toNat i.toNat := le_low
  have hlength : (acc ++ requestBytes e m block offset len i.toNat).length =
      high e.blockSize.toNat (offset.toNat + len.toNat) i.toNat - offset.toNat := by
    rw [List.length_append, requestBytes, Memory.bytes_length, hacc]
    omega
  refine ⟨hlength, fun hmore => ?_⟩
  rw [hlength, low_succ h.size (h.first ▸ hi) hmore]

end Block

/-- The buffer gets the bytes of the read, and nothing else changes. -/
theorem inodeDataLoopInto_eq (h : DataRequest e.blockSize offset len start stop)
    (hwrap : offset.toNat + len.toNat < 2 ^ 64) (hlen : 0 < len.toNat) (fuel : Nat) (hi : start.toNat ≤ i.toNat)
    {acc : List U8} (hacc : acc.length = low e.blockSize.toNat offset.toNat i.toNat - offset.toNat) :
    inodeDataLoopInto e m inode offset len start stop fuel i (BitVec.ofNat 64 acc.length) (overwrite buf acc) =
      (BitVec.ofNat 64 (inodeDataLoop e m inode offset len start stop fuel i acc).length,
        overwrite buf (inodeDataLoop e m inode offset len start stop fuel i acc)) := by
  induction fuel generalizing i acc with
  | zero => rfl
  | succ fuel ih =>
    by_cases hin : i ≤ stop ∧ i < 12#32
    · cases hblock : ext2ReadBlock e m (inodeBlock m inode i.toNat) with
      | none => rw [inodeDataLoopInto, inodeDataLoop, if_pos hin, if_pos hin, hblock]
      | some block =>
        rw [inodeDataLoopInto_block h hwrap hlen hi hin hacc hblock,
          inodeDataLoop_block h hwrap hlen hi hin hacc hblock]
        by_cases hmore : e.blockSize.toNat * (i.toNat + 1) < offset.toNat + len.toNat
        · have htwelve : i.toNat < 12 := hin.2
          have hsucc : (i + 1#32).toNat = i.toNat + 1 := toNat_add_one (by omega)
          have hnext := (requestBytes_next (m := m) h hwrap hlen hi hacc hin.1 block).2 hmore
          rw [if_pos hmore, if_pos hmore]
          exact ih (by omega) (by rw [hsucc]; exact hnext)
        · rw [if_neg hmore, if_neg hmore]
    · rw [inodeDataLoopInto, inodeDataLoop, if_neg hin, if_neg hin]

theorem readPart_none (toRead : U64) :
    (if 0#64 + toRead > 0#64 then 0#64 - 0#64 else toRead) = 0#64 := BitVec.eq_of_toNat_eq (readPart_zero toRead)

/-- A read of nothing. -/
theorem inodeDataLoop_empty (fuel : Nat) : inodeDataLoop e m inode offset 0#64 start stop fuel start [] = [] := by
  cases fuel with
  | zero => rfl
  | succ fuel =>
    rw [inodeDataLoop]
    by_cases hin : start ≤ stop ∧ start < 12#32
    · rw [if_pos hin]
      cases ext2ReadBlock e m (inodeBlock m inode start.toNat) with
      | none => rfl
      | some block =>
        dsimp only
        rw [List.length_nil, readPart_none]
        rfl
    · rw [if_neg hin]

theorem inodeDataLoopInto_empty (fuel : Nat) :
    inodeDataLoopInto e m inode offset 0#64 start stop fuel start 0#64 buf = (0#64, buf) := by
  cases fuel with
  | zero => rfl
  | succ fuel =>
    rw [inodeDataLoopInto]
    by_cases hin : start ≤ stop ∧ start < 12#32
    · rw [if_pos hin]
      cases ext2ReadBlock e m (inodeBlock m inode start.toNat) with
      | none => rfl
      | some block =>
        dsimp only
        have hnone : blit buf 0#64 0 (fun k => m.load ((block.add
            (inodeDataPart e.blockSize offset 0#64 start stop start).1).add (BitVec.ofNat 64 k))) = buf :=
          funext fun a => blit_outside (Nat.zero_le _)
        rw [readPart_none, BitVec.toNat_zero, hnone]
        rfl
    · rw [if_neg hin]

end Loop

/-! ## The bytes of a file -/

/-- Byte `n` of a file: a byte of the block that its block pointer leads to. -/
def flatByte (e : Ext2) (m : Memory) (inode : Ptr) (n : Nat) : Option U8 :=
  (ext2ReadBlock e m (inodeBlock m inode (n / e.blockSize.toNat))).map fun block =>
    m.load (block.add (BitVec.ofNat 64 (n % e.blockSize.toNat)))

/-- The bytes are those of the file from `offset` on. -/
def FlatBytes (e : Ext2) (m : Memory) (inode : Ptr) (offset : Nat) (bytes : List U8) : Prop :=
  ∀ j < bytes.length, bytes[j]? = flatByte e m inode (offset + j)

section Flat

variable {offset len : U64} {start stop i : U32}

theorem FlatBytes.append (hblock : ext2ReadBlock e m (inodeBlock m inode i.toNat) = some block) {acc : List U8}
    (hacc : acc.length = low e.blockSize.toNat offset.toNat i.toNat - offset.toNat)
    (h : FlatBytes e m inode offset.toNat acc) :
    FlatBytes e m inode offset.toNat (acc ++ requestBytes e m block offset len i.toNat) := by
  intro j hj
  by_cases hold : j < acc.length
  · rw [List.getElem?_append_left hold]
    exact h j hold
  · rw [List.length_append, requestBytes, Memory.bytes_length] at hj
    have hfrom : offset.toNat ≤ low e.blockSize.toNat offset.toNat i.toNat := le_low
    have hmul : e.blockSize.toNat * i.toNat ≤ low e.blockSize.toNat offset.toNat i.toNat := mul_le_low
    have hin : low e.blockSize.toNat offset.toNat i.toNat ≤ offset.toNat + j := by omega
    obtain ⟨hdiv, hmod⟩ := place hin
      (show offset.toNat + j < high e.blockSize.toNat (offset.toNat + len.toNat) i.toNat by omega)
    have hplace : low e.blockSize.toNat offset.toNat i.toNat - e.blockSize.toNat * i.toNat + (j - acc.length) =
        offset.toNat + j - e.blockSize.toNat * i.toNat := by omega
    rw [flatByte, hdiv, hmod, hblock, Option.map_some, List.getElem?_append_right (Nat.not_lt.mp hold), requestBytes,
      Memory.bytes, List.getElem?_map, List.getElem?_range (by omega), Option.map_some, Memory.Ptr_add_add,
      ← BitVec.ofNat_add, hplace]

/-- **The loop reads the file**, where its blocks can be read. -/
theorem inodeDataLoop_flat (h : DataRequest e.blockSize offset len start stop)
    (hwrap : offset.toNat + len.toNat < 2 ^ 64) (hlen : 0 < len.toNat)
    (hread : ∀ k, start.toNat ≤ k → k < 12 → e.blockSize.toNat * k < offset.toNat + len.toNat →
      (ext2ReadBlock e m (inodeBlock m inode k)).isSome = true)
    (fuel : Nat) (hi : start.toNat ≤ i.toNat) (htwelve : i.toNat ≤ 12) (hfuel : 12 ≤ i.toNat + fuel)
    (hbegins : e.blockSize.toNat * i.toNat < offset.toNat + len.toNat)
    {acc : List U8} (hacc : acc.length = low e.blockSize.toNat offset.toNat i.toNat - offset.toNat)
    (hflat : FlatBytes e m inode offset.toNat acc) :
    (inodeDataLoop e m inode offset len start stop fuel i acc).length =
        min (offset.toNat + len.toNat) (12 * e.blockSize.toNat) - offset.toNat ∧
      FlatBytes e m inode offset.toNat (inodeDataLoop e m inode offset len start stop fuel i acc) := by
  have hlast : ∀ {i : U32} {acc : List U8}, i.toNat = 12 → e.blockSize.toNat * i.toNat < offset.toNat + len.toNat →
      acc.length = low e.blockSize.toNat offset.toNat i.toNat - offset.toNat →
      acc.length = min (offset.toNat + len.toNat) (12 * e.blockSize.toNat) - offset.toNat := by
    intro i acc heq hbegins hacc
    rw [heq] at hbegins hacc
    rw [hacc, low]
    omega
  induction fuel generalizing i acc with
  | zero => exact ⟨hlast (by omega) hbegins hacc, hflat⟩
  | succ fuel ih =>
    by_cases hin : i ≤ stop ∧ i < 12#32
    · have hlt : i.toNat < 12 := hin.2
      obtain ⟨block, hblock⟩ := Option.isSome_iff_exists.mp (hread i.toNat hi hlt hbegins)
      obtain ⟨hlength, hnext⟩ := requestBytes_next (m := m) h hwrap hlen hi hacc hin.1 block
      have hmul : e.blockSize.toNat * (i.toNat + 1) ≤ e.blockSize.toNat * 12 := Nat.mul_le_mul_left _ hlt
      rw [inodeDataLoop_block h hwrap hlen hi hin hacc hblock]
      by_cases hmore : e.blockSize.toNat * (i.toNat + 1) < offset.toNat + len.toNat
      · have hsucc : (i + 1#32).toNat = i.toNat + 1 := toNat_add_one (by omega)
        rw [if_pos hmore]
        exact ih (by omega) (by omega) (by omega) (by rw [hsucc]; exact hmore) (by rw [hsucc]; exact hnext hmore)
          (hflat.append hblock hacc)
      · rw [if_neg hmore]
        refine ⟨?_, hflat.append hblock hacc⟩
        rw [hlength, high]
        omega
    · have hstop := (h.block_lt_iff hwrap hlen).mp hbegins
      have hge : 12 ≤ i.toNat := Nat.not_lt.mp fun hlt => hin ⟨hstop, hlt⟩
      rw [inodeDataLoop, if_neg hin]
      exact ⟨hlast (by omega) hbegins hacc, hflat⟩

end Flat

/-! ## The read -/

/-- How much of a request can be read: to its end, to the end of the file, and to that of the twelfth
block. -/
def flatLen (e : Ext2) (m : Memory) (inode : Ptr) (offset len : U64) : Nat :=
  min len.toNat (min ((inodeFileSize m inode).toNat - offset.toNat) (12 * e.blockSize.toNat - offset.toNat))

/-- The block pointers of the bytes that are read lead to blocks. -/
def FlatReadable (e : Ext2) (m : Memory) (inode : Ptr) (offset len : U64) : Prop :=
  ∀ j < flatLen e m inode offset len,
    (ext2ReadBlock e m (inodeBlock m inode ((offset.toNat + j) / e.blockSize.toNat))).isSome = true

variable {offset len : U64}

theorem dataLen_toNat (hoffset : offset < (inodeFileSize m inode).setWidth 64)
    (hwrap : offset.toNat + len.toNat < 2 ^ 64) :
    (dataLen m inode offset len).toNat = min len.toNat ((inodeFileSize m inode).toNat - offset.toNat) := by
  have hsize : ((inodeFileSize m inode).setWidth 64).toNat = (inodeFileSize m inode).toNat := toNat_blockSize64 _
  have hlt : offset.toNat < (inodeFileSize m inode).toNat := hsize ▸ hoffset
  have hsum := toNat_add_of_lt hwrap
  have hfile := (inodeFileSize m inode).isLt
  rw [dataLen]
  by_cases hclip : offset + len > (inodeFileSize m inode).setWidth 64
  · have hover : (inodeFileSize m inode).toNat < (offset + len).toNat := hsize ▸ hclip
    rw [if_pos hclip, BitVec.toNat_sub, hsize]
    omega
  · have hfits : (offset + len).toNat ≤ (inodeFileSize m inode).toNat := hsize ▸ Nat.not_lt.mp hclip
    rw [if_neg hclip]
    omega

/-- A read that begins in the file runs the loop from the block of its offset on. -/
theorem ext2ReadInodeData_run (hsize : e.blockSize ≠ 0#32) (hoffset : offset < (inodeFileSize m inode).setWidth 64) :
    ext2ReadInodeData e m inode offset len =
      some (inodeDataLoop e m inode offset (dataLen m inode offset len) (dataStart e offset)
        (dataStop e offset (dataLen m inode offset len)) 12 (dataStart e offset) []) := by
  rw [ext2ReadInodeData]
  dsimp only
  rw [if_neg (BitVec.not_le.mpr hoffset), if_neg hsize]
  rfl

theorem ext2ReadInodeDataInto_run (hsize : e.blockSize ≠ 0#32)
    (hoffset : offset < (inodeFileSize m inode).setWidth 64) :
    ext2ReadInodeDataInto e m inode offset buf len =
      some (inodeDataLoopInto e m inode offset (dataLen m inode offset len) (dataStart e offset)
        (dataStop e offset (dataLen m inode offset len)) 12 (dataStart e offset) 0#64 buf) := by
  rw [ext2ReadInodeDataInto]
  dsimp only
  rw [if_neg (BitVec.not_le.mpr hoffset), if_neg hsize]
  rfl

/-- **The read into a buffer** gives what the read gives. -/
theorem ext2ReadInodeDataInto_eq (hwrap : offset.toNat + len.toNat < 2 ^ 64) :
    ext2ReadInodeDataInto e m inode offset buf len = (ext2ReadInodeData e m inode offset len).map fun bytes =>
      (BitVec.ofNat 64 bytes.length, overwrite buf bytes) := by
  by_cases hoffset : offset < (inodeFileSize m inode).setWidth 64
  · by_cases hsize : e.blockSize = 0#32
    · rw [ext2ReadInodeDataInto, ext2ReadInodeData]
      dsimp only
      rw [if_neg (BitVec.not_le.mpr hoffset), if_neg (BitVec.not_le.mpr hoffset), if_pos hsize, if_pos hsize]
      rfl
    have hreq := dataRequest (e := e) len hsize hoffset
    have hlen := dataLen_toNat hoffset hwrap
    rw [ext2ReadInodeData_run hsize hoffset, ext2ReadInodeDataInto_run hsize hoffset, Option.map_some]
    by_cases hpos : 0 < (dataLen m inode offset len).toNat
    · have hfirst : ([] : List U8).length =
          low e.blockSize.toNat offset.toNat (dataStart e offset).toNat - offset.toNat := by
        rw [hreq.first, low_first, Nat.sub_self]
        rfl
      exact congrArg some (inodeDataLoopInto_eq hreq (by omega) hpos 12 (Nat.le_refl _) hfirst)
    · have hnone : dataLen m inode offset len = 0#64 := BitVec.eq_of_toNat_eq (Nat.eq_zero_of_not_pos hpos)
      rw [hnone, inodeDataLoop_empty, inodeDataLoopInto_empty]
      rfl
  · rw [ext2ReadInodeDataInto, ext2ReadInodeData]
    dsimp only
    rw [if_pos (BitVec.not_lt.mp hoffset), if_pos (BitVec.not_lt.mp hoffset)]
    rfl

/-- The blocks of the request lead to blocks, up to the twelfth. -/
theorem FlatReadable.reads (hread : FlatReadable e m inode offset len) (hsize : 0 < e.blockSize.toNat) {k stop : Nat}
    (hk : offset.toNat / e.blockSize.toNat ≤ k) (htwelve : k < 12) (hstop : e.blockSize.toNat * k < stop)
    (hoffset : offset.toNat < stop) (hlen : min stop (12 * e.blockSize.toNat) - offset.toNat ≤ flatLen e m inode offset len) :
    (ext2ReadBlock e m (inodeBlock m inode k)).isSome = true := by
  have hparts := low_lt_high hsize hk hoffset hstop
  have hfrom : offset.toNat ≤ low e.blockSize.toNat offset.toNat k := le_low
  have hto : high e.blockSize.toNat stop k ≤ stop := high_le
  have hlast : high e.blockSize.toNat stop k ≤ e.blockSize.toNat * 12 :=
    Nat.le_trans (Nat.min_le_right _ _) (Nat.mul_le_mul_left _ htwelve)
  have hblock := hread (low e.blockSize.toNat offset.toNat k - offset.toNat) (by omega)
  rw [Nat.add_sub_cancel' hfrom, (place (Nat.le_refl _) hparts).1] at hblock
  exact hblock

/-- What a read gives, where its blocks can be read. -/
theorem ext2ReadInodeData_bytes (hsize : e.blockSize ≠ 0#32) (hoffset : offset < (inodeFileSize m inode).setWidth 64)
    (hwrap : offset.toNat + len.toNat < 2 ^ 64) (hread : FlatReadable e m inode offset len) :
    ∃ bytes, ext2ReadInodeData e m inode offset len = some bytes ∧
      bytes.length = flatLen e m inode offset len ∧ FlatBytes e m inode offset.toNat bytes := by
  have hreq := dataRequest (e := e) len hsize hoffset
  have hlen := dataLen_toNat hoffset hwrap
  have hflat : min (offset.toNat + (dataLen m inode offset len).toNat) (12 * e.blockSize.toNat) - offset.toNat =
      flatLen e m inode offset len := by
    rw [flatLen]
    omega
  refine ⟨_, ext2ReadInodeData_run hsize hoffset, ?_⟩
  by_cases hpos : 0 < (dataLen m inode offset len).toNat
  · have hin : e.blockSize.toNat * (dataStart e offset).toNat <
        offset.toNat + (dataLen m inode offset len).toNat := by
      have hmul := Nat.mul_div_le offset.toNat e.blockSize.toNat
      rw [hreq.first]
      omega
    by_cases htwelve : (dataStart e offset).toNat < 12
    · rw [← hflat]
      refine inodeDataLoop_flat hreq (by omega) hpos (fun k hk hlt hstop => ?_) 12 (Nat.le_refl _)
        (Nat.le_of_lt htwelve) (Nat.le_add_left _ _) hin ?_ nofun
      · exact hread.reads hreq.size (hreq.first ▸ hk) hlt hstop (by omega) (Nat.le_of_eq hflat)
      · rw [hreq.first, low_first, Nat.sub_self]
        rfl
    · have hbehind : 12 * e.blockSize.toNat ≤ offset.toNat :=
        (Nat.le_div_iff_mul_le hreq.size).mp (hreq.first ▸ Nat.not_lt.mp htwelve)
      rw [inodeDataLoop, if_neg fun h => htwelve h.2]
      refine ⟨?_, nofun⟩
      rw [← hflat, List.length_nil]
      omega
  · have hnone : dataLen m inode offset len = 0#64 := BitVec.eq_of_toNat_eq (Nat.eq_zero_of_not_pos hpos)
    rw [hnone, inodeDataLoop_empty]
    refine ⟨?_, nofun⟩
    rw [← hflat, List.length_nil]
    omega

/-- **Reading block by block is reading the file flat**: as much as can be read gets into the buffer, byte for
byte, and nothing behind it is written. -/
theorem ext2ReadInodeData_flat (e : Ext2) (m : Memory) (inode : Ptr) (offset len : U64) (buf : Mem)
    (hsize : e.blockSize ≠ 0#32) (hoffset : offset < (inodeFileSize m inode).setWidth 64)
    (hwrap : offset.toNat + len.toNat < 2 ^ 64) (hread : FlatReadable e m inode offset len) :
    ∃ after, ext2ReadInodeDataInto e m inode offset buf len =
        some (BitVec.ofNat 64 (flatLen e m inode offset len), after) ∧
      (∀ j < flatLen e m inode offset len,
        some (after (BitVec.ofNat 64 j)) = flatByte e m inode (offset.toNat + j)) ∧
      ∀ a : U64, flatLen e m inode offset len ≤ a.toNat → after a = buf a := by
  obtain ⟨bytes, hbytes, hlen, hflat⟩ := ext2ReadInodeData_bytes hsize hoffset hwrap hread
  have hle : flatLen e m inode offset len ≤ len.toNat := Nat.min_le_left _ _
  have hlenLt := len.isLt
  refine ⟨overwrite buf bytes, ?_, fun j hj => ?_, fun a ha => ?_⟩
  · rw [ext2ReadInodeDataInto_eq hwrap, hbytes, Option.map_some, hlen]
  · have hplace : (BitVec.ofNat 64 j).toNat = j := by
      rw [BitVec.toNat_ofNat]
      omega
    rw [← hflat j (hlen ▸ hj), overwrite, hplace, List.getElem?_eq_getElem (hlen ▸ hj)]
    rfl
  · rw [overwrite, List.getElem?_eq_none (hlen ▸ ha)]
    rfl

/-- The last bytes of the root directory of an image, where a hundred bytes were asked for. -/
theorem ext2ReadInodeData_flat_imageFs :
    ∃ after, ext2ReadInodeDataInto imageFs.ext2 imageMemory (.addr 68736#64) 1000#64 (fun _ => 0xFF#8) 100#64 =
        some (BitVec.ofNat 64 (flatLen imageFs.ext2 imageMemory (.addr 68736#64) 1000#64 100#64), after) ∧
      (∀ j < flatLen imageFs.ext2 imageMemory (.addr 68736#64) 1000#64 100#64,
        some (after (BitVec.ofNat 64 j)) = flatByte imageFs.ext2 imageMemory (.addr 68736#64) (1000 + j)) ∧
      ∀ a : U64, flatLen imageFs.ext2 imageMemory (.addr 68736#64) 1000#64 100#64 ≤ a.toNat → after a = 0xFF#8 :=
  ext2ReadInodeData_flat imageFs.ext2 imageMemory (.addr 68736#64) 1000#64 100#64 (fun _ => 0xFF#8) (by decide)
    (by decide +kernel) (by decide)
    (show ∀ j < flatLen imageFs.ext2 imageMemory (.addr 68736#64) 1000#64 100#64,
      (ext2ReadBlock imageFs.ext2 imageMemory (inodeBlock imageMemory (.addr 68736#64)
        (((1000#64 : U64).toNat + j) / imageFs.ext2.blockSize.toNat))).isSome = true by decide +kernel)

end PpoOS
