import Mathlib.Tactic.Tauto
import PpoOS.Fs.Verify.Bounds
import PpoOS.Fs.Verify.Handles

/-!
# Where a read through a handle reads

`ext2_read` looks for the inode with the blocks of the handle, and copies what is
asked for block by block.  A part of a block stays in it, except where the end of
the request wraps around to a place before its start in the same block
(`WrapsBack`): then as much is copied as was asked for.
-/

namespace PpoOS

open FaultState FsM

variable {e : Ext2} {m : Memory} {p inode : Ptr} {path : CString}

/-! ## Parts of a block -/

section Part

variable {blockSize : U32} {offset len : U64} {start stop i : U32}

/-- The request ends, in 64 bits, before it starts, and in the same block. -/
def WrapsBack (blockSize : U32) (offset len : U64) : Prop :=
  (offset + len).toNat < offset.toNat ∧ blockSize.toNat * (offset.toNat / blockSize.toNat) < (offset + len).toNat

theorem toNat_blockSize64 (blockSize : U32) : (blockSize.setWidth 64).toNat = blockSize.toNat := by
  have hs := blockSize.isLt
  rw [BitVec.toNat_setWidth]
  omega

theorem inodeDataPart_first (offset len : U64) (start stop i : U32) (hpos : 0 < blockSize.toNat) :
    (inodeDataPart blockSize offset len start stop i).1.toNat = if i = start then offset.toNat % blockSize.toNat else 0 := by
  have hfirst : (inodeDataPart blockSize offset len start stop i).1 =
      if i = start then ((offset % blockSize.setWidth 64).setWidth 32).setWidth 64 else 0#64 := by
    rw [inodeDataPart]
    split <;> rfl
  have hlt := Nat.mod_lt offset.toNat hpos
  have hs := blockSize.isLt
  rw [hfirst]
  split
  · rw [BitVec.toNat_setWidth, BitVec.toNat_setWidth, BitVec.toNat_umod, toNat_blockSize64]
    omega
  · rfl

/-- How much is read: to the end of the request in its last block, else to the end of the block. -/
theorem inodeDataPart_second (hpos : 0 < blockSize.toNat) : (inodeDataPart blockSize offset len start stop i).2 =
    if i = stop ∧ 0 < (offset + len).toNat % blockSize.toNat then
      BitVec.ofNat 64 ((offset + len).toNat % blockSize.toNat) - (inodeDataPart blockSize offset len start stop i).1
    else blockSize.setWidth 64 - (inodeDataPart blockSize offset len start stop i).1 := by
  have hend : (offset + len) % blockSize.setWidth 64 = BitVec.ofNat 64 ((offset + len).toNat % blockSize.toNat) := by
    apply BitVec.eq_of_toNat_eq
    have hlt := Nat.mod_lt (offset + len).toNat hpos
    have hs := blockSize.isLt
    rw [BitVec.toNat_umod, toNat_blockSize64, BitVec.toNat_ofNat]
    omega
  have hcond : (offset + len) % blockSize.setWidth 64 > 0#64 ↔ 0 < (offset + len).toNat % blockSize.toNat := by
    rw [gt_iff_lt, BitVec.lt_def, BitVec.toNat_umod, toNat_blockSize64]
    rfl
  rw [inodeDataPart]
  by_cases hlast : i = stop ∧ 0 < (offset + len).toNat % blockSize.toNat
  · rw [if_pos hlast, if_pos ⟨hlast.1, hcond.mpr hlast.2⟩, hend]
  · rw [if_neg hlast, if_neg fun h => hlast ⟨h.1, hcond.mp h.2⟩]

/-- A request that begins, and in 64 bits ends, in a file; `start` and `stop` are the blocks of its
ends. -/
structure DataRequest (blockSize : U32) (offset len : U64) (start stop : U32) : Prop where
  size : 0 < blockSize.toNat
  begins : offset.toNat < 2 ^ 32
  ends : (offset + len).toNat < 2 ^ 32
  first : start.toNat = offset.toNat / blockSize.toNat
  last : 0 < (offset + len).toNat → stop.toNat = ((offset + len).toNat - 1) / blockSize.toNat

/-- How much has been read when the read comes to block `i`. -/
def readBefore (blockSize : U32) (offset : U64) (start i : U32) : Nat :=
  if i = start then 0 else blockSize.toNat * i.toNat - offset.toNat

/-- What is read of a block, where `n` bytes have been read before it. -/
def readPart (len : U64) (n : Nat) (toRead : U64) : Nat :=
  (if BitVec.ofNat 64 n + toRead > len then len - BitVec.ofNat 64 n else toRead).toNat

theorem readPart_zero (toRead : U64) : readPart 0#64 0 toRead = 0 := by
  rw [readPart]
  by_cases h : BitVec.ofNat 64 0 + toRead > 0#64
  · rw [if_pos h]
    rfl
  · rw [if_neg h]
    have hle : (BitVec.ofNat 64 0 + toRead).toNat ≤ 0 := Nat.not_lt.mp h
    rw [BitVec.zero_add] at hle
    exact Nat.le_zero.mp hle

namespace DataRequest

/-- A part that is read lies in its block, and up to the last block is all of it from its start on. -/
theorem part_fits (h : DataRequest blockSize offset len start stop) (hback : ¬WrapsBack blockSize offset len)
    (hlen : 0 < len.toNat) (hi : start.toNat ≤ i.toNat) (hstop : i.toNat ≤ stop.toNat) (htwelve : i.toNat < 12) :
    (inodeDataPart blockSize offset len start stop i).1.toNat +
        (inodeDataPart blockSize offset len start stop i).2.toNat ≤ blockSize.toNat ∧
      (i.toNat < stop.toNat → (inodeDataPart blockSize offset len start stop i).1.toNat +
          (inodeDataPart blockSize offset len start stop i).2.toNat = blockSize.toNat ∧
        blockSize.toNat * (i.toNat + 1) - offset.toNat < len.toNat) := by
  have hB := blockSize.isLt
  have hfirst := inodeDataPart_first offset len start stop i h.size
  have hfirstLt : (inodeDataPart blockSize offset len start stop i).1.toNat < blockSize.toNat := by
    rw [hfirst]
    split
    · exact Nat.mod_lt _ h.size
    · exact h.size
  have hsum : (offset + len).toNat = (offset.toNat + len.toNat) % 2 ^ 64 := BitVec.toNat_add _ _
  have hlenLt := len.isLt
  have hoffset := h.begins
  -- the rest of a block
  have hrest : (blockSize.setWidth 64 - (inodeDataPart blockSize offset len start stop i).1).toNat =
      blockSize.toNat - (inodeDataPart blockSize offset len start stop i).1.toNat := by
    rw [BitVec.toNat_sub, toNat_blockSize64]
    omega
  rw [inodeDataPart_second h.size]
  by_cases hzero : (offset + len).toNat = 0
  · -- the request wraps around to nothing, so it does not end in any of the blocks
    have hmod : ¬(i = stop ∧ 0 < (offset + len).toNat % blockSize.toNat) := by
      rw [hzero, Nat.zero_mod]
      omega
    rw [if_neg hmod, hrest]
    have hmul : blockSize.toNat * (i.toNat + 1) ≤ blockSize.toNat * 12 := Nat.mul_le_mul_left _ htwelve
    omega
  have hpos : 0 < (offset + len).toNat := Nat.pos_of_ne_zero hzero
  have hlast := h.last hpos
  have hstart := h.first
  have hoffsetSplit := Nat.div_add_mod offset.toNat blockSize.toNat
  have hendSplit := Nat.div_add_mod (offset + len).toNat blockSize.toNat
  -- the request does not wrap around, else its last block is before its first
  have hforward : offset.toNat ≤ (offset + len).toNat := by
    refine Nat.not_lt.mp fun hlt => ?_
    have hbefore : (offset + len).toNat ≤ blockSize.toNat * (offset.toNat / blockSize.toNat) :=
      Nat.not_lt.mp fun hin => hback ⟨hlt, hin⟩
    have hless : ((offset + len).toNat - 1) / blockSize.toNat < offset.toNat / blockSize.toNat :=
      Nat.div_lt_of_lt_mul (by omega)
    omega
  have hlenEq : (offset + len).toNat = offset.toNat + len.toNat := by omega
  -- so that it ends behind the start of its first part
  have hfits : i = stop → 0 < (offset + len).toNat % blockSize.toNat →
      (inodeDataPart blockSize offset len start stop i).1.toNat ≤ (offset + len).toNat % blockSize.toNat := by
    intro hi hmod
    rw [hfirst]
    split
    · case isTrue his =>
      have hblock : ((offset + len).toNat - 1) / blockSize.toNat = (offset + len).toNat / blockSize.toNat := by
        have hmodLt := Nat.mod_lt (offset + len).toNat h.size
        have hpred : (offset + len).toNat - 1 = blockSize.toNat * ((offset + len).toNat / blockSize.toNat) +
            ((offset + len).toNat % blockSize.toNat - 1) := by omega
        have hsmall : ((offset + len).toNat % blockSize.toNat - 1) / blockSize.toNat = 0 :=
          Nat.div_eq_of_lt (by omega)
        rw [hpred, Nat.mul_add_div h.size, hsmall, Nat.add_zero]
      have hsame : offset.toNat / blockSize.toNat = (offset + len).toNat / blockSize.toNat := by
        rw [← hblock, ← hlast, ← hstart, ← his, hi]
      rw [← hsame] at hendSplit
      omega
    · exact Nat.zero_le _
  by_cases hend : i = stop ∧ 0 < (offset + len).toNat % blockSize.toNat
  · have hmodLt := Nat.mod_lt (offset + len).toNat h.size
    have hle := hfits hend.1 hend.2
    rw [if_pos hend, BitVec.toNat_sub, BitVec.toNat_ofNat]
    refine ⟨by omega, fun hlt => ?_⟩
    rw [hend.1] at hlt
    exact absurd hlt (Nat.lt_irrefl _)
  · rw [if_neg hend, hrest]
    refine ⟨by omega, fun hlt => ⟨by omega, ?_⟩⟩
    have hmul : blockSize.toNat * (i.toNat + 1) ≤ blockSize.toNat * stop.toNat := Nat.mul_le_mul_left _ hlt
    have hdiv : blockSize.toNat * stop.toNat ≤ (offset + len).toNat - 1 := by
      rw [hlast]
      exact Nat.mul_div_le _ _
    omega

/-- What is read of a block lies in it; before the last block all of it is read, and the request goes on. -/
theorem readPart_fits (h : DataRequest blockSize offset len start stop) (hback : ¬WrapsBack blockSize offset len)
    (hlen : 0 < len.toNat) (hi : start.toNat ≤ i.toNat) (hstop : i.toNat ≤ stop.toNat) (htwelve : i.toNat < 12)
    {part : U64 × U64} (hpart : part = inodeDataPart blockSize offset len start stop i)
    (hle : readBefore blockSize offset start i ≤ len.toNat) :
    part.1.toNat + readPart len (readBefore blockSize offset start i) part.2 ≤ blockSize.toNat ∧
      (i.toNat < stop.toNat →
        readBefore blockSize offset start i + readPart len (readBefore blockSize offset start i) part.2 =
          readBefore blockSize offset start (i + 1#32) ∧
        readBefore blockSize offset start (i + 1#32) < len.toNat) := by
  obtain ⟨hfits, hmore⟩ := h.part_fits hback hlen hi hstop htwelve
  have hfirst := inodeDataPart_first offset len start stop i h.size
  rw [← hpart] at hfits hmore hfirst
  have hB := blockSize.isLt
  have hoffset := h.begins
  have hlenLt := len.isLt
  have hread : readBefore blockSize offset start i < 2 ^ 36 := by
    have hmul : blockSize.toNat * i.toNat ≤ blockSize.toNat * 12 := Nat.mul_le_mul_left _ (by omega)
    rw [readBefore]
    split <;> omega
  have hcut : readPart len (readBefore blockSize offset start i) part.2 =
      if readBefore blockSize offset start i + part.2.toNat > len.toNat
      then len.toNat - readBefore blockSize offset start i else part.2.toNat := by
    have hR : (BitVec.ofNat 64 (readBefore blockSize offset start i)).toNat = readBefore blockSize offset start i := by
      rw [BitVec.toNat_ofNat]
      omega
    have hsum : (BitVec.ofNat 64 (readBefore blockSize offset start i) + part.2).toNat =
        readBefore blockSize offset start i + part.2.toNat := by
      rw [toNat_add_of_lt (by omega), hR]
    rw [readPart]
    by_cases hover : readBefore blockSize offset start i + part.2.toNat > len.toNat
    · rw [if_pos hover, if_pos (by rw [gt_iff_lt, BitVec.lt_def, hsum]; exact hover), BitVec.toNat_sub, hR]
      omega
    · rw [if_neg hover, if_neg (by rw [gt_iff_lt, BitVec.lt_def, hsum]; exact hover)]
  rw [hcut]
  refine ⟨by split <;> omega, fun hlt => ?_⟩
  obtain ⟨hall, hgoes⟩ := hmore hlt
  have hsucc : (i + 1#32).toNat = i.toNat + 1 := toNat_add_one (by omega)
  have hnext : readBefore blockSize offset start (i + 1#32) = blockSize.toNat * (i.toNat + 1) - offset.toNat := by
    have hne : i + 1#32 ≠ start := by
      rintro rfl
      omega
    rw [readBefore, if_neg hne, hsucc]
  have hmul : blockSize.toNat * (i.toNat + 1) = blockSize.toNat * i.toNat + blockSize.toNat := Nat.mul_succ _ _
  have hsplit := Nat.div_add_mod offset.toNat blockSize.toNat
  have hmodLt := Nat.mod_lt offset.toNat h.size
  have hread : readBefore blockSize offset start i + part.2.toNat = readBefore blockSize offset start (i + 1#32) := by
    rw [hnext, readBefore]
    by_cases his : i = start
    · rw [if_pos his] at hfirst ⊢
      rw [his, h.first] at hmul ⊢
      omega
    · rw [if_neg his] at hfirst ⊢
      have hlater : start.toNat + 1 ≤ i.toNat := by
        have hne : start.toNat ≠ i.toNat := fun heq => his (BitVec.eq_of_toNat_eq heq.symm)
        omega
      have hpast : blockSize.toNat * (start.toNat + 1) ≤ blockSize.toNat * i.toNat := Nat.mul_le_mul_left _ hlater
      rw [h.first, Nat.mul_succ] at hpast
      omega
  rw [if_neg (by omega)]
  exact ⟨hread, by omega⟩

/-- A request that wraps back is copied as a whole from its first block. -/
theorem part_wraps (h : DataRequest blockSize offset len start stop) (hback : WrapsBack blockSize offset len) :
    stop = start ∧ (inodeDataPart blockSize offset len start stop start).2 = len ∧
      2 ^ 64 ≤ (inodeDataPart blockSize offset len start stop start).1.toNat + len.toNat := by
  obtain ⟨hless, hin⟩ := hback
  have hB := blockSize.isLt
  have hbegins := h.begins
  have hsum : (offset + len).toNat = (offset.toNat + len.toNat) % 2 ^ 64 := BitVec.toNat_add _ _
  have hlenLt := len.isLt
  have hfirst := inodeDataPart_first offset len start stop start h.size
  rw [if_pos rfl] at hfirst
  have hoffsetSplit := Nat.div_add_mod offset.toNat blockSize.toNat
  have hmodLt := Nat.mod_lt offset.toNat h.size
  -- both ends are in the block of the offset
  have hnext : (offset.toNat / blockSize.toNat + 1) * blockSize.toNat =
      blockSize.toNat * (offset.toNat / blockSize.toNat) + blockSize.toNat := by
    rw [Nat.mul_comm, Nat.mul_succ]
  have hsame : ((offset + len).toNat - 1) / blockSize.toNat = offset.toNat / blockSize.toNat :=
    Nat.div_eq_of_lt_le (by rw [Nat.mul_comm]; omega) (by omega)
  have hend : (offset + len).toNat / blockSize.toNat = offset.toNat / blockSize.toNat :=
    Nat.div_eq_of_lt_le (by rw [Nat.mul_comm]; omega) (by omega)
  have hendSplit := Nat.div_add_mod (offset + len).toNat blockSize.toNat
  rw [hend] at hendSplit
  have hstop : stop = start := by
    apply BitVec.eq_of_toNat_eq
    rw [h.last (by omega), h.first, hsame]
  refine ⟨hstop, ?_, by omega⟩
  apply BitVec.eq_of_toNat_eq
  rw [inodeDataPart_second h.size, if_pos ⟨hstop.symm, by omega⟩, BitVec.toNat_sub, BitVec.toNat_ofNat]
  omega

end DataRequest

end Part

/-! ## Reading an inode -/

/-- A read from block `i` on visits block `k`: all blocks before it can be read, and a read of nothing stops
at its first block. -/
structure DataBlock (e : Ext2) (m : Memory) (inode : Ptr) (len : U64) (stop i k : U32) : Prop where
  first : i.toNat ≤ k.toNat
  last : k.toNat ≤ stop.toNat
  direct : k.toNat < 12
  empty : len = 0#64 → k = i
  before : ∀ j : U32, i.toNat ≤ j.toNat → j.toNat < k.toNat →
    (ext2ReadBlock e m (inodeBlock m inode j.toNat)).isSome = true

theorem inodeDataLoop_step (h : e.Mounted) {offset len : U64} {start stop : U32} (fuel : Nat) (i : U32)
    (acc : List U8) {P : Prop}
    {part : U64 × U64} (hpart : part = inodeDataPart e.blockSize offset len start stop i)
    {n : Nat} (hn : n = readPart len acc.length part.2)
    (hnext : ∀ block, ext2ReadBlock e m (inodeBlock m inode i.toNat) = some block →
      e.Holds (block.add part.1) n → BitVec.ofNat 64 (acc.length + n) < len →
        Checks (Checked.inodeDataLoop e m inode offset len start stop fuel (i + 1#32)
          (acc ++ m.bytes (block.add part.1) n)) P
          (some (inodeDataLoop e m inode offset len start stop fuel (i + 1#32)
            (acc ++ m.bytes (block.add part.1) n)))) :
    Checks (Checked.inodeDataLoop e m inode offset len start stop (fuel + 1) i acc)
      (i ≤ stop ∧ i < 12#32 → e.Holds (inode.add (BitVec.ofNat 64 (40 + 4 * i.toNat))) 4 ∧
        ∀ block, ext2ReadBlock e m (inodeBlock m inode i.toNat) = some block →
          e.Holds (block.add part.1) n ∧ (BitVec.ofNat 64 (acc.length + n) < len → P))
      (some (inodeDataLoop e m inode offset len start stop (fuel + 1) i acc)) := by
  rw [Checked.inodeDataLoop, inodeDataLoop]
  by_cases hin : i ≤ stop ∧ i < 12#32
  · rw [if_pos hin, if_pos hin, ← hpart]
    refine Checks.congr (Checks.next (inodeBlock_checks e m inode i.toNat) (Q := ∀ block,
      ext2ReadBlock e m (inodeBlock m inode i.toNat) = some block →
          e.Holds (block.add part.1) n ∧ (BitVec.ofNat 64 (acc.length + n) < len → P)) ?_)
      ⟨fun hs _ => hs, fun hs => hs hin⟩
    rw [ext2ReadBlock_checks h, Option.bind_eq_bind, Option.bind_some]
    cases hblock : ext2ReadBlock e m (inodeBlock m inode i.toNat) with
    | none => exact (Checks.done acc).congr ⟨fun _ _ hb => (by cases hb), fun _ => trivial⟩
    | some block =>
      obtain ⟨first, toRead⟩ := part
      rw [readPart] at hn
      dsimp only at hn ⊢
      rw [← hn]
      refine Checks.congr (Checks.after (bytes_checks e m (block.add first) n)
        (Q := BitVec.ofNat 64 (acc.length + n) < len → P) fun hholds => ?_)
        ⟨fun hs _ hb => Option.some.inj hb ▸ hs, fun hs => hs block rfl⟩
      rw [List.length_append, Memory.bytes_length]
      by_cases hdone : BitVec.ofNat 64 (acc.length + n) ≥ len
      · rw [if_pos hdone, if_pos hdone]
        exact (Checks.done _).congr ⟨fun _ hlt => absurd hdone (BitVec.not_le.mpr hlt), fun _ => trivial⟩
      · have hmore := BitVec.not_le.mp hdone
        rw [if_neg hdone, if_neg hdone]
        exact (hnext block hblock hholds hmore).congr ⟨fun hs _ => hs, fun hs => hs hmore⟩
  · rw [if_neg hin, if_neg hin]
    exact (Checks.done acc).congr ⟨fun _ hs => absurd hs hin, fun _ => trivial⟩

section Request

variable {offset len : U64} {start stop : U32}

/-- Behind the last block nothing is read. -/
theorem inodeDataLoop_past {fuel : Nat} {i : U32} {acc : List U8} (h : ¬(i ≤ stop ∧ i < 12#32)) :
    Checks (Checked.inodeDataLoop e m inode offset len start stop fuel i acc)
      (∀ k, DataBlock e m inode len stop i k → e.Holds (inode.add (BitVec.ofNat 64 (40 + 4 * k.toNat))) 4)
      (some (inodeDataLoop e m inode offset len start stop fuel i acc)) := by
  have hnone : ∀ k, ¬DataBlock e m inode len stop i k := fun k hk =>
    h ⟨Nat.le_trans hk.first hk.last, Nat.lt_of_le_of_lt hk.first hk.direct⟩
  have hpast : Checks (Checked.inodeDataLoop e m inode offset len start stop fuel i acc) True
      (some (inodeDataLoop e m inode offset len start stop fuel i acc)) := by
    cases fuel with
    | zero => exact Checks.done acc
    | succ fuel =>
      rw [Checked.inodeDataLoop, inodeDataLoop, if_neg h, if_neg h]
      exact Checks.done acc
  exact hpast.congr ⟨fun _ k hk => absurd hk (hnone k), fun _ => trivial⟩

/-- The blocks of a read are its first block and, where that can be read, those of the rest. -/
theorem DataBlock.cons {i k : U32} (hi : i.toNat < 12) :
    DataBlock e m inode len stop i k ↔ (k = i ∧ i.toNat ≤ stop.toNat) ∨
      (len ≠ 0#64 ∧ (ext2ReadBlock e m (inodeBlock m inode i.toNat)).isSome = true ∧
        DataBlock e m inode len stop (i + 1#32) k ∧ (i + 1#32).toNat = i.toNat + 1) := by
  have hsucc : (i + 1#32).toNat = i.toNat + 1 := toNat_add_one (by omega)
  constructor
  · intro hk
    by_cases heq : k = i
    · exact Or.inl ⟨heq, heq ▸ hk.last⟩
    · have hfirst := hk.first
      have hne : k.toNat ≠ i.toNat := fun h => heq (BitVec.eq_of_toNat_eq h)
      refine Or.inr ⟨fun hz => heq (hk.empty hz), hk.before i (Nat.le_refl _) (by omega), ?_, hsucc⟩
      exact ⟨by omega, hk.last, hk.direct, fun hz => absurd (hk.empty hz) heq,
        fun j hj hjk => hk.before j (by omega) hjk⟩
  · rintro (⟨rfl, hlast⟩ | ⟨hlen, hread, hk, -⟩)
    · exact ⟨Nat.le_refl _, hlast, hi, fun _ => rfl, fun j hj hjk => absurd hjk (Nat.not_lt.mpr hj)⟩
    · have hfirst := hk.first
      refine ⟨by omega, hk.last, hk.direct, fun hz => absurd hz hlen, fun j hj hjk => ?_⟩
      by_cases heq : j = i
      · rw [heq]
        exact hread
      · have hne : j.toNat ≠ i.toNat := fun h => heq (BitVec.eq_of_toNat_eq h)
        exact hk.before j (by omega) hjk

/-- A request that does not wrap back is read as far as the image holds the numbers of the blocks. -/
theorem inodeDataLoop_checks (h : e.Mounted) (hreq : DataRequest e.blockSize offset len start stop)
    (hback : ¬WrapsBack e.blockSize offset len) (fuel : Nat) (i : U32) (acc : List U8)
    (hi : start.toNat ≤ i.toNat) (hfuel : 12 ≤ i.toNat + fuel)
    (hacc : acc.length = readBefore e.blockSize offset start i) (hle : acc.length ≤ len.toNat)
    (hempty : len = 0#64 → i = start) :
    Checks (Checked.inodeDataLoop e m inode offset len start stop fuel i acc)
      (∀ k, DataBlock e m inode len stop i k → e.Holds (inode.add (BitVec.ofNat 64 (40 + 4 * k.toNat))) 4)
      (some (inodeDataLoop e m inode offset len start stop fuel i acc)) := by
  induction fuel generalizing i acc with
  | zero =>
    refine (Checks.done acc).congr ⟨fun _ k hk => ?_, fun _ => trivial⟩
    have hfirst := hk.first
    have hdirect := hk.direct
    omega
  | succ fuel ih =>
    by_cases hin : i ≤ stop ∧ i < 12#32
    · have hstop : i.toNat ≤ stop.toNat := hin.1
      have htwelve : i.toNat < 12 := hin.2
      have hsucc : (i + 1#32).toNat = i.toNat + 1 := toNat_add_one (by omega)
      have hnz : ∀ {a : U64}, a < len → 0 < len.toNat := fun {a} hlt => Nat.lt_of_le_of_lt (Nat.zero_le a.toNat) hlt
      have hpos : len ≠ 0#64 → 0 < len.toNat := fun hne =>
        Nat.pos_of_ne_zero fun hz => hne (BitVec.eq_of_toNat_eq hz)
      have hne : 0 < len.toNat → len ≠ 0#64 := fun hlt hz => by
        rw [hz] at hlt
        exact absurd hlt (Nat.lt_irrefl _)
      have hmore : 0 < len.toNat → (inodeDataPart e.blockSize offset len start stop i).1.toNat +
          readPart len acc.length (inodeDataPart e.blockSize offset len start stop i).2 ≤ e.blockSize.toNat ∧
            (i.toNat < stop.toNat →
              acc.length + readPart len acc.length (inodeDataPart e.blockSize offset len start stop i).2 =
                readBefore e.blockSize offset start (i + 1#32) ∧
              readBefore e.blockSize offset start (i + 1#32) < len.toNat) := by
        rw [hacc] at hle ⊢
        exact fun hlen => hreq.readPart_fits hback hlen hi hstop htwelve rfl hle
      -- the part lies in the block, and is nothing where nothing is asked for
      have hfits : (inodeDataPart e.blockSize offset len start stop i).1.toNat +
          readPart len acc.length (inodeDataPart e.blockSize offset len start stop i).2 ≤ e.blockSize.toNat := by
        by_cases hlen : len = 0#64
        · have hzero : readPart len acc.length (inodeDataPart e.blockSize offset len start stop i).2 = 0 := by
            rw [hlen] at hle
            rw [Nat.le_zero.mp hle, hlen]
            exact readPart_zero _
          rw [hzero, inodeDataPart_first offset len start stop i hreq.size]
          have hmodLt := Nat.mod_lt offset.toNat hreq.size
          split <;> omega
        · exact (hmore (hpos hlen)).1
      refine (inodeDataLoop_step h fuel i acc rfl rfl (P := ∀ k, DataBlock e m inode len stop (i + 1#32) k →
        e.Holds (inode.add (BitVec.ofNat 64 (40 + 4 * k.toNat))) 4) fun block hblock _ hlt => ?_).congr ?_
      · by_cases hlast : i.toNat < stop.toNat
        · obtain ⟨hread, hgoes⟩ := (hmore (hnz hlt)).2 hlast
          refine ih (i + 1#32) _ (by omega) (by omega) ?_ ?_ fun hz => absurd hz (hne (hnz hlt))
          · rw [List.length_append, Memory.bytes_length, hread]
          · rw [List.length_append, Memory.bytes_length, hread]
            exact Nat.le_of_lt hgoes
        · refine inodeDataLoop_past fun hpast => ?_
          have hpast : (i + 1#32).toNat ≤ stop.toNat := hpast.1
          omega
      · constructor
        · intro hs k hk
          rcases (DataBlock.cons htwelve).mp hk with ⟨rfl, -⟩ | ⟨hlen, hread, hrest, -⟩
          · exact (hs hin).1
          · obtain ⟨block, hblock⟩ := Option.isSome_iff_exists.mp hread
            have hfirst := hrest.first
            have hlast := hrest.last
            obtain ⟨hsum, hgoes⟩ := (hmore (hpos hlen)).2 (by omega)
            refine ((hs hin).2 block hblock).2 ?_ k hrest
            rw [hsum, BitVec.lt_def, BitVec.toNat_ofNat]
            exact Nat.lt_of_le_of_lt (Nat.mod_le _ _) hgoes
        · intro hs _
          refine ⟨hs i ((DataBlock.cons htwelve).mpr (Or.inl ⟨rfl, hstop⟩)), fun block hblock =>
            ⟨ext2ReadBlock_holds hblock hfits, fun hlt k hk => hs k ((DataBlock.cons htwelve).mpr (Or.inr ?_))⟩⟩
          exact ⟨hne (hnz hlt), Option.isSome_iff_exists.mpr ⟨block, hblock⟩, hk, hsucc⟩
    · exact inodeDataLoop_past hin

/-- A request that wraps back reads past the end of the image, unless its first block cannot be read. -/
theorem inodeDataLoop_wraps (h : e.Mounted) (hreq : DataRequest e.blockSize offset len start stop)
    (hback : WrapsBack e.blockSize offset len) (fuel : Nat) :
    Checks (Checked.inodeDataLoop e m inode offset len start stop (fuel + 1) start [])
      ((∀ k, DataBlock e m inode len stop start k → e.Holds (inode.add (BitVec.ofNat 64 (40 + 4 * k.toNat))) 4) ∧
        (start < 12#32 → ext2ReadBlock e m (inodeBlock m inode start.toNat) = none))
      (some (inodeDataLoop e m inode offset len start stop (fuel + 1) start [])) := by
  obtain ⟨rfl, hpart, hover⟩ := hreq.part_wraps hback
  have hread : readPart len ([] : List U8).length (inodeDataPart e.blockSize offset len stop stop stop).2 = len.toNat := by
    have hzero : BitVec.ofNat 64 0 + len = len := BitVec.zero_add _
    rw [hpart, readPart, List.length_nil, hzero, if_neg (BitVec.lt_irrefl _)]
  have hout : ∀ block, ext2ReadBlock e m (inodeBlock m inode stop.toNat) = some block →
      ¬e.Holds (block.add (inodeDataPart e.blockSize offset len stop stop stop).1) len.toNat := by
    intro block hblock hholds
    obtain ⟨o, rfl, ho, -⟩ := ext2ReadBlock_place hblock
    have hmodLt := Nat.mod_lt offset.toNat hreq.size
    have hfirst := inodeDataPart_first offset len stop stop stop hreq.size
    rw [if_pos rfl] at hfirst
    have hB := e.blockSize.isLt
    have hsize := e.size.isLt
    rw [Memory.Ptr_add_add, Ext2.holds_add, toNat_add_of_lt (by omega)] at hholds
    omega
  refine (inodeDataLoop_step h fuel stop [] rfl hread.symm (P := True) fun block hblock hholds => ?_).congr ?_
  · exact absurd hholds (hout block hblock)
  · constructor
    · intro hs
      refine ⟨fun k hk => ?_, fun htwelve => ?_⟩
      · have heq : k = stop := BitVec.eq_of_toNat_eq (Nat.le_antisymm hk.last hk.first)
        rw [heq]
        exact (hs ⟨BitVec.le_refl _, Nat.lt_of_le_of_lt hk.first hk.direct⟩).1
      · refine Option.eq_none_iff_forall_ne_some.mpr fun block hblock => ?_
        exact hout block hblock ((hs ⟨BitVec.le_refl _, htwelve⟩).2 block hblock).1
    · rintro ⟨hfields, hnone⟩ ⟨-, htwelve⟩
      refine ⟨hfields stop ⟨Nat.le_refl _, Nat.le_refl _, htwelve, fun _ => rfl, fun j hj hjk => ?_⟩, ?_⟩
      · exact absurd hjk (Nat.not_lt.mpr hj)
      · rw [hnone htwelve]
        exact nofun

end Request

/-- How much of a request is read, and the blocks of its ends. -/
def dataLen (m : Memory) (inode : Ptr) (offset len : U64) : U64 :=
  if offset + len > (inodeFileSize m inode).setWidth 64 then (inodeFileSize m inode).setWidth 64 - offset else len

def dataStart (e : Ext2) (offset : U64) : U32 := (offset / e.blockSize.setWidth 64).setWidth 32

def dataStop (e : Ext2) (offset len : U64) : U32 := ((offset + len - 1#64) / e.blockSize.setWidth 64).setWidth 32

/-- A read of an inode: the image holds its size and, where the read begins in the file, the blocks have a
size, the image holds the number of every block that is visited, and the request does not wrap back. -/
def DataSafe (e : Ext2) (m : Memory) (inode : Ptr) (offset len : U64) : Prop :=
  e.Holds (inode.add 4#64) 4 ∧ (offset < (inodeFileSize m inode).setWidth 64 → e.blockSize ≠ 0#32 ∧
    (∀ k, DataBlock e m inode (dataLen m inode offset len) (dataStop e offset (dataLen m inode offset len))
        (dataStart e offset) k → e.Holds (inode.add (BitVec.ofNat 64 (40 + 4 * k.toNat))) 4) ∧
      (WrapsBack e.blockSize offset (dataLen m inode offset len) → dataStart e offset < 12#32 →
        ext2ReadBlock e m (inodeBlock m inode (dataStart e offset).toNat) = none))

theorem dataRequest {offset : U64} (len : U64) (hsize : e.blockSize ≠ 0#32)
    (h : offset < (inodeFileSize m inode).setWidth 64) :
    DataRequest e.blockSize offset (dataLen m inode offset len) (dataStart e offset)
      (dataStop e offset (dataLen m inode offset len)) := by
  have hF := (inodeFileSize m inode).isLt
  have hfile : ((inodeFileSize m inode).setWidth 64).toNat = (inodeFileSize m inode).toNat := toNat_blockSize64 _
  have hlt : offset.toNat < (inodeFileSize m inode).toNat := hfile ▸ h
  have hends : (offset + dataLen m inode offset len).toNat ≤ (inodeFileSize m inode).toNat := by
    rw [dataLen]
    by_cases hclip : offset + len > (inodeFileSize m inode).setWidth 64
    · rw [if_pos hclip, BitVec.toNat_add, BitVec.toNat_sub, hfile]
      omega
    · rw [if_neg hclip, ← hfile]
      exact Nat.not_lt.mp hclip
  refine ⟨Nat.pos_of_ne_zero fun hz => hsize (BitVec.eq_of_toNat_eq hz), by omega, by omega, ?_, fun hpos => ?_⟩
  · rw [dataStart, BitVec.toNat_setWidth, BitVec.toNat_udiv, toNat_blockSize64]
    exact Nat.mod_eq_of_lt (Nat.lt_of_le_of_lt (Nat.div_le_self _ _) (by omega))
  · rw [dataStop, BitVec.toNat_setWidth, BitVec.toNat_udiv, toNat_blockSize64, toNat_sub_one hpos]
    exact Nat.mod_eq_of_lt (Nat.lt_of_le_of_lt (Nat.div_le_self _ _) (by omega))

theorem ext2ReadInodeData_checks (h : e.Mounted) (inode : Ptr) (offset len : U64) :
    Checks (Checked.ext2ReadInodeData e m inode offset len) (DataSafe e m inode offset len)
      (ext2ReadInodeData e m inode offset len) := by
  rw [Checked.ext2ReadInodeData, ext2ReadInodeData]
  refine (load32_checks e m (inode.add 4#64)).next ?_
  change Checks (if offset ≥ (inodeFileSize m inode).setWidth 64 then some [] else _) _ _
  by_cases hend : offset ≥ (inodeFileSize m inode).setWidth 64
  · rw [if_pos hend, if_pos hend]
    exact (Checks.done []).congr ⟨fun _ hlt => absurd hend (BitVec.not_le.mpr hlt), fun _ => trivial⟩
  have hlt := BitVec.not_le.mp hend
  rw [if_neg hend, if_neg hend]
  by_cases hzero : e.blockSize = 0#32
  · rw [if_pos hzero, if_pos hzero]
    exact (Checks.stuck none).congr ⟨False.elim, fun hs => (hs hlt).1 hzero⟩
  rw [if_neg hzero, if_neg hzero]
  have hreq := dataRequest (e := e) len hzero hlt
  change Checks (Checked.inodeDataLoop e m inode offset (dataLen m inode offset len) (dataStart e offset)
    (dataStop e offset (dataLen m inode offset len)) 12 (dataStart e offset) []) _
    (some (inodeDataLoop e m inode offset (dataLen m inode offset len) (dataStart e offset)
      (dataStop e offset (dataLen m inode offset len)) 12 (dataStart e offset) []))
  by_cases hback : WrapsBack e.blockSize offset (dataLen m inode offset len)
  · exact (inodeDataLoop_wraps h hreq hback 11).congr
      ⟨fun hs _ => ⟨hzero, hs.1, fun _ => hs.2⟩, fun hs => ⟨(hs hlt).2.1, (hs hlt).2.2 hback⟩⟩
  · refine (inodeDataLoop_checks h hreq hback 12 _ [] (Nat.le_refl _) (by omega) ?_ (Nat.zero_le _) fun _ => rfl).congr
      ⟨fun hs _ => ⟨hzero, hs, fun hb => absurd hb hback⟩, fun hs => (hs hlt).2.1⟩
    rw [readBefore, if_pos rfl]
    rfl

/-! ## Looking for the inode of a handle -/

/-- The search from inode `i` on for one with that many blocks: up to the first of them, every inode can be
looked up, and the image holds the number of its blocks. -/
def SearchSafe (e : Ext2) (m : Memory) (blocks i : U32) : Prop :=
  ∀ n : U32, i.toNat ≤ n.toNat → n ≤ e.inodesCount m →
    (∀ k : U32, i.toNat ≤ k.toNat → k < n → ∀ q, ext2ReadInode e m k = some (some q) → inodeBlocks m q ≠ blocks) →
      InodeSafe e m n ∧ ∀ q, ext2ReadInode e m n = some (some q) → e.Holds (q.add 28#64) 4

/-- One inode, and the others where it is not the one. -/
theorem searchSafe_cons {blocks i : U32} {o : Option Ptr} (hrange : i ≤ e.inodesCount m)
    (hmore : (∀ q, o = some q → inodeBlocks m q ≠ blocks) → (i + 1#32).toNat = i.toNat + 1)
    (ho : ext2ReadInode e m i = some o) : SearchSafe e m blocks i ↔
      InodeSafe e m i ∧ (∀ q, o = some q → e.Holds (q.add 28#64) 4) ∧ ((∀ q, o = some q → inodeBlocks m q ≠ blocks) →
        SearchSafe e m blocks (i + 1#32)) := by
  constructor
  · intro hs
    obtain ⟨hsafe, hfield⟩ := hs i (Nat.le_refl _) hrange fun k hk hki => absurd hki (Nat.not_lt.mpr hk)
    refine ⟨hsafe, fun q hq => hfield q (hq ▸ ho), fun hother n hn hcount hbefore => ?_⟩
    have hsucc := hmore hother
    refine hs n (by omega) hcount fun k hk hkn q hq => ?_
    by_cases heq : k = i
    · rw [heq, ho] at hq
      exact hother q (Option.some.inj hq)
    · have hne : k.toNat ≠ i.toNat := fun h => heq (BitVec.eq_of_toNat_eq h)
      exact hbefore k (by omega) hkn q hq
  · rintro ⟨hsafe, hfield, hrest⟩ n hn hcount hbefore
    by_cases heq : n = i
    · rw [heq]
      refine ⟨hsafe, fun q hq => hfield q ?_⟩
      rw [ho] at hq
      exact Option.some.inj hq
    · have hne : n.toNat ≠ i.toNat := fun h => heq (BitVec.eq_of_toNat_eq h)
      have hlt : i < n := BitVec.lt_def.mpr (by omega)
      have hother : ∀ q, o = some q → inodeBlocks m q ≠ blocks := fun q hq =>
        hbefore i (Nat.le_refl _) hlt q (hq ▸ ho)
      have hsucc := hmore hother
      exact hrest hother n (by omega) hcount fun k hk => hbefore k (by omega)

theorem ext2FindByBlocks_checks (h : e.Mounted) {n : U32} (hn : ext2ReadInode e m n = some (some p)) (fuel : Nat)
    (i : U32) (hle : i.toNat ≤ n.toNat) (hfuel : n.toNat - i.toNat < fuel) :
    Checks (Checked.ext2FindByBlocks e m (inodeBlocks m p) fuel i) (SearchSafe e m (inodeBlocks m p) i)
      (ext2FindByBlocks e m (inodeBlocks m p) fuel i) := by
  obtain ⟨-, hcount, hdefined⟩ := ext2ReadInode_some hn
  induction fuel generalizing i with
  | zero => exact absurd hfuel (Nat.not_lt_zero _)
  | succ fuel ih =>
    obtain ⟨o, ho⟩ := hdefined i
    have hrange : i ≤ e.inodesCount m := Nat.le_trans hle hcount
    have hread := ext2ReadInode_checks (m := m) h i
    rw [ho] at hread
    have hmore : (∀ q, o = some q → inodeBlocks m q ≠ inodeBlocks m p) →
        (i + 1#32).toNat = i.toNat + 1 ∧ i.toNat + 1 ≤ n.toNat := by
      intro hother
      have hne : i.toNat ≠ n.toNat := fun heq => by
        obtain rfl := BitVec.eq_of_toNat_eq heq
        exact hother p (Option.some.inj (ho.symm.trans hn)) rfl
      have hbound := n.isLt
      exact ⟨toNat_add_one (by omega), by omega⟩
    rw [Checked.ext2FindByBlocks, ext2FindByBlocks, h.inodesCount, Option.bind_eq_bind, Option.bind_some,
      if_pos hrange, if_pos hrange, ho]
    refine Checks.congr (hread.next (Q := (∀ q, o = some q → e.Holds (q.add 28#64) 4) ∧
      ((∀ q, o = some q → inodeBlocks m q ≠ inodeBlocks m p) → SearchSafe e m (inodeBlocks m p) (i + 1#32))) ?_)
      (searchSafe_cons hrange (fun hother => (hmore hother).1) ho).symm
    rw [Option.bind_eq_bind, Option.bind_some]
    cases o with
    | none =>
      have hnone : ∀ (P : Ptr → Prop) (q : Ptr), none = some q → P q := fun _ q hq => by cases hq
      obtain ⟨hsucc, hnext⟩ := hmore (hnone _)
      exact (ih (i + 1#32) (by omega) (by omega)).congr
        ⟨fun hs => ⟨hnone _, fun _ => hs⟩, fun hs => hs.2 (hnone _)⟩
    | some q =>
      refine Checks.congr ((load32_checks e m (q.add 28#64)).next
        (Q := inodeBlocks m q ≠ inodeBlocks m p → SearchSafe e m (inodeBlocks m p) (i + 1#32)) ?_)
        ⟨fun hs => ⟨fun r hr => Option.some.inj hr ▸ hs.1, fun hother => hs.2 (hother q rfl)⟩,
          fun hs => ⟨hs.1 q rfl, fun hne => hs.2 fun r hr => Option.some.inj hr ▸ hne⟩⟩
      change Checks (if inodeBlocks m q = inodeBlocks m p then some (some q) else _) _
        (if inodeBlocks m q = inodeBlocks m p then some (some q) else _)
      by_cases hmatch : inodeBlocks m q = inodeBlocks m p
      · rw [if_pos hmatch, if_pos hmatch]
        exact (Checks.done (some q)).congr ⟨fun _ hne => absurd hmatch hne, fun _ => trivial⟩
      · obtain ⟨hsucc, hnext⟩ := hmore fun r hr => Option.some.inj hr ▸ hmatch
        rw [if_neg hmatch, if_neg hmatch]
        exact (ih (i + 1#32) (by omega) (by omega)).congr ⟨fun hs _ => hs, fun hs => hs hmatch⟩

/-! ## Reading through a handle -/

/-- A read through the handle of the inode at `p`: where it begins in the file, the first inode with as many
blocks can be looked for, and read. -/
def HandleSafe (e : Ext2) (m : Memory) (p : Ptr) (offset len : U64) : Prop :=
  offset < (inodeFileSize m p).setWidth 64 → SearchSafe e m (inodeBlocks m p) 1#32 ∧
    ∀ q, FirstWithBlocks e m (inodeBlocks m p) q → DataSafe e m q offset len

theorem checkedRead_checks (h : e.Mounted) {n : U32} (hn : ext2ReadInode e m n = some (some p))
    (path : CString) (offset len : U64) :
    Checks (Checked.ext2Read e m (openedFile m path p) offset len) (HandleSafe e m p offset len)
      (ext2Read e m (openedFile m path p) offset len) := by
  obtain ⟨hpos, -, -⟩ := ext2ReadInode_some hn
  obtain ⟨first, hfind, hfirst⟩ := ext2FindByBlocks_first hn (2 ^ 32) 1#32 (Nat.le_refl 1) hpos
    (Nat.lt_of_le_of_lt (Nat.sub_le _ _) n.isLt) fun k hk hlt => absurd hlt (Nat.not_lt_of_le hk)
  have hblocks : (openedFile m path p).data.toU32 m = inodeBlocks m p := BitVec.setWidth_setWidth_of_le _ (by decide)
  have hsearch := ext2FindByBlocks_checks h hn (2 ^ 32) 1#32 hpos (Nat.lt_of_le_of_lt (Nat.sub_le _ _) n.isLt)
  rw [hfind] at hsearch
  rw [Checked.ext2Read, ext2Read, hblocks, hfind]
  change Checks (if offset ≥ (inodeFileSize m p).setWidth 64 then some [] else _) _
    (if offset ≥ (inodeFileSize m p).setWidth 64 then some [] else _)
  by_cases hend : offset ≥ (inodeFileSize m p).setWidth 64
  · rw [if_pos hend, if_pos hend]
    exact (Checks.done []).congr ⟨fun _ hlt => absurd hend (BitVec.not_le.mpr hlt), fun _ => trivial⟩
  · have hlt := BitVec.not_le.mp hend
    rw [if_neg hend, if_neg hend]
    refine (hsearch.next (ext2ReadInodeData_checks h first offset len)).congr ?_
    exact ⟨fun hs _ => ⟨hs.1, fun q hq => hfirst.unique hq ▸ hs.2⟩, fun hs => ⟨(hs hlt).1, (hs hlt).2 first hfirst⟩⟩

end PpoOS
