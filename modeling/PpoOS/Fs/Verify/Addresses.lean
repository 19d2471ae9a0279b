import PpoOS.Fs.Verify.Bounds

/-!
# The addresses of blocks and inodes

`ext2_read_block` and `ext2_read_inode` multiply 32-bit numbers, and the products
wrap before they are compared with the size of the image.
**`ext2Addresses_exact_iff`**: an address is that of the block or inode that was
asked for exactly where it is refused, or its place is below 4 GiB and inside of the
image.
-/

namespace PpoOS

open ByteMem

variable {e : Ext2} {m : Memory} {p : Ptr} {b num : U32}

/-! ## Places in numbers -/

/-- The place of a block. -/
def Ext2.blockPlace (e : Ext2) (b : U32) : Nat := b.toNat * e.blockSize.toNat

/-- The group of an inode, and its number there. -/
def Ext2.inodeGroup (e : Ext2) (m : Memory) (num : U32) : U32 := (num - 1#32) / e.inodesPerGroup m
def Ext2.inodeIndex (e : Ext2) (m : Memory) (num : U32) : U32 := (num - 1#32) % e.inodesPerGroup m

/-- The descriptors of the groups are in the block behind the first one. -/
def Ext2.exactDesc (e : Ext2) (m : Memory) (group : U32) : Ptr :=
  e.data.add (BitVec.ofNat 64 (((e.firstDataBlock m).toNat + 1) * e.blockSize.toNat + group.toNat * 32))

/-- `inode_table` of a descriptor. -/
def inodeTable (m : Memory) (desc : Ptr) : U32 := m.load32 (desc.add 8#64)

/-- The place of an inode, where the table of its group begins at the block `table`. -/
def Ext2.inodePlace (e : Ext2) (m : Memory) (table num : U32) : Nat :=
  table.toNat * e.blockSize.toNat + (e.inodeIndex m num).toNat * (e.inodeSize m).toNat

/-! ## Exact addresses -/

/-- NULL, or the address of the block, which lies in the image. -/
def BlockExact (e : Ext2) (m : Memory) (b : U32) : Prop :=
  ∀ p, ext2ReadBlock e m b = some p →
    p = e.data.add (BitVec.ofNat 64 (e.blockPlace b)) ∧ (b.toNat + 1) * e.blockSize.toNat ≤ e.size.toNat

/-- NULL, or the address of the inode, which lies in the image. -/
def InodeExact (e : Ext2) (m : Memory) (num : U32) : Prop :=
  let place := e.inodePlace m (inodeTable m (e.exactDesc m (e.inodeGroup m num))) num
  ∃ o, ext2ReadInode e m num = some o ∧ ∀ p, o = some p →
    p = e.data.add (BitVec.ofNat 64 place) ∧ place + (e.inodeSize m).toNat ≤ e.size.toNat

/-- Where the address of a block is exact. -/
inductive BlockFits (e : Ext2) (m : Memory) (b : U32) : Prop
  | refused (h : e.data = Ptr.null ∨ e.blockSize = 0#32 ∨ b ≥ e.blocksCount m)
  /-- The product may wrap, but there is no block in the image at what comes out. -/
  | outside (h : e.size.toNat < e.blockPlace b % 2 ^ 32 + e.blockSize.toNat)
  | noWrap (h : e.blockPlace b < 2 ^ 32)

/-- Where the address of an inode is exact. -/
inductive InodeFits (e : Ext2) (m : Memory) (num : U32) : Prop
  | refused (h : e.data = Ptr.null ∨ e.superblock = Ptr.null ∨ num = 0#32 ∨ num > e.inodesCount m)
  /-- The sums may wrap, but there is no inode in the image at what comes out. -/
  | outside (groups : e.inodesPerGroup m ≠ 0#32)
      (h : e.size.toNat < (e.inodePlace m (inodeTable m (e.groupDesc m (e.inodeGroup m num))) num +
        (e.inodeSize m).toNat) % 2 ^ 32)
  /-- The place of the inode, from the table that the descriptor of its group has.  The descriptor that is
  read may be another one, with a table that begins at the same place. -/
  | noWrap (groups : e.inodesPerGroup m ≠ 0#32)
      (h : e.inodePlace m (inodeTable m (e.exactDesc m (e.inodeGroup m num))) num < 2 ^ 32)
      (inside : e.inodePlace m (inodeTable m (e.exactDesc m (e.inodeGroup m num))) num +
        (e.inodeSize m).toNat ≤ e.size.toNat)
      (table : e.blockPlace (inodeTable m (e.exactDesc m (e.inodeGroup m num))) % 2 ^ 32 =
        e.blockPlace (inodeTable m (e.groupDesc m (e.inodeGroup m num))) % 2 ^ 32)

/-! ## Blocks -/

/-- Two places below 2 ^ 64 behind the start of the image. -/
theorem Ptr_add_ofNat_inj (p : Ptr) {i j : Nat} (hi : i < 2 ^ 64) (hj : j < 2 ^ 64) :
    p.add (BitVec.ofNat 64 i) = p.add (BitVec.ofNat 64 j) ↔ i = j := by
  cases p with
  | pool off => rw [Ptr.add, Ptr.add, Ptr.pool.injEq, add_ofNat_inj hi hj]
  | addr a => rw [Ptr.add, Ptr.add, Ptr.addr.injEq, add_ofNat_inj hi hj]

/-- A block is looked for at the wrapped product. -/
theorem ext2ReadBlock_wrapped (e : Ext2) (m : Memory) (b : U32) :
    ext2ReadBlock e m b =
      if e.data = Ptr.null ∨ e.blockSize = 0#32 ∨ b ≥ e.blocksCount m then none
      else if e.size.toNat < e.blockPlace b % 2 ^ 32 + e.blockSize.toNat then none
      else some (e.data.add (BitVec.ofNat 64 (e.blockPlace b % 2 ^ 32))) := by
  have hs := e.blockSize.isLt
  have hoffset : (b * e.blockSize).setWidth 64 = BitVec.ofNat 64 (e.blockPlace b % 2 ^ 32) := by
    apply BitVec.eq_of_toNat_eq
    rw [BitVec.toNat_setWidth, BitVec.toNat_mul, BitVec.toNat_ofNat, Ext2.blockPlace]
  have hsum : (BitVec.ofNat 64 (e.blockPlace b % 2 ^ 32) + e.blockSize.setWidth 64).toNat =
      e.blockPlace b % 2 ^ 32 + e.blockSize.toNat := by
    rw [BitVec.toNat_add, BitVec.toNat_ofNat, BitVec.toNat_setWidth]
    omega
  have hin : BitVec.ofNat 64 (e.blockPlace b % 2 ^ 32) + e.blockSize.setWidth 64 > e.size ↔
      e.size.toNat < e.blockPlace b % 2 ^ 32 + e.blockSize.toNat := by
    rw [gt_iff_lt, BitVec.lt_def, hsum]
  rw [ext2ReadBlock]
  dsimp only
  rw [hoffset]
  by_cases hout : e.size.toNat < e.blockPlace b % 2 ^ 32 + e.blockSize.toNat
  · rw [if_pos (hin.mpr hout), if_pos hout]
  · rw [if_neg (mt hin.mp hout), if_neg hout]

theorem blockPlace_lt (e : Ext2) (b : U32) : e.blockPlace b < 2 ^ 64 := by
  have hmul : b.toNat * e.blockSize.toNat ≤ (2 ^ 32 - 1) * (2 ^ 32 - 1) :=
    Nat.mul_le_mul (Nat.le_pred_of_lt b.isLt) (Nat.le_pred_of_lt e.blockSize.isLt)
  exact Nat.lt_of_le_of_lt hmul (by decide)

theorem blockExact_iff : BlockExact e m b ↔ BlockFits e m b := by
  unfold BlockExact
  rw [ext2ReadBlock_wrapped]
  by_cases hrefused : e.data = Ptr.null ∨ e.blockSize = 0#32 ∨ b ≥ e.blocksCount m
  · rw [if_pos hrefused]
    exact ⟨fun _ => .refused hrefused, fun _ => nofun⟩
  by_cases hout : e.size.toNat < e.blockPlace b % 2 ^ 32 + e.blockSize.toNat
  · rw [if_neg hrefused, if_pos hout]
    exact ⟨fun _ => .outside hout, fun _ => nofun⟩
  rw [if_neg hrefused, if_neg hout]
  have hplace := blockPlace_lt e b
  have hnext : (b.toNat + 1) * e.blockSize.toNat = e.blockPlace b + e.blockSize.toNat := Nat.succ_mul _ _
  constructor
  · intro h
    obtain ⟨hat, -⟩ := h _ rfl
    have heq := (Ptr_add_ofNat_inj e.data (by omega) hplace).mp hat
    exact .noWrap (by omega)
  · intro h p hp
    cases h with
    | refused h => exact absurd h hrefused
    | outside h => exact absurd h hout
    | noWrap h =>
      rw [Nat.mod_eq_of_lt h] at hp hout
      exact ⟨(Option.some.inj hp).symm, by omega⟩

/-! ## Inodes -/

/-- An inode is looked for at the wrapped sum, from the table of the descriptor that is read. -/
theorem ext2ReadInode_wrapped (e : Ext2) (m : Memory) (num : U32) :
    ext2ReadInode e m num =
      if e.data = Ptr.null ∨ e.superblock = Ptr.null ∨ num = 0#32 ∨ num > e.inodesCount m then some none
      else if e.inodesPerGroup m = 0#32 then none
      else
        let place := e.inodePlace m (inodeTable m (e.groupDesc m (e.inodeGroup m num))) num
        if e.size.toNat < (place + (e.inodeSize m).toNat) % 2 ^ 32 then some none
        else some (some (e.data.add (BitVec.ofNat 64 (place % 2 ^ 32)))) := by
  have hI := (e.inodeSize m).isLt
  have hsize : ((e.inodeSize m).setWidth 32).toNat = (e.inodeSize m).toNat := by
    rw [BitVec.toNat_setWidth]
    omega
  have hoffset : (inodeTable m (e.groupDesc m (e.inodeGroup m num)) * e.blockSize +
      e.inodeIndex m num * (e.inodeSize m).setWidth 32).toNat =
        e.inodePlace m (inodeTable m (e.groupDesc m (e.inodeGroup m num))) num % 2 ^ 32 := by
    rw [BitVec.toNat_add, BitVec.toNat_mul, BitVec.toNat_mul, hsize, ← Nat.add_mod, Ext2.inodePlace]
  rw [ext2ReadInode]
  refine ite_congr rfl (fun _ => rfl) fun _ => ite_congr rfl (fun _ => rfl) fun _ => ?_
  change (if ((inodeTable m (e.groupDesc m (e.inodeGroup m num)) * e.blockSize +
      e.inodeIndex m num * (e.inodeSize m).setWidth 32) + (e.inodeSize m).setWidth 32).setWidth 64 > e.size
    then some none
    else some (some (e.data.add ((inodeTable m (e.groupDesc m (e.inodeGroup m num)) * e.blockSize +
      e.inodeIndex m num * (e.inodeSize m).setWidth 32).setWidth 64)))) = _
  have hsum : e.size < (inodeTable m (e.groupDesc m (e.inodeGroup m num)) * e.blockSize +
      e.inodeIndex m num * (e.inodeSize m).setWidth 32 + (e.inodeSize m).setWidth 32).setWidth 64 ↔
        e.size.toNat < (e.inodePlace m (inodeTable m (e.groupDesc m (e.inodeGroup m num))) num +
          (e.inodeSize m).toNat) % 2 ^ 32 := by
    rw [BitVec.lt_def, BitVec.toNat_setWidth, BitVec.toNat_add, hoffset, hsize, Nat.mod_add_mod]
    omega
  refine ite_congr (propext hsum) (fun _ => rfl) fun _ => ?_
  refine congrArg (fun a => some (some (e.data.add a))) (BitVec.eq_of_toNat_eq ?_)
  rw [BitVec.toNat_setWidth, hoffset, BitVec.toNat_ofNat]

theorem inodeExact_iff : InodeExact e m num ↔ InodeFits e m num := by
  unfold InodeExact
  rw [ext2ReadInode_wrapped]
  dsimp only
  by_cases hrefused : e.data = Ptr.null ∨ e.superblock = Ptr.null ∨ num = 0#32 ∨ num > e.inodesCount m
  · rw [if_pos hrefused]
    exact ⟨fun _ => .refused hrefused, fun _ => ⟨none, rfl, nofun⟩⟩
  by_cases hgroups : e.inodesPerGroup m = 0#32
  · rw [if_neg hrefused, if_pos hgroups]
    constructor
    · rintro ⟨o, ho, -⟩
      cases ho
    · intro h
      cases h with
      | refused h => exact absurd h hrefused
      | outside h => exact absurd hgroups h
      | noWrap h => exact absurd hgroups h
  rw [if_neg hrefused, if_neg hgroups]
  -- the two tables
  generalize hread : inodeTable m (e.groupDesc m (e.inodeGroup m num)) = read
  generalize hexact : inodeTable m (e.exactDesc m (e.inodeGroup m num)) = table
  have hmod : ∀ t, e.inodePlace m t num % 2 ^ 32 =
      (e.blockPlace t % 2 ^ 32 + (e.inodeIndex m num).toNat * (e.inodeSize m).toNat) % 2 ^ 32 :=
    fun t => (Nat.mod_add_mod _ _ _).symm
  by_cases hout : e.size.toNat < (e.inodePlace m read num + (e.inodeSize m).toNat) % 2 ^ 32
  · rw [if_pos hout]
    exact ⟨fun _ => .outside hgroups (hread ▸ hout), fun _ => ⟨none, rfl, nofun⟩⟩
  rw [if_neg hout]
  have hsize := e.size.isLt
  constructor
  · rintro ⟨o, ho, hexact'⟩
    obtain ⟨hat, hin⟩ := hexact' _ (Option.some.inj ho).symm
    have heq := (Ptr_add_ofNat_inj e.data (by omega) (by omega)).mp hat
    refine .noWrap hgroups ?_ ?_ ?_
    · rw [hexact]
      omega
    · rw [hexact]
      exact hin
    · rw [hexact, hread]
      have h1 := hmod read
      have h2 := hmod table
      omega
  · intro h
    cases h with
    | refused h => exact absurd h hrefused
    | outside _ h => exact absurd (hread ▸ h) hout
    | noWrap _ h hin htable =>
      rw [hexact] at h hin htable
      rw [hread] at htable
      have heq : e.inodePlace m read num % 2 ^ 32 = e.inodePlace m table num := by
        rw [hmod read, ← htable, ← hmod table, Nat.mod_eq_of_lt h]
      refine ⟨_, rfl, fun p hp => ⟨?_, hin⟩⟩
      rw [← Option.some.inj hp, heq]

/-- **Where the address of a block, and that of an inode, is exact.** -/
theorem ext2Addresses_exact_iff (e : Ext2) (m : Memory) (b num : U32) :
    (BlockExact e m b ↔ BlockFits e m b) ∧ (InodeExact e m num ↔ InodeFits e m num) :=
  ⟨blockExact_iff, inodeExact_iff⟩

/-- An image of three blocks, which says that it has 2 ^ 22 + 1, and whose table of inodes is said to
begin at the last one. -/
def wideFs : FsState :=
  { FsState.zero with
    mem := ⟨fun i =>
      if i = 1024#64 ∨ i = 1028#64 ∨ i = 1044#64 ∨ i = 1064#64 then 1#8
      else if i = 1030#64 ∨ i = 2058#64 then 0x40#8
      else if i = 1080#64 then 0x53#8
      else if i = 1081#64 then 0xEF#8
      else if i = 1112#64 then 0x80#8
      else 0#8, fun _ => 0#8, 0#64⟩ }

/-- The last block, and the inode in it, are found at the start of the image. -/
theorem wideFs_not_exact : ∃ s, (ext2Init (.pool 0#64) 3072#64).run wideFs = some (true, s) ∧
    ¬BlockExact s.ext2 s.mem 0x400000#32 ∧ ¬InodeExact s.ext2 s.mem 1#32 := by
  refine ⟨_, rfl, fun h => ?_, fun ⟨o, ho, h⟩ => ?_⟩
  · obtain ⟨-, hin⟩ := h (.pool 0#64) (by decide +kernel)
    exact absurd hin (by decide)
  · obtain ⟨-, hin⟩ := h (.pool 0#64) (Option.some.inj (ho.symm.trans (by decide +kernel)))
    exact absurd hin (by decide +kernel)

end PpoOS
