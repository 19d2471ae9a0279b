import PpoOS.Fs.Checked
import PpoOS.Lib.Checked
import PpoOS.Fs.Verify.Resolve

/-!
# Where the driver reads

`ext2_init` looks at the size of an image and at its magic number.  The superblock
and the blocks of an image that it accepts lie in the image.  For an inode, a record
of a directory and a path, a condition says when what the driver reads does
(`InodeSafe`, `LookupSafe`, `PathSafe`); the checked functions go through exactly
then, and give what the driver gives.
-/

namespace PpoOS

open FaultState FsM Path

variable {e : Ext2} {m : Memory} {p : Ptr} {path : CString}

namespace Ext2

/-- The image holds the `n` bytes from `p` on. -/
def Holds (e : Ext2) (p : Ptr) (n : Nat) : Prop := Checked.inImage e p n = true

/-- The driver has an image that `ext2_init` accepted. -/
structure Mounted (e : Ext2) : Prop where
  data : e.data ≠ Ptr.null
  size : 2048 ≤ e.size.toNat
  superblock : e.superblock = e.data.add 1024#64

theorem holds_add (e : Ext2) (o : U64) (n : Nat) : e.Holds (e.data.add o) n ↔ o.toNat + n ≤ e.size.toNat := by
  have hd : ∀ a : U64, a + o - a = o := fun a => by rw [BitVec.add_comm, BitVec.add_sub_cancel]
  rw [Holds]
  cases hdata : e.data <;> simp only [Checked.inImage, hdata, Ptr.add, hd, decide_eq_true_iff]

end Ext2

/-- **What `ext2_init` checks.** -/
theorem ext2Init_mounted {data : Ptr} {size : U64} {s₀ s : FsState}
    (h : (ext2Init data size).run s₀ = some (true, s)) : s.ext2.Mounted := by
  rw [ext2Init, run_get_bind] at h
  by_cases hd : ext2Detect s₀.mem data size = true
  · rw [if_pos hd, run_ofOption_bind, Option.bind_eq_some_iff] at h
    obtain ⟨d, -, h⟩ := h
    cases h
    rw [ext2Detect] at hd
    by_cases hsmall : data = Ptr.null ∨ size < 1024#64 + superblockSize
    · rw [if_pos hsmall] at hd
      cases hd
    · obtain ⟨hnull, hsize⟩ := not_or.mp hsmall
      exact ⟨hnull, Nat.not_lt.mp hsize, rfl⟩
  · rw [if_neg hd] at h
    cases h

/-! ## Fields -/

theorem load16_checks (e : Ext2) (m : Memory) (p : Ptr) :
    Checks (Checked.load16 e m p) (e.Holds p 2) (some (m.load16 p)) := Checks.guarded _

theorem load32_checks (e : Ext2) (m : Memory) (p : Ptr) :
    Checks (Checked.load32 e m p) (e.Holds p 4) (some (m.load32 p)) := Checks.guarded _

theorem bytes_checks (e : Ext2) (m : Memory) (p : Ptr) (n : Nat) :
    Checks (Checked.bytes e m p n) (e.Holds p n) (some (m.bytes p n)) := Checks.guarded _

namespace Ext2.Mounted

/-- The superblock lies in the image. -/
theorem superblock_holds (h : e.Mounted) {k : U64} {n : Nat} (hk : k.toNat + n ≤ 1024) :
    e.Holds (e.superblock.add k) n := by
  have hsize := h.size
  have hadd : (1024#64 + k).toNat = 1024 + k.toNat := toNat_add_of_lt (by
    have hn : (1024#64 : U64).toNat = 1024 := rfl
    omega)
  rw [h.superblock, Memory.Ptr_add_add, Ext2.holds_add, hadd]
  omega

theorem load32 (h : e.Mounted) (k : U64) (hk : k.toNat + 4 ≤ 1024) :
    Checked.load32 e m (e.superblock.add k) = some (m.load32 (e.superblock.add k)) :=
  if_pos (h.superblock_holds hk)

theorem load16 (h : e.Mounted) (k : U64) (hk : k.toNat + 2 ≤ 1024) :
    Checked.load16 e m (e.superblock.add k) = some (m.load16 (e.superblock.add k)) :=
  if_pos (h.superblock_holds hk)

theorem inodesCount (h : e.Mounted) : Checked.load32 e m e.superblock = some (e.inodesCount m) := by
  have hload := h.load32 (m := m) 0#64 (by decide)
  rw [Ptr.add_zero] at hload
  exact hload

end Ext2.Mounted

/-! ## Blocks -/

/-- A block that can be read lies in the image. -/
theorem ext2ReadBlock_place {b : U32} (h : ext2ReadBlock e m b = some p) :
    ∃ o : U64, p = e.data.add o ∧ o.toNat < 2 ^ 32 ∧ o.toNat + e.blockSize.toNat ≤ e.size.toNat := by
  rw [ext2ReadBlock] at h
  split at h
  · cases h
  dsimp only at h
  split at h
  · cases h
  case isFalse hin =>
    cases h
    have hin := Nat.not_lt.mp hin
    rw [BitVec.toNat_add, BitVec.toNat_setWidth, BitVec.toNat_setWidth] at hin
    have hb := (b * e.blockSize).isLt
    have hs := e.blockSize.isLt
    refine ⟨(b * e.blockSize).setWidth 64, rfl, ?_, ?_⟩
    · rw [BitVec.toNat_setWidth]
      omega
    · rw [BitVec.toNat_setWidth]
      omega

theorem ext2ReadBlock_holds {b : U32} (h : ext2ReadBlock e m b = some p) {k : U64} {n : Nat}
    (hk : k.toNat + n ≤ e.blockSize.toNat) : e.Holds (p.add k) n := by
  obtain ⟨o, rfl, ho, hin⟩ := ext2ReadBlock_place h
  have hs := e.blockSize.isLt
  rw [Memory.Ptr_add_add, Ext2.holds_add, toNat_add_of_lt (by omega)]
  omega

/-- The check of a block looks at the superblock only. -/
theorem ext2ReadBlock_checks (h : e.Mounted) (b : U32) :
    Checked.ext2ReadBlock e m b = some (ext2ReadBlock e m b) := by
  rw [Checked.ext2ReadBlock, ext2ReadBlock]
  by_cases hnull : e.data = Ptr.null ∨ e.blockSize = 0#32
  · have hnone : e.data = Ptr.null ∨ e.blockSize = 0#32 ∨ b ≥ e.blocksCount m := by tauto
    rw [if_pos hnull, if_pos hnone]
  · rw [if_neg hnull, h.load32 4#64 (by decide), Option.bind_eq_bind, Option.bind_some]
    change (if b ≥ e.blocksCount m then some none else _) = _
    by_cases hb : b ≥ e.blocksCount m
    · rw [if_pos hb, if_pos (Or.inr (Or.inr hb))]
    · have hsome : ¬(e.data = Ptr.null ∨ e.blockSize = 0#32 ∨ b ≥ e.blocksCount m) := by tauto
      rw [if_neg hb, if_neg hsome]
      dsimp only
      by_cases hin : (b * e.blockSize).setWidth 64 + e.blockSize.setWidth 64 > e.size
      · rw [if_pos hin, if_pos hin]
        rfl
      · rw [if_neg hin, if_neg hin]
        rfl

/-! ## Inodes -/

/-- Where the descriptor of a group is. -/
def Ext2.groupDesc (e : Ext2) (m : Memory) (group : U32) : Ptr :=
  (e.data.add (((e.firstDataBlock m + 1#32) * e.blockSize).setWidth 64)).add (group.setWidth 64 * groupDescSize)

/-- The lookup of an inode by its number, where the number is one of the image, neither divides by zero
nor looks for the descriptor of its group outside of the image. -/
def InodeSafe (e : Ext2) (m : Memory) (num : U32) : Prop :=
  e.superblock ≠ Ptr.null → num ≠ 0#32 → num ≤ e.inodesCount m →
    e.inodesPerGroup m ≠ 0#32 ∧ e.Holds ((e.groupDesc m ((num - 1#32) / e.inodesPerGroup m)).add 8#64) 4

theorem ext2ReadInode_checks (h : e.Mounted) (num : U32) :
    Checks (Checked.ext2ReadInode e m num) (InodeSafe e m num) (ext2ReadInode e m num) := by
  rw [Checked.ext2ReadInode, ext2ReadInode]
  by_cases hnull : e.data = Ptr.null ∨ e.superblock = Ptr.null ∨ num = 0#32
  · have hnone : e.data = Ptr.null ∨ e.superblock = Ptr.null ∨ num = 0#32 ∨ num > e.inodesCount m := by tauto
    rw [if_pos hnull, if_pos hnone]
    refine (Checks.done none).congr ⟨fun _ hs hn => ?_, fun _ => trivial⟩
    rcases hnull with hd | hd | hd
    · exact absurd hd h.data
    · exact absurd hd hs
    · exact absurd hd hn
  rw [if_neg hnull, h.inodesCount, Option.bind_eq_bind, Option.bind_some]
  by_cases hn : num > e.inodesCount m
  · have hnone : e.data = Ptr.null ∨ e.superblock = Ptr.null ∨ num = 0#32 ∨ num > e.inodesCount m := by tauto
    rw [if_pos hn, if_pos hnone]
    exact (Checks.done none).congr ⟨fun _ _ _ hle => absurd hn (BitVec.not_lt.mpr hle), fun _ => trivial⟩
  have hsome : ¬(e.data = Ptr.null ∨ e.superblock = Ptr.null ∨ num = 0#32 ∨ num > e.inodesCount m) := by tauto
  have hrange : e.superblock ≠ Ptr.null ∧ num ≠ 0#32 ∧ num ≤ e.inodesCount m :=
    ⟨fun hs => hnull (Or.inr (Or.inl hs)), fun hz => hnull (Or.inr (Or.inr hz)), BitVec.not_lt.mp hn⟩
  rw [if_neg hn, if_neg hsome, h.load32 40#64 (by decide), Option.bind_eq_bind, Option.bind_some]
  change Checks (if e.inodesPerGroup m = 0#32 then none else _) _ _
  by_cases hzero : e.inodesPerGroup m = 0#32
  · rw [if_pos hzero, if_pos hzero]
    exact (Checks.stuck none).congr ⟨False.elim, fun hs => (hs hrange.1 hrange.2.1 hrange.2.2).1 hzero⟩
  rw [if_neg hzero, if_neg hzero, h.load32 20#64 (by decide), Option.bind_some]
  have hdesc := load32_checks e m ((e.groupDesc m ((num - 1#32) / e.inodesPerGroup m)).add 8#64)
  refine (hdesc.next (Q := True) ?_).congr
    ⟨fun hd _ _ _ => ⟨hzero, hd.1⟩, fun hs => ⟨(hs hrange.1 hrange.2.1 hrange.2.2).2, trivial⟩⟩
  rw [h.load16 88#64 (by decide)]
  change Checks (if _ then some none else some _) True (if _ then some none else some _)
  exact (Checks.ite (fun _ => Checks.done none) fun _ => Checks.done _).congr
    ⟨fun _ => trivial, fun _ => ⟨fun _ => trivial, fun _ => trivial⟩⟩

theorem inodeIsDir_checks (e : Ext2) (m : Memory) (p : Ptr) :
    Checks (Checked.inodeIsDir e m p) (e.Holds p 2) (some (inodeIsDir m p)) :=
  ((load16_checks e m p).next (Checks.done (inodeIsDir m p))).congr ⟨fun h => h.1, fun h => ⟨h, trivial⟩⟩

/-- The image holds what goes into the file structure of the inode. -/
def FieldsSafe (e : Ext2) (p : Ptr) : Prop := e.Holds (p.add 4#64) 4 ∧ e.Holds p 2 ∧ e.Holds (p.add 28#64) 4

theorem inodeFields_checks (e : Ext2) (m : Memory) (p : Ptr) :
    Checks (Checked.inodeFields e m p) (FieldsSafe e p) (some ()) := by
  rw [Checked.inodeFields]
  refine ((load32_checks e m _).next ((load16_checks e m _).next ((load32_checks e m _).next (Checks.done ())))).congr ?_
  exact ⟨fun ⟨hsize, hmode, hblocks, _⟩ => ⟨hsize, hmode, hblocks⟩,
    fun ⟨hsize, hmode, hblocks⟩ => ⟨hsize, hmode, hblocks, trivial⟩⟩

/-! ## Records -/

/-- The places of the records that a lookup of `token` looks at in a block. -/
def lookedUp (blockSize : U32) (b : U64 → U8) (token : List U8) : Nat → U64 → List U64
  | 0, _ => []
  | fuel + 1, offset =>
    if offset < blockSize.setWidth 64 then
      let entry := dirRecord b offset
      if entry.inode = 0#32 ∨ entry.recLen = 0#16 then [offset]
      else if entry.nameLen.toNat = token.length ∧
          strncmpLoop (dirName b offset entry.nameLen.toNat) token entry.nameLen.toNat = 0 then [offset]
      else offset :: lookedUp blockSize b token fuel (offset + entry.recLen.setWidth 64)
    else []

theorem record_checks (blockSize : U32) (offset : U64) (n : Nat) :
    Checks (Checked.record blockSize offset n) (offset.toNat + n ≤ blockSize.toNat) (some ()) := Checks.guarded _

/-- A record that is not the last one is followed by one closer to the end of the block. -/
theorem next_record_lt {blockSize : U32} {offset : U64} {recLen : U16} {fuel : Nat} (hlen : recLen ≠ 0#16)
    (hin : offset < blockSize.setWidth 64) (hfuel : blockSize.toNat - offset.toNat < fuel + 1) :
    blockSize.toNat - (offset + recLen.setWidth 64).toNat < fuel := by
  have hB := blockSize.isLt
  have hr := recLen.isLt
  have hin : offset.toNat < (blockSize.setWidth 64).toNat := hin
  have hpos : 0 < recLen.toNat := Nat.pos_of_ne_zero fun hz => hlen (BitVec.eq_of_toNat_eq hz)
  have hrec : (recLen.setWidth 64).toNat = recLen.toNat := by
    rw [BitVec.toNat_setWidth]
    omega
  rw [BitVec.toNat_setWidth] at hin
  rw [toNat_add_of_lt (by omega), hrec]
  omega

theorem ext2ScanBlock_checks (blockSize : U32) (b : U64 → U8) (token : List U8) (fuel : Nat) (offset : U64)
    (hfuel : blockSize.toNat - offset.toNat < fuel) : Checks (Checked.ext2ScanBlock blockSize b token fuel offset)
      (∀ o ∈ lookedUp blockSize b token fuel offset, o.toNat + Checked.lookupReads b token o ≤ blockSize.toNat)
      (some (ext2ScanBlock blockSize b token fuel offset)) := by
  induction fuel generalizing offset with
  | zero => exact absurd hfuel (Nat.not_lt_zero _)
  | succ fuel ih =>
    rw [Checked.ext2ScanBlock, ext2ScanBlock, lookedUp]
    by_cases hin : offset < blockSize.setWidth 64
    · have hrecord := record_checks blockSize offset (Checked.lookupReads b token offset)
      rw [if_pos hin, if_pos hin, if_pos hin]
      dsimp only
      by_cases hend : (dirRecord b offset).inode = 0#32 ∨ (dirRecord b offset).recLen = 0#16
      · simp only [if_pos hend]
        exact (hrecord.next (Checks.done none)).congr (by simp)
      simp only [if_neg hend]
      by_cases hname : (dirRecord b offset).nameLen.toNat = token.length ∧
          strncmpLoop (dirName b offset (dirRecord b offset).nameLen.toNat) token
            (dirRecord b offset).nameLen.toNat = 0
      · simp only [if_pos hname]
        exact (hrecord.next (Checks.done (some (dirRecord b offset).inode))).congr (by simp)
      · simp only [if_neg hname]
        exact (hrecord.next (ih _ (next_record_lt (not_or.mp hend).2 hin hfuel))).congr (by simp)
    · rw [if_neg hin, if_neg hin, if_neg hin]
      exact (Checks.done none).congr ⟨fun _ => nofun, fun _ => trivial⟩

/-- The lookup of `token` in a direct block: the image holds the number of the block, and the records
that are looked at lie in the block as far as they are read. -/
def DirectSafe (e : Ext2) (m : Memory) (inode : Ptr) (token : List U8) (i : Nat) : Prop :=
  e.Holds (inode.add (BitVec.ofNat 64 (40 + 4 * i))) 4 ∧
    (inodeBlock m inode i ≠ 0#32 → ∀ block, ext2ReadBlock e m (inodeBlock m inode i) = some block →
      ∀ o ∈ lookedUp e.blockSize (blockBuffer e m block) token (e.blockSize.toNat + 1) 0#64,
        o.toNat + Checked.lookupReads (blockBuffer e m block) token o ≤ e.blockSize.toNat)

theorem inodeBlock_checks (e : Ext2) (m : Memory) (p : Ptr) (i : Nat) :
    Checks (Checked.inodeBlock e m p i) (e.Holds (p.add (BitVec.ofNat 64 (40 + 4 * i))) 4)
      (some (inodeBlock m p i)) := load32_checks e m _

theorem ext2ScanDirect_checks (h : e.Mounted) (inode : Ptr) (token : List U8) (i : Nat) :
    Checks (Checked.ext2ScanDirect e m inode token i) (DirectSafe e m inode token i)
      (some (ext2ScanDirect e m inode token i)) := by
  rw [Checked.ext2ScanDirect, ext2ScanDirect]
  refine (inodeBlock_checks e m inode i).next ?_
  by_cases hzero : inodeBlock m inode i = 0#32
  · rw [if_pos hzero, if_pos hzero]
    exact (Checks.done none).congr ⟨fun _ hne => absurd hzero hne, fun _ => trivial⟩
  rw [if_neg hzero, if_neg hzero, ext2ReadBlock_checks h, Option.bind_eq_bind, Option.bind_some]
  cases hblock : ext2ReadBlock e m (inodeBlock m inode i) with
  | none => exact (Checks.done none).congr ⟨fun _ _ _ => nofun, fun _ => trivial⟩
  | some block =>
    have hcopy : Checked.bytes e m block e.blockSize.toNat = some (m.bytes block e.blockSize.toNat) := by
      have hholds := ext2ReadBlock_holds hblock (k := 0#64) (n := e.blockSize.toNat) (by simp)
      rw [Ptr.add_zero] at hholds
      exact if_pos hholds
    dsimp only
    rw [hcopy]
    exact (ext2ScanBlock_checks _ _ _ _ _ (Nat.lt_succ_of_le (Nat.sub_le _ _))).congr
      ⟨fun hall _ _ hb => Option.some.inj hb ▸ hall, fun hall => hall hzero block rfl⟩

/-! ## Paths -/

/-- The lookup of a component: the image holds the mode, a directory can be searched up to the block with
the entry, and the inode of the entry can be looked up. -/
def LookupSafe (e : Ext2) (m : Memory) (p : Ptr) (component : List U8) : Prop :=
  e.Holds p 2 ∧ (inodeIsDir m p = true →
    (∀ i < 12, (∀ j < i, ext2ScanDirect e m p component j = none) → DirectSafe e m p component i) ∧
      ∀ num, ext2ScanDir e m p component = some num → InodeSafe e m num)

/-- `ext2Lookup` with checked reads. -/
def Checked.ext2Lookup (e : Ext2) (m : Memory) (p : Ptr) (component : List U8) : Option (Option Ptr) := do
  if (← Checked.inodeIsDir e m p) = false then return none
  else
    match ← Checked.ext2ScanDir e m p component with
    | none => return none
    | some num => Checked.ext2ReadInode e m num

theorem ext2ScanDir_checks (h : e.Mounted) (p : Ptr) (component : List U8) :
    Checks (Checked.ext2ScanDir e m p component)
      (∀ i < 12, (∀ j < i, ext2ScanDirect e m p component j = none) → DirectSafe e m p component i)
      (some (ext2ScanDir e m p component)) := by
  refine (Checks.findSome fun i _ => ext2ScanDirect_checks h p component i).congr ?_
  have hsplit := @Checks.range_split 12 fun before i =>
    (∀ j ∈ before, ext2ScanDirect e m p component j = none) → DirectSafe e m p component i
  simp only [List.mem_range] at hsplit
  exact hsplit

theorem ext2Lookup_checks (h : e.Mounted) (p : Ptr) (component : List U8) :
    Checks (Checked.ext2Lookup e m p component) (LookupSafe e m p component) (ext2Lookup e m p component) := by
  rw [Checked.ext2Lookup, ext2Lookup]
  refine (inodeIsDir_checks e m p).next ?_
  by_cases hdir : inodeIsDir m p = false
  · rw [if_pos hdir, if_pos hdir]
    exact (Checks.done none).congr ⟨fun _ ht => Bool.noConfusion (hdir.symm.trans ht), fun _ => trivial⟩
  rw [if_neg hdir, if_neg hdir]
  have hdir : inodeIsDir m p = true := by simpa using hdir
  refine ((ext2ScanDir_checks h p component).next (Q := ∀ num, ext2ScanDir e m p component = some num →
    InodeSafe e m num) ?_).congr ⟨fun hs _ => hs, fun hs => hs hdir⟩
  cases ext2ScanDir e m p component with
  | none => exact (Checks.done none).congr ⟨fun _ _ hn => (by cases hn), fun _ => trivial⟩
  | some num => exact (ext2ReadInode_checks h num).congr ⟨fun hs _ hn => Option.some.inj hn ▸ hs, fun hs => hs num rfl⟩

theorem checkedWalk_eq (fuel : Nat) (token : List U8) (p : Ptr) (h : token.length < fuel) :
    Checked.ext2Walk e m fuel token p = Path.walk (Checked.ext2Lookup e m) (pathComponents token) p := by
  refine walk_of_cut (fun fuel token p => ?_) fuel token p h
  rw [Checked.ext2Walk, Checked.ext2Lookup]
  cases Checked.inodeIsDir e m p with
  | none => rfl
  | some dir =>
    cases dir with
    | false => rfl
    | true =>
      simp only [Option.bind_eq_bind, Option.bind_some, Bool.true_eq_false, if_false]
      cases Checked.ext2ScanDir e m p (strchrCut 0x2F#8 token).1 with
      | none => rfl
      | some found =>
        cases found with
        | none => rfl
        | some num =>
          simp only [Option.bind_some]
          cases Checked.ext2ReadInode e m num with
          | none => rfl
          | some o => cases o <;> rfl

theorem checkedFind_eq (h : path.length ≠ 0) : Checked.ext2FindInodeByPath e m path =
    (Checked.ext2ReadInode e m 2#32).bind fun o => o.elim (some none)
      (Path.walk (Checked.ext2Lookup e m) (pathComponents (path.take 127).chars)) := by
  rw [Checked.ext2FindInodeByPath, if_neg h, Option.bind_eq_bind]
  congr 1
  funext o
  cases o with
  | none => rfl
  | some root =>
    dsimp only
    by_cases hroot : strcmp path slash = 0
    · rw [if_pos hroot, strcmp_eq_zero.mp hroot]
      rfl
    · rw [if_neg hroot]
      exact walk_copy fun token => checkedWalk_eq _ _ _ (Nat.lt_succ_self _)

/-- The components lead from the root to the inode at `p`. -/
def Ext2.LeadsTo (e : Ext2) (m : Memory) (components : List (List U8)) (p : Ptr) : Prop :=
  ∃ root, ext2ReadInode e m 2#32 = some (some root) ∧ ext2Resolve e m components root = some (some p)

/-- The lookup of a path: the root can be looked up, and every component of the path in the directory that
those before it lead to. -/
def PathSafe (e : Ext2) (m : Memory) (path : CString) : Prop :=
  path.length ≠ 0 → InodeSafe e m 2#32 ∧
    ∀ before component after p, pathComponents (path.take 127).chars = before ++ component :: after →
      e.LeadsTo m before p → LookupSafe e m p component

theorem ext2FindInodeByPath_checks (h : e.Mounted) (path : CString) :
    Checks (Checked.ext2FindInodeByPath e m path) (PathSafe e m path) (ext2FindInodeByPath e m path) := by
  by_cases hlen : path.length = 0
  · rw [Checked.ext2FindInodeByPath, ext2FindInodeByPath, if_pos hlen, if_pos hlen]
    exact (Checks.done none).congr ⟨fun _ hne => absurd hlen hne, fun _ => trivial⟩
  have hfind : ext2FindInodeByPath e m path = (ext2ReadInode e m 2#32).bind fun o => o.elim (some none)
      (Path.walk (ext2Lookup e m) (pathComponents (path.take 127).chars)) := by
    rw [ext2FindInodeByPath_eq hlen]
    cases ext2ReadInode e m 2#32 with
    | none => rfl
    | some o => cases o <;> rfl
  rw [checkedFind_eq hlen, hfind]
  refine ((ext2ReadInode_checks h 2#32).bind (Q := fun o => ∀ root, o = some root →
    ∀ before component after, pathComponents (path.take 127).chars = before ++ component :: after →
      ∀ p, ext2Resolve e m before root = some (some p) → LookupSafe e m p component) fun o _ => ?_).congr ?_
  · cases o with
    | none => exact (Checks.done none).congr ⟨fun _ _ hr => (by cases hr), fun _ => trivial⟩
    | some root =>
      exact (Checks.walk (ext2Lookup_checks h)).congr
        ⟨fun hall _ hr => Option.some.inj hr ▸ hall, fun hall => hall root rfl⟩
  · constructor
    · rintro ⟨hroot, hall⟩ -
      refine ⟨hroot, fun before component after p hsplit => ?_⟩
      rintro ⟨root, hr, hp⟩
      exact hall _ hr root rfl before component after hsplit p hp
    · intro hsafe
      obtain ⟨hroot, hall⟩ := hsafe hlen
      refine ⟨hroot, fun o ho root hr before component after hsplit p hp => ?_⟩
      exact hall before component after p hsplit ⟨root, hr ▸ ho, hp⟩

/-! ## Opening -/

/-- `ext2_open`: the image also holds the fields of the inode that is opened. -/
def OpenSafe (e : Ext2) (m : Memory) (path : CString) : Prop :=
  PathSafe e m path ∧ ∀ p, ext2FindInodeByPath e m path = some (some p) → FieldsSafe e p

/-- The file structure that `ext2_open` fills. -/
def openedFile (m : Memory) (path : CString) (p : Ptr) : FsFile :=
  inodeFile m p (Buf.ofText 32 ((ext2FileName path).take 31))

theorem checkedOpen_checks (h : e.Mounted) (path : CString) :
    Checks (Checked.ext2Open e m path) (OpenSafe e m path)
      ((ext2FindInodeByPath e m path).bind fun o => some (o.map (openedFile m path))) := by
  rw [Checked.ext2Open]
  refine ((ext2FindInodeByPath_checks h path).bind (Q := fun o => ∀ p, o = some p → FieldsSafe e p)
    fun o _ => ?_).congr ⟨fun ⟨hpath, hall⟩ => ⟨hpath, fun p hp => hall _ hp p rfl⟩,
      fun ⟨hpath, hall⟩ => ⟨hpath, fun o ho p hp => hall p (hp ▸ ho)⟩⟩
  cases o with
  | none => exact (Checks.done none).congr ⟨fun _ _ => nofun, fun _ => trivial⟩
  | some p =>
    dsimp only
    rw [strncpyCut_eq _ _ (by decide)]
    have hfields := (inodeFields_checks e m p).next (f := fun _ => some (some (openedFile m path p))) (Checks.done _)
    exact hfields.congr ⟨fun hs _ hp => Option.some.inj hp ▸ hs.1, fun hs => ⟨hs p rfl, trivial⟩⟩

/-- **Opening with checked reads**, where it goes through, gives the file that `ext2_open` gives. -/
theorem checkedOpen_run {s : FsState} {r : Option FsFile} (h : s.ext2.Mounted)
    (hopen : Checked.ext2Open s.ext2 s.mem path = some r) : (ext2Open path).run s =
      some (match r with
        | none => (none, s)
        | some f => (some .opened, { s with ext2 := { s.ext2 with opened := f } })) := by
  have hchecks := checkedOpen_checks (m := s.mem) h path
  have hsafe := hchecks.isSome_iff.mp (Option.isSome_iff_exists.mpr ⟨r, hopen⟩)
  have hpass := (hchecks.passes hsafe).1
  rw [hopen] at hpass
  obtain ⟨o, hfind, ho⟩ := Option.bind_eq_some_iff.mp hpass.symm
  cases ho
  by_cases hlen : path.length = 0
  · rw [ext2FindInodeByPath, if_pos hlen] at hfind
    cases hfind
    rw [ext2Open, if_pos hlen]
    rfl
  · rw [ext2Open_run hlen, hfind]
    cases o <;> rfl

end PpoOS
