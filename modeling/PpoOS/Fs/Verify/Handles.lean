import PpoOS.Fs.Verify.Failure
import PpoOS.Fs.Verify.Listing

/-!
# Handles of ext2 files

A handle keeps the number of the blocks of its inode in place of a pointer.

* **`handle_not_dispatched`**: `fs.c` takes every handle for one of an in-memory file.
* **`ext2Read_own`**: the driver reads the first inode with that number of blocks.
-/

namespace PpoOS

open FaultState FsM Path

variable {e : Ext2} {m : Memory} {p : Ptr} {s t : FsState} {file : FileRef} {f : FsFile}

/-! ## Dispatch -/

/-- A file pointer that `fs_open` returned, or one into the array that `fs_list` returned. -/
inductive Handle (s : FsState) : FileRef → FsState → Prop
  | opened {path : CString} {file : FileRef} {t : FsState} (run : (fsOpen path).run s = some (some file, t)) :
      Handle s file t
  | listed {files : List FsFile} {i : Nat} {t : FsState} (run : fsList.run s = some (files, t))
      (index : i < files.length) : Handle s (.cached i) t

/-- The calls on a file pointer are those of the ext2 driver. -/
structure Dispatched (s : FsState) (file : FileRef) : Prop where
  tag : ∃ f, s.file? file = some f ∧ f.fsType = .ext2
  reads : ∀ f offset len, s.file? file = some f →
    ((fsRead file offset len).run s).map Prod.fst = ext2Read s.ext2 s.mem f offset len
  writes : ∀ offset buf len, (fsWrite file offset buf len).run s = some (0#64, s)

/-- Every entry of a listing is the file structure of an inode. -/
theorem listItems_files {ds : List DirItem} {acc files : List FsFile} (h : listItems e m ds acc = some files) :
    ∀ f ∈ files, f ∈ acc ∨ ∃ inode name, f = inodeFile m inode name := by
  induction ds generalizing acc with
  | nil =>
    cases h
    exact fun f hf => Or.inl hf
  | cons d ds ih =>
    rw [listItems] at h
    by_cases hroom : acc.length < fsMaxFiles
    · rw [if_pos hroom] at h
      by_cases hdot : isDotName d.name = true
      · rw [if_pos hdot] at h
        exact ih h
      · rw [if_neg hdot] at h
        cases hread : ext2ReadInode e m d.inode with
        | none => rw [hread] at h; cases h
        | some o =>
          rw [hread] at h
          cases o with
          | none => exact ih h
          | some inode =>
            obtain ⟨name, -, h⟩ := Option.bind_eq_some_iff.mp h
            intro f hf
            rcases ih h f hf with hacc | hnew
            · rcases List.mem_append.mp hacc with hacc | hlast
              · exact Or.inl hacc
              · exact Or.inr ⟨inode, name, List.mem_singleton.mp hlast⟩
            · exact Or.inr hnew
    · rw [if_neg hroom] at h
      cases h
      exact fun f hf => Or.inl hf

/-- **Every handle of an ext2 file** is the file structure of an inode. -/
theorem Handle.inodeFile (hfs : s.fs.activeFs = .ext2) (h : Handle s file t) :
    ∃ inode name, t.file? file = some (inodeFile s.mem inode name) := by
  cases h with
  | @opened path _ _ hrun =>
    rw [fsOpen_ext2 hfs] at hrun
    by_cases hlen : path.length = 0
    · rw [ext2Open, if_pos hlen] at hrun
      cases hrun
    rw [ext2Open_run hlen, Option.map_eq_some_iff] at hrun
    obtain ⟨o, -, hrun⟩ := hrun
    cases o with
    | none => cases hrun
    | some inode =>
      cases hrun
      exact ⟨inode, _, rfl⟩
  | listed hrun hi =>
    rw [fsList, run_get_bind, if_pos hfs, run_ofOption_bind, Option.bind_eq_some_iff] at hrun
    obtain ⟨dir, -, hrun⟩ := hrun
    rw [ext2List_run, Option.bind_eq_some_iff] at hrun
    obtain ⟨o, -, hrun⟩ := hrun
    cases o with
    | none =>
      cases hrun
      exact absurd hi (Nat.not_lt_zero _)
    | some inode =>
      dsimp only at hrun
      split at hrun
      · obtain ⟨files, hfiles, hrun⟩ := Option.map_eq_some_iff.mp hrun
        cases hrun
        rcases listItems_files hfiles _ (List.getElem_mem hi) with hnil | ⟨inode', name, heq⟩
        · cases hnil
        · refine ⟨inode', name, ?_⟩
          rw [← heq]
          exact List.getElem?_eq_getElem hi
      · cases hrun
        exact absurd hi (Nat.not_lt_zero _)

/-- A write of one byte to a file that holds one goes to its data. -/
theorem fsWrite_first (buf : Nat → U8) (hf : s.file? file = some f) (hfs : f.fsType ≠ .ext2)
    (hd : f.data ≠ Ptr.null) (hsize : f.size ≠ 0#64) (hcap : f.capacity = f.size) :
    (fsWrite file 0#64 buf 1#64).run s = some (1#64, { s with mem := s.mem.blit f.data 1 buf }) := by
  have hpos : ¬0#64 + 1#64 > f.size := by
    intro h
    have hlt : f.size.toNat < 1 := h
    exact hsize (BitVec.eq_of_toNat_eq (Nat.lt_one_iff.mp hlt))
  have hgrow : (fsGrow file (0#64 + 1#64)).run s = some (true, s) := by
    rw [fsGrow, run_getFile_bind, hf, Option.bind_some, hcap, if_neg hpos]
    rfl
  have hfill : (fsFill file 0#64 buf 1#64).run s = some ((), { s with mem := s.mem.blit f.data 1 buf }) := by
    have hadd : f.data.add 0#64 = f.data := by
      cases f.data <;> simp [Ptr.add]
    have hback : ¬0#64 > f.size := Nat.not_lt_zero _
    rw [fsFill, run_getFile_bind, hf, Option.bind_some]
    simp only [if_neg hback, if_neg hpos, hadd]
    rfl
  rw [fsWrite, run_getFile_bind, hf, Option.bind_some, if_neg hfs, if_neg hd, run_bind_eq hgrow, if_pos rfl,
    run_bind_eq hfill]
  rfl

/-- **No handle of an ext2 file is dispatched to the driver**: its tag says that it is in memory, and a
write of one byte to it goes to the address that is the number of its blocks. -/
theorem handle_not_dispatched (s t : FsState) (file : FileRef) (mounted : s.fs.activeFs = .ext2)
    (handle : Handle s file t) : ¬Dispatched t file ∧ ∃ f, t.file? file = some f ∧ f.fsType = .initramfs ∧
      (f.data ≠ Ptr.null → f.size ≠ 0#64 → ∀ buf, (fsWrite file 0#64 buf 1#64).run t =
        some (1#64, { t with mem := t.mem.blit f.data 1 buf })) := by
  obtain ⟨inode, name, hf⟩ := handle.inodeFile mounted
  refine ⟨fun hd => ?_, _, hf, rfl, fun hdata hsize buf => ?_⟩
  · obtain ⟨g, hg, htag⟩ := hd.tag
    obtain rfl := Option.some.inj (hf.symm.trans hg)
    cases htag
  · exact fsWrite_first buf hf (by decide : FsType.initramfs ≠ .ext2) hdata hsize rfl

/-- The file `/f` of the small image. -/
def fPath : CString := CString.ofChars ['/', 'f']

theorem diskFs_f : ext2FindInodeByPath diskFs.ext2 diskFs.mem fPath = some (some (.pool 6400#64)) ∧
    inodeFileSize diskFs.mem (.pool 6400#64) ≠ 0#32 := by decide +kernel

theorem diskFs_open : (ext2Open fPath).run diskFs = some (some .opened, diskFs.openedAt fPath (.pool 6400#64)) := by
  rw [ext2Open_run (by decide), diskFs_f.1]
  rfl

theorem handle_not_dispatched_diskFs : ∃ t, (fsOpen fPath).run diskFs = some (some .opened, t) ∧
    ¬Dispatched t .opened := by
  have hopen : (fsOpen fPath).run diskFs = some (some .opened, _) := (fsOpen_ext2 rfl fPath).trans diskFs_open
  exact ⟨_, hopen, (handle_not_dispatched diskFs _ .opened rfl (.opened hopen)).1⟩

/-- `fs_read` gives another byte of `/f` than the driver. -/
theorem diskFs_reads_differ : FsMounted diskFs ∧ ∃ t f, (fsOpen fPath).run diskFs = some (some .opened, t) ∧
    t.file? .opened = some f ∧
      ((fsRead .opened 0#64 1#64).run t).map Prod.fst ≠ ext2Read t.ext2 t.mem f 0#64 1#64 :=
  ⟨diskFs_mounted, _, _, (fsOpen_ext2 rfl fPath).trans diskFs_open, rfl, by decide +kernel⟩

/-! ## Reading through the driver -/

/-- The first readable inode with that number of blocks is at `p`. -/
def FirstWithBlocks (e : Ext2) (m : Memory) (blocks : U32) (p : Ptr) : Prop :=
  ∃ n : U32, 1 ≤ n.toNat ∧ n ≤ e.inodesCount m ∧ ext2ReadInode e m n = some (some p) ∧ inodeBlocks m p = blocks ∧
    ∀ k : U32, 1 ≤ k.toNat → k < n → ∀ q, ext2ReadInode e m k = some (some q) → inodeBlocks m q ≠ blocks

theorem FirstWithBlocks.unique {blocks : U32} {q q' : Ptr} (h : FirstWithBlocks e m blocks q)
    (h' : FirstWithBlocks e m blocks q') : q = q' := by
  obtain ⟨n, hpos, -, hn, hblocks, hfirst⟩ := h
  obtain ⟨n', hpos', -, hn', hblocks', hfirst'⟩ := h'
  have heq : n = n' := by
    apply BitVec.eq_of_toNat_eq
    refine Nat.le_antisymm (Nat.not_lt.mp fun hlt => ?_) (Nat.not_lt.mp fun hlt => ?_)
    · exact hfirst n' hpos' hlt q' hn' hblocks'
    · exact hfirst' n hpos hlt q hn hblocks
  rw [heq, hn'] at hn
  exact (Option.some.inj (Option.some.inj hn)).symm

/-- The inodes at `q` and `p` have one size and the same direct blocks. -/
structure SameData (m : Memory) (q p : Ptr) : Prop where
  size : inodeFileSize m q = inodeFileSize m p
  blocks : ∀ i < 12, inodeBlock m q i = inodeBlock m p i

theorem SameData.refl (m : Memory) (p : Ptr) : SameData m p p := ⟨rfl, fun _ _ => rfl⟩

/-- Byte `offset` of the inode at `p`: below its size, in one of its direct blocks that can be read. -/
def dataByte (e : Ext2) (m : Memory) (p : Ptr) (offset : U64) : Option U8 :=
  let block := (offset / e.blockSize.setWidth 64).setWidth 32
  if offset < (inodeFileSize m p).setWidth 64 ∧ block < 12#32 then
    (ext2ReadBlock e m (inodeBlock m p block.toNat)).map fun b =>
      m.load (b.add (offset % e.blockSize.setWidth 64))
  else none

/-- A readable inode has a number in range, and no number divides by zero. -/
theorem ext2ReadInode_some {n : U32} (h : ext2ReadInode e m n = some (some p)) :
    1 ≤ n.toNat ∧ n ≤ e.inodesCount m ∧ ∀ k, ∃ o, ext2ReadInode e m k = some o := by
  rw [ext2ReadInode] at h
  split at h
  · cases h
  · next hvalid =>
    split at h
    · cases h
    · next hgroup =>
      have hne : n ≠ 0#32 := fun hn => hvalid (Or.inr (Or.inr (Or.inl hn)))
      have hle : ¬n > e.inodesCount m := fun hn => hvalid (Or.inr (Or.inr (Or.inr hn)))
      refine ⟨Nat.pos_of_ne_zero fun hn => hne (BitVec.eq_of_toNat_eq hn), Nat.le_of_not_lt hle, fun k => ?_⟩
      rw [ext2ReadInode]
      split
      · exact ⟨_, rfl⟩
      · dsimp only
        split <;> exact ⟨_, rfl⟩

/-- The search from `i` on finds the first inode with the number of blocks, where there is one. -/
theorem ext2FindByBlocks_first {n : U32} (hn : ext2ReadInode e m n = some (some p)) (fuel : Nat) (i : U32)
    (hi : 1 ≤ i.toNat) (hle : i ≤ n) (hfuel : n.toNat - i.toNat < fuel)
    (hbefore : ∀ k : U32, 1 ≤ k.toNat → k < i → ∀ q, ext2ReadInode e m k = some (some q) →
      inodeBlocks m q ≠ inodeBlocks m p) :
    ∃ q, ext2FindByBlocks e m (inodeBlocks m p) fuel i = some (some q) ∧
      FirstWithBlocks e m (inodeBlocks m p) q := by
  obtain ⟨-, hcount, hdefined⟩ := ext2ReadInode_some hn
  induction fuel generalizing i with
  | zero => exact absurd hfuel (Nat.not_lt_zero _)
  | succ fuel ih =>
    obtain ⟨o, ho⟩ := hdefined i
    have hrange : i ≤ e.inodesCount m := BitVec.le_trans hle hcount
    rw [ext2FindByBlocks, if_pos hrange, ho, Option.bind_eq_bind, Option.bind_some]
    by_cases hmatch : ∃ q, o = some q ∧ inodeBlocks m q = inodeBlocks m p
    · obtain ⟨q, rfl, hq⟩ := hmatch
      refine ⟨q, if_pos hq, i, hi, hrange, ho, hq, hbefore⟩
    · -- this inode is not the one, so `i` is before `n`
      have hne : i ≠ n := by
        rintro rfl
        exact hmatch ⟨p, Option.some.inj (ho.symm.trans hn), rfl⟩
      have hlt : i.toNat < n.toNat := Nat.lt_of_le_of_ne hle fun h => hne (BitVec.eq_of_toNat_eq h)
      have hbound := n.isLt
      have hsucc : (i + 1#32).toNat = i.toNat + 1 := toNat_add_one (by omega)
      have hnext := ih (i + 1#32) (by omega)
        (show (i + 1#32).toNat ≤ n.toNat by omega) (by omega) fun k hk hki q hq => by
        by_cases hkeq : k = i
        · subst hkeq
          obtain rfl := Option.some.inj (ho.symm.trans hq)
          exact fun hblocks => hmatch ⟨q, rfl, hblocks⟩
        · have hklt : k.toNat < (i + 1#32).toNat := hki
          have hkne : k.toNat ≠ i.toNat := fun h => hkeq (BitVec.eq_of_toNat_eq h)
          exact hbefore k hk (show k.toNat < i.toNat by omega) q hq
      cases o with
      | none => exact hnext
      | some q =>
        dsimp only
        rw [if_neg fun hq => hmatch ⟨q, rfl, hq⟩]
        exact hnext

/-- An inode that a path leads to was read from the table. -/
theorem Ext2.Names.readable {path : List U8} (h : e.Names m path p) :
    ∃ n, ext2ReadInode e m n = some (some p) := by
  obtain ⟨root, hroot, hwalk⟩ := h
  refine Path.walk_induction (P := fun q => ∃ n, ext2ReadInode e m n = some (some q)) ?_ ⟨2#32, hroot⟩ hwalk
  intro q c q' hlookup
  rw [ext2Lookup] at hlookup
  split at hlookup
  · cases hlookup
  · cases hscan : ext2ScanDir e m q c with
    | none => rw [hscan] at hlookup; cases hlookup
    | some n =>
      rw [hscan] at hlookup
      exact ⟨n, hlookup⟩

/-- The search does not depend on the file that was opened last. -/
theorem ext2FindByBlocks_opened (g : FsFile) (blocks : U32) (fuel : Nat) (i : U32) :
    ext2FindByBlocks { e with opened := g } m blocks fuel i = ext2FindByBlocks e m blocks fuel i := by
  induction fuel generalizing i with
  | zero => rfl
  | succ fuel ih =>
    rw [ext2FindByBlocks, ext2FindByBlocks, ih]
    rfl

theorem inodeDataLoop_opened (g : FsFile) (offset len : U64) (start stop : U32) (fuel : Nat) (i : U32)
    (acc : List U8) : inodeDataLoop { e with opened := g } m p offset len start stop fuel i acc =
      inodeDataLoop e m p offset len start stop fuel i acc := by
  induction fuel generalizing i acc with
  | zero => rfl
  | succ fuel ih =>
    rw [inodeDataLoop, inodeDataLoop]
    simp only [ih]
    rfl

theorem ext2ReadInodeData_opened (g : FsFile) (offset len : U64) :
    ext2ReadInodeData { e with opened := g } m p offset len = ext2ReadInodeData e m p offset len := by
  simp only [ext2ReadInodeData, inodeDataLoop_opened]

theorem ext2Read_opened (g f : FsFile) (offset len : U64) :
    ext2Read { e with opened := g } m f offset len = ext2Read e m f offset len := by
  simp only [ext2Read, ext2FindByBlocks_opened, ext2ReadInodeData_opened]

/-- A read through the handle of an inode, where the search for its number of blocks finds `q`. -/
theorem ext2Read_handle {q : Ptr} (name : Buf 32)
    (hfind : ext2FindByBlocks e m (inodeBlocks m p) (2 ^ 32) 1#32 = some (some q)) (offset len : U64) :
    ext2Read e m (inodeFile m p name) offset len =
      if offset ≥ (inodeFileSize m p).setWidth 64 then some [] else ext2ReadInodeData e m q offset len := by
  have hblocks : (inodeFile m p name).data.toU32 m = inodeBlocks m p := BitVec.setWidth_setWidth_of_le _ (by decide)
  have hsize : (inodeFile m p name).size = (inodeFileSize m p).setWidth 64 := rfl
  rw [ext2Read, hblocks, hfind, hsize]
  by_cases hend : offset ≥ (inodeFileSize m p).setWidth 64
  · rw [if_pos hend, if_pos hend]
    rfl
  · rw [if_neg hend, if_neg hend]
    rfl

theorem inodeDataLoop_same {q : Ptr} (h : SameData m q p) (offset len : U64) (start stop : U32) (fuel : Nat)
    (i : U32) (acc : List U8) :
    inodeDataLoop e m q offset len start stop fuel i acc = inodeDataLoop e m p offset len start stop fuel i acc := by
  induction fuel generalizing i acc with
  | zero => rfl
  | succ fuel ih =>
    rw [inodeDataLoop, inodeDataLoop]
    by_cases hi : i ≤ stop ∧ i < 12#32
    · rw [if_pos hi, if_pos hi, h.blocks i.toNat hi.2]
      simp only [ih]
    · rw [if_neg hi, if_neg hi]

theorem ext2ReadInodeData_same {q : Ptr} (h : SameData m q p) (offset len : U64) :
    ext2ReadInodeData e m q offset len = ext2ReadInodeData e m p offset len := by
  simp only [ext2ReadInodeData, h.size, inodeDataLoop_same h]

/-- The part of a block that is one byte. -/
theorem inodeDataPart_byte {blockSize : U32} (hsize : blockSize ≠ 0#32) {offset : U64}
    (hwrap : offset.toNat + 1 < 2 ^ 64) (block : U32) :
    inodeDataPart blockSize offset 1#64 block block block = (offset % blockSize.setWidth 64, 1#64) := by
  have hB := blockSize.isLt
  have hpos : 0 < blockSize.toNat := Nat.pos_of_ne_zero fun h => hsize (BitVec.eq_of_toNat_eq h)
  have hsize64 : (blockSize.setWidth 64).toNat = blockSize.toNat := BitVec.toNat_setWidth_of_le (by decide)
  have hlt := Nat.mod_lt offset.toNat hpos
  have hone : (offset + 1#64).toNat = offset.toNat + 1 := ByteMem.toNat_add_ofNat hwrap
  have hmod : (offset % blockSize.setWidth 64).toNat = offset.toNat % blockSize.toNat := by
    rw [BitVec.toNat_umod, hsize64]
  have hfirst : ((offset % blockSize.setWidth 64).setWidth 32).setWidth 64 = offset % blockSize.setWidth 64 := by
    apply BitVec.eq_of_toNat_eq
    rw [BitVec.toNat_setWidth, BitVec.toNat_setWidth, hmod]
    omega
  have hnext : (offset.toNat + 1) % blockSize.toNat = (offset.toNat % blockSize.toNat + 1) % blockSize.toNat :=
    (Nat.mod_add_mod _ _ _).symm
  have hend : ((offset + 1#64) % blockSize.setWidth 64).toNat =
      (offset.toNat % blockSize.toNat + 1) % blockSize.toNat := by
    rw [BitVec.toNat_umod, hsize64, hone, hnext]
  rw [inodeDataPart]
  simp only [hfirst, if_pos, true_and]
  by_cases hlast : offset.toNat % blockSize.toNat + 1 = blockSize.toNat
  · -- the last byte of the block
    rw [hlast, Nat.mod_self] at hend
    have hzero : ¬(offset + 1#64) % blockSize.setWidth 64 > 0#64 := by
      rw [gt_iff_lt, BitVec.lt_def, hend]
      exact Nat.lt_irrefl 0
    rw [if_neg hzero]
    refine Prod.ext rfl (BitVec.eq_of_toNat_eq ?_)
    rw [BitVec.toNat_sub, hmod, hsize64, BitVec.toNat_ofNat]
    omega
  · rw [Nat.mod_eq_of_lt (by omega)] at hend
    have hnonzero : (offset + 1#64) % blockSize.setWidth 64 > 0#64 := by
      rw [gt_iff_lt, BitVec.lt_def, hend]
      exact Nat.succ_pos _
    rw [if_pos hnonzero]
    refine Prod.ext rfl (BitVec.eq_of_toNat_eq ?_)
    rw [BitVec.toNat_sub, hend, hmod, BitVec.toNat_ofNat]
    omega

/-- A read of one byte. -/
theorem ext2ReadInodeData_byte (hsize : e.blockSize ≠ 0#32) (offset : U64) :
    ext2ReadInodeData e m p offset 1#64 = some (dataByte e m p offset).toList := by
  rw [ext2ReadInodeData, dataByte]
  dsimp only
  by_cases hend : offset ≥ (inodeFileSize m p).setWidth 64
  · rw [if_pos hend, if_neg fun h => absurd h.1 (Nat.not_lt_of_le hend)]
    rfl
  · have hlt : offset < (inodeFileSize m p).setWidth 64 := Nat.lt_of_not_le hend
    have hnum : offset.toNat < (inodeFileSize m p).toNat := by
      rwa [BitVec.lt_def, BitVec.toNat_setWidth_of_le (by decide)] at hlt
    have hS := (inodeFileSize m p).isLt
    have hone : (offset + 1#64).toNat = offset.toNat + 1 := ByteMem.toNat_add_ofNat (by omega)
    have hclip : ¬offset + 1#64 > (inodeFileSize m p).setWidth 64 := by
      rw [gt_iff_lt, BitVec.lt_def, hone, BitVec.toNat_setWidth_of_le (by decide)]
      omega
    rw [if_neg hend, if_neg hclip, if_neg hsize, show offset + 1#64 - 1#64 = offset by bv_omega]
    generalize hblock : (offset / e.blockSize.setWidth 64).setWidth 32 = block
    rw [inodeDataLoop]
    by_cases h12 : block < 12#32
    · rw [if_pos ⟨Nat.le_refl _, h12⟩, if_pos ⟨hlt, h12⟩]
      cases ext2ReadBlock e m (inodeBlock m p block.toNat) with
      | none => rfl
      | some b =>
        have hlen : (if BitVec.ofNat 64 ([] : List U8).length + 1#64 > 1#64 then
            1#64 - BitVec.ofNat 64 ([] : List U8).length else 1#64).toNat = 1 := by decide
        have hbytes : ∀ q : Ptr, m.bytes q 1 = [m.load q] := by
          intro q
          simp [Memory.bytes]
        simp only [inodeDataPart_byte hsize (show offset.toNat + 1 < 2 ^ 64 by omega), hlen, hbytes]
        rfl
    · rw [if_neg fun h => h12 h.2, if_neg fun h => h12 h.2]
      rfl

/-- **What the driver reads through a handle**: the data of the first inode with as many blocks.  It is the
file's own data where that inode has the same size and the same blocks, as the file's own inode has; and then
only if the bytes of the two are equal. -/
theorem ext2Read_own (s t : FsState) (path : CString) (inode : Ptr) (file : FileRef)
    (resolves : ext2FindInodeByPath s.ext2 s.mem path = some (some inode))
    (opened : (ext2Open path).run s = some (some file, t)) : ∃ f first, t.file? file = some f ∧
      FirstWithBlocks s.ext2 s.mem (inodeBlocks s.mem inode) first ∧
        (SameData s.mem first inode →
          ∀ offset len, ext2Read t.ext2 t.mem f offset len = ext2ReadInodeData t.ext2 t.mem inode offset len) ∧
        ((∀ offset len, ext2Read t.ext2 t.mem f offset len = ext2ReadInodeData t.ext2 t.mem inode offset len) →
          ∀ offset, offset < (inodeFileSize s.mem inode).setWidth 64 →
            dataByte s.ext2 s.mem first offset = dataByte s.ext2 s.mem inode offset) := by
  rw [ext2Open_run (length_ne_zero_of_find resolves), resolves] at opened
  cases opened
  obtain ⟨n, hn⟩ := (names_of_find resolves).readable
  obtain ⟨hpos, -, -⟩ := ext2ReadInode_some hn
  obtain ⟨first, hfind, hfirst⟩ := ext2FindByBlocks_first hn (2 ^ 32) 1#32 (Nat.le_refl 1) hpos
    (Nat.lt_of_le_of_lt (Nat.sub_le _ _) n.isLt) fun k hk hlt => absurd hlt (Nat.not_lt_of_le hk)
  have hext2 : (s.openedAt path inode).ext2 =
      { s.ext2 with opened := inodeFile s.mem inode (Buf.ofText 32 ((ext2FileName path).take 31)) } := rfl
  have hmem : (s.openedAt path inode).mem = s.mem := rfl
  refine ⟨inodeFile s.mem inode (Buf.ofText 32 ((ext2FileName path).take 31)), first, rfl, hfirst, ?_, ?_⟩
  · intro hsame offset len
    rw [hext2, hmem, ext2Read_opened, ext2ReadInodeData_opened, ext2Read_handle _ hfind]
    by_cases hend : offset ≥ (inodeFileSize s.mem inode).setWidth 64
    · rw [if_pos hend, ext2ReadInodeData]
      exact (if_pos hend).symm
    · rw [if_neg hend]
      exact ext2ReadInodeData_same hsame offset len
  · intro h offset hlt
    by_cases hsize : s.ext2.blockSize = 0#32
    · have hnone : ∀ n, ext2ReadBlock s.ext2 s.mem n = none := fun n => if_pos (Or.inr (Or.inl hsize))
      simp only [dataByte, hnone, Option.map_none, ite_self]
    · have hown := h offset 1#64
      rw [hext2, hmem, ext2Read_opened, ext2ReadInodeData_opened, ext2Read_handle _ hfind,
        if_neg (show ¬offset ≥ _ from Nat.not_le_of_lt hlt), ext2ReadInodeData_byte hsize,
        ext2ReadInodeData_byte hsize] at hown
      have hhead := congrArg List.head? (Option.some.inj hown)
      rwa [Option.head?_toList, Option.head?_toList] at hhead

theorem diskRoot_first : FirstWithBlocks diskFs.ext2 diskFs.mem (inodeBlocks diskFs.mem diskRoot) diskRoot := by
  have hinodes : ext2ReadInode diskFs.ext2 diskFs.mem 1#32 = some (some (.pool 5120#64)) ∧
      ext2ReadInode diskFs.ext2 diskFs.mem 2#32 = some (some diskRoot) ∧ 2#32 ≤ diskFs.ext2.inodesCount diskFs.mem ∧
      inodeBlocks diskFs.mem (.pool 5120#64) ≠ inodeBlocks diskFs.mem diskRoot := by decide +kernel
  obtain ⟨hone, htwo, hcount, hne⟩ := hinodes
  refine ⟨2#32, by decide, hcount, htwo, rfl, fun k hk hlt q hq => ?_⟩
  obtain rfl : k = 1#32 := by bv_omega
  obtain rfl := Option.some.inj (Option.some.inj (hone.symm.trans hq))
  exact hne

/-- A handle of the root directory reads the root directory. -/
theorem ext2Read_own_diskRoot : ∃ (t : FsState) (f : FsFile), (ext2Open slash).run diskFs = some (some .opened, t) ∧
    t.file? .opened = some f ∧
      ∀ offset len, ext2Read t.ext2 t.mem f offset len = ext2ReadInodeData t.ext2 t.mem diskRoot offset len := by
  have hopen : (ext2Open slash).run diskFs = some (some .opened, diskFs.openedAt slash diskRoot) := by
    rw [ext2Open_run (by decide), diskFs_root.1]
    rfl
  obtain ⟨f, first, hf, hfirst, hown, -⟩ := ext2Read_own diskFs _ slash diskRoot .opened diskFs_root.1 hopen
  obtain rfl := hfirst.unique diskRoot_first
  exact ⟨_, f, hopen, hf, hown (SameData.refl _ _)⟩

/-- `/f` has as many blocks as the root directory, so its handle reads the directory. -/
theorem ext2Read_not_own : ∃ s t path inode f, FsMounted s ∧
    ext2FindInodeByPath s.ext2 s.mem path = some (some inode) ∧ inodeFileSize s.mem inode ≠ 0#32 ∧
      (ext2Open path).run s = some (some .opened, t) ∧ t.file? .opened = some f ∧
        ext2Read t.ext2 t.mem f 0#64 1#64 = some [2#8] ∧
          ext2ReadInodeData t.ext2 t.mem inode 0#64 1#64 = some [0x78#8] := by
  have hreads : ext2Read (diskFs.openedAt fPath (.pool 6400#64)).ext2 (diskFs.openedAt fPath (.pool 6400#64)).mem
        (diskFs.openedAt fPath (.pool 6400#64)).ext2.opened 0#64 1#64 = some [2#8] ∧
      ext2ReadInodeData (diskFs.openedAt fPath (.pool 6400#64)).ext2 (diskFs.openedAt fPath (.pool 6400#64)).mem
        (.pool 6400#64) 0#64 1#64 = some [0x78#8] := by decide +kernel
  exact ⟨diskFs, _, fPath, _, _, diskFs_mounted, diskFs_f.1, diskFs_f.2, diskFs_open, rfl, hreads.1, hreads.2⟩

end PpoOS
