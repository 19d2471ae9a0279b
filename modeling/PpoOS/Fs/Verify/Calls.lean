import PpoOS.Fs.Verify.Open

/-!
# How the calls end

For each call that changes the tables, its outcomes: what it returns and the
state it leaves.  Everything later about a call is derived from them.
-/

namespace PpoOS

open FaultState FsM

variable {s t : FsState} {name path : CString} {r : Option FileRef} {b : Bool}

/-! ## The pool -/

theorem fsAlloc_run (s : FsState) (size : U64) : (fsAlloc size).run s =
    if s.memUsed + size > poolSize then some (Ptr.null, s)
    else some (.pool s.memUsed, { s with memUsed := s.memUsed + size }) := by
  rw [fsAlloc, run_get_bind]
  by_cases h : s.memUsed + size > poolSize
  · rw [if_pos h, if_pos h]
    rfl
  · rw [if_neg h, if_neg h]
    rfl

/-! ## Opening -/

theorem ext2Open_none (h : (ext2Open name).run s = some (none, t)) : t = s := by
  rw [ext2Open] at h
  by_cases hlen : name.length = 0
  · rw [if_pos hlen] at h
    cases h
    rfl
  · rw [if_neg hlen, run_get_bind, run_ofOption_bind, Option.bind_eq_some_iff] at h
    obtain ⟨o, -, h⟩ := h
    cases o with
    | none =>
      cases h
      rfl
    | some inode =>
      rw [run_ofOption_bind, Option.bind_eq_some_iff] at h
      obtain ⟨_, -, h⟩ := h
      cases h

/-- A file that is not found leaves no trace. -/
theorem fsOpen_none (h : (fsOpen name).run s = some (none, t)) : t = s := by
  rw [fsOpen] at h
  by_cases hlen : name.length = 0
  · rw [if_pos hlen] at h
    cases h
    rfl
  · rw [if_neg hlen, run_get_bind] at h
    by_cases hfs : s.fs.activeFs = .ext2
    · rw [if_pos hfs] at h
      exact ext2Open_none h
    · rw [if_neg hfs] at h
      simp only [run_ofOption_bind, Option.bind_eq_some_iff] at h
      obtain ⟨_, -, _, -, _, -, h⟩ := h
      exact (run_pure_iff.mp h).2

/-! ## Creating a file -/

/-- The state after a write to a slot of the file table, with a new count. -/
def FsState.fileSlot (s : FsState) (i : Nat) (hi : i < fsMaxFiles) (f : FsFile) (count : Nat) :
    FsState :=
  { s with fs := { s.fs with files := s.fs.files.set i f hi, fileCount := count } }

/-- A file that `fs_create_file` makes, with its buffer at `off` of the pool. -/
def newFile (name : CString) (off : U64) : FsFile where
  name := Buf.ofText 32 (name.take 31)
  data := .pool off
  size := 0#64
  capacity := 256#64
  mode := 0o644#16
  isDir := false
  fsType := .initramfs

inductive CreateFileOutcome (s : FsState) (name : CString) : Option FileRef → FsState → Prop
  /-- There is such a file. -/
  | existing {file : FileRef} {t : FsState} (found : (fsOpen name).run s = some (some file, t)) :
      CreateFileOutcome s name (some file) t
  /-- An ext2 image is mounted, or the table is full. -/
  | refused (absent : (fsOpen name).run s = some (none, s))
      (full : s.fs.activeFs = .ext2 ∨ fsMaxFiles ≤ s.fs.fileCount) : CreateFileOutcome s name none s
  /-- The pool is full; the slot past the count was written. -/
  | noMemory (absent : (fsOpen name).run s = some (none, s)) (fs : s.fs.activeFs ≠ .ext2)
      (hi : s.fs.fileCount < fsMaxFiles) (full : s.memUsed + 256#64 > poolSize) (f : FsFile)
      (hname : f.name = Buf.ofText 32 (name.take 31)) :
      CreateFileOutcome s name none (s.fileSlot s.fs.fileCount hi f s.fs.fileCount)
  | created (absent : (fsOpen name).run s = some (none, s)) (fs : s.fs.activeFs ≠ .ext2)
      (hi : s.fs.fileCount < fsMaxFiles) (room : ¬s.memUsed + 256#64 > poolSize) :
      CreateFileOutcome s name (some (.slot s.fs.fileCount))
        { s.fileSlot s.fs.fileCount hi (newFile name s.memUsed) (s.fs.fileCount + 1) with
          memUsed := s.memUsed + 256#64
          mem := s.mem.blit (.pool s.memUsed) 1 fun _ => 0#8 }

theorem fsCreateFile_outcome (h : (fsCreateFile name).run s = some (r, t)) :
    CreateFileOutcome s name r t := by
  rw [fsCreateFile, run_bind_iff] at h
  obtain ⟨o, s₁, hopen, h⟩ := h
  cases o with
  | some file =>
    cases h
    exact .existing hopen
  | none =>
    obtain rfl : s = s₁ := (fsOpen_none hopen).symm
    dsimp only at h
    rw [run_get_bind] at h
    by_cases hfs : s.fs.activeFs = .ext2
    · rw [if_pos hfs] at h
      cases h
      exact .refused hopen (Or.inl hfs)
    rw [if_neg hfs] at h
    by_cases hfull : s.fs.fileCount ≥ fsMaxFiles
    · rw [if_pos hfull] at h
      cases h
      exact .refused hopen (Or.inr hfull)
    have hi : s.fs.fileCount < fsMaxFiles := Nat.lt_of_not_le hfull
    rw [if_neg hfull, run_getFile_bind, Option.bind_eq_some_iff] at h
    obtain ⟨f, -, h⟩ := h
    rw [run_modifyFs_bind, strncpyCut_eq _ _ (by decide), run_ofOption_bind, Option.bind_some,
      StateT.run_bind, fsAlloc_run] at h
    dsimp only at h
    by_cases hroom : s.memUsed + 256#64 > poolSize
    · rw [if_pos hroom, Option.bind_eq_bind, Option.bind_some, run_putFile_bind, setFile?_slot _ hi,
        Option.bind_some, if_pos rfl] at h
      cases h
      exact .noMemory hopen hfs hi hroom _ rfl
    · rw [if_neg hroom, Option.bind_eq_bind, Option.bind_some, run_putFile_bind, setFile?_slot _ hi,
        Option.bind_some, if_neg (pool_ne_null _), run_putFile_bind, setFile?_slot _ hi,
        Option.bind_some, FsM.memset, run_copyMem_bind (by decide)] at h
      cases h
      rw [Vector.set_set]
      exact .created hopen hfs hi hroom

/-! ## Writing -/

/-- The file after the part of `fs_write` that makes room. -/
def grownFile (f : FsFile) (newSize off : U64) : FsFile :=
  { f with data := .pool off, capacity := newSize * 2#64 }

/-- The memory after that part: the new buffer is zeroed and the contents are copied. -/
def grownMem (m : Memory) (f : FsFile) (newSize off : U64) : Memory :=
  let m := m.blit (.pool off) (newSize * 2#64).toNat fun _ => 0#8
  m.blit (.pool off) f.size.toNat fun i => m.load (f.data.add (BitVec.ofNat 64 i))

/-- The state after that part. -/
def FsState.grown (s : FsState) (i : Nat) (hi : i < fsMaxFiles) (f : FsFile) (newSize : U64) :
    FsState :=
  { s.fileSlot i hi (grownFile f newSize s.memUsed) s.fs.fileCount with
    memUsed := s.memUsed + newSize * 2#64
    mem := grownMem s.mem f newSize s.memUsed }

/-- The file after the part of `fs_write` that fills it. -/
def filledFile (f : FsFile) (offset len : U64) : FsFile :=
  if offset + len > f.size then { f with size := offset + len } else f

/-- The memory after that part: the gap is zeroed, the bytes are copied and a NUL is put behind what
is the last byte now. -/
def filledMem (m : Memory) (f : FsFile) (offset : U64) (buf : Nat → U8) (len : U64) : Memory :=
  let m := if offset > f.size then m.blit (f.data.add f.size) (offset - f.size).toNat fun _ => 0#8 else m
  let m := m.blit (f.data.add offset) len.toNat buf
  if offset + len > f.size then m.blit (f.data.add (offset + len)) 1 fun _ => 0#8 else m

/-- The state after that part. -/
def FsState.filled (s : FsState) (i : Nat) (hi : i < fsMaxFiles) (f : FsFile) (offset : U64)
    (buf : Nat → U8) (len : U64) : FsState :=
  { s.fileSlot i hi (filledFile f offset len) s.fs.fileCount with
    mem := filledMem s.mem f offset buf len }

theorem file?_slot {i : Nat} {f : FsFile} (h : s.file? (.slot i) = some f) :
    ∃ hi : i < fsMaxFiles, s.fs.files[i] = f := by
  have h' : s.fs.files[i]? = some f := h
  obtain ⟨hi, hf⟩ := Vector.getElem?_eq_some_iff.mp h'
  exact ⟨hi, hf⟩

theorem fileSlot_file? {i n : Nat} {hi : i < fsMaxFiles} {f : FsFile} :
    (s.fileSlot i hi f n).file? (.slot i) = some f := by
  change (s.fs.files.set i f hi)[i]? = some f
  simp

/-- A slot that keeps its entry. -/
theorem fileSlot_self {i : Nat} {hi : i < fsMaxFiles} : s.fileSlot i hi s.fs.files[i] s.fs.fileCount = s := by
  rw [FsState.fileSlot, Vector.set_getElem_self]

/-- The copies of the part of `fs_write` that makes room are not longer than the address space. -/
def GrowFits (f : FsFile) (newSize : U64) : Prop :=
  (newSize * 2#64).toNat ≤ copyLimit ∧ f.size.toNat ≤ copyLimit

/-- Those of the part that fills the file are not. -/
def FillFits (f : FsFile) (offset len : U64) : Prop :=
  (offset > f.size → (offset - f.size).toNat ≤ copyLimit) ∧ len.toNat ≤ copyLimit

instance (f : FsFile) (newSize : U64) : Decidable (GrowFits f newSize) :=
  inferInstanceAs (Decidable (_ ∧ _))

instance (f : FsFile) (offset len : U64) : Decidable (FillFits f offset len) :=
  inferInstanceAs (Decidable (_ ∧ _))

theorem fsFill_run {i : Nat} (hi : i < fsMaxFiles) {f : FsFile} (offset len : U64) (buf : Nat → U8)
    (hf : s.file? (.slot i) = some f) : (fsFill (.slot i) offset buf len).run s =
      if FillFits f offset len then some ((), s.filled i hi f offset buf len) else none := by
  obtain ⟨_, hfi⟩ := file?_slot hf
  have hone : (1#64).toNat ≤ copyLimit := by decide
  rw [fsFill, run_getFile_bind, hf, Option.bind_some, FsState.filled, filledFile, filledMem]
  by_cases hlen : len.toNat ≤ copyLimit
  · by_cases hgap : offset > f.size
    · by_cases hgapFits : (offset - f.size).toNat ≤ copyLimit
      · have hfits : FillFits f offset len := ⟨fun _ => hgapFits, hlen⟩
        by_cases hsize : offset + len > f.size
        · simp [hgap, hsize, hfits, FsM.memset, memcpyIn, run_copyMem_bind hgapFits, run_copyMem_bind hlen,
            run_copyMem hone, setFile?_slot _ hi, FsState.fileSlot]
        · simp [hgap, hsize, hfits, FsM.memset, memcpyIn, run_copyMem_bind hgapFits, run_copyMem hlen]
          rw [← hfi, fileSlot_self]
          exact ⟨rfl, rfl, rfl, rfl⟩
      · have hfits : ¬FillFits f offset len := fun h => hgapFits (h.1 hgap)
        simp [hgap, hfits, FsM.memset, run_copyMem_faults hgapFits]
    · have hfits : FillFits f offset len := ⟨fun h => absurd h hgap, hlen⟩
      by_cases hsize : offset + len > f.size
      · simp [hgap, hsize, hfits, FsM.memset, memcpyIn, run_copyMem_bind hlen, run_copyMem hone,
          setFile?_slot _ hi, FsState.fileSlot]
      · simp [hgap, hsize, hfits, memcpyIn, run_copyMem hlen]
        rw [← hfi, fileSlot_self]
        exact ⟨rfl, rfl, rfl, rfl⟩
  · have hfits : ¬FillFits f offset len := fun h => hlen h.2
    by_cases hgap : offset > f.size
    · by_cases hgapFits : (offset - f.size).toNat ≤ copyLimit
      · simp [hgap, hfits, FsM.memset, memcpyIn, run_copyMem_bind hgapFits, run_copyMem_faults hlen]
      · simp [hgap, hfits, FsM.memset, run_copyMem_faults hgapFits]
    · simp [hgap, hfits, memcpyIn, run_copyMem_faults hlen]

theorem fsGrow_run {i : Nat} (hi : i < fsMaxFiles) {f : FsFile} (newSize : U64)
    (hf : s.file? (.slot i) = some f) : (fsGrow (.slot i) newSize).run s =
      if newSize > f.capacity then
        if s.memUsed + newSize * 2#64 > poolSize then some (false, s)
        else if GrowFits f newSize then some (true, s.grown i hi f newSize) else none
      else some (true, s) := by
  rw [fsGrow, run_getFile_bind, hf, Option.bind_some]
  by_cases hcap : newSize > f.capacity
  · rw [if_pos hcap, if_pos hcap, StateT.run_bind, fsAlloc_run]
    by_cases hroom : s.memUsed + newSize * 2#64 > poolSize
    · rw [if_pos hroom, if_pos hroom]
      rfl
    · rw [if_neg hroom, if_neg hroom, Option.bind_eq_bind, Option.bind_some,
        if_neg (pool_ne_null _), FsM.memset, FsM.memcpy]
      by_cases hnew : (newSize * 2#64).toNat ≤ copyLimit
      · by_cases hold : f.size.toNat ≤ copyLimit
        · rw [if_pos ⟨hnew, hold⟩, run_copyMem_bind hnew, run_copyMem_bind hold, run_putFile_bind,
            setFile?_slot _ hi]
          rfl
        · rw [if_neg fun h => hold h.2, run_copyMem_bind hnew, run_copyMem_faults hold]
      · rw [if_neg fun h => hnew h.1, run_copyMem_faults hnew]
  · rw [if_neg hcap, if_neg hcap]
    rfl

/-- **`fs_write` to an entry of the table.** -/
theorem fsWrite_run {i : Nat} (hi : i < fsMaxFiles) {f : FsFile} (offset len : U64) (buf : Nat → U8)
    (hf : s.file? (.slot i) = some f) (hfs : f.fsType ≠ .ext2) (hd : f.data ≠ Ptr.null) :
    (fsWrite (.slot i) offset buf len).run s =
      if offset + len > f.capacity then
        if s.memUsed + (offset + len) * 2#64 > poolSize then some (0#64, s)
        else if GrowFits f (offset + len) ∧ FillFits f offset len then
          some (len, (s.grown i hi f (offset + len)).filled i hi
            (grownFile f (offset + len) s.memUsed) offset buf len)
        else none
      else if FillFits f offset len then some (len, s.filled i hi f offset buf len) else none := by
  rw [fsWrite, run_getFile_bind, hf, Option.bind_some, if_neg hfs, if_neg hd, StateT.run_bind,
    fsGrow_run hi _ hf]
  by_cases hcap : offset + len > f.capacity
  · rw [if_pos hcap, if_pos hcap]
    by_cases hroom : s.memUsed + (offset + len) * 2#64 > poolSize
    · rw [if_pos hroom, if_pos hroom]
      rfl
    · have hg : (s.grown i hi f (offset + len)).file? (.slot i) =
          some (grownFile f (offset + len) s.memUsed) := fileSlot_file?
      have hfill : FillFits (grownFile f (offset + len) s.memUsed) offset len ↔ FillFits f offset len := Iff.rfl
      rw [if_neg hroom, if_neg hroom]
      by_cases hgrow : GrowFits f (offset + len)
      · rw [if_pos hgrow, Option.bind_eq_bind, Option.bind_some, if_pos rfl, StateT.run_bind,
          fsFill_run hi _ _ _ hg]
        by_cases hfits : FillFits f offset len
        · rw [if_pos (hfill.mpr hfits), if_pos ⟨hgrow, hfits⟩]
          rfl
        · rw [if_neg fun h => hfits (hfill.mp h), if_neg fun h => hfits h.2]
          rfl
      · rw [if_neg hgrow, if_neg fun h => hgrow h.1]
        rfl
  · rw [if_neg hcap, if_neg hcap, Option.bind_eq_bind, Option.bind_some, if_pos rfl,
      StateT.run_bind, fsFill_run hi _ _ _ hf]
    by_cases hfits : FillFits f offset len
    · rw [if_pos hfits, if_pos hfits]
      rfl
    · rw [if_neg hfits, if_neg hfits]
      rfl

/-- A write of at least one byte that gives zero changes nothing. -/
theorem fsWrite_zero {file : FileRef} {offset len : U64} {buf : Nat → U8} (hlen : len ≠ 0#64)
    (h : (fsWrite file offset buf len).run s = some (0#64, t)) : t = s := by
  rw [fsWrite, run_getFile_bind, Option.bind_eq_some_iff] at h
  obtain ⟨f, hf, h⟩ := h
  by_cases hfs : f.fsType = .ext2
  · rw [if_pos hfs] at h
    cases h
    rfl
  rw [if_neg hfs] at h
  by_cases hd : f.data = Ptr.null
  · rw [if_pos hd] at h
    cases h
    rfl
  rw [if_neg hd, run_bind_iff] at h
  obtain ⟨b, s₁, hgrow, h⟩ := h
  cases b with
  | true =>
    obtain ⟨_, _, -, h⟩ := run_bind_iff.mp h
    exact absurd (run_pure_iff.mp h).1.symm hlen
  | false =>
    obtain rfl := (run_pure_iff.mp h).2
    rw [fsGrow, run_getFile_bind, hf, Option.bind_some] at hgrow
    by_cases hcap : offset + len > f.capacity
    · rw [if_pos hcap, run_bind_iff] at hgrow
      obtain ⟨p, s₂, halloc, hgrow⟩ := hgrow
      rw [fsAlloc_run] at halloc
      by_cases hroom : s.memUsed + (offset + len) * 2#64 > poolSize
      · rw [if_pos hroom] at halloc
        cases halloc
        exact (run_pure_iff.mp hgrow).2
      · rw [if_neg hroom] at halloc
        cases halloc
        rw [if_neg (pool_ne_null _), run_bind_iff] at hgrow
        obtain ⟨_, _, -, hgrow⟩ := hgrow
        obtain ⟨_, _, -, hgrow⟩ := run_bind_iff.mp hgrow
        obtain ⟨_, _, -, hgrow⟩ := run_bind_iff.mp hgrow
        cases hgrow
    · rw [if_neg hcap] at hgrow
      cases hgrow

end PpoOS
