import PpoOS.Fs.Verify.Independent
import PpoOS.Lib.GrowArray

/-!
# A file is a growable array

`fs_write` on the buffers of the pool, against `GrowArray.write` on the contents of
a file.

* **`Stored.grown`**, **`Stored.filled`**: the two parts of a write.
* **`fsWrite_growable`**: in a run of writes each one shows as a write to the array,
  or leaves the file as it was.
-/

namespace PpoOS

open ByteMem FaultState FsM Transition

variable {s t u : FsState} {m : Memory} {f : FsFile} {i : Nat} {offset len off a : U64} {buf : Nat → U8}
  {c : List U8}

/-! ## Files that are stored in the pool -/

/-- A file of the table with its buffer in the part of the pool that was handed out. -/
structure FsState.Stored (s : FsState) (i : Nat) (f : FsFile) : Prop where
  file : s.file? (.slot i) = some f
  fsType : f.fsType ≠ .ext2
  size_le : f.size.toNat ≤ f.capacity.toNat
  buffer : ∃ off, f.data = .pool off ∧ off.toNat + f.capacity.toNat ≤ s.memUsed.toNat

/-- The contents of a file. -/
def FsState.held (s : FsState) (f : FsFile) : List U8 := s.mem.bytes f.data f.size.toNat

/-- What the calls of `fs_read` show of the file in slot `i`, and its size. -/
structure FsState.Shows (s : FsState) (i : Nat) (c : List U8) : Prop where
  size : (s.file? (.slot i)).map (fun f => f.size.toNat) = some c.length
  read : ∀ offset len : U64,
    (fsRead (.slot i) offset len).run s = some (GrowArray.read c offset.toNat len.toNat, s)

theorem FsState.Stored.readBytes (h : s.Stored i f) (offset len : U64) :
    s.readBytes f offset len = some (GrowArray.read (s.held f) offset.toNat len.toNat) := by
  rw [FsState.readBytes, GrowArray.read, FsState.held, Memory.bytes_drop, Memory.bytes_take]
  by_cases hge : offset ≥ f.size
  · have hzero : f.size.toNat - offset.toNat = 0 := Nat.sub_eq_zero_of_le hge
    rw [if_pos hge, hzero, Nat.min_zero]
    rfl
  have hlt : offset.toNat < f.size.toNat := Nat.lt_of_not_le hge
  rw [if_neg hge, if_neg h.fsType]
  obtain ⟨off, hoff, -⟩ := h.buffer
  rw [hoff, if_neg (pool_ne_null off), toCopy_toNat hlt, BitVec.ofNat_toNat, BitVec.setWidth_eq]

/-- The reads of a stored file show its contents. -/
theorem FsState.Stored.shows (h : s.Stored i f) : s.Shows i (s.held f) where
  size := by rw [h.file, Option.map_some, FsState.held, Memory.bytes_length]
  read offset len := by
    rw [fsRead_run, h.file, Option.bind_some, h.readBytes]
    rfl

/-! ## Filling a file -/

/-- A byte that is written. -/
theorem pool_blit_inside {n : Nat} {src : Nat → U8} (hge : off.toNat ≤ a.toNat)
    (hlt : a.toNat < off.toNat + n) : (m.blit (.pool off) n src).pool a = src (a.toNat - off.toNat) := by
  have ha := a.isLt
  have hd : (a - off).toNat = a.toNat - off.toNat := by
    rw [BitVec.toNat_sub]
    omega
  change ByteMem.blit m.pool off n src a = _
  rw [ByteMem.blit_inside (by omega), hd]

section Fill

variable (hdata : f.data = .pool off) (hcap : off.toNat + f.capacity.toNat ≤ poolSize.toNat)
  (hsize : f.size.toNat ≤ f.capacity.toNat) (hfit : offset.toNat + len.toNat ≤ f.capacity.toNat)
include hdata hcap hsize hfit

/-- The bytes of the file after it was filled. -/
theorem filledMem_at (hi : i < max f.size.toNat (offset.toNat + len.toNat)) :
    (filledMem m f offset buf len).load (f.data.add (BitVec.ofNat 64 i)) =
      if offset.toNat ≤ i ∧ i < offset.toNat + len.toNat then buf (i - offset.toNat)
      else if i < f.size.toNat then m.load (f.data.add (BitVec.ofNat 64 i)) else 0#8 := by
  have hpool : poolSize.toNat = 65536 := rfl
  have hadd : ∀ x : U64, x.toNat ≤ f.capacity.toNat → (off + x).toNat = off.toNat + x.toNat :=
    fun x hx => toNat_add_of_lt (by omega)
  have haddr : (off + BitVec.ofNat 64 i).toNat = off.toNat + i := toNat_add_ofNat (by omega)
  have hsum := toNat_add_of_lt (a := offset) (b := len) (by omega)
  have hoffset := hadd offset (by omega)
  have hend := hadd (offset + len) (by omega)
  have hsz := hadd f.size hsize
  unfold filledMem
  simp only [hdata, Ptr.add, Memory.load]
  generalize off + BitVec.ofNat 64 i = a at *
  -- the NUL comes behind the last byte
  have hnul : ∀ m' : Memory, (if offset + len > f.size then
      m'.blit (.pool (off + (offset + len))) 1 fun _ => 0#8 else m').pool a = m'.pool a := by
    intro m'
    by_cases hgrow : offset + len > f.size
    · have hlt : f.size.toNat < (offset + len).toNat := hgrow
      rw [if_pos hgrow, pool_blit_outside (by omega) (by omega)]
    · rw [if_neg hgrow]
  rw [hnul]
  by_cases hin : offset.toNat ≤ i ∧ i < offset.toNat + len.toNat
  · rw [if_pos hin, pool_blit_inside (by omega) (by omega), haddr, hoffset]
    congr 1
    omega
  rw [if_neg hin, pool_blit_outside (by omega) (by omega)]
  by_cases hgap : offset > f.size
  · have hlt : f.size.toNat < offset.toNat := hgap
    have hlen : (offset - f.size).toNat = offset.toNat - f.size.toNat := by
      rw [BitVec.toNat_sub]
      omega
    rw [if_pos hgap]
    by_cases hold : i < f.size.toNat
    · rw [if_pos hold, pool_blit_outside (by omega) (by omega)]
    · rw [if_neg hold, pool_blit_inside (by omega) (by omega)]
  · have hle : offset.toNat ≤ f.size.toNat := Nat.le_of_not_lt hgap
    rw [if_neg hgap, if_pos (by omega)]

omit hdata hcap hsize in
theorem filledFile_size : (filledFile f offset len).size.toNat =
    max f.size.toNat (offset.toNat + len.toNat) := by
  have hlt := f.capacity.isLt
  have hsum := toNat_add_of_lt (a := offset) (b := len) (by omega)
  unfold filledFile
  by_cases hgrow : offset + len > f.size
  · have hlt : f.size.toNat < (offset + len).toNat := hgrow
    rw [if_pos hgrow, hsum]
    omega
  · have hle : (offset + len).toNat ≤ f.size.toNat := Nat.le_of_not_lt hgrow
    rw [if_neg hgrow]
    omega

end Fill

theorem filledFile_data : (filledFile f offset len).data = f.data := by
  unfold filledFile
  split <;> rfl

theorem filledFile_capacity : (filledFile f offset len).capacity = f.capacity := by
  unfold filledFile
  split <;> rfl

theorem filledFile_fsType : (filledFile f offset len).fsType = f.fsType := by
  unfold filledFile
  split <;> rfl

/-- The bytes that are written. -/
def written (buf : Nat → U8) (len : U64) : List U8 := (List.range len.toNat).map buf

namespace FsState.Stored

theorem buffer_le (h : s.Stored i f) (hdata : f.data = .pool off) :
    off.toNat + f.capacity.toNat ≤ s.memUsed.toNat := by
  obtain ⟨off', hoff, hle⟩ := h.buffer
  rw [hdata] at hoff
  cases hoff
  exact hle

/-- **Filling a file that has the room.** -/
theorem filled (h : s.Stored i f) (buf : Nat → U8) (hused : s.memUsed.toNat ≤ poolSize.toNat) (hi : i < fsMaxFiles)
    (hdata : f.data = .pool off) (hfit : offset.toNat + len.toNat ≤ f.capacity.toNat) :
    (s.filled i hi f offset buf len).Stored i (filledFile f offset len) ∧
      (s.filled i hi f offset buf len).held (filledFile f offset len) =
        GrowArray.write 0#8 (s.held f) offset.toNat (written buf len) := by
  have hle := h.buffer_le hdata
  have hsize := h.size_le
  have hnew : (filledFile f offset len).size.toNat = _ := filledFile_size hfit
  constructor
  · exact
      { file := fileSlot_file?
        fsType := by rw [filledFile_fsType]; exact h.fsType
        size_le := by rw [hnew, filledFile_capacity]; omega
        buffer := ⟨off, by rw [filledFile_data, hdata], by rw [filledFile_capacity]; exact hle⟩ }
  · rw [FsState.held, hnew, filledFile_data]
    symm
    refine GrowArray.write_map_range _ _ _ (fun k hk hlt => ?_) (fun k hk hout => ?_) fun k hk hlt => ?_
    · exact (filledMem_at hdata (by omega) hsize hfit (by omega)).trans (if_pos ⟨hk, hlt⟩)
    · exact (filledMem_at hdata (by omega) hsize hfit (by omega)).trans
        ((if_neg (by omega)).trans (if_pos hk))
    · exact (filledMem_at hdata (by omega) hsize hfit (by omega)).trans
        ((if_neg (by omega)).trans (if_neg (by omega)))

/-- **Moving a file to a new buffer.** -/
theorem grown {newSize : U64} (h : s.Stored i f) (hi : i < fsMaxFiles) (hdata : f.data = .pool off)
    (hgrow : f.capacity.toNat < newSize.toNat) (hw : s.memUsed.toNat + newSize.toNat * 2 < 2 ^ 64) :
    (s.grown i hi f newSize).Stored i (grownFile f newSize s.memUsed) ∧
      (s.grown i hi f newSize).held (grownFile f newSize s.memUsed) = s.held f := by
  have hle := h.buffer_le hdata
  have hsize := h.size_le
  have hcap := toNat_double (n := newSize) (by omega)
  have hnew := toNat_add_of_lt (a := s.memUsed) (b := newSize * 2#64) (by omega)
  constructor
  · refine
      { file := fileSlot_file?
        fsType := h.fsType
        size_le := ?_
        buffer := ⟨s.memUsed, rfl, Nat.le_of_eq hnew.symm⟩ }
    change f.size.toNat ≤ (newSize * 2#64).toNat
    omega
  · -- the old buffer lies in front of the new one, so that zeroing it loses nothing
    refine List.map_congr_left fun k hk => ?_
    have hk' : k < f.size.toNat := List.mem_range.mp hk
    have haddr := toNat_add_ofNat (a := s.memUsed) (n := k) (by omega)
    have hold := toNat_add_ofNat (a := off) (n := k) (by omega)
    have hpos : (s.memUsed + BitVec.ofNat 64 k).toNat - s.memUsed.toNat = k := by omega
    change (grownMem s.mem f newSize s.memUsed).pool (s.memUsed + BitVec.ofNat 64 k) = _
    rw [grownMem, pool_blit_inside (by omega) (by omega), hpos, hdata]
    exact pool_blit_outside (by omega) (Or.inl (by omega))

/-- A file of another slot stays where it is. -/
theorem other {j : Nat} {g : FsFile} (h : s.Stored j g) (hfile : t.file? (.slot j) = s.file? (.slot j))
    (hused : s.memUsed.toNat ≤ t.memUsed.toNat) : t.Stored j g where
  file := by rw [hfile, h.file]
  fsType := h.fsType
  size_le := h.size_le
  buffer := by
    obtain ⟨off, hoff, hle⟩ := h.buffer
    exact ⟨off, hoff, Nat.le_trans hle hused⟩

end FsState.Stored

/-! ## A write -/

theorem fileSlot_file?_ne {j n : Nat} {hi : i < fsMaxFiles} (hij : j ≠ i) :
    (s.fileSlot i hi f n).file? (.slot j) = s.file? (.slot j) := Vector.getElem?_set_ne hi hij.symm

/-- How a write to a slot ends, whatever is in the slot. -/
inductive SlotWriteOutcome (s : FsState) (i : Nat) (offset : U64) (buf : Nat → U8) (len : U64) :
    U64 → FsState → Prop
  /-- A file of an image, the entry of a directory, or a full pool. -/
  | refused : SlotWriteOutcome s i offset buf len 0#64 s
  | inPlace (hi : i < fsMaxFiles) {f : FsFile} (file : s.file? (.slot i) = some f)
      (fits : ¬offset + len > f.capacity) :
      SlotWriteOutcome s i offset buf len len (s.filled i hi f offset buf len)
  | moved (hi : i < fsMaxFiles) {f : FsFile} (file : s.file? (.slot i) = some f)
      (grows : offset + len > f.capacity) (room : ¬s.memUsed + (offset + len) * 2#64 > poolSize) :
      SlotWriteOutcome s i offset buf len len
        ((s.grown i hi f (offset + len)).filled i hi (grownFile f (offset + len) s.memUsed) offset buf len)

theorem fsWrite_outcome {n : U64} (hrun : (fsWrite (.slot i) offset buf len).run s = some (n, t)) :
    SlotWriteOutcome s i offset buf len n t := by
  cases hfile : s.file? (.slot i) with
  | none =>
    rw [fsWrite, run_getFile_bind, hfile] at hrun
    cases hrun
  | some f =>
    by_cases hfs : f.fsType = .ext2
    · rw [fsWrite, run_getFile_bind, hfile, Option.bind_some, if_pos hfs] at hrun
      cases hrun
      exact .refused
    by_cases hnull : f.data = Ptr.null
    · rw [fsWrite_null hfile hfs hnull] at hrun
      cases hrun
      exact .refused
    obtain ⟨hi, -⟩ := file?_slot hfile
    rw [fsWrite_run hi _ _ _ hfile hfs hnull] at hrun
    by_cases hgrow : offset + len > f.capacity
    · rw [if_pos hgrow] at hrun
      by_cases hroom : s.memUsed + (offset + len) * 2#64 > poolSize
      · rw [if_pos hroom] at hrun
        cases hrun
        exact .refused
      · rw [if_neg hroom] at hrun
        split at hrun
        · cases hrun
          exact .moved hi hfile hgrow hroom
        · cases hrun
    · rw [if_neg hgrow] at hrun
      split at hrun
      · cases hrun
        exact .inPlace hi hfile hgrow
      · cases hrun

/-- A call of `fs_write` on an entry of the table, and what it returned. -/
structure WriteCall where
  slot : Nat
  offset : U64
  buf : Nat → U8
  len : U64
  result : U64

/-- The call writes at least one byte, and its sums do not wrap. -/
structure WriteStep (s : FsState) (w : WriteCall) (t : FsState) : Prop where
  pos : w.len ≠ 0#64
  noWrap : s.NoWrap w.offset w.len
  run : (fsWrite (.slot w.slot) w.offset w.buf w.len).run s = some (w.result, t)

/-- How a write ends: it is refused, and then nothing has changed, or its file is the array with the
bytes in place. -/
inductive WroteAs (s : FsState) (w : WriteCall) (t : FsState) : Prop
  | refused (result : w.result = 0#64) (same : t = s)
  | done (result : w.result = w.len) (c : List U8) (before : s.Shows w.slot c)
      (now : t.Shows w.slot (GrowArray.write 0#8 c w.offset.toNat (written w.buf w.len)))

/-- **One write to a stored file.** -/
theorem WriteStep.outcome {w : WriteCall} (hused : s.memUsed.toNat ≤ poolSize.toNat)
    (hf : s.Stored w.slot f) (hstep : WriteStep s w t) : (∃ g, t.Stored w.slot g) ∧ WroteAs s w t := by
  have hpool : poolSize.toNat = 65536 := rfl
  obtain ⟨off, hdata, hle⟩ := hf.buffer
  have hw := hstep.noWrap
  unfold FsState.NoWrap at hw
  have hsum := toNat_add_of_lt (a := w.offset) (b := w.len) (by omega)
  have hout := fsWrite_outcome hstep.run
  generalize hn : w.result = n at hout
  cases hout with
  | refused => exact ⟨⟨f, hf⟩, .refused hn rfl⟩
  | @inPlace hi g file fits =>
    obtain rfl : g = f := Option.some.inj (file.symm.trans hf.file)
    have hfit : w.offset.toNat + w.len.toNat ≤ g.capacity.toNat := by
      rw [← hsum]
      exact Nat.le_of_not_lt fits
    obtain ⟨hfilled, hheld⟩ := hf.filled w.buf hused hi hdata hfit
    exact ⟨⟨_, hfilled⟩, .done hn _ hf.shows (by rw [← hheld]; exact hfilled.shows)⟩
  | @moved hi g file grows room =>
    obtain rfl : g = f := Option.some.inj (file.symm.trans hf.file)
    have hcap := toNat_double (n := w.offset + w.len) (by omega)
    obtain ⟨hgrown, hsame⟩ := hf.grown hi hdata grows (by omega)
    have hfit : w.offset.toNat + w.len.toNat ≤
        (grownFile g (w.offset + w.len) s.memUsed).capacity.toNat := by
      change _ ≤ ((w.offset + w.len) * 2#64).toNat
      omega
    obtain ⟨hfilled, hheld⟩ := hgrown.filled w.buf (room_iff.mp room) hi rfl hfit
    refine ⟨⟨_, hfilled⟩, .done hn _ hf.shows ?_⟩
    rw [← hsame, ← hheld]
    exact hfilled.shows

/-- What any write leaves alone. -/
theorem WriteStep.frame {w : WriteCall} (hused : s.memUsed.toNat ≤ poolSize.toNat)
    (hstep : WriteStep s w t) : t.memUsed.toNat ≤ poolSize.toNat ∧ s.memUsed.toNat ≤ t.memUsed.toNat ∧
      ∀ j, j ≠ w.slot → t.file? (.slot j) = s.file? (.slot j) := by
  have hw := hstep.noWrap
  have hout := fsWrite_outcome hstep.run
  generalize w.result = n at hout
  cases hout with
  | refused => exact ⟨hused, Nat.le_refl _, fun _ _ => rfl⟩
  | inPlace => exact ⟨hused, Nat.le_refl _, fun j hij => fileSlot_file?_ne hij⟩
  | moved hi file grows room =>
    unfold FsState.NoWrap at hw
    have hsum := toNat_add_of_lt (a := w.offset) (b := w.len) (by omega)
    have hcap := toNat_double (n := w.offset + w.len) (by omega)
    have hnew := toNat_add_of_lt (a := s.memUsed) (b := (w.offset + w.len) * 2#64) (by omega)
    refine ⟨room_iff.mp room, ?_, fun j hij => (fileSlot_file?_ne hij).trans (fileSlot_file?_ne hij)⟩
    change s.memUsed.toNat ≤ (s.memUsed + (w.offset + w.len) * 2#64).toNat
    omega

/-- The file in slot `i` is stored in the pool. -/
structure FsState.KeepsFile (s : FsState) (i : Nat) : Prop where
  used_le : s.memUsed.toNat ≤ poolSize.toNat
  file : ∃ f, s.Stored i f

theorem WriteStep.keepsFile {w : WriteCall} (h : s.KeepsFile i) (hstep : WriteStep s w t) :
    t.KeepsFile i := by
  obtain ⟨hused, f, hf⟩ := h
  obtain ⟨hle, hmono, hother⟩ := hstep.frame hused
  refine ⟨hle, ?_⟩
  by_cases hslot : i = w.slot
  · subst hslot
    exact (hstep.outcome hused hf).1
  · exact ⟨f, hf.other (hother i hslot) hmono⟩

/-- What the call makes of the contents of its file. -/
def WriteCall.after (w : WriteCall) (c : List U8) : List U8 :=
  if w.result = 0#64 then c else GrowArray.write 0#8 c w.offset.toNat (written w.buf w.len)

theorem FsState.Shows.unique {d : List U8} (h : s.Shows i c) (h' : s.Shows i d) : c = d := by
  obtain ⟨f, hf, hc⟩ := Option.map_eq_some_iff.mp h.size
  have hd := h'.size
  rw [hf, Option.map_some, Option.some.injEq] at hd
  have hread := (h.read 0#64 f.size).symm.trans (h'.read 0#64 f.size)
  rw [BitVec.toNat_zero, GrowArray.read_all (Nat.le_of_eq hc.symm),
    GrowArray.read_all (Nat.le_of_eq hd.symm)] at hread
  exact congrArg Prod.fst (Option.some.inj hread)

theorem WriteStep.shows {w : WriteCall} (h : s.KeepsFile w.slot) (hstep : WriteStep s w t)
    (hc : s.Shows w.slot c) : t.Shows w.slot (w.after c) := by
  obtain ⟨hused, f, hf⟩ := h
  unfold WriteCall.after
  cases (hstep.outcome hused hf).2 with
  | refused result same =>
    rw [if_pos result, same]
    exact hc
  | done result d before now =>
    rw [if_neg (by rw [result]; exact hstep.pos), hc.unique before]
    exact now

/-- In a run of writes to one file, the file shows all that was written, in order. -/
theorem writes_fold {ws : List WriteCall} (h : s.KeepsFile i) (hrun : Run WriteStep s ws t)
    (hslot : ∀ w ∈ ws, w.slot = i) (hc : s.Shows i c) :
    t.Shows i (ws.foldl (fun c w => w.after c) c) := by
  induction hrun with
  | nil => exact hc
  | snoc run last ih =>
    have hw := hslot _ (List.mem_append_right _ (List.mem_singleton_self _))
    have hkeeps := run.invariant (fun _ _ _ h hstep => WriteStep.keepsFile h hstep) h
    have hbefore := ih (fun w hw => hslot w (List.mem_append_left _ hw))
    rw [List.foldl_append]
    rw [← hw] at hbefore hkeeps ⊢
    exact last.shows hkeeps hbefore

/-- **A file is a growable array**: after any writes to any files, a further one to this file writes to
the array that it shows or is refused, and where no other file was written it shows all that was
written. -/
theorem fsWrite_growable (s t : FsState) (i : Nat) (f : FsFile) (ws : List WriteCall)
    (hused : s.memUsed.toNat ≤ poolSize.toNat) (hf : s.Stored i f) (hrun : Run WriteStep s ws t) :
    (∀ w u, w.slot = i → WriteStep t w u → WroteAs t w u) ∧
      ∀ c, (∀ w ∈ ws, w.slot = i) → s.Shows i c → t.Shows i (ws.foldl (fun c w => w.after c) c) := by
  have hkeeps : s.KeepsFile i := ⟨hused, f, hf⟩
  obtain ⟨hused', g, hg⟩ := hrun.invariant (fun _ _ _ h hstep => WriteStep.keepsFile h hstep) hkeeps
  refine ⟨fun w u hslot hstep => ?_, fun c hslot hc => writes_fold hkeeps hrun hslot hc⟩
  subst hslot
  exact (hstep.outcome hused' hg).2

/-- In the states that calls lead to, every file is stored so. -/
theorem FsState.Inv.stored (h : s.Inv) (hf : s.fs.liveFiles[i]? = some f) (hdir : f.isDir = false) :
    s.Stored i f := by
  have hok := h.files f (List.mem_of_getElem? hf)
  obtain ⟨off, hoff⟩ := hok.file hdir
  exact ⟨(liveFiles_slot h.fileCount_le hf).2, by rw [hok.fsType]; decide, hok.size_le, off, hoff,
    h.extent_stop hf hoff⟩

/-- A file system with one empty file. -/
def fileFs : FsState := (((fsCreateFile fileA).run emptyFs).map Prod.snd).getD emptyFs

theorem fileFs_reachable : FsReachable fileFs :=
  ⟨emptyFs, _, emptyFs_started,
    .snoc (.nil emptyFs) (⟨trivial, rfl⟩ : FsStep _ (.createFile fileA) fileFs)⟩

/-- Two writes to the file, the second one past its end. -/
theorem fsWrite_growable_fileFs : ∃ t ws, Run WriteStep fileFs ws t ∧ ws.length = 2 ∧
    t.Shows 0 [1#8, 0#8, 0#8, 1#8] := by
  have hinv := fileFs_reachable.inv
  have hf : fileFs.Stored 0 (newFile fileA 0#64) := hinv.stored rfl rfl
  have hrun := Run.snoc (Run.snoc (.nil fileFs)
      (⟨by decide, Nat.le_of_ble_eq_true rfl, rfl⟩ : WriteStep _ ⟨0, 0#64, ones, 1#64, 1#64⟩ _))
    (⟨by decide, Nat.le_of_ble_eq_true rfl, rfl⟩ : WriteStep _ ⟨0, 3#64, ones, 1#64, 1#64⟩ _)
  exact ⟨_, _, hrun, rfl, (fsWrite_growable fileFs _ 0 _ _ hinv.used_le hf hrun).2 [] (by simp) hf.shows⟩

end PpoOS
