import PpoOS.Fs.Verify.Runs

/-!
# What a write does to the other files

The buffers of the files may touch.  A write that fills its file exactly to the
capacity puts the terminating NUL one byte behind the buffer.
**`fsWrite_independent_iff`**: the other files keep their sizes and contents unless
that byte is the first one of another file and was not zero.
-/

namespace PpoOS

open FaultState FsM Extent Transition

variable {s t : FsState} {f g : FsFile} {i j : Nat} {offset len off a : U64} {buf : Nat → U8}

/-! ## Writes to the pool -/

/-- A byte of the pool outside of what is written. -/
theorem pool_blit_outside {m : Memory} {n : Nat} {src : Nat → U8} (hn : off.toNat + n ≤ 2 ^ 64)
    (h : a.toNat < off.toNat ∨ off.toNat + n ≤ a.toNat) :
    (m.blit (.pool off) n src).pool a = m.pool a := by
  apply ByteMem.blit_outside
  have ha := a.isLt
  rw [BitVec.toNat_sub]
  omega

theorem pool_blit_one {m : Memory} {src : Nat → U8} :
    (m.blit (.pool off) 1 src).pool off = src 0 := by
  have hd : (off - off).toNat = 0 := by rw [BitVec.sub_self]; rfl
  change ByteMem.blit m.pool off 1 src off = src 0
  rw [ByteMem.blit_inside (by omega), hd]

/-- Making room writes past the used part of the pool only. -/
theorem grownMem_pool {m : Memory} {newSize used : U64} (hsize : f.size.toNat ≤ newSize.toNat * 2)
    (hroom : used.toNat + newSize.toNat * 2 < 2 ^ 64) (ha : a.toNat < used.toNat) :
    (grownMem m f newSize used).pool a = m.pool a := by
  have hcap := toNat_double (n := newSize) (by omega)
  unfold grownMem
  rw [pool_blit_outside (by omega) (Or.inl ha), pool_blit_outside (by omega) (Or.inl ha)]

/-- The write puts its terminating NUL on byte `a`, one byte behind the buffer of the file. -/
def FsFile.Overruns (f : FsFile) (offset len a : U64) : Prop :=
  f.size < offset + len ∧ offset + len = f.capacity ∧ ∃ off, f.data = .pool off ∧ a = off + f.capacity

section Filled

variable {m : Memory} (hdata : f.data = .pool off) (hfit : ¬offset + len > f.capacity)
  (hcap : off.toNat + f.capacity.toNat ≤ poolSize.toNat) (hok : f.Ok)
  (hw : offset.toNat + len.toNat < 2 ^ 64)
include hdata hfit hcap hok hw

/-- Filling a file changes its buffer and the byte behind it only. -/
theorem filledMem_pool (ha : a.toNat < off.toNat ∨ off.toNat + f.capacity.toNat ≤ a.toNat)
    (hnot : ¬f.Overruns offset len a) : (filledMem m f offset buf len).pool a = m.pool a := by
  have hpool : poolSize.toNat = 65536 := rfl
  have hsize := hok.size_le
  have hsum := toNat_add_of_lt hw
  rw [gt_iff_lt, BitVec.lt_def, hsum, Nat.not_lt] at hfit
  have hadd : ∀ x : U64, x.toNat ≤ f.capacity.toNat → (off + x).toNat = off.toNat + x.toNat :=
    fun x hx => toNat_add_of_lt (by omega)
  have hoffset := hadd offset (by omega)
  unfold filledMem
  simp only [hdata, Ptr.add]
  -- the gap and the payload lie inside the buffer
  have hgap : (if offset > f.size then m.blit (.pool (off + f.size)) (offset - f.size).toNat fun _ => 0#8
      else m).pool a = m.pool a := by
    by_cases hg : offset > f.size
    · have hlt : f.size.toNat < offset.toNat := hg
      have hlen : (offset - f.size).toNat = offset.toNat - f.size.toNat := by
        rw [BitVec.toNat_sub]
        omega
      have hsz := hadd f.size hsize
      rw [if_pos hg, pool_blit_outside (by omega) (by omega)]
    · rw [if_neg hg]
  have hpayload : ∀ m' : Memory, m'.pool a = m.pool a →
      (m'.blit (.pool (off + offset)) len.toNat buf).pool a = m.pool a := by
    intro m' hm'
    rw [pool_blit_outside (by omega) (by omega), hm']
  by_cases hgrow : offset + len > f.size
  · -- the NUL lies inside the buffer where the file is not full
    have hend := hadd (offset + len) (by omega)
    have hone : (off + (offset + len)).toNat ≠ a.toNat := by
      intro heq
      have hfull : offset + len = f.capacity := by
        apply BitVec.eq_of_toNat_eq
        omega
      exact hnot ⟨hgrow, hfull, off, hdata, by rw [← hfull]; exact (BitVec.eq_of_toNat_eq heq).symm⟩
    rw [if_pos hgrow, pool_blit_outside (by omega) (by omega)]
    exact hpayload _ hgap
  · rw [if_neg hgrow]
    exact hpayload _ hgap

end Filled

/-- The byte that is overrun becomes zero. -/
theorem filledMem_overruns {m : Memory} (h : f.Overruns offset len a) :
    (filledMem m f offset buf len).pool a = 0#8 := by
  obtain ⟨hgrow, hfull, off, hdata, rfl⟩ := h
  unfold filledMem
  simp only [hdata, Ptr.add]
  rw [if_pos hgrow, hfull, pool_blit_one]

/-! ## Reading another file -/

/-- The byte at `a` of the pool is one of the contents of the file. -/
def FsFile.Holds (f : FsFile) (a : U64) : Prop :=
  ∃ off, f.data = .pool off ∧ off.toNat ≤ a.toNat ∧ a.toNat < off.toNat + f.size.toNat

/-- A file whose contents keep their bytes reads the same. -/
theorem readBytes_congr (hok : f.Ok) (hend : ∀ e, f.extent = some e → e.stop ≤ poolSize.toNat)
    (h : ∀ a, f.Holds a → t.mem.pool a = s.mem.pool a) (offset len : U64) :
    t.readBytes f offset len = s.readBytes f offset len := by
  have hfs : f.fsType ≠ .ext2 := by rw [hok.fsType]; decide
  unfold FsState.readBytes
  by_cases hsize : offset ≥ f.size
  · rw [if_pos hsize, if_pos hsize]
  rw [if_neg hsize, if_neg hsize, if_neg hfs, if_neg hfs]
  cases hd : f.data with
  | addr p =>
    cases hdir : f.isDir with
    | true =>
      have hnull : Ptr.addr p = Ptr.null := hd.symm.trans (hok.entry hdir)
      rw [if_pos hnull, if_pos hnull]
    | false =>
      obtain ⟨off, hoff⟩ := hok.file hdir
      rw [hd] at hoff
      cases hoff
  | pool off =>
    rw [if_neg (pool_ne_null off), if_neg (pool_ne_null off)]
    have hpool : poolSize.toNat = 65536 := rfl
    have hcap : off.toNat + f.capacity.toNat ≤ poolSize.toNat :=
      hend ⟨off.toNat, f.capacity.toNat⟩ (by rw [FsFile.extent, hd])
    have hle := hok.size_le
    have hlt : offset.toNat < f.size.toNat := Nat.lt_of_not_le hsize
    refine congrArg some (List.map_congr_left fun k hk => ?_)
    have hk' : k < f.size.toNat - offset.toNat := by
      rw [List.mem_range, toCopy_toNat hlt] at hk
      omega
    have hoff := toNat_add_of_lt (a := off) (b := offset) (by omega)
    have hkn : (BitVec.ofNat 64 k).toNat = k := by
      rw [BitVec.toNat_ofNat]
      omega
    have haddr : (off + offset + BitVec.ofNat 64 k).toNat = off.toNat + offset.toNat + k := by
      rw [toNat_add_of_lt (by omega), hoff, hkn]
    exact h _ ⟨off, hd, by omega, by omega⟩

/-- The other files have the sizes and the contents that they had. -/
def OthersKept (s t : FsState) (i : Nat) : Prop :=
  ∀ j, j ≠ i → j < s.fs.fileCount →
    (t.file? (.slot j)).map FsFile.size = (s.file? (.slot j)).map FsFile.size ∧
      ∀ offset len : U64, ((fsRead (.slot j) offset len).run t).map Prod.fst =
        ((fsRead (.slot j) offset len).run s).map Prod.fst

/-- The NUL of the write falls on the first byte of another file, which is not zero. -/
def Clobbers (s : FsState) (i : Nat) (offset len : U64) : Prop :=
  ∃ j f g a, j ≠ i ∧ s.fs.liveFiles[i]? = some f ∧ s.fs.liveFiles[j]? = some g ∧
    f.Overruns offset len a ∧ g.data = .pool a ∧ g.size ≠ 0#64 ∧ s.mem.pool a ≠ 0#8

/-! ## The write -/

namespace FsState.Inv

/-- The buffer of a file lies in the used part of the pool. -/
theorem extent_stop (h : s.Inv) (hf : s.fs.liveFiles[i]? = some f) (hdata : f.data = .pool off) :
    off.toNat + f.capacity.toNat ≤ s.memUsed.toNat := by
  refine h.packed.stop_le i ⟨off.toNat, f.capacity.toNat⟩ ?_
  rw [List.getElem?_map, hf, Option.map_some, FsFile.extent, hdata]

theorem buffers_apart (h : s.Inv) (hij : j ≠ i) (hf : s.fs.liveFiles[i]? = some f)
    (hg : s.fs.liveFiles[j]? = some g) (hdata : f.data = .pool off) (hdata' : g.data = .pool a) :
    Apart ⟨a.toNat, g.capacity.toNat⟩ ⟨off.toNat, f.capacity.toNat⟩ := by
  refine h.packed.apart j i _ _ hij ?_ ?_
  · rw [List.getElem?_map, hg, Option.map_some, FsFile.extent, hdata']
  · rw [List.getElem?_map, hf, Option.map_some, FsFile.extent, hdata]

/-- A byte of one file lies outside of the buffer of another. -/
theorem outside (h : s.Inv) (hij : j ≠ i) (hf : s.fs.liveFiles[i]? = some f)
    (hg : s.fs.liveFiles[j]? = some g) (hdata : f.data = .pool off) (ha : g.Holds a) :
    a.toNat < off.toNat ∨ off.toNat + f.capacity.toNat ≤ a.toNat := by
  obtain ⟨off', hoff', hle, hlt⟩ := ha
  have hsize := (h.files g (List.mem_of_getElem? hg)).size_le
  rcases h.buffers_apart hij hf hg hdata hoff' with hbefore | hbehind
  · exact Or.inl (Nat.lt_of_lt_of_le hlt (Nat.le_trans (Nat.add_le_add_left hsize _) hbefore))
  · exact Or.inr (Nat.le_trans hbehind hle)

/-- The byte behind the buffer of one file is a byte of another only as its first one. -/
theorem data_of_overruns (h : s.Inv) (hij : j ≠ i) (hf : s.fs.liveFiles[i]? = some f)
    (hg : s.fs.liveFiles[j]? = some g) (hover : f.Overruns offset len a) (ha : g.Holds a) :
    g.data = .pool a := by
  obtain ⟨-, -, off, hdata, rfl⟩ := hover
  obtain ⟨off', hoff', hle, hlt⟩ := ha
  have hsize := (h.files g (List.mem_of_getElem? hg)).size_le
  have hstop := h.extent_stop hf hdata
  have hused := h.used_le
  have hpool : poolSize.toNat = 65536 := rfl
  have hsum := toNat_add_of_lt (a := off) (b := f.capacity) (by omega)
  rw [hoff']
  congr 1
  apply BitVec.eq_of_toNat_eq
  rcases h.buffers_apart hij hf hg hdata hoff' with hbefore | hbehind
  · change off'.toNat + g.capacity.toNat ≤ off.toNat at hbefore
    omega
  · change off.toNat + f.capacity.toNat ≤ off'.toNat at hbehind
    omega

theorem holds_used (h : s.Inv) (hg : s.fs.liveFiles[j]? = some g) (ha : g.Holds a) :
    a.toNat < s.memUsed.toNat := by
  obtain ⟨off, hoff, -, hlt⟩ := ha
  have hsize := (h.files g (List.mem_of_getElem? hg)).size_le
  have hstop := h.extent_stop hg hoff
  omega

/-- **What a write to file `i` does to a byte of another file**: it keeps it, or it overruns it. -/
theorem write_pool (h : s.Inv) (hi : i < fsMaxFiles) (hf : s.fs.liveFiles[i]? = some f)
    (hw : s.NoWrap offset len) {n : U64} (hout : WriteOutcome s i hi f offset buf len n t) (hij : j ≠ i)
    (hg : s.fs.liveFiles[j]? = some g) (ha : g.Holds a) :
    (f.Overruns offset len a ∧ t.mem.pool a = 0#8) ∨
      (¬f.Overruns offset len a ∧ t.mem.pool a = s.mem.pool a) := by
  have hok := h.files f (List.mem_of_getElem? hf)
  have hpool : poolSize.toNat = 65536 := rfl
  have hused := h.used_le
  unfold FsState.NoWrap at hw
  have hsum := toNat_add_of_lt (a := offset) (b := len) (by omega)
  cases hout with
  | refused hr =>
    refine Or.inr ⟨fun hover => ?_, rfl⟩
    obtain ⟨-, hfull, off, hdata, -⟩ := hover
    rcases hr with hdir | hgrow
    · rw [hok.entry hdir] at hdata
      cases hdata
    · exact absurd hgrow (by rw [hfull]; exact BitVec.lt_irrefl _)
  | inPlace file fits =>
    by_cases hover : f.Overruns offset len a
    · exact Or.inl ⟨hover, filledMem_overruns hover⟩
    · obtain ⟨off, hdata⟩ := hok.file file
      have hstop := h.extent_stop hf hdata
      exact Or.inr ⟨hover, filledMem_pool hdata fits (by omega) hok (by omega)
        (h.outside hij hf hg hdata ha) hover⟩
  | moved file grows room =>
    have hlt := h.holds_used hg ha
    have hcap := toNat_double (n := offset + len) (by omega)
    have hnew := toNat_add_of_lt (a := s.memUsed) (b := (offset + len) * 2#64) (by omega)
    have hsize := hok.size_le
    have hgrows : f.capacity.toNat < (offset + len).toNat := grows
    rw [room_iff, hnew, hcap] at room
    refine Or.inr ⟨fun hover => ?_, ?_⟩
    · exact absurd grows (by rw [hover.2.1]; exact BitVec.lt_irrefl _)
    · have hfits : ¬offset + len > (grownFile f (offset + len) s.memUsed).capacity := by
        change ¬offset + len > (offset + len) * 2#64
        rw [gt_iff_lt, BitVec.lt_def]
        omega
      have hnot : ¬(grownFile f (offset + len) s.memUsed).Overruns offset len a := by
        rintro ⟨-, hfull, -⟩
        have hsame := congrArg BitVec.toNat hfull
        change (offset + len).toNat = ((offset + len) * 2#64).toNat at hsame
        omega
      have hfill : (filledMem (grownMem s.mem f (offset + len) s.memUsed)
          (grownFile f (offset + len) s.memUsed) offset buf len).pool a =
          (grownMem s.mem f (offset + len) s.memUsed).pool a := filledMem_pool rfl hfits
        (by change _ + ((offset + len) * 2#64).toNat ≤ _; omega)
        (grownFile_ok hok file grows (by omega)) (by omega) (Or.inl hlt) hnot
      exact hfill.trans (grownMem_pool (by omega) (by omega) hlt)

end FsState.Inv

/-- A write to one slot leaves the others. -/
theorem WriteOutcome.file? {hi : i < fsMaxFiles} {n : U64} (hout : WriteOutcome s i hi f offset buf len n t)
    (hij : j ≠ i) : t.file? (.slot j) = s.file? (.slot j) := by
  have hset : ∀ {u : FsState} {k : FsFile} {m : Nat},
      (u.fileSlot i hi k m).file? (.slot j) = u.file? (.slot j) :=
    fun {_} => Vector.getElem?_set_ne hi hij.symm
  cases hout with
  | refused => rfl
  | inPlace => exact hset
  | moved => exact hset.trans hset

/-- The first byte of a file. -/
theorem fsRead_first (hok : g.Ok) (hfile : s.file? (.slot j) = some g) (hdata : g.data = .pool a)
    (hsize : g.size ≠ 0#64) :
    ((fsRead (.slot j) 0#64 1#64).run s).map Prod.fst = some [s.mem.pool a] := by
  have hfs : g.fsType ≠ .ext2 := by rw [hok.fsType]; decide
  have hpos : 0 < g.size.toNat := Nat.pos_of_ne_zero fun h => hsize (BitVec.eq_of_toNat_eq h)
  have hge : ¬(0#64 ≥ g.size) := by
    rw [ge_iff_le, BitVec.le_def]
    exact Nat.not_le.mpr hpos
  have hlen : (if g.size - 0#64 > 1#64 then 1#64 else g.size - 0#64).toNat = 1 := by
    rw [BitVec.sub_zero]
    by_cases h1 : g.size > 1#64
    · rw [if_pos h1]
      rfl
    · rw [if_neg h1]
      have hle : ¬1 < g.size.toNat := h1
      omega
  rw [fsRead_run, hfile, Option.bind_some, FsState.readBytes, if_neg hge, if_neg hfs, hdata,
    if_neg (pool_ne_null a), hlen]
  simp [Memory.bytes, Memory.load, Ptr.add]

/-- A write that overruns a byte which is not zero shows in the other file. -/
theorem Clobbers.not_kept (h : s.Inv) (hclob : Clobbers s i offset len)
    (hstep : FsStep s (.write i offset buf len) t) : ¬OthersKept s t i := by
  obtain ⟨j, f, g, a, hij, hf, hg, hover, hdata, hsize, hbyte⟩ := hclob
  obtain ⟨⟨hlt, hw⟩, hrun⟩ := hstep
  have hi := Nat.lt_of_lt_of_le hlt h.fileCount_le
  obtain ⟨n, hcall⟩ := run_discard_iff.mp hrun
  have hout := h.write_outcome hi hf hcall
  have hok := h.files g (List.mem_of_getElem? hg)
  obtain ⟨hj, hfile⟩ := liveFiles_slot h.fileCount_le hg
  have hfile' : t.file? (.slot j) = some g := (hout.file? hij).trans hfile
  have hpos : 0 < g.size.toNat := Nat.pos_of_ne_zero fun h => hsize (BitVec.eq_of_toNat_eq h)
  intro hkept
  have hread := (hkept j hij hj).2 0#64 1#64
  rw [fsRead_first hok hfile hdata hsize, fsRead_first hok hfile' hdata hsize] at hread
  rcases h.write_pool hi hf hw hout hij hg ⟨a, hdata, Nat.le_refl _, by omega⟩ with
    ⟨-, hzero⟩ | ⟨hnot, -⟩
  · rw [hzero] at hread
    simp only [Option.some.injEq, List.cons.injEq, and_true] at hread
    exact hbyte hread.symm
  · exact hnot hover

/-- A write that overruns nothing, or a zero, does not show. -/
theorem kept_of_not_clobbers (h : s.Inv) (hnot : ¬Clobbers s i offset len)
    (hstep : FsStep s (.write i offset buf len) t) : OthersKept s t i := by
  obtain ⟨⟨hlt, hw⟩, hrun⟩ := hstep
  have hi := Nat.lt_of_lt_of_le hlt h.fileCount_le
  obtain ⟨f, hf⟩ := h.liveFile hlt
  obtain ⟨n, hcall⟩ := run_discard_iff.mp hrun
  have hout := h.write_outcome hi hf hcall
  intro j hij hj
  obtain ⟨g, hg⟩ := h.liveFile hj
  have hok := h.files g (List.mem_of_getElem? hg)
  have hfile : s.file? (.slot j) = some g := (liveFiles_get hj).symm.trans hg
  have hfile' : t.file? (.slot j) = some g := (hout.file? hij).trans hfile
  refine ⟨by rw [hfile, hfile'], fun offset len' => ?_⟩
  have hend : ∀ e, g.extent = some e → e.stop ≤ poolSize.toNat := by
    intro e he
    refine Nat.le_trans (h.packed.stop_le j e ?_) h.used_le
    rw [List.getElem?_map, hg, Option.map_some, he]
  have hbytes : ∀ a, g.Holds a → t.mem.pool a = s.mem.pool a := by
    intro a ha
    rcases h.write_pool hi hf hw hout hij hg ha with ⟨hover, hzero⟩ | ⟨-, hsame⟩
    · -- the byte is overrun, so it was zero before
      have hdata := h.data_of_overruns hij hf hg hover ha
      have hsize : g.size ≠ 0#64 := by
        rintro hz
        obtain ⟨off, hoff, hle, hlt⟩ := ha
        rw [hz] at hlt
        exact absurd hlt (Nat.not_lt.mpr hle)
      rw [hzero]
      by_contra hne
      exact hnot ⟨j, f, g, a, hij, hf, hg, hover, hdata, hsize, Ne.symm hne⟩
    · exact hsame
  rw [fsRead_run, fsRead_run, hfile, hfile', Option.bind_some, Option.bind_some,
    readBytes_congr hok hend hbytes]
  cases s.readBytes g offset len' <;> rfl

/-- **The other files keep their sizes and contents** exactly where the terminating NUL of the write
does not fall on a first byte that was not zero. -/
theorem fsWrite_independent_iff (s t : FsState) (i : Nat) (offset : U64) (buf : Nat → U8) (len : U64)
    (h : FsReachable s) (hstep : FsStep s (.write i offset buf len) t) :
    OthersKept s t i ↔ ¬Clobbers s i offset len :=
  ⟨fun hkept hclob => hclob.not_kept h.inv hstep hkept,
    fun hnot => kept_of_not_clobbers h.inv hnot hstep⟩

/-! ## Two files whose buffers touch -/

def fileA : CString := CString.ofChars ['a']
def fileB : CString := CString.ofChars ['b']

/-- The bytes of a write. -/
def ones : Nat → U8 := fun _ => 1#8

/-- Two files; the second one holds a byte. -/
theorem twoFiles_reachable : ∃ s : FsState, FsReachable s ∧ s.fs.fileCount = 2 ∧ s.memUsed = 512#64 ∧
    s.fs.liveFiles = [newFile fileA 0#64, { newFile fileB 256#64 with size := 1#64 }] ∧
    s.mem.pool 256#64 = 1#8 := by
  have ha : FsStep emptyFs (.createFile fileA) _ := ⟨trivial, rfl⟩
  have hb := Run.snoc (Run.snoc (.nil emptyFs) ha) (⟨trivial, rfl⟩ : FsStep _ (.createFile fileB) _)
  have hw := Run.snoc hb 
    (⟨⟨Nat.le_of_ble_eq_true rfl, Nat.le_of_ble_eq_true rfl⟩, rfl⟩ : FsStep _ (.write 1 0#64 ones 1#64) _)
  exact ⟨_, ⟨emptyFs, _, emptyFs_started, hw⟩, rfl, rfl, rfl, rfl⟩

/-- A write of 256 bytes to the first file changes the second one. -/
theorem fullWrite_not_independent :
    ∃ s t, FsReachable s ∧ FsStep s (.write 0 0#64 ones 256#64) t ∧ ¬OthersKept s t 0 := by
  obtain ⟨s, hreach, hcount, hused, hfiles, hbyte⟩ := twoFiles_reachable
  have hclob : Clobbers s 0 0#64 256#64 := by
    refine ⟨1, newFile fileA 0#64, { newFile fileB 256#64 with size := 1#64 }, 256#64, by decide, ?_, ?_,
      ⟨by decide, rfl, 0#64, rfl, rfl⟩, rfl, by decide, ?_⟩
    · rw [hfiles]
      rfl
    · rw [hfiles]
      rfl
    · rw [hbyte]
      decide
  have hfits : (FsOp.write 0 0#64 ones 256#64).Fits s := by
    refine ⟨by rw [hcount]; decide, ?_⟩
    rw [FsState.NoWrap, hused]
    decide
  obtain ⟨t, ht⟩ := FsOp.ends _ hreach.inv hfits
  exact ⟨s, t, hreach, ⟨hfits, ht⟩, hclob.not_kept hreach.inv ⟨hfits, ht⟩⟩

/-- A write that leaves the second file alone. -/
theorem fsWrite_independent_emptyFs : ∃ s t, FsReachable s ∧
    FsStep s (.write 0 0#64 ones 1#64) t ∧ (OthersKept s t 0 ↔ ¬Clobbers s 0 0#64 1#64) := by
  obtain ⟨s, hreach, hcount, hused, -⟩ := twoFiles_reachable
  have hfits : (FsOp.write 0 0#64 ones 1#64).Fits s := by
    refine ⟨by rw [hcount]; decide, ?_⟩
    rw [FsState.NoWrap, hused]
    decide
  obtain ⟨t, ht⟩ := FsOp.ends _ hreach.inv hfits
  exact ⟨s, t, hreach, ⟨hfits, ht⟩, fsWrite_independent_iff s t 0 0#64 ones 1#64 hreach ⟨hfits, ht⟩⟩

end PpoOS
