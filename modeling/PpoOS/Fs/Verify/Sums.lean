import PpoOS.Fs.Verify.Writes

/-!
# The sums of a write

`fs_write` adds `offset` and `len`, doubles the sum, and `fs_alloc` adds that to
`mem_used`; each of the three may wrap, and a wrapped value passes the checks.  Then
one of the copies that follow is longer than the address space and faults.
**`fsWrite_sums_iff`**: a write comes back and does what the checks are for exactly
where the file has no buffer, the bytes fit in it as they are, no sum wraps, or the
wrapped sum is refused.
-/

namespace PpoOS

open FaultState FsM

variable {s t : FsState} {f : FsFile} {i : Nat} {offset len n : U64} {buf : Nat → U8}

/-- A write that returns its length has made room for it in the pool, and any other one returns zero
and changes nothing. -/
structure SumsSound (s t : FsState) (i : Nat) (offset len n : U64) : Prop where
  done : n = len → (∃ g, t.file? (.slot i) = some g ∧ offset.toNat + len.toNat ≤ g.capacity.toNat) ∧
    s.memUsed.toNat ≤ t.memUsed.toNat ∧ t.memUsed.toNat ≤ poolSize.toNat
  refused : n ≠ len → n = 0#64 ∧ t = s

/-- The checks of the write do what they are for. -/
inductive SumsFit (s : FsState) (f : FsFile) (offset len : U64) : Prop
  | noBuffer (h : f.data = Ptr.null)
  | inPlace (h : offset.toNat + len.toNat ≤ f.capacity.toNat)
  | noWrap (h : s.NoWrap offset len)
  /-- The sums may wrap, but the pool has no room for what comes out. -/
  | refused (grows : offset + len > f.capacity) (full : s.memUsed + (offset + len) * 2#64 > poolSize)

/-- The write comes back, and is sound. -/
def WriteSound (s : FsState) (i : Nat) (offset : U64) (buf : Nat → U8) (len : U64) : Prop :=
  ∃ n t, (fsWrite (.slot i) offset buf len).run s = some (n, t) ∧ SumsSound s t i offset len n

theorem sumsSound_refused (hpos : len ≠ 0#64) : SumsSound s s i offset len 0#64 where
  done h := absurd h.symm hpos
  refused _ := ⟨rfl, rfl⟩

/-- A write in place is sound where the bytes fit. -/
theorem sumsSound_filled (hi : i < fsMaxFiles) (hused : s.memUsed.toNat ≤ poolSize.toNat)
    (hle : offset.toNat + len.toNat ≤ f.capacity.toNat) :
    SumsSound s (s.filled i hi f offset buf len) i offset len len := by
  have hfile : (s.filled i hi f offset buf len).file? (.slot i) = some (filledFile f offset len) :=
    fileSlot_file?
  refine ⟨fun _ => ⟨⟨_, hfile, ?_⟩, Nat.le_refl _, hused⟩, fun hne => absurd rfl hne⟩
  rwa [filledFile_capacity]

/-- A write to a new buffer is sound where no sum wraps. -/
theorem sumsSound_grown (hi : i < fsMaxFiles) (hw : s.NoWrap offset len)
    (hroom : ¬s.memUsed + (offset + len) * 2#64 > poolSize) :
    SumsSound s ((s.grown i hi f (offset + len)).filled i hi (grownFile f (offset + len) s.memUsed)
      offset buf len) i offset len len := by
  have hfile : ((s.grown i hi f (offset + len)).filled i hi (grownFile f (offset + len) s.memUsed)
      offset buf len).file? (.slot i) = some (filledFile (grownFile f (offset + len) s.memUsed) offset len) :=
    fileSlot_file?
  have hcap : (filledFile (grownFile f (offset + len) s.memUsed) offset len).capacity =
      (offset + len) * 2#64 := filledFile_capacity
  unfold FsState.NoWrap at hw
  have hsum := toNat_add_of_lt (a := offset) (b := len) (by omega)
  have hdouble := toNat_double (n := offset + len) (by omega)
  have hnew := toNat_add_of_lt (a := s.memUsed) (b := (offset + len) * 2#64) (by omega)
  refine ⟨fun _ => ⟨⟨_, hfile, by rw [hcap]; omega⟩, ?_, room_iff.mp hroom⟩, fun hne => absurd rfl hne⟩
  change s.memUsed.toNat ≤ (s.memUsed + (offset + len) * 2#64).toNat
  omega

/-- A write that fills a short file without a fault is short. -/
theorem FillFits.sum_lt (h : FillFits f offset len) (hsize : f.size.toNat ≤ poolSize.toNat) :
    offset.toNat + len.toNat < 2 ^ 49 := by
  have hpool : poolSize.toNat = 65536 := rfl
  have hlimit : copyLimit = 2 ^ 47 := rfl
  obtain ⟨hgap, hlen⟩ := h
  by_cases hend : offset > f.size
  · have hle := hgap hend
    rw [BitVec.toNat_sub_of_le (Nat.le_of_lt hend)] at hle
    omega
  · have hle : offset.toNat ≤ f.size.toNat := Nat.le_of_not_lt hend
    omega

/-- What the checks are for holds of every write that comes back. -/
theorem FsState.Inv.write_sound (h : s.Inv) (hf : s.fs.liveFiles[i]? = some f) (hpos : len ≠ 0#64)
    (hrun : (fsWrite (.slot i) offset buf len).run s = some (n, t)) :
    SumsFit s f offset len ∧ SumsSound s t i offset len n := by
  have hpool : poolSize.toNat = 65536 := rfl
  have hused := h.used_le
  have hok := h.files f (List.mem_of_getElem? hf)
  have hfs : f.fsType ≠ .ext2 := by
    rw [hok.fsType]
    decide
  obtain ⟨hlive, hfile⟩ := liveFiles_slot h.fileCount_le hf
  have hi := Nat.lt_of_lt_of_le hlive h.fileCount_le
  by_cases hnull : f.data = Ptr.null
  · rw [fsWrite_null hfile hfs hnull] at hrun
    cases hrun
    exact ⟨.noBuffer hnull, sumsSound_refused hpos⟩
  have hdir : f.isDir = false := by
    by_contra hdir
    exact hnull (hok.entry (by simpa using hdir))
  obtain ⟨hsize, hcapacity⟩ := h.capacity_le hf hdir
  rw [fsWrite_run hi offset len buf hfile hfs hnull] at hrun
  by_cases hgrow : offset + len > f.capacity
  · rw [if_pos hgrow] at hrun
    by_cases hroom : s.memUsed + (offset + len) * 2#64 > poolSize
    · rw [if_pos hroom] at hrun
      cases hrun
      exact ⟨.refused hgrow hroom, sumsSound_refused hpos⟩
    · rw [if_neg hroom] at hrun
      by_cases hfits : GrowFits f (offset + len) ∧ FillFits f offset len
      · rw [if_pos hfits] at hrun
        cases hrun
        have hlt := hfits.2.sum_lt (Nat.le_trans hsize hcapacity)
        have hw : s.NoWrap offset len := by
          unfold FsState.NoWrap
          omega
        exact ⟨.noWrap hw, sumsSound_grown hi hw hroom⟩
      · rw [if_neg hfits] at hrun
        cases hrun
  · rw [if_neg hgrow] at hrun
    by_cases hfits : FillFits f offset len
    · rw [if_pos hfits] at hrun
      cases hrun
      have hlt := hfits.sum_lt (Nat.le_trans hsize hcapacity)
      have hle : (offset + len).toNat ≤ f.capacity.toNat := Nat.le_of_not_lt hgrow
      rw [toNat_add_of_lt (by omega)] at hle
      exact ⟨.inPlace hle, sumsSound_filled hi hused hle⟩
    · rw [if_neg hfits] at hrun
      cases hrun

/-- Where one of the conditions holds, the write comes back. -/
theorem FsState.Inv.fit_ends (h : s.Inv) (hf : s.fs.liveFiles[i]? = some f) (buf : Nat → U8)
    (hfit : SumsFit s f offset len) : ∃ n t, (fsWrite (.slot i) offset buf len).run s = some (n, t) := by
  have hok := h.files f (List.mem_of_getElem? hf)
  have hfs : f.fsType ≠ .ext2 := by
    rw [hok.fsType]
    decide
  obtain ⟨hlive, hfile⟩ := liveFiles_slot h.fileCount_le hf
  have hi := Nat.lt_of_lt_of_le hlive h.fileCount_le
  by_cases hnull : f.data = Ptr.null
  · exact ⟨_, _, fsWrite_null hfile hfs hnull⟩
  have hrun := fsWrite_run hi offset len buf hfile hfs hnull
  cases hfit with
  | noBuffer hnone => exact absurd hnone hnull
  | inPlace hle =>
    have hpool : poolSize.toNat = 65536 := rfl
    have hlimit : copyLimit = 2 ^ 47 := rfl
    have hdir : f.isDir = false := by
      by_contra hdir
      exact hnull (hok.entry (by simpa using hdir))
    obtain ⟨-, hcapacity⟩ := h.capacity_le hf hdir
    have hgrow : ¬offset + len > f.capacity := by
      rw [gt_iff_lt, BitVec.lt_def, toNat_add_of_lt (by omega)]
      omega
    rw [if_neg hgrow, if_pos (fillFits_of_le (by omega))] at hrun
    exact ⟨_, _, hrun⟩
  | noWrap hw => exact h.write_ends hi hf buf hw
  | refused grows full =>
    rw [if_pos grows, if_pos full] at hrun
    exact ⟨_, _, hrun⟩

/-- **The sums of a write are sound** exactly where its checks do what they are for. -/
theorem fsWrite_sums_iff (s : FsState) (i : Nat) (f : FsFile) (offset : U64) (buf : Nat → U8) (len : U64)
    (h : FsReachable s) (hf : s.fs.liveFiles[i]? = some f) (hpos : len ≠ 0#64) :
    WriteSound s i offset buf len ↔ SumsFit s f offset len := by
  constructor
  · rintro ⟨n, t, hrun, -⟩
    exact (h.inv.write_sound hf hpos hrun).1
  · intro hfit
    obtain ⟨n, t, hrun⟩ := h.inv.fit_ends hf buf hfit
    exact ⟨n, t, hrun, (h.inv.write_sound hf hpos hrun).2⟩

/-- A write that needs a new buffer, behind a gap. -/
theorem fsWrite_sums_fileFs : WriteSound fileFs 0 200#64 ones 100#64 :=
  (fsWrite_sums_iff fileFs 0 (newFile fileA 0#64) 200#64 ones 100#64 fileFs_reachable rfl (by decide)).mpr
    (.noWrap (Nat.le_of_ble_eq_true rfl))

/-- A sum that wraps to zero: the write of all but one byte of the address space to a file of 256
bytes passes the checks, and faults. -/
theorem wrappedWrite_not_sound : FsReachable fileFs ∧
    fileFs.fs.liveFiles[0]? = some (newFile fileA 0#64) ∧
      ¬(newFile fileA 0#64).capacity.toNat ≥ (1#64).toNat + (0xFFFFFFFFFFFFFFFF#64).toNat ∧
        ¬(1#64 + 0xFFFFFFFFFFFFFFFF#64 > (newFile fileA 0#64).capacity) ∧
          ¬WriteSound fileFs 0 1#64 ones 0xFFFFFFFFFFFFFFFF#64 := by
  have hnone : (fsWrite (.slot 0) 1#64 ones 0xFFFFFFFFFFFFFFFF#64).run fileFs = none :=
    (fsWrite_run (s := fileFs) (f := newFile fileA 0#64) (by decide) 1#64 0xFFFFFFFFFFFFFFFF#64 ones rfl
      (by decide) (by decide)).trans ((if_neg (by decide)).trans (if_neg (by decide)))
  refine ⟨fileFs_reachable, rfl, by decide, by decide, ?_⟩
  rintro ⟨n, t, hrun, -⟩
  rw [hnone] at hrun
  cases hrun

end PpoOS
