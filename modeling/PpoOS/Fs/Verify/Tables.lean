import PpoOS.Fs.Fs

/-!
# Access to the tables

When the accesses of the file system end, and the live part of the tables after
a write to a slot: a slot past the count does not show, and becomes the last
entry when the count goes up.
-/

namespace PpoOS

open FaultState FsM

variable {s t : FsState} {α : Type}

/-! ## Running an access -/

section Run

variable {β : Type} {f : α → FsM β} {g : FsState → FsM β} {u : Unit → FsM β}

@[simp] theorem run_get_bind : (get >>= g).run s = (g s).run s := rfl

@[simp] theorem run_set_bind {k : PUnit → FsM β} : (set t >>= k).run s = (k PUnit.unit).run t := rfl

@[simp] theorem run_ofOption (x : Option α) : (ofOption x).run s = x.map fun a => (a, s) := rfl

@[simp] theorem run_ofOption_bind {x : Option α} :
    (ofOption x >>= f).run s = x.bind fun a => (f a).run s := by
  cases x <;> rfl

@[simp] theorem run_getFile_bind {file : FileRef} {f : FsFile → FsM β} :
    (getFile file >>= f).run s = (s.file? file).bind fun a => (f a).run s :=
  run_ofOption_bind (x := s.file? file)

@[simp] theorem run_putFile (file : FileRef) (f : FsFile) :
    (putFile file f).run s = (s.setFile? file f).map fun t => ((), t) := rfl

@[simp] theorem run_putFile_bind {file : FileRef} {f : FsFile} :
    (putFile file f >>= u).run s = (s.setFile? file f).bind fun t => (u ()).run t := by
  rw [StateT.run_bind, run_putFile]
  cases s.setFile? file f <;> rfl

@[simp] theorem run_putDir (i : Nat) (d : FsDir) :
    (putDir i d).run s = (s.setDir? i d).map fun t => ((), t) := rfl

@[simp] theorem run_putDir_bind {i : Nat} {d : FsDir} :
    (putDir i d >>= u).run s = (s.setDir? i d).bind fun t => (u ()).run t := by
  rw [StateT.run_bind, run_putDir]
  cases s.setDir? i d <;> rfl

@[simp] theorem run_modifyFs (h : FsMount → FsMount) :
    (modifyFs h).run s = some ((), { s with fs := h s.fs }) := rfl

@[simp] theorem run_modifyFs_bind {h : FsMount → FsMount} :
    (modifyFs h >>= u).run s = (u ()).run { s with fs := h s.fs } := rfl

@[simp] theorem run_modifyMem (h : Memory → Memory) :
    (modifyMem h).run s = some ((), { s with mem := h s.mem }) := rfl

@[simp] theorem run_modifyMem_bind {h : Memory → Memory} :
    (modifyMem h >>= u).run s = (u ()).run { s with mem := h s.mem } := rfl

/-- A copy that the address space has room for. -/
theorem run_copyMem {n : U64} (hn : n.toNat ≤ copyLimit) (h : Memory → Memory) :
    (copyMem n h).run s = some ((), { s with mem := h s.mem }) := if_pos hn

theorem run_copyMem_bind {n : U64} (hn : n.toNat ≤ copyLimit) {h : Memory → Memory} :
    (copyMem n h >>= u).run s = (u ()).run { s with mem := h s.mem } := run_bind_eq (run_copyMem hn h)

/-- A longer one faults. -/
theorem run_copyMem_faults {n : U64} (hn : ¬n.toNat ≤ copyLimit) {h : Memory → Memory} :
    (copyMem n h >>= u).run s = none := by
  have hcopy : (copyMem n h).run s = none := if_neg hn
  rw [StateT.run_bind, hcopy]
  rfl

theorem run_ite {c : Prop} [Decidable c] {x y : FsM α} :
    (if c then x else y).run s = if c then x.run s else y.run s := by
  by_cases h : c
  · rw [if_pos h, if_pos h]
  · rw [if_neg h, if_neg h]

end Run

@[simp] theorem Ptr.add_zero (p : Ptr) : p.add 0#64 = p := by
  cases p <;> exact congrArg _ (BitVec.add_zero _)

@[simp] theorem pool_ne_null (off : U64) : Ptr.pool off ≠ Ptr.null := nofun

theorem setFile?_slot {i : Nat} (f : FsFile) (hi : i < fsMaxFiles) :
    s.setFile? (.slot i) f = some { s with fs := { s.fs with files := s.fs.files.set i f hi } } :=
  dif_pos hi

theorem setDir?_slot {i : Nat} (d : FsDir) (hi : i < fsMaxDirs) :
    s.setDir? i d = some { s with fs := { s.fs with dirs := s.fs.dirs.set i d hi } } := dif_pos hi

/-! ## Live entries -/

theorem liveFiles_length (h : s.fs.fileCount ≤ fsMaxFiles) :
    s.fs.liveFiles.length = s.fs.fileCount := by
  simp [FsMount.liveFiles, h]

theorem liveFiles_get {i : Nat} (h : i < s.fs.fileCount) :
    s.fs.liveFiles[i]? = s.file? (.slot i) := by
  rw [FsMount.liveFiles, List.getElem?_take_of_lt h, Vector.getElem?_toList]
  rfl

/-- A live file lies in its slot, in front of the count. -/
theorem liveFiles_slot (h : s.fs.fileCount ≤ fsMaxFiles) {i : Nat} {f : FsFile} (hf : s.fs.liveFiles[i]? = some f) :
    i < s.fs.fileCount ∧ s.file? (.slot i) = some f := by
  have hlt : i < s.fs.fileCount := by
    rw [← liveFiles_length h]
    exact (List.getElem?_eq_some_iff.mp hf).1
  exact ⟨hlt, (liveFiles_get hlt).symm.trans hf⟩

/-- A slot past the count does not show. -/
theorem liveFiles_set_free (fs : FsMount) {i : Nat} (f : FsFile) (hi : i < fsMaxFiles)
    (h : fs.fileCount ≤ i) : (fs.files.set i f hi).toList.take fs.fileCount = fs.liveFiles := by
  rw [Vector.toList_set, List.take_set_of_le h]
  rfl

/-- The slot at the count becomes the last entry. -/
theorem liveFiles_set_next (fs : FsMount) (f : FsFile) (hi : fs.fileCount < fsMaxFiles) :
    (fs.files.set fs.fileCount f hi).toList.take (fs.fileCount + 1) = fs.liveFiles ++ [f] := by
  rw [List.take_add_one, liveFiles_set_free fs f hi (Nat.le_refl _), Vector.getElem?_toList]
  simp

/-- A write to a live entry. -/
theorem liveFiles_set_live (fs : FsMount) {i : Nat} (f : FsFile) (hi : i < fsMaxFiles) :
    (fs.files.set i f hi).toList.take fs.fileCount = fs.liveFiles.set i f := by
  rw [Vector.toList_set, List.take_set]
  rfl

theorem liveDirs_set_free (fs : FsMount) {i : Nat} (d : FsDir) (hi : i < fsMaxDirs)
    (h : fs.dirCount ≤ i) : (fs.dirs.set i d hi).toList.take fs.dirCount = fs.liveDirs := by
  rw [Vector.toList_set, List.take_set_of_le h]
  rfl

theorem liveDirs_set_next (fs : FsMount) (d : FsDir) (hi : fs.dirCount < fsMaxDirs) :
    (fs.dirs.set fs.dirCount d hi).toList.take (fs.dirCount + 1) = fs.liveDirs ++ [d] := by
  rw [List.take_add_one, liveDirs_set_free fs d hi (Nat.le_refl _), Vector.getElem?_toList]
  simp

/-! ## Bytes of the memory -/

namespace Memory

variable {m : Memory} {p : Ptr}

theorem Ptr_add_add (p : Ptr) (a b : U64) : (p.add a).add b = p.add (a + b) := by
  cases p <;> simp [Ptr.add, BitVec.add_assoc]

@[simp] theorem bytes_length (n : Nat) : (m.bytes p n).length = n := by simp [bytes]

theorem bytes_drop (n i : Nat) : (m.bytes p n).drop i = m.bytes (p.add (BitVec.ofNat 64 i)) (n - i) := by
  refine List.ext_getElem (by simp) fun k _ _ => ?_
  simp [bytes, Ptr_add_add, BitVec.ofNat_add]

theorem bytes_take (n k : Nat) : (m.bytes p n).take k = m.bytes p (min k n) := by
  rw [bytes, bytes, ← List.map_take, List.take_range]

end Memory

/-! ## Sums that do not wrap -/

theorem toNat_add_of_lt {a b : U64} (hw : a.toNat + b.toNat < 2 ^ 64) :
    (a + b).toNat = a.toNat + b.toNat := by
  rw [BitVec.toNat_add, Nat.mod_eq_of_lt hw]

theorem toNat_sub_one {a : U64} (h : 0 < a.toNat) : (a - 1#64).toNat = a.toNat - 1 := by
  have hone : (1#64 : U64).toNat = 1 := rfl
  have hlt := a.isLt
  rw [BitVec.toNat_sub, hone]
  omega

theorem toNat_add_one {i : U32} (h : i.toNat + 1 < 2 ^ 32) : (i + 1#32).toNat = i.toNat + 1 := by
  rw [BitVec.toNat_add]
  exact Nat.mod_eq_of_lt h

end PpoOS
