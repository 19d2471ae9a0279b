import PpoOS.Syscall.Syscall
import PpoOS.Fs.Verify.Failure
import PpoOS.Fs.Verify.Resolve
import PpoOS.Lib.Transition

/-!
# What the system calls do

* **`syscall_outcome`**: what a call does to the descriptor table.
* **`syscall_frame`**: no call changes a table of the file system or its pool.
-/

namespace PpoOS

open FaultState SysM Transition

variable {s t : SysState} {α β : Type}

/-! ## Running a part of a call -/

section Run

variable {f : α → SysM β} {g : SysState → SysM β}

@[simp] theorem run_getSys_bind : (get >>= g).run s = (g s).run s := rfl

@[simp] theorem run_ofFs (x : FsM α) :
    (ofFs x).run s = (x.run s.fs).map fun r => (r.1, { s with fs := r.2 }) := rfl

@[simp] theorem run_ofFs_bind {x : FsM α} :
    (ofFs x >>= f).run s = (x.run s.fs).bind fun r => (f r.1).run { s with fs := r.2 } := by
  rw [StateT.run_bind, run_ofFs]
  cases x.run s.fs <;> rfl

end Run

/-- What a copy to a program does to its memory. -/
def SysState.stored (s : SysState) (dest : U64) (bytes : List U8) : SysState :=
  { s with fs := { s.fs with mem := s.fs.mem.blit (.addr dest) bytes.length (bytes.getD · 0#8) } }

/-- A copy from a program changes nothing. -/
theorem copyFromUser_state {capacity : Nat} {src size : U64} {r : Option (List U8)}
    (h : (copyFromUser capacity src size).run s = some (r, t)) : t = s := by
  rw [copyFromUser] at h
  by_cases hv : validateUserMemory src size = true
  · rw [if_pos hv, run_getSys_bind] at h
    split at h
    · cases h
      rfl
    · cases h
  · rw [if_neg hv] at h
    cases h
    rfl

/-- A copy to a program changes its memory, or nothing where the buffer is rejected. -/
theorem copyToUser_outcome {dest : U64} {bytes : List U8} {b : Bool} (hlen : bytes.length < 2 ^ 64)
    (h : (copyToUser dest bytes).run s = some (b, t)) :
    (b = false ∧ t = s) ∨
      (b = true ∧ validateUserMemory dest (BitVec.ofNat 64 bytes.length) = true ∧ t = s.stored dest bytes) := by
  rw [copyToUser] at h
  by_cases hv : validateUserMemory dest (BitVec.ofNat 64 bytes.length) = true
  · rw [if_pos hv, run_getSys_bind] at h
    split at h
    · cases h
      refine Or.inr ⟨rfl, hv, ?_⟩
      have hsize : (BitVec.ofNat 64 bytes.length).toNat = bytes.length := by
        rw [BitVec.toNat_ofNat, Nat.mod_eq_of_lt hlen]
      rw [SysState.stored, hsize]
    · cases h
  · rw [if_neg hv] at h
    cases h
    exact Or.inl ⟨rfl, rfl⟩

theorem capCount_pos {count : U64} (h : count ≠ 0#64) : 0 < (capCount count).toNat := by
  rw [capCount]
  split
  · decide
  · exact Nat.pos_of_ne_zero fun hzero => h (BitVec.eq_of_toNat_eq hzero)

theorem capCount_le (count : U64) : (capCount count).toNat ≤ 4096 := by
  rw [capCount]
  by_cases hcap : count > 4096#64
  · rw [if_pos hcap]
    exact Nat.le_refl _
  · rw [if_neg hcap]
    exact Nat.not_lt.mp hcap

/-! ## The file system -/

/-- The tables of the file system and its pool are the same. -/
structure FsFrame (s t : FsState) : Prop where
  fs : t.fs = s.fs
  memUsed : t.memUsed = s.memUsed
  pool : t.mem.pool = s.mem.pool

namespace FsFrame

theorem refl (s : FsState) : FsFrame s s := ⟨rfl, rfl, rfl⟩

theorem trans (s t u : FsState) (h : FsFrame s t) (h' : FsFrame t u) : FsFrame s u :=
  ⟨h'.fs.trans h.fs, h'.memUsed.trans h.memUsed, h'.pool.trans h.pool⟩

end FsFrame

/-- Nothing but the handle of an opened file and the cache of a listing differs. -/
structure FsSame (s t : FsState) : Prop where
  fs : t.fs = s.fs
  memUsed : t.memUsed = s.memUsed
  mem : t.mem = s.mem

namespace FsSame

theorem refl (s : FsState) : FsSame s s := ⟨rfl, rfl, rfl⟩

theorem trans (s t u : FsState) (h : FsSame s t) (h' : FsSame t u) : FsSame s u :=
  ⟨h'.fs.trans h.fs, h'.memUsed.trans h.memUsed, h'.mem.trans h.mem⟩

theorem within_ofOption (x : Option α) : Within FsSame (FsM.ofOption x) := by
  intro s a t h
  obtain ⟨b, -, h⟩ := Option.map_eq_some_iff.mp h
  cases h
  exact refl s

theorem within_open (name : CString) : Within FsSame (fsOpen name) := by
  intro s r t h
  by_cases hlen : name.length = 0
  · rw [fsOpen, if_pos hlen] at h
    cases h
    exact refl s
  by_cases hfs : s.fs.activeFs = .ext2
  · rw [fsOpen_ext2 hfs, ext2Open_run hlen, Option.map_eq_some_iff] at h
    obtain ⟨o, -, h⟩ := h
    cases o with
    | none =>
      cases h
      exact refl s
    | some p =>
      cases h
      exact ⟨rfl, rfl, rfl⟩
  · rw [fsOpen, if_neg hlen, run_get_bind, if_neg hfs] at h
    refine Within.bind trans (within_ofOption _) (fun _ => ?_) s r t h
    refine Within.bind trans (within_ofOption _) fun _ => ?_
    exact Within.bind trans (within_ofOption _) fun _ => Within.pure refl _

theorem within_list : Within FsSame fsList := by
  intro s files t h
  rw [fsList, run_get_bind] at h
  by_cases hfs : s.fs.activeFs = .ext2
  · rw [if_pos hfs, run_ofOption_bind, Option.bind_eq_some_iff] at h
    obtain ⟨dir, -, h⟩ := h
    rw [ext2List, run_get_bind, run_ofOption_bind, Option.bind_eq_some_iff] at h
    obtain ⟨o, -, h⟩ := h
    cases o with
    | none =>
      cases h
      exact refl s
    | some p =>
      by_cases hdir : inodeIsDir s.mem p = true
      · dsimp only at h
        rw [if_pos hdir, run_ofOption_bind, Option.bind_eq_some_iff] at h
        obtain ⟨files', -, h⟩ := h
        cases h
        exact ⟨rfl, rfl, rfl⟩
      · dsimp only at h
        rw [if_neg hdir] at h
        cases h
        exact refl s
  · rw [if_neg hfs] at h
    cases h
    exact refl s

theorem frame {s t : FsState} (h : FsSame s t) : FsFrame s t := ⟨h.fs, h.memUsed, by rw [h.mem]⟩

end FsSame

/-! ## Calls that leave the table alone -/

/-- The descriptor table is the same, and so are the tables of the file system and its pool. -/
structure Quiet (s t : SysState) : Prop where
  fdTable : t.fdTable = s.fdTable
  frame : FsFrame s.fs t.fs

namespace Quiet

theorem refl (s : SysState) : Quiet s s := ⟨rfl, FsFrame.refl s.fs⟩

theorem trans (s t u : SysState) (h : Quiet s t) (h' : Quiet t u) : Quiet s u :=
  ⟨h'.fdTable.trans h.fdTable, FsFrame.trans _ _ _ h.frame h'.frame⟩

theorem pure (a : α) : Within Quiet (Pure.pure a) := Within.pure refl a

theorem bind {x : SysM α} {f : α → SysM β} (hx : Within Quiet x) (hf : ∀ a, Within Quiet (f a)) :
    Within Quiet (x >>= f) := Within.bind trans hx hf

theorem getBind {f : SysState → SysM α} (hf : ∀ s, Within Quiet (f s)) : Within Quiet (get >>= f) :=
  fun s a t h => hf s s a t h

theorem ofFs {x : FsM α} (hx : Within FsFrame x) : Within Quiet (ofFs x) := by
  intro s a t h
  obtain ⟨⟨b, fs⟩, hrun, h⟩ := Option.map_eq_some_iff.mp h
  cases h
  exact ⟨rfl, hx _ _ _ hrun⟩

theorem ofKern (x : Kern α) : Within Quiet (ofKern x) := by
  intro s a t h
  obtain ⟨⟨b, kernel⟩, -, h⟩ := Option.map_eq_some_iff.mp h
  cases h
  exact ⟨rfl, FsFrame.refl _⟩

theorem flantermWrite (bytes : List U8) : Within Quiet (flantermWrite bytes) := by
  intro s a t h
  cases h
  exact ⟨rfl, FsFrame.refl _⟩

theorem modify {g : SysState → SysState} (h : ∀ s, Quiet s (g s)) :
    Within Quiet (modify g : SysM PUnit) := by
  intro s a t hrun
  cases hrun
  exact h s

theorem copyFromUser (capacity : Nat) (src size : U64) : Within Quiet (copyFromUser capacity src size) := by
  intro s r t h
  rw [copyFromUser_state h]
  exact refl s

theorem copyToUser (dest : U64) (bytes : List U8) : Within Quiet (copyToUser dest bytes) := by
  intro s b t h
  rw [PpoOS.copyToUser] at h
  split at h
  · rw [run_getSys_bind] at h
    split at h
    · cases h
      exact ⟨rfl, rfl, rfl, rfl⟩
    · cases h
  · cases h
    exact refl s

theorem exit (code : U64) : Within Quiet (sysExit code) := by
  rw [sysExit]
  exact bind (flantermWrite _) fun _ => pure _

theorem write (fd bufPtr count : U64) : Within Quiet (sysWrite fd bufPtr count) := by
  rw [sysWrite]
  split
  · exact pure _
  split
  · refine bind (copyFromUser _ _ _) fun r => ?_
    cases r with
    | none => exact pure _
    | some bytes => exact bind (flantermWrite bytes) fun _ => pure _
  · exact pure _

theorem readStdin (bufPtr count : U64) : Within Quiet (sysReadStdin bufPtr count) := by
  rw [sysReadStdin]
  refine getBind fun s => ?_
  cases stdinLoop s.keys (capCount count).toNat with
  | none => exact Within.failure
  | some r =>
    refine bind (modify (fun _ => ⟨rfl, FsFrame.refl _⟩)) fun _ => ?_
    refine bind (copyToUser _ _) fun b => ?_
    split <;> exact pure _

theorem readdir (index bufPtr bufSize : U64) : Within Quiet (sysReaddir index bufPtr bufSize) := by
  rw [sysReaddir]
  split
  · exact pure _
  split
  · refine bind (ofFs fun _ _ _ h => (FsSame.within_list _ _ _ h).frame) fun files => ?_
    cases files[index.toNat]? with
    | none => exact pure _
    | some info =>
      dsimp only
      cases info.name.text with
      | none => exact Within.failure
      | some name =>
        refine bind (copyToUser _ _) fun b => ?_
        split <;> exact pure _
  · exact pure _

end Quiet

/-! ## Calls that change the table -/

/-- A call on an entry that is in use. -/
theorem sysClose_run (fd : U64) : (sysClose fd).run s =
    match s.inUse? fd with
    | some _ => some (0#64, s.setFd fd.toNat .free)
    | none => some (-1#64, s) := by
  rw [sysClose, run_getSys_bind]
  cases s.inUse? fd <;> rfl

/-- The path at an address of a program, at most 255 characters of it. -/
def SysState.pathAt (s : SysState) (pathPtr : U64) : Option CString :=
  CString.read (s.fs.mem.bytes (.addr pathPtr) 255 ++ [0#8])

/-- How an open ends. -/
inductive OpenOutcome (s : SysState) (pathPtr : U64) : U64 → SysState → Prop
  | refused {t : SysState} (h : Quiet s t) : OpenOutcome s pathPtr (-1#64) t
  | opened {fd : Nat} {path : CString} {file : FileRef} {fs : FsState} (free : freeFd s.fdTable = some fd)
      (named : s.pathAt pathPtr = some path) (run : (fsOpen path).run s.fs = some (some file, fs)) :
      OpenOutcome s pathPtr (BitVec.ofNat 64 fd) (SysState.setFd { s with fs := fs } fd ⟨some file, 0#64, true⟩)

/-- What is copied from a program are bytes of its memory. -/
theorem copyFromUser_bytes {capacity : Nat} {src size : U64} {bytes : List U8}
    (h : (copyFromUser capacity src size).run s = some (some bytes, t)) :
    bytes = s.fs.mem.bytes (.addr src) size.toNat := by
  rw [copyFromUser] at h
  by_cases hv : validateUserMemory src size = true
  · rw [if_pos hv, run_getSys_bind] at h
    split at h
    · cases h
      rfl
    · cases h
  · rw [if_neg hv] at h
    cases h

theorem sysOpen_outcome {pathPtr r : U64} (h : (sysOpen pathPtr).run s = some (r, t)) :
    OpenOutcome s pathPtr r t := by
  rw [sysOpen, run_getSys_bind] at h
  cases hfree : freeFd s.fdTable with
  | none =>
    rw [hfree] at h
    cases h
    exact .refused (Quiet.refl s)
  | some fd =>
    rw [hfree] at h
    dsimp only at h
    rw [run_bind_iff] at h
    obtain ⟨o, s₁, hcopy, h⟩ := h
    obtain rfl := copyFromUser_state hcopy
    cases o with
    | none =>
      cases h
      exact .refused (Quiet.refl _)
    | some bytes =>
      obtain rfl := copyFromUser_bytes hcopy
      cases hpath : CString.read (s₁.fs.mem.bytes (.addr pathPtr) (255#64).toNat ++ [0#8]) with
      | none =>
        simp only [hpath] at h
        cases h
      | some kpath =>
        simp only [hpath] at h
        by_cases hlen : kpath.length ≥ 255
        · rw [if_pos hlen] at h
          cases h
          exact .refused (Quiet.refl _)
        · rw [if_neg hlen, run_ofFs_bind, Option.bind_eq_some_iff] at h
          obtain ⟨⟨o, fs⟩, hopen, h⟩ := h
          cases o with
          | none =>
            cases h
            exact .refused ⟨rfl, (FsSame.within_open kpath _ _ _ hopen).frame⟩
          | some file =>
            cases h
            exact .opened hfree hpath hopen

/-- How a read of the entry `d` ends, where the file system reads `bytes`. -/
inductive FileReadOutcome (s : SysState) (fd : U64) (d : FileDescriptor) (bufPtr : U64) (bytes : List U8) :
    U64 → SysState → Prop
  | done (h : bytes = []) : FileReadOutcome s fd d bufPtr bytes 0#64 s
  | rejected (h : bytes ≠ []) : FileReadOutcome s fd d bufPtr bytes (-1#64) s
  | delivered (h : bytes ≠ []) (length_le : bytes.length ≤ 4096)
      (valid : validateUserMemory bufPtr (BitVec.ofNat 64 bytes.length) = true) :
      FileReadOutcome s fd d bufPtr bytes (BitVec.ofNat 64 bytes.length)
        ((s.stored bufPtr bytes).setFd fd.toNat
          { d with position := d.position + BitVec.ofNat 64 bytes.length })

theorem inUse?_stdin : s.inUse? stdinFd = none := if_neg (by decide)

theorem sysRead_file {fd bufPtr count r : U64} {d : FileDescriptor} {file : FileRef}
    (hd : s.inUse? fd = some d) (hfile : d.file = some file) (hcount : count ≠ 0#64)
    (h : (sysRead fd bufPtr count).run s = some (r, t)) :
    ∃ f bytes, s.fs.file? file = some f ∧ s.fs.readBytes f d.position (capCount count) = some bytes ∧
      FileReadOutcome s fd d bufPtr bytes r t := by
  have hfd : fd ≠ stdinFd := by
    rintro rfl
    rw [inUse?_stdin] at hd
    cases hd
  rw [sysRead, if_neg hcount, if_neg hfd, run_getSys_bind, hd] at h
  obtain ⟨o, pos, used⟩ := d
  cases hfile
  dsimp only at h
  rw [sysReadFile, run_ofFs_bind, fsRead_run, Option.bind_eq_some_iff] at h
  obtain ⟨⟨bytes, fs⟩, hread, h⟩ := h
  obtain ⟨f, hf, hread⟩ := Option.bind_eq_some_iff.mp hread
  obtain ⟨bytes', hbytes, hread⟩ := Option.map_eq_some_iff.mp hread
  cases hread
  refine ⟨f, bytes, hf, hbytes, ?_⟩
  dsimp only at h
  by_cases hnil : bytes.length = 0
  · rw [if_pos hnil] at h
    cases h
    exact .done (List.eq_nil_of_length_eq_zero hnil)
  rw [if_neg hnil] at h
  have hne : bytes ≠ [] := fun hnil' => hnil (by rw [hnil']; rfl)
  by_cases hlong : bytes.length > 4096
  · rw [if_pos hlong] at h
    cases h
  rw [if_neg hlong, run_bind_iff] at h
  obtain ⟨b, s₁, hcopy, h⟩ := h
  rcases copyToUser_outcome (by omega) hcopy with ⟨rfl, rfl⟩ | ⟨rfl, hvalid, rfl⟩
  · cases h
    exact .rejected hne
  · cases h
    exact .delivered hne (Nat.le_of_not_lt hlong) hvalid

/-- How a read ends. -/
theorem sysRead_outcome {fd bufPtr count r : U64} (h : (sysRead fd bufPtr count).run s = some (r, t)) :
    Quiet s t ∨ ∃ d bytes, s.inUse? fd = some d ∧ count ≠ 0#64 ∧ FileReadOutcome s fd d bufPtr bytes r t := by
  by_cases hcount : count = 0#64
  · rw [sysRead, if_pos hcount] at h
    cases h
    exact Or.inl (Quiet.refl s)
  by_cases hfd : fd = stdinFd
  · rw [sysRead, if_neg hcount, if_pos hfd] at h
    exact Or.inl (Quiet.readStdin bufPtr count s r t h)
  cases hd : s.inUse? fd with
  | none =>
    rw [sysRead, if_neg hcount, if_neg hfd, run_getSys_bind, hd] at h
    cases h
    exact Or.inl (Quiet.refl s)
  | some d =>
    cases hfile : d.file with
    | none =>
      rw [sysRead, if_neg hcount, if_neg hfd, run_getSys_bind, hd] at h
      dsimp only at h
      rw [sysReadFile, hfile] at h
      cases h
      exact Or.inl (Quiet.refl s)
    | some file =>
      obtain ⟨f, bytes, -, -, hout⟩ := sysRead_file hd hfile hcount h
      exact Or.inr ⟨d, bytes, rfl, hcount, hout⟩

end PpoOS
