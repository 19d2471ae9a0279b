import PpoOS.Syscall.Verify.Table
import PpoOS.Fs.Verify.Independent
import PpoOS.Fs.Verify.Handles

/-!
# Reading a file through a descriptor

On the in-memory file system no call changes a file, so that what a descriptor
reads is the file that it was opened on, from its own position on.

* **`fd_reads_independent`**: each read gives the next bytes of that file.
* **`file_delivered_once`**: the reads of a descriptor put the file together.
-/

namespace PpoOS

open FaultState SysM Transition

variable {s t : SysState} {num arg1 arg2 arg3 r : U64} {fs : FsState} {f : FsFile}

/-! ## The bytes of a file -/

/-- The bytes of an in-memory file; a directory has none. -/
def FsState.contents (fs : FsState) (f : FsFile) : List U8 :=
  if f.data = Ptr.null then [] else fs.mem.bytes f.data f.size.toNat

/-- The bytes of the file that a path names. -/
def FsState.fileBytes (fs : FsState) (path : CString) : Option (List U8) :=
  if fs.fs.activeFs = .ext2 then
    match ext2FindInodeByPath fs.ext2 fs.mem path with
    | some (some inode) =>
      ext2ReadInodeData fs.ext2 fs.mem inode 0#64 ((inodeFileSize fs.mem inode).setWidth 64)
    | _ => none
  else ((fsLookup fs.fs path).bind fun i => fs.fs.liveFiles[i]?).map fs.contents

/-- **A read of an in-memory file** gives the bytes from the offset on, as many as there are. -/
theorem readBytes_contents (hok : f.Ok) (offset len : U64) :
    fs.readBytes f offset len = some (((fs.contents f).drop offset.toNat).take len.toNat) := by
  have hfs : f.fsType ≠ .ext2 := by
    rw [hok.fsType]
    decide
  rw [FsState.readBytes, FsState.contents]
  by_cases hnull : f.data = Ptr.null
  · rw [if_pos hnull, if_neg hfs, if_pos hnull]
    simp
  rw [if_neg hnull, if_neg hfs, if_neg hnull, Memory.bytes_drop, Memory.bytes_take]
  by_cases hend : offset ≥ f.size
  · have hle : f.size.toNat ≤ offset.toNat := hend
    rw [if_pos hend, Nat.sub_eq_zero_of_le hle, Nat.min_zero]
    rfl
  · have hlt : offset.toNat < f.size.toNat := Nat.lt_of_not_le hend
    have hsub : (f.size - offset).toNat = f.size.toNat - offset.toNat :=
      BitVec.toNat_sub_of_le (Nat.le_of_lt hlt)
    rw [if_neg hend, BitVec.ofNat_toNat, BitVec.setWidth_eq, ← hsub]
    congr 2
    by_cases hlong : f.size - offset > len
    · rw [if_pos hlong, Nat.min_eq_left (Nat.le_of_lt hlong)]
    · rw [if_neg hlong, Nat.min_eq_right (Nat.le_of_not_lt hlong)]

theorem contents_length_le : (fs.contents f).length ≤ f.size.toNat := by
  rw [FsState.contents]
  split <;> simp

/-- The bytes of an in-memory file lie in the pool. -/
theorem FsFrame.contents {fs' : FsState} (h : FsFrame fs fs') (hok : f.Ok) : fs'.contents f = fs.contents f := by
  rw [FsState.contents, FsState.contents]
  by_cases hnull : f.data = Ptr.null
  · rw [if_pos hnull, if_pos hnull]
  · have hfile : f.isDir = false := by
      by_contra hdir
      exact hnull (hok.entry (by simpa using hdir))
    obtain ⟨off, hoff⟩ := hok.file hfile
    rw [if_neg hnull, if_neg hnull, hoff]
    simp only [Memory.bytes, Memory.load, Ptr.add, h.pool]

/-! ## What stays the same -/

theorem syscall_frame (h : (syscall num arg1 arg2 arg3).run s = some (r, t)) : FsFrame s.fs t.fs := by
  by_cases hopen : SysNum.ofNum? num = some .open
  · rw [syscall_run hopen (by decide)] at h
    cases sysOpen_outcome h with
    | refused hquiet => exact hquiet.frame
    | opened _ _ hrun => exact (FsSame.within_open _ _ _ _ hrun).frame
  by_cases hclose : SysNum.ofNum? num = some .close
  · rw [syscall_run hclose (by decide)] at h
    change (sysClose arg1).run s = some (r, t) at h
    rw [sysClose_run] at h
    split at h <;> cases h <;> exact FsFrame.refl _
  by_cases hread : SysNum.ofNum? num = some .read
  · rw [syscall_run hread (by decide)] at h
    rcases sysRead_outcome h with hquiet | ⟨d, bytes, -, -, hout⟩
    · exact hquiet.frame
    · cases hout with
      | done => exact FsFrame.refl _
      | rejected => exact FsFrame.refl _
      | delivered => exact ⟨rfl, rfl, rfl⟩
  exact (syscall_quiet hopen hclose hread h).frame

theorem SysStep.frame {e : SysEvent} (h : SysStep s e t) : FsFrame s.fs t.fs := by
  cases h with
  | call hrun => exact syscall_frame hrun
  | program _ hfs =>
    rw [hfs]
    exact ⟨rfl, rfl, rfl⟩

/-- The states that are reached with an in-memory file system. -/
def InMemory (s : SysState) : Prop := ∃ s₀ es, FsReachable s₀.fs ∧ Run SysStep (syscallInit s₀) es s

theorem FsFrame.inv {fs' : FsState} (h : FsFrame fs fs') (hinv : fs.Inv) : fs'.Inv := by
  unfold FsState.Inv at *
  rw [h.fs, h.memUsed]
  exact hinv

theorem InMemory.inv (h : InMemory s) : s.fs.Inv := by
  obtain ⟨s₀, es, hfs, hrun⟩ := h
  exact hrun.invariant (I := fun s => s.fs.Inv) (fun _ _ _ hinv hstep => hstep.frame.inv hinv) hfs.inv

/-! ## A descriptor that stays open -/

/-- An open that gives the descriptor `fd` for a file with the bytes `content`. -/
def OpenedOn (s : SysState) (fd : U64) (content : List U8) (t : SysState) : Prop :=
  ∃ num pathPtr arg2 arg3 path, SysNum.ofNum? num = some .open ∧
    (syscall num pathPtr arg2 arg3).run s = some (fd, t) ∧ fd ≠ -1#64 ∧
      s.pathAt pathPtr = some path ∧ s.fs.fileBytes path = some content

/-- The bytes that a read of `fd` puts into the program's buffer. -/
def SysEvent.deliveredTo (fd : U64) : SysEvent → List U8
  | .call num arg1 _ _ _ bytes => if SysNum.ofNum? num = some .read ∧ arg1 = fd then bytes else []
  | .program => []

/-- The bytes that the reads of `fd` put into the program's buffers, in order. -/
def delivered (fd : U64) (es : List SysEvent) : List U8 := es.flatMap (SysEvent.deliveredTo fd)

/-- A call that closes `fd`. -/
def SysEvent.Closes (fd : U64) : SysEvent → Prop
  | .call num arg1 _ _ _ _ => SysNum.ofNum? num = some .close ∧ arg1 = fd
  | .program => False

/-- A step in which `fd` stays open. -/
def OpenStep (fd : U64) (s : SysState) (e : SysEvent) (t : SysState) : Prop := ¬e.Closes fd ∧ SysStep s e t

/-- The entry of `fd` leads to the file `f` with the bytes `content`, of which `read` have been
delivered. -/
structure Reading (fd : U64) (f : FsFile) (content read : List U8) (s : SysState) : Prop where
  entry : ∃ i, s.fs.file? (.slot i) = some f ∧
    s.inUse? fd = some ⟨some (.slot i), BitVec.ofNat 64 read.length, true⟩
  ok : f.Ok
  content_eq : s.fs.contents f = content
  read_prefix : read <+: content

section Reading

variable {fd : U64} {content read : List U8}

theorem inUse?_setFd_ne {i : Nat} {d : FileDescriptor} (h : i ≠ fd.toNat) :
    (s.setFd i d).inUse? fd = s.inUse? fd := by
  rw [SysState.inUse?, SysState.inUse?, SysState.setFd]
  dsimp only
  rw [Vector.getElem?_setIfInBounds, if_neg h]

theorem inUse?_setFd {d d' : FileDescriptor} (h : s.inUse? fd = some d) (hused : d'.used = true) :
    (s.setFd fd.toNat d').inUse? fd = some d' := by
  obtain ⟨hge, hget, -⟩ := inUse?_some.mp h
  obtain ⟨hlt, -⟩ := Vector.getElem?_eq_some_iff.mp hget
  refine inUse?_some.mpr ⟨hge, ?_, hused⟩
  rw [SysState.setFd]
  dsimp only
  rw [Vector.getElem?_setIfInBounds, if_pos rfl, if_pos hlt]

/-- What was stored can be read back. -/
theorem stored_bytes (dest : U64) {bytes : List U8} (h : bytes.length < 2 ^ 64) :
    (s.stored dest bytes).fs.mem.bytes (.addr dest) bytes.length = bytes := by
  refine List.ext_getElem (by simp) fun i _ hi => ?_
  simp only [Memory.bytes, List.getElem_map, List.getElem_range, SysState.stored]
  change ByteMem.blit s.fs.mem.other dest bytes.length (bytes.getD · 0#8) (dest + BitVec.ofNat 64 i) = _
  rw [ByteMem.blit_at _ _ _ h hi, List.getD_eq_getElem?_getD, List.getElem?_eq_getElem hi, Option.getD_some]

/-- What a read puts into the buffer: the bytes that the file system reads, unless it fails. -/
theorem FileReadOutcome.received {d : FileDescriptor} {bufPtr : U64} {bytes : List U8}
    (h : FileReadOutcome s fd d bufPtr bytes r t) (hread : SysNum.ofNum? num = some .read) :
    t.received num bufPtr r = if r = -1#64 then [] else bytes := by
  rw [SysState.received]
  cases h with
  | done hnil =>
    rw [if_pos ⟨hread, by decide⟩, if_neg (by decide), hnil]
    rfl
  | rejected => rw [if_neg (fun hr => hr.2 rfl), if_pos rfl]
  | delivered hne hlen =>
    have herr := (length_result hne hlen).2
    have hn : (BitVec.ofNat 64 bytes.length).toNat = bytes.length := by
      rw [BitVec.toNat_ofNat, Nat.mod_eq_of_lt (by omega)]
    rw [if_pos ⟨hread, herr⟩, if_neg herr, hn]
    exact stored_bytes bufPtr (by omega)

/-- The position moves by the bytes that were delivered. -/
theorem FileReadOutcome.entry {d : FileDescriptor} {bufPtr : U64} {bytes : List U8}
    (h : FileReadOutcome s fd d bufPtr bytes r t) (hread : SysNum.ofNum? num = some .read)
    (hd : s.inUse? fd = some d) : t.inUse? fd = some
      { d with position := d.position + BitVec.ofNat 64 (t.received num bufPtr r).length } := by
  rw [h.received hread]
  cases h with
  | done hnil =>
    rw [if_neg (by decide), hnil, List.length_nil, BitVec.add_zero]
    exact hd
  | rejected =>
    rw [if_pos rfl, List.length_nil, BitVec.add_zero]
    exact hd
  | delivered hne hlen =>
    have hstored : (s.stored bufPtr bytes).inUse? fd = some d := hd
    rw [if_neg (length_result hne hlen).2]
    exact inUse?_setFd hstored (inUse?_some.mp hd).2.2

namespace Reading

theorem position (h : Reading fd f content read s) : (BitVec.ofNat 64 read.length).toNat = read.length := by
  have hlen : read.length ≤ f.size.toNat := by
    have hcontent : (s.fs.contents f).length ≤ f.size.toNat := contents_length_le
    rw [h.content_eq] at hcontent
    exact Nat.le_trans h.read_prefix.length_le hcontent
  rw [BitVec.toNat_ofNat]
  exact Nat.mod_eq_of_lt (Nat.lt_of_le_of_lt hlen f.size.isLt)

/-- A step that leaves the entry and the file system alone. -/
theorem keep (h : Reading fd f content read s) (hfd : t.inUse? fd = s.inUse? fd) (hfs : FsFrame s.fs t.fs) :
    Reading fd f content read t where
  entry := by
    obtain ⟨i, hfile, hentry⟩ := h.entry
    refine ⟨i, ?_, hfd.trans hentry⟩
    rw [← hfile, FsState.file?, FsState.file?, hfs.fs]
  ok := h.ok
  content_eq := (hfs.contents h.ok).trans h.content_eq
  read_prefix := h.read_prefix

/-- How a read of the descriptor ends: the file system reads the next bytes of the file. -/
theorem read_outcome (h : Reading fd f content read s) {bufPtr count : U64} (hcount : count ≠ 0#64)
    (hrun : (sysRead fd bufPtr count).run s = some (r, t)) : ∃ d, s.inUse? fd = some d ∧
      FileReadOutcome s fd d bufPtr ((content.drop read.length).take (capCount count).toNat) r t := by
  obtain ⟨i, hfile, hentry⟩ := h.entry
  obtain ⟨f', bytes, hf', hbytes, hout⟩ := sysRead_file hentry rfl hcount hrun
  obtain rfl : f = f' := Option.some.inj (hfile.symm.trans hf')
  rw [readBytes_contents h.ok, h.content_eq, h.position] at hbytes
  obtain rfl := Option.some.inj hbytes
  exact ⟨_, hentry, hout⟩

/-- Delivering the next bytes. -/
theorem deliver (h : Reading fd f content read s) {bytes : List U8}
    (hbytes : bytes <+: content.drop read.length) {i : Nat} (hfile : s.fs.file? (.slot i) = some f)
    (hfd : t.inUse? fd =
      some ⟨some (.slot i), BitVec.ofNat 64 read.length + BitVec.ofNat 64 bytes.length, true⟩)
    (hfs : FsFrame s.fs t.fs) : Reading fd f content (read ++ bytes) t where
  entry := by
    refine ⟨i, ?_, ?_⟩
    · rw [← hfile, FsState.file?, FsState.file?, hfs.fs]
    · rw [hfd, List.length_append, BitVec.ofNat_add]
  ok := h.ok
  content_eq := (hfs.contents h.ok).trans h.content_eq
  read_prefix := by
    obtain ⟨rest, hrest⟩ := h.read_prefix
    rw [← hrest, List.drop_left] at hbytes
    rw [← hrest]
    exact (List.prefix_append_right_inj read).mpr hbytes

/-- **A call with the descriptor open**: a read delivers its bytes, every other call and the reads of
other descriptors leave it alone. -/
theorem call (h : Reading fd f content read s) (hrun : (syscall num arg1 arg2 arg3).run s = some (r, t))
    (hclose : ¬(SysNum.ofNum? num = some .close ∧ arg1 = fd)) :
    Reading fd f content
      (read ++ (SysEvent.call num arg1 arg2 arg3 r (t.received num arg2 r)).deliveredTo fd) t := by
  have hframe := syscall_frame hrun
  obtain ⟨i, hfile, hentry⟩ := h.entry
  obtain ⟨hge, hget, -⟩ := inUse?_some.mp hentry
  by_cases hread : SysNum.ofNum? num = some .read
  · rw [syscall_run hread (by decide)] at hrun
    by_cases hfd : arg1 = fd
    · -- a read of this descriptor
      subst hfd
      rw [SysEvent.deliveredTo, if_pos ⟨hread, rfl⟩]
      by_cases hcount : arg3 = 0#64
      · change (sysRead arg1 arg2 arg3).run s = some (r, t) at hrun
        rw [sysRead, if_pos hcount] at hrun
        cases hrun
        rw [SysState.received, if_pos ⟨hread, by decide⟩]
        change Reading arg1 f content (read ++ []) s
        rw [List.append_nil]
        exact h
      · obtain ⟨d, hd, hout⟩ := h.read_outcome hcount hrun
        have hentry' := hout.entry hread hd
        rw [hentry] at hd
        cases hd
        refine h.deliver ?_ hfile hentry' hframe
        rw [hout.received hread]
        split
        · exact List.nil_prefix
        · exact List.take_prefix _ _
    · -- a read of another descriptor
      rw [SysEvent.deliveredTo, if_neg (fun hn => hfd hn.2), List.append_nil]
      refine h.keep ?_ hframe
      rcases sysRead_outcome hrun with hquiet | ⟨d, bytes, hd, -, hout⟩
      · rw [SysState.inUse?, SysState.inUse?, hquiet.fdTable]
      · cases hout with
        | done => rfl
        | rejected => rfl
        | delivered => exact inUse?_setFd_ne (fun heq => hfd (BitVec.eq_of_toNat_eq heq))
  · rw [SysEvent.deliveredTo, if_neg (fun hn => hread hn.1), List.append_nil]
    refine h.keep ?_ hframe
    by_cases hopen : SysNum.ofNum? num = some .open
    · rw [syscall_run hopen (by decide)] at hrun
      cases sysOpen_outcome hrun with
      | refused hquiet => rw [SysState.inUse?, SysState.inUse?, hquiet.fdTable]
      | opened hfree =>
        -- the entry that is taken was not in use
        refine inUse?_setFd_ne fun heq => ?_
        obtain ⟨d, hd, hunused⟩ := (freeFd_some hfree).free
        rw [heq, hget] at hd
        cases hd
        cases hunused
    by_cases hclosed : SysNum.ofNum? num = some .close
    · rw [syscall_run hclosed (by decide)] at hrun
      change (sysClose arg1).run s = some (r, t) at hrun
      rw [sysClose_run] at hrun
      split at hrun
      · cases hrun
        exact inUse?_setFd_ne fun heq => hclose ⟨hclosed, BitVec.eq_of_toNat_eq heq⟩
      · cases hrun
        rfl
    rw [SysState.inUse?, SysState.inUse?, (syscall_quiet hopen hclosed hread hrun).fdTable]

theorem step {e : SysEvent} (h : Reading fd f content read s) (hstep : OpenStep fd s e t) :
    Reading fd f content (read ++ e.deliveredTo fd) t := by
  obtain ⟨hopen, hstep⟩ := hstep
  cases hstep with
  | call hrun => exact h.call hrun hopen
  | program hfd hfs =>
    rw [SysEvent.deliveredTo, List.append_nil]
    refine h.keep ?_ ?_
    · rw [SysState.inUse?, SysState.inUse?, hfd]
    · rw [hfs]
      exact ⟨rfl, rfl, rfl⟩

/-- **A run in which the descriptor stays open.** -/
theorem run {es : List SysEvent} (h : Reading fd f content [] s) (hrun : Run (OpenStep fd) s es t) :
    Reading fd f content (delivered fd es) t := by
  refine hrun.history (I := fun es s => Reading fd f content (delivered fd es) s) ?_ h
  intro es s e t hreading hstep
  have hsplit : delivered fd (es ++ [e]) = delivered fd es ++ e.deliveredTo fd := by
    rw [delivered, delivered, List.flatMap_append, List.flatMap_singleton]
  rw [hsplit]
  exact hreading.step hstep

end Reading

theorem InMemory.opened {u : SysState} (h : InMemory s) (hopen : OpenedOn s fd content u) :
    ∃ f, Reading fd f content [] u := by
  obtain ⟨num, pathPtr, arg2, arg3, path, hnum, hrun, herr, hpath, hbytes⟩ := hopen
  rw [syscall_run hnum nofun] at hrun
  cases sysOpen_outcome hrun with
  | refused => exact absurd rfl herr
  | opened hfree hnamed hfs =>
    obtain rfl := Option.some.inj (hpath.symm.trans hnamed)
    rw [h.inv.openRun path] at hfs
    cases hfound : fsLookup s.fs.fs path with
    | none =>
      rw [hfound] at hfs
      cases hfs
    | some i =>
      rw [hfound] at hfs
      cases hfs
      obtain ⟨hi, f, hmem, hfile⟩ := h.inv.found hfound
      have hlive : s.fs.fs.liveFiles[i]? = some f := (liveFiles_get hi).trans hfile
      obtain ⟨⟨hge, hlt⟩, -, -⟩ := freeFd_some hfree
      have hactive : s.fs.fs.activeFs ≠ .ext2 := by
        rw [h.inv.active]
        decide
      rw [FsState.fileBytes, if_neg hactive, hfound, Option.bind_some, hlive] at hbytes
      have hsmall : (BitVec.ofNat 64 _).toNat = _ := Nat.mod_eq_of_lt (Nat.lt_trans hlt (by decide))
      refine ⟨f, ⟨⟨i, hfile, inUse?_some.mpr ⟨?_, ?_, rfl⟩⟩, h.inv.files f hmem, Option.some.inj hbytes,
        List.nil_prefix⟩⟩
      · rw [hsmall]
        exact hge
      · rw [hsmall, SysState.setFd]
        dsimp only
        rw [Vector.getElem?_setIfInBounds, if_pos rfl, if_pos hlt]
        rfl

end Reading

/-! ## A program that reads two files -/

/-- Calls that close nothing but other descriptors. -/
theorem sysCalls_openRun {calls : List (U64 × U64 × U64 × U64)} {fd : U64} {es : List SysEvent}
    (hopen : ∀ c ∈ calls, ¬(SysNum.ofNum? c.1 = some .close ∧ c.2.1 = fd))
    (h : (sysCalls calls).run s = some (es, t)) : Run (OpenStep fd) s es t := by
  induction calls generalizing s es with
  | nil =>
    cases h
    exact .nil _
  | cons c calls ih =>
    obtain ⟨r, u, es', hstep, hcalls, rfl⟩ := sysCalls_cons h
    exact .cons ⟨hopen c List.mem_cons_self, hstep⟩
      (ih (fun d hd => hopen d (List.mem_cons_of_mem _ hd)) hcalls)

theorem twoFiles_reached : FsReachable twoFiles := by
  have ha : FsStep emptyFs (.createFile fileA) _ := ⟨trivial, rfl⟩
  have hb := Run.snoc (Run.snoc (.nil emptyFs) ha) (⟨trivial, rfl⟩ : FsStep _ (.createFile fileB) _)
  have hwa := Run.snoc hb (⟨⟨Nat.le_of_ble_eq_true rfl, Nat.le_of_ble_eq_true rfl⟩, rfl⟩ :
    FsStep _ (.write 0 0#64 (fun i => BitVec.ofNat 8 (i + 1)) 5#64) _)
  have hwb := Run.snoc hwa (⟨⟨Nat.le_of_ble_eq_true rfl, Nat.le_of_ble_eq_true rfl⟩, rfl⟩ :
    FsStep _ (.write 1 0#64 ones 2#64) _)
  exact ⟨emptyFs, _, emptyFs_started, hwb⟩

theorem pathSys_inMemory : InMemory pathSys :=
  ⟨sysOn twoFiles, _, twoFiles_reached, .snoc (.nil _) pathSys_step⟩

/-- An open of the path `a`. -/
theorem pathSys_checked : ((syscall 3#64 4096#64 0#64 0#64).run pathSys).any (fun r => decide (r.1 = 3#64 ∧
    pathSys.pathAt 4096#64 = some fileA ∧
      pathSys.fs.fileBytes fileA = some [1#8, 2#8, 3#8, 4#8, 5#8])) = true := by
  decide +kernel

theorem pathSys_open : ((syscall 3#64 4096#64 0#64 0#64).run pathSys).isSome = true := isSome_of_any pathSys_checked

/-- The program has opened the file. -/
def openedSys : SysState := (((syscall 3#64 4096#64 0#64 0#64).run pathSys).get pathSys_open).2

theorem openedSys_on : OpenedOn pathSys 3#64 [1#8, 2#8, 3#8, 4#8, 5#8] openedSys := by
  obtain ⟨hfd, hpath, hbytes⟩ := get_of_any pathSys_checked pathSys_open
  exact ⟨3#64, 4096#64, 0#64, 0#64, fileA, rfl, eq_some_get pathSys_open hfd, by decide, hpath, hbytes⟩

/-- A read of two bytes, an open and a read of the other file, a read into a buffer at 0, a read of
one byte into the same place, and a close of the other descriptor. -/
def readCalls : List (U64 × U64 × U64 × U64) :=
  [(2#64, 3#64, 8192#64, 2#64), (3#64, 4098#64, 0#64, 0#64), (2#64, 4#64, 8192#64, 8#64),
    (2#64, 3#64, 0#64, 2#64), (2#64, 3#64, 8192#64, 1#64), (4#64, 4#64, 0#64, 0#64)]

def readEvents : List SysEvent :=
  [.call 2#64 3#64 8192#64 2#64 2#64 [1#8, 2#8], .call 3#64 4098#64 0#64 0#64 4#64 [],
    .call 2#64 4#64 8192#64 8#64 2#64 [1#8, 1#8], .call 2#64 3#64 0#64 2#64 (-1#64) [],
    .call 2#64 3#64 8192#64 1#64 1#64 [3#8], .call 4#64 4#64 0#64 0#64 0#64 []]

theorem readCalls_checked : ((sysCalls readCalls).run openedSys).any (fun x => decide (x.1 = readEvents ∧
    ((syscall 2#64 3#64 12288#64 5000#64).run x.2).any (fun q => decide (q.1 = 2#64)) = true)) = true := by
  decide +kernel

theorem readCalls_end : ((sysCalls readCalls).run openedSys).isSome = true := isSome_of_any readCalls_checked

/-- The program has made the calls. -/
def readSys : SysState := (((sysCalls readCalls).run openedSys).get readCalls_end).2

theorem readCalls_keep : readCalls.all (fun c => decide ¬(SysNum.ofNum? c.1 = some .close ∧ c.2.1 = 3#64)) = true := by
  decide

theorem readSys_run : Run (OpenStep 3#64) openedSys readEvents readSys :=
  sysCalls_openRun (fun c hc => of_decide_eq_true (List.all_eq_true.mp readCalls_keep c hc))
    (eq_some_get readCalls_end (get_of_any readCalls_checked readCalls_end).1)

theorem readSys_read : ∃ t, (syscall 2#64 3#64 12288#64 5000#64).run readSys = some (2#64, t) := by
  have hread := (get_of_any readCalls_checked readCalls_end).2
  have hsome := isSome_of_any hread
  exact ⟨_, eq_some_get hsome (get_of_any hread hsome)⟩

/-! ## The two laws -/

/-- **Descriptors are independent** on the in-memory file system: whatever happens to other descriptors,
a read that does not fail gives the next bytes of the file that its descriptor was opened on. -/
theorem fd_reads_independent (s₁ s₂ s t : SysState) (fd : U64) (content : List U8) (es : List SysEvent)
    (num bufPtr count r : U64) (memory : InMemory s₁) (opened : OpenedOn s₁ fd content s₂)
    (run : Run (OpenStep fd) s₂ es s) (read : SysNum.ofNum? num = some .read)
    (call : (syscall num fd bufPtr count).run s = some (r, t)) (success : r ≠ -1#64) :
    t.received num bufPtr r = (content.drop (delivered fd es).length).take (capCount count).toNat := by
  obtain ⟨f, hopen⟩ := memory.opened opened
  have hreading := hopen.run run
  rw [syscall_run read nofun] at call
  by_cases hcount : count = 0#64
  · change (sysRead fd bufPtr count).run s = some (r, t) at call
    rw [sysRead, if_pos hcount] at call
    cases call
    rw [SysState.received, if_pos ⟨read, success⟩, hcount]
    rfl
  · obtain ⟨d, -, hout⟩ := hreading.read_outcome hcount call
    rw [hout.received read, if_neg success]

/-- After the other file was opened, read and closed, a read gives the two bytes that are left. -/
theorem fd_reads_independent_readSys : ∃ t, (syscall 2#64 3#64 12288#64 5000#64).run readSys = some (2#64, t) ∧
    t.received 2#64 12288#64 2#64 = [4#8, 5#8] := by
  obtain ⟨t, hread⟩ := readSys_read
  have hnext := fd_reads_independent pathSys openedSys readSys _ 3#64 _ readEvents 2#64 12288#64 5000#64 _
    pathSys_inMemory openedSys_on readSys_run rfl hread (by decide)
  exact ⟨t, hread, hnext.trans (by decide)⟩

/-- A program on the small image that has the paths `/f` and `/e` at addresses 4096 and 8192. -/
def diskSys : SysState :=
  { syscallInit (sysOn diskFs) with
    fs := { diskFs with mem := { diskFs.mem with other := fun a =>
      if a = 4096#64 ∨ a = 8192#64 then 0x2F#8 else if a = 4097#64 then 0x66#8
      else if a = 8193#64 then 0x65#8 else 0#8 } } }

theorem diskSys_reachable : ∃ es, Run SysStep (syscallInit (sysOn diskFs)) es diskSys := by
  refine ⟨_, .snoc (.nil _) (.program rfl rfl fun a ha => ?_)⟩
  have hne : ∀ b : U64, b < kernelVmaBase → a ≠ b := fun b hb h => Nat.lt_irrefl _ (Nat.lt_of_lt_of_le (h ▸ hb) ha)
  simp only [hne 4096#64 (by decide), hne 8192#64 (by decide), hne 4097#64 (by decide), hne 8193#64 (by decide),
    or_self, if_false]
  rfl

/-- An open of `/f`, an open of `/e`, and a read of `/f`. -/
theorem diskSys_checked : ((syscall 3#64 4096#64 0#64 0#64).run diskSys).any (fun r => decide (r.1 = 3#64 ∧
    diskSys.pathAt 4096#64 = some fPath ∧ diskSys.fs.fileBytes fPath = some [0x78#8] ∧
      ((syscall 3#64 8192#64 0#64 0#64).run r.2).any (fun q => decide (q.1 = 4#64 ∧
        ((syscall 2#64 3#64 4096#64 8#64).run q.2).any (fun p => decide (p.1 = 0#64)) = true)) = true)) = true := by
  decide +kernel

theorem diskSys_open : ((syscall 3#64 4096#64 0#64 0#64).run diskSys).isSome = true := isSome_of_any diskSys_checked

/-- The program has opened `/f`. -/
def fSys : SysState := (((syscall 3#64 4096#64 0#64 0#64).run diskSys).get diskSys_open).2

theorem fSys_checked : ((syscall 3#64 8192#64 0#64 0#64).run fSys).any (fun q => decide (q.1 = 4#64 ∧
    ((syscall 2#64 3#64 4096#64 8#64).run q.2).any (fun p => decide (p.1 = 0#64)) = true)) = true :=
  (get_of_any diskSys_checked diskSys_open).2.2.2

theorem fSys_open : ((syscall 3#64 8192#64 0#64 0#64).run fSys).isSome = true := isSome_of_any fSys_checked

/-- It has opened `/e`, an empty file, too. -/
def feSys : SysState := (((syscall 3#64 8192#64 0#64 0#64).run fSys).get fSys_open).2

/-- On an ext2 image, a read of `/f` after an open of `/e` gives nothing. -/
theorem ext2_reads_not_independent : ∃ s₀ s₁ s₂ s t fd content es num bufPtr count r, FsMounted s₀.fs ∧
    (∃ es₀, Run SysStep (syscallInit s₀) es₀ s₁) ∧ OpenedOn s₁ fd content s₂ ∧ Run (OpenStep fd) s₂ es s ∧
      SysNum.ofNum? num = some .read ∧ (syscall num fd bufPtr count).run s = some (r, t) ∧ r ≠ -1#64 ∧
        t.received num bufPtr r ≠ (content.drop (delivered fd es).length).take (capCount count).toNat := by
  obtain ⟨hfd, hpath, hbytes, -⟩ := get_of_any diskSys_checked diskSys_open
  obtain ⟨hfd', hread⟩ := get_of_any fSys_checked fSys_open
  have hsome := isSome_of_any hread
  have hopened : OpenedOn diskSys 3#64 [0x78#8] fSys :=
    ⟨3#64, 4096#64, 0#64, 0#64, fPath, rfl, eq_some_get diskSys_open hfd, by decide, hpath, hbytes⟩
  have hstep : SysStep fSys _ feSys := .call (eq_some_get (a := 4#64) fSys_open hfd')
  have hopen : ∀ bytes, ¬(SysEvent.call 3#64 8192#64 0#64 0#64 4#64 bytes).Closes 3#64 :=
    fun _ h => absurd h.1 (by decide)
  have hkeep : OpenStep 3#64 fSys _ feSys := ⟨hopen _, hstep⟩
  have hnothing : ∀ t : SysState, t.received 2#64 4096#64 0#64 = [] := fun _ => rfl
  refine ⟨sysOn diskFs, diskSys, fSys, feSys, _, 3#64, [0x78#8], _, 2#64, 4096#64, 8#64, 0#64, diskFs_mounted,
    diskSys_reachable, hopened, .snoc (.nil _) hkeep, rfl, eq_some_get hsome (get_of_any hread hsome), by decide, ?_⟩
  -- the open between the two delivers nothing
  rw [hnothing]
  nofun

/-- **The reads of a descriptor deliver the file exactly once**: what they have delivered is the
beginning of the file, a read gives 0 exactly at its end, and one that fails changes nothing. -/
theorem file_delivered_once (s₁ s₂ s : SysState) (fd : U64) (content : List U8) (es : List SysEvent)
    (memory : InMemory s₁) (opened : OpenedOn s₁ fd content s₂) (run : Run (OpenStep fd) s₂ es s) :
    delivered fd es = content.take (delivered fd es).length ∧
      ∀ num bufPtr count r t, SysNum.ofNum? num = some .read → count ≠ 0#64 →
        (syscall num fd bufPtr count).run s = some (r, t) →
          (r = 0#64 ↔ delivered fd es = content) ∧ (r = -1#64 → t = s) := by
  obtain ⟨f, hopen⟩ := memory.opened opened
  have hreading := hopen.run run
  refine ⟨List.prefix_iff_eq_take.mp hreading.read_prefix, ?_⟩
  intro num bufPtr count r t read hcount call
  rw [syscall_run read nofun] at call
  obtain ⟨d, -, hout⟩ := hreading.read_outcome hcount call
  have hend : (content.drop (delivered fd es).length).take (capCount count).toNat = [] ↔
      delivered fd es = content := by
    obtain ⟨rest, hrest⟩ := hreading.read_prefix
    have hpos := capCount_pos hcount
    rw [List.take_eq_nil_iff]
    constructor
    · intro h
      have hnil := h.resolve_left (Nat.ne_of_gt hpos)
      rw [← hrest, List.drop_left] at hnil
      rw [← hrest, hnil, List.append_nil]
    · intro h
      rw [h, List.drop_length]
      exact Or.inr rfl
  cases hout with
  | done h => exact ⟨⟨fun _ => hend.mp h, fun _ => rfl⟩, nofun⟩
  | rejected h => exact ⟨⟨nofun, fun hall => absurd (hend.mpr hall) h⟩, fun _ => rfl⟩
  | delivered h hlen =>
    obtain ⟨hzero, herr⟩ := length_result h hlen
    exact ⟨⟨fun hr => absurd hr hzero, fun hall => absurd (hend.mpr hall) h⟩, fun hr => absurd hr herr⟩

theorem file_delivered_once_readSys :
    delivered 3#64 readEvents = ([1#8, 2#8, 3#8, 4#8, 5#8] : List U8).take (delivered 3#64 readEvents).length ∧
      ∀ num bufPtr count r t, SysNum.ofNum? num = some .read →
        count ≠ 0#64 → (syscall num 3#64 bufPtr count).run readSys = some (r, t) →
          (r = 0#64 ↔ delivered 3#64 readEvents = [1#8, 2#8, 3#8, 4#8, 5#8]) ∧ (r = -1#64 → t = readSys) :=
  file_delivered_once pathSys openedSys readSys 3#64 _ readEvents pathSys_inMemory openedSys_on readSys_run

end PpoOS
