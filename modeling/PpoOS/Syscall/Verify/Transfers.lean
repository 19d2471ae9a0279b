import PpoOS.Fs.Verify.DataBounds
import PpoOS.Syscall.Transfers
import PpoOS.Syscall.Verify.Table

/-!
# The transfers stay where they belong

* **`syscall_transfers`**: whatever the arguments of a write, a read, an open, a
  close or a readdir, the kernel uses a pointer of the program only for addresses
  from 1 to below `KERNEL_VMA_BASE`, in a range that does not wrap, and writes no
  buffer of its own past its end.

A transfer through a pointer follows the check of `validate_user_memory`; what is
written into a buffer is bounded by the cap on the count, also where the blocks of
an ext2 file are read one by one.
-/

namespace PpoOS

open FaultState FsM SysM Traced

/-! ## Transfers that are in bounds -/

/-- The addresses are those of the program, and do not wrap; the bytes are those of the buffer. -/
def Transfer.InBounds : Transfer → Prop
  | .user addr size => ∀ i < size, (addr + BitVec.ofNat 64 i).toNat = addr.toNat + i ∧
      1 ≤ addr.toNat + i ∧ addr.toNat + i < kernelVmaBase.toNat
  | .kernel buffer first size => first + size ≤ buffer.capacity

theorem kernel_inBounds {buffer : KernelBuffer} {first size : Nat} (h : first + size ≤ buffer.capacity) :
    (Transfer.kernel buffer first size).InBounds := h

/-- The check of a pointer. -/
theorem user_inBounds {vaddr size : U64} (h : validateUserMemory vaddr size = true) :
    (Transfer.user vaddr size.toNat).InBounds := by
  rw [validateUserMemory] at h
  by_cases hzero : vaddr = 0#64 ∨ size = 0#64
  · rw [if_pos hzero] at h
    cases h
  rw [if_neg hzero] at h
  by_cases hover : vaddr.toNat + (size - 1#64).toNat ≥ 2 ^ 64
  · rw [if_pos hover] at h
    cases h
  rw [if_neg hover, Bool.not_eq_true', decide_eq_false_iff_not, not_or] at h
  obtain ⟨hzero, hsize⟩ := not_or.mp hzero
  have hvaddr : 0 < vaddr.toNat := Nat.pos_of_ne_zero fun hz => hzero (BitVec.eq_of_toNat_eq hz)
  have hpos : 0 < size.toNat := Nat.pos_of_ne_zero fun hz => hsize (BitVec.eq_of_toNat_eq hz)
  have hlt := size.isLt
  have hpred := toNat_sub_one hpos
  rw [hpred] at hover
  have hend : (vaddr + (size - 1#64)).toNat = vaddr.toNat + (size.toNat - 1) := by
    rw [BitVec.toNat_add, hpred]
    omega
  have hbase : vaddr.toNat + (size.toNat - 1) < kernelVmaBase.toNat := hend ▸ Nat.not_le.mp h.2
  intro i hi
  refine ⟨?_, by omega, by omega⟩
  rw [BitVec.toNat_add, BitVec.toNat_ofNat]
  omega

/-! ## Reading a file into a buffer -/

section Read

variable {buf : KernelBuffer} {e : Ext2} {m : Memory} {inode : Ptr} {offset len : U64} {start stop i : U32}

theorem KernelBuffer.capacity_le (buf : KernelBuffer) : buf.capacity ≤ 4096 := by
  cases buf <;> decide

/-- A part of a block fits into what is left of the request. -/
theorem readPart_le (hreq : DataRequest e.blockSize offset len start stop) (hback : ¬WrapsBack e.blockSize offset len)
    (hlen : 0 < len.toNat) (hcap : len.toNat ≤ 4096) (hi : start.toNat ≤ i.toNat) (hstop : i.toNat ≤ stop.toNat)
    (htwelve : i.toNat < 12) {n : Nat} (hn : n ≤ len.toNat) :
    n + readPart len n (inodeDataPart e.blockSize offset len start stop i).2 ≤ len.toNat := by
  obtain ⟨hfits, -⟩ := hreq.part_fits hback hlen hi hstop htwelve
  have hB := e.blockSize.isLt
  have hN : (BitVec.ofNat 64 n).toNat = n := by
    rw [BitVec.toNat_ofNat]
    omega
  have hsum : (BitVec.ofNat 64 n + (inodeDataPart e.blockSize offset len start stop i).2).toNat =
      n + (inodeDataPart e.blockSize offset len start stop i).2.toNat := by
    rw [toNat_add_of_lt (by omega), hN]
  rw [readPart]
  by_cases hover : n + (inodeDataPart e.blockSize offset len start stop i).2.toNat > len.toNat
  · rw [if_pos (by rw [gt_iff_lt, BitVec.lt_def, hsum]; exact hover), BitVec.toNat_sub, hN]
    have hlt := len.isLt
    omega
  · rw [if_neg (by rw [gt_iff_lt, BitVec.lt_def, hsum]; exact hover)]
    omega

/-- One turn of the loop: it ends with what there is, or the next bytes are written behind those. -/
theorem inodeDataLoop_turn (buf : KernelBuffer) (m : Memory) (inode : Ptr)
    (hreq : DataRequest e.blockSize offset len start stop) (hback : ¬WrapsBack e.blockSize offset len)
    (hlen : 0 < len.toNat) (hcap : len.toNat ≤ 4096) (fuel : Nat) (acc : List U8) (hi : start.toNat ≤ i.toNat)
    (hacc : acc.length ≤ len.toNat) :
    (inodeDataLoopTraced buf e m inode offset len start stop (fuel + 1) i acc = pure acc ∧
      inodeDataLoop e m inode offset len start stop (fuel + 1) i acc = acc) ∨
    ∃ bytes : List U8, acc.length + bytes.length ≤ len.toNat ∧ start.toNat ≤ (i + 1#32).toNat ∧
      inodeDataLoopTraced buf e m inode offset len start stop (fuel + 1) i acc =
        (do
          emit (.kernel buf acc.length bytes.length)
          if BitVec.ofNat 64 (acc ++ bytes).length ≥ len then return acc ++ bytes
          else inodeDataLoopTraced buf e m inode offset len start stop fuel (i + 1#32) (acc ++ bytes)) ∧
      inodeDataLoop e m inode offset len start stop (fuel + 1) i acc =
        if BitVec.ofNat 64 (acc ++ bytes).length ≥ len then acc ++ bytes
        else inodeDataLoop e m inode offset len start stop fuel (i + 1#32) (acc ++ bytes) := by
  rw [inodeDataLoopTraced, inodeDataLoop]
  by_cases hin : i ≤ stop ∧ i < 12#32
  · rw [if_pos hin, if_pos hin]
    cases ext2ReadBlock e m (inodeBlock m inode i.toNat) with
    | none => exact Or.inl ⟨rfl, rfl⟩
    | some block =>
      have hpart := readPart_le hreq hback hlen hcap hi hin.1 hin.2 hacc
      have htwelve : i.toNat < 12 := hin.2
      have hsucc : (i + 1#32).toNat = i.toNat + 1 := toNat_add_one (by omega)
      generalize inodeDataPart e.blockSize offset len start stop i = part at hpart ⊢
      obtain ⟨first, toRead⟩ := part
      rw [readPart] at hpart
      dsimp only at hpart ⊢
      generalize (if BitVec.ofNat 64 acc.length + toRead > len then len - BitVec.ofNat 64 acc.length else toRead) =
        toRead at hpart ⊢
      have hN : (BitVec.ofNat 64 acc.length).toNat = acc.length := by
        rw [BitVec.toNat_ofNat]
        omega
      have hbytes : (m.bytes (block.add first) toRead.toNat).length = toRead.toNat := Memory.bytes_length ..
      refine Or.inr ⟨m.bytes (block.add first) toRead.toNat, ?_, by omega, ?_, rfl⟩
      · rw [hbytes]
        exact hpart
      · rw [hN, hbytes]
  · rw [if_neg hin, if_neg hin]
    exact Or.inl ⟨rfl, rfl⟩

theorem inodeDataLoop_traces (hreq : DataRequest e.blockSize offset len start stop)
    (hback : ¬WrapsBack e.blockSize offset len) (hlen : 0 < len.toNat) (hcap : len.toNat ≤ buf.capacity)
    (fuel : Nat) (i : U32) (acc : List U8) (hi : start.toNat ≤ i.toNat) (hacc : acc.length ≤ len.toNat) :
    Traces Transfer.InBounds (inodeDataLoopTraced buf e m inode offset len start stop fuel i acc)
      (pure (inodeDataLoop e m inode offset len start stop fuel i acc)) := by
  induction fuel generalizing i acc with
  | zero => exact Traces.pure acc
  | succ fuel ih =>
    rcases inodeDataLoop_turn buf m inode hreq hback hlen
      (Nat.le_trans hcap buf.capacity_le) fuel acc hi hacc with ⟨hstep, hplain⟩ | ⟨bytes, hfits, hnext, hstep, hplain⟩
    · rw [hstep, hplain]
      exact Traces.pure acc
    · rw [hstep, hplain]
      refine Traces.emit_bind (Nat.le_trans hfits hcap) ?_
      by_cases hdone : BitVec.ofNat 64 (acc ++ bytes).length ≥ len
      · rw [if_pos hdone, if_pos hdone]
        exact Traces.pure _
      · rw [if_neg hdone, if_neg hdone]
        refine ih _ _ hnext ?_
        rw [List.length_append]
        exact hfits

/-- A request that a buffer has room for does not wrap around. -/
theorem smallRequest {e : Ext2} {m : Memory} {inode : Ptr} {offset len : U64}
    (hlt : offset < (inodeFileSize m inode).setWidth 64) (hlen : 0 < len.toNat) (hcap : len.toNat ≤ 4096) :
    0 < (dataLen m inode offset len).toNat ∧ (dataLen m inode offset len).toNat ≤ len.toNat ∧
      ¬WrapsBack e.blockSize offset (dataLen m inode offset len) := by
  have hF := (inodeFileSize m inode).isLt
  have hbegins : offset.toNat < ((inodeFileSize m inode).setWidth 64).toNat := hlt
  have hsize := toNat_blockSize64 (inodeFileSize m inode)
  have hsum : (offset + len).toNat = offset.toNat + len.toNat := toNat_add_of_lt (by omega)
  have hdata : 0 < (dataLen m inode offset len).toNat ∧ (dataLen m inode offset len).toNat ≤ len.toNat := by
    rw [dataLen]
    by_cases hclip : offset + len > (inodeFileSize m inode).setWidth 64
    · have hclip' : ((inodeFileSize m inode).setWidth 64).toNat < (offset + len).toNat := hclip
      rw [if_pos hclip, BitVec.toNat_sub]
      omega
    · rw [if_neg hclip]
      exact ⟨hlen, Nat.le_refl _⟩
  refine ⟨hdata.1, hdata.2, fun hback => ?_⟩
  have hless := hback.1
  rw [toNat_add_of_lt (by omega)] at hless
  omega

theorem ext2ReadInodeData_traces (e : Ext2) (m : Memory) (inode : Ptr) (offset : U64) (hlen : 0 < len.toNat)
    (hcap : len.toNat ≤ buf.capacity) :
    Traces Transfer.InBounds (ext2ReadInodeDataTraced buf e m inode offset len)
      (ofOption (ext2ReadInodeData e m inode offset len)) := by
  rw [ext2ReadInodeDataTraced, ext2ReadInodeData]
  by_cases hend : offset ≥ (inodeFileSize m inode).setWidth 64
  · rw [if_pos hend, if_pos hend]
    exact Traces.pure []
  have hlt := BitVec.not_le.mp hend
  rw [if_neg hend, if_neg hend]
  by_cases hzero : e.blockSize = 0#32
  · rw [if_pos hzero, if_pos hzero]
    exact Traces.fault
  rw [if_neg hzero, if_neg hzero]
  obtain ⟨hpos, hle, hback⟩ := smallRequest (e := e) hlt hlen (Nat.le_trans hcap buf.capacity_le)
  exact inodeDataLoop_traces (dataRequest len hzero hlt) hback hpos (Nat.le_trans hle hcap) 12 _ []
    (Nat.le_refl _) (Nat.zero_le _)

theorem ext2Read_traces (e : Ext2) (m : Memory) (file : FsFile) (offset : U64) (hlen : 0 < len.toNat)
    (hcap : len.toNat ≤ buf.capacity) :
    Traces Transfer.InBounds (ext2ReadTraced buf e m file offset len) (ofOption (ext2Read e m file offset len)) := by
  rw [ext2ReadTraced, ext2Read]
  by_cases hend : offset ≥ file.size
  · rw [if_pos hend, if_pos hend]
    exact Traces.pure []
  rw [if_neg hend, if_neg hend]
  refine Traces.congr ((Traces.lift _).bind (g := fun o =>
    o.elim (pure []) fun inode => ofOption (ext2ReadInodeData e m inode offset len)) fun _ o _ _ => ?_) fun s => ?_
  · cases o with
    | none => exact Traces.pure []
    | some inode => exact ext2ReadInodeData_traces e m inode offset hlen hcap
  · cases ext2FindByBlocks e m (file.data.toU32 m) (2 ^ 32) 1#32 with
    | none => rfl
    | some o => cases o <;> rfl

/-- A read of a file stays in the buffer where that holds what is asked for. -/
theorem fsRead_traces (file : FileRef) (offset : U64) (hlen : 0 < len.toNat) (hcap : len.toNat ≤ buf.capacity) :
    Traces Transfer.InBounds (fsReadTraced buf file offset len) (fsRead file offset len) := by
  rw [fsReadTraced, fsRead]
  refine (Traces.lift _).bind fun _ f _ _ => ?_
  refine Traces.ite (fun _ => Traces.pure []) fun hend => ?_
  refine (Traces.lift _).bind fun _ s _ _ => ?_
  refine Traces.ite (fun _ => ext2Read_traces _ _ _ _ hlen hcap) fun _ => ?_
  refine Traces.ite (fun _ => Traces.pure []) fun _ => ?_
  refine Traces.emit_bind ?_ (Traces.pure _)
  rw [Transfer.InBounds, Nat.zero_add]
  by_cases hclip : f.size - offset > len
  · rw [if_pos hclip]
    exact hcap
  · rw [if_neg hclip]
    exact Nat.le_trans (Nat.not_lt.mp hclip) hcap

end Read

/-! ## Parts of the calls -/

theorem ofFs_traces {α : Type} {x : FsT α} {y : FsM α} (h : Traces Transfer.InBounds x y) :
    Traces Transfer.InBounds (SysT.ofFs x) (ofFs y) where
  result s := congrArg (Option.map _) (h.result s.fs)
  events s := h.events s.fs

/-- A copy from the program is recorded where the check of its pointer passes. -/
theorem copyFromUser_events {P : Transfer → Prop} {kdest : KernelBuffer} {userSrc size : U64}
    (h : validateUserMemory userSrc size = true → P (.user userSrc size.toNat) ∧ P (.kernel kdest 0 size.toNat)) :
    Traces P (copyFromUserTraced kdest userSrc size) (copyFromUser kdest.capacity userSrc size) := by
  rw [copyFromUserTraced]
  by_cases hv : validateUserMemory userSrc size = true
  · rw [if_pos hv]
    exact Traces.emit_bind (h hv).1 (Traces.emit_bind (h hv).2 (Traces.lift _))
  · rw [if_neg hv, copyFromUser, if_neg hv]
    exact Traces.pure none

theorem copyFromUser_traces {kdest : KernelBuffer} {size : U64} (userSrc : U64) (h : size.toNat ≤ kdest.capacity) :
    Traces Transfer.InBounds (copyFromUserTraced kdest userSrc size) (copyFromUser kdest.capacity userSrc size) := by
  refine copyFromUser_events fun hv => ⟨user_inBounds hv, ?_⟩
  rw [Transfer.InBounds, Nat.zero_add]
  exact h

theorem copyToUser_traces (userDest : U64) {bytes : List U8} (h : bytes.length < 2 ^ 64) :
    Traces Transfer.InBounds (copyToUserTraced userDest bytes) (copyToUser userDest bytes) := by
  have hsize : (BitVec.ofNat 64 bytes.length).toNat = bytes.length := by
    rw [BitVec.toNat_ofNat, Nat.mod_eq_of_lt h]
  rw [copyToUserTraced]
  by_cases hv : validateUserMemory userDest (BitVec.ofNat 64 bytes.length) = true
  · rw [if_pos hv]
    have huser := user_inBounds hv
    rw [hsize] at huser
    exact Traces.emit_bind huser (Traces.lift _)
  · rw [if_neg hv, copyToUser, if_neg hv]
    exact Traces.pure false

/-- `stdinLoop` as a part of a call. -/
def readLine (keys : List U8) (room : Nat) : SysM (List U8 × List U8) :=
  match stdinLoop keys room with
  | none => failure
  | some r => pure r

/-- The keys go to the places of the buffer one by one, at most as many as there is room for. -/
theorem stdinLoop_traces {n room : Nat} (h : n + room ≤ KernelBuffer.kbuf.capacity) (keys : List U8) :
    Traces Transfer.InBounds (stdinLoopTraced n keys room) (readLine keys room) := by
  induction keys generalizing n room with
  | nil =>
    cases room with
    | zero => exact Traces.pure _
    | succ room => exact Traces.fault
  | cons c keys ih =>
    cases room with
    | zero => exact Traces.pure _
    | succ room =>
      rw [stdinLoopTraced, readLine, stdinLoop]
      by_cases hnone : c = 0#8
      · rw [if_pos hnone, if_pos hnone]
        exact ih h
      rw [if_neg hnone, if_neg hnone]
      refine Traces.emit_bind (kernel_inBounds (Nat.le_trans (by omega) h)) ?_
      dsimp only
      by_cases hend : (if c = 0x0D#8 then 0x0A#8 else c) = 0x0A#8
      · rw [if_pos hend, if_pos hend]
        exact Traces.pure _
      rw [if_neg hend, if_neg hend]
      refine Traces.congr ((ih (n := n + 1) (by omega)).bind fun _ r _ _ => Traces.pure _) fun s => ?_
      rw [StateT.run_bind, readLine]
      cases stdinLoop keys room <;> rfl

/-- A line is no longer than asked for. -/
theorem stdinLoop_length {keys : List U8} {room : Nat} {line rest : List U8}
    (h : stdinLoop keys room = some (line, rest)) : line.length ≤ room := by
  induction keys generalizing room line rest with
  | nil =>
    cases room with
    | zero =>
      cases h
      exact Nat.zero_le _
    | succ room => cases h
  | cons c keys ih =>
    cases room with
    | zero =>
      cases h
      exact Nat.zero_le _
    | succ room =>
      rw [stdinLoop] at h
      by_cases hnone : c = 0#8
      · rw [if_pos hnone] at h
        exact ih h
      rw [if_neg hnone] at h
      dsimp only at h
      by_cases hend : (if c = 0x0D#8 then 0x0A#8 else c) = 0x0A#8
      · rw [if_pos hend] at h
        cases h
        exact Nat.succ_le_succ (Nat.zero_le _)
      · rw [if_neg hend] at h
        obtain ⟨⟨line', rest'⟩, hline, h⟩ := Option.map_eq_some_iff.mp h
        cases h
        exact Nat.succ_le_succ (ih hline)

/-! ## The calls -/

theorem write_traces (fd bufPtr count : U64) :
    Traces Transfer.InBounds (sysWriteTraced fd bufPtr count) (sysWrite fd bufPtr count) := by
  rw [sysWriteTraced, sysWrite]
  refine Traces.ite (fun _ => Traces.pure _) fun _ => ?_
  refine Traces.ite (fun _ => ?_) fun _ => Traces.pure _
  refine (copyFromUser_traces bufPtr (capCount_le count)).bind fun _ r _ _ => ?_
  cases r with
  | none => exact Traces.pure _
  | some bytes => exact (Traces.lift _).bind fun _ _ _ _ => Traces.pure _

theorem readStdin_traces (bufPtr count : U64) :
    Traces Transfer.InBounds (sysReadStdinTraced bufPtr count) (sysReadStdin bufPtr count) := by
  rw [sysReadStdinTraced, sysReadStdin]
  refine (Traces.lift _).bind fun _ s _ _ => ?_
  have hcap := capCount_le count
  have hread := stdinLoop_traces (n := 0) (Nat.le_trans (Nat.le_of_eq (Nat.zero_add _)) hcap) s.keys
  rw [readLine] at hread
  cases hline : stdinLoop s.keys (capCount count).toNat with
  | none =>
    rw [hline] at hread
    exact hread.failure_bind
  | some r =>
    rw [hline] at hread
    have hlen := stdinLoop_length hline
    refine hread.pure_bind ((Traces.lift _).bind fun _ _ _ _ => ?_)
    refine (copyToUser_traces bufPtr (by omega)).bind fun _ b _ _ => ?_
    exact Traces.ite (fun _ => Traces.pure _) fun _ => Traces.pure _

theorem readFile_traces (fd : Nat) (d : FileDescriptor) (bufPtr : U64) {count : U64} (hcount : count ≠ 0#64) :
    Traces Transfer.InBounds (sysReadFileTraced fd d bufPtr count) (sysReadFile fd d bufPtr count) := by
  rw [sysReadFileTraced, sysReadFile]
  cases d.file with
  | none => exact Traces.pure _
  | some file =>
    have hcap : (capCount count).toNat ≤ KernelBuffer.kbuf.capacity := capCount_le count
    have hread := fsRead_traces file d.position (capCount_pos hcount) hcap
    refine (ofFs_traces hread).bind fun _ bytes _ _ => ?_
    refine Traces.ite (fun _ => Traces.pure _) fun _ => ?_
    refine Traces.ite (fun _ => Traces.fault) fun hlong => ?_
    refine (copyToUser_traces bufPtr (by omega)).bind fun _ b _ _ => ?_
    exact Traces.ite (fun _ => (Traces.lift _).bind fun _ _ _ _ => Traces.pure _) fun _ => Traces.pure _

theorem read_traces (fd bufPtr count : U64) :
    Traces Transfer.InBounds (sysReadTraced fd bufPtr count) (sysRead fd bufPtr count) := by
  rw [sysReadTraced, sysRead]
  refine Traces.ite (fun _ => Traces.pure _) fun hcount => ?_
  refine Traces.ite (fun _ => readStdin_traces bufPtr count) fun _ => ?_
  refine (Traces.lift _).bind fun _ s _ _ => ?_
  cases s.inUse? fd with
  | none => exact Traces.pure _
  | some d => exact readFile_traces fd.toNat d bufPtr hcount

/-- The transfers of an open: the 255 bytes behind the pointer, into `kpath`, and a NUL behind them. -/
theorem open_events {P : Transfer → Prop} {pathPtr : U64}
    (h : validateUserMemory pathPtr 255#64 = true → P (.user pathPtr 255) ∧ P (.kernel .kpath 0 255))
    (hnul : P (.kernel .kpath 255 1)) : Traces P (sysOpenTraced pathPtr) (sysOpen pathPtr) := by
  rw [sysOpenTraced, sysOpen]
  refine (Traces.lift _).bind fun _ s _ _ => ?_
  cases freeFd s.fdTable with
  | none => exact Traces.pure _
  | some fd =>
    refine (copyFromUser_events h).bind fun _ r _ hcopy => ?_
    cases r with
    | none => exact Traces.pure _
    | some bytes =>
      have hlen : bytes.length = 255 := by
        rw [copyFromUser_bytes hcopy, Memory.bytes_length]
        rfl
      refine Traces.emit_bind (by rw [hlen]; exact hnul) ?_
      dsimp only
      cases CString.read (bytes ++ [0#8]) with
      | none => exact Traces.fault
      | some kpath =>
        refine Traces.ite (fun _ => Traces.pure _) fun _ => ?_
        refine (Traces.lift _).bind fun _ o _ _ => ?_
        cases o with
        | none => exact Traces.pure _
        | some file => exact (Traces.lift _).bind fun _ _ _ _ => Traces.pure _

theorem open_traces (pathPtr : U64) : Traces Transfer.InBounds (sysOpenTraced pathPtr) (sysOpen pathPtr) :=
  -- the NUL behind what was copied is the last byte of the buffer
  open_events (fun hv => ⟨user_inBounds hv, kernel_inBounds (by decide)⟩) (kernel_inBounds (by decide))

theorem direntBytes_length (name : CString) (size : U64) : (direntBytes name size).length = direntSize.toNat := by
  rw [direntBytes, List.length_append, List.length_map, List.length_range, Buf.length_eq]
  rfl

theorem readdir_traces (index bufPtr bufSize : U64) :
    Traces Transfer.InBounds (sysReaddirTraced index bufPtr bufSize) (sysReaddir index bufPtr bufSize) := by
  rw [sysReaddirTraced, sysReaddir]
  refine Traces.ite (fun _ => Traces.pure _) fun _ => ?_
  refine Traces.ite (fun _ => ?_) fun _ => Traces.pure _
  refine (Traces.lift _).bind fun _ files _ _ => ?_
  cases files[index.toNat]? with
  | none => exact Traces.pure _
  | some fileInfo =>
    refine Traces.emit_bind (Nat.le_refl _) ?_
    dsimp only
    cases fileInfo.name.text with
    | none => exact Traces.fault
    | some name =>
      refine Traces.emit_bind (kernel_inBounds (by decide)) ?_
      refine Traces.emit_bind (kernel_inBounds (by decide)) ?_
      refine Traces.emit_bind (kernel_inBounds (by decide)) ?_
      refine (copyToUser_traces bufPtr (by rw [direntBytes_length]; decide)).bind fun _ b _ _ => ?_
      exact Traces.ite (fun _ => Traces.pure _) fun _ => Traces.pure _

/-! ## The dispatcher -/

/-- **The transfers of a system call are in bounds**: `syscallTraced` is `syscall`, and its transfers through a
pointer of the program are of addresses from 1 to below `KERNEL_VMA_BASE` that do not wrap, and those into a
buffer of the kernel end in it. -/
theorem syscall_transfers {num : U64} {n : SysNum} (handler : SysNum.ofNum? num = some n)
    (pointers : n ∈ [SysNum.write, .read, .open, .close, .readdir]) (arg1 arg2 arg3 : U64) (s : SysState) :
    (syscallTraced num arg1 arg2 arg3 s).2 = (syscall num arg1 arg2 arg3).run s ∧
      ∀ e ∈ (syscallTraced num arg1 arg2 arg3 s).1, e.InBounds := by
  have hcall : Traces Transfer.InBounds (n.handlerTraced arg1 arg2 arg3) (n.handler arg1 arg2 arg3) := by
    cases n with
    | exit => exact absurd pointers (by decide)
    | fork => exact absurd pointers (by decide)
    | write => exact write_traces arg1 arg2 arg3
    | read => exact read_traces arg1 arg2 arg3
    | «open» => exact open_traces arg1
    | close => exact Traces.lift _
    | readdir => exact readdir_traces arg1 arg2 arg3
  have htraces : Traces Transfer.InBounds (syscallTraced num arg1 arg2 arg3) (syscall num arg1 arg2 arg3) := by
    rw [syscallTraced, syscall, handler]
    exact hcall.bind fun _ result _ _ => Traces.ite (fun _ => Traces.pure _) fun _ => Traces.pure _
  exact ⟨htraces.result s, htraces.events s⟩

/-- A write of the last four bytes below the kernel. -/
theorem syscall_transfers_last :
    (syscallTraced 1#64 1#64 (kernelVmaBase - 4#64) 4#64 (sysOn FsState.zero)).1 =
        [.user (kernelVmaBase - 4#64) 4, .kernel .kbuf 0 4] ∧
      ∀ e ∈ (syscallTraced 1#64 1#64 (kernelVmaBase - 4#64) 4#64 (sysOn FsState.zero)).1, e.InBounds :=
  ⟨by decide +kernel, (syscall_transfers (n := .write) rfl (by decide) _ _ _ _).2⟩

end PpoOS
