import PpoOS.Syscall.Verify.Transfers

/-!
# The transfers account for what a call does

* **`fsRead_fills`**, **`copyFromUser_fills`**: what a read of a file and a copy from
  the program deliver are bytes that their transfers write into the buffer.
* **`copyFromUser_touched`**: a copy from the program depends on the bytes that its
  transfer is for.
* **`syscall_spares`**: the transfers are all that a call does to memory, so every
  other byte is as before.
-/

namespace PpoOS

open FaultState FsM SysM Traced

/-! ## What a read fills -/

/-- The byte of the buffer is one of those that a transfer writes. -/
def Filled (buf : KernelBuffer) (es : List Transfer) (i : Nat) : Prop :=
  ∃ first size, Transfer.kernel buf first size ∈ es ∧ first ≤ i ∧ i < first + size

theorem Filled.mono {buf : KernelBuffer} {es fs : List Transfer} {i : Nat} (h : Filled buf es i)
    (hsub : ∀ e ∈ es, e ∈ fs) : Filled buf fs i := by
  obtain ⟨first, size, hmem, hin⟩ := h
  exact ⟨first, size, hsub _ hmem, hin⟩

/-- The bytes from place `n` of the buffer on that the result consists of are bytes that `x` writes. -/
def Fills {σ : Type} (buf : KernelBuffer) (n : Nat) (x : Traced Transfer σ (List U8)) : Prop :=
  ∀ s bytes t, (x s).2 = some (bytes, t) → ∀ i, n ≤ i → i < bytes.length → Filled buf (x s).1 i

section Fills

variable {buf : KernelBuffer} {e : Ext2} {m : Memory} {inode : Ptr} {offset len : U64} {start stop : U32}

theorem fills_pure {σ : Type} {bytes : List U8} {n : Nat} (h : bytes.length ≤ n) :
    Fills buf n (pure bytes : Traced Transfer σ (List U8)) := by
  intro s _ _ hrun i hi hlt
  cases hrun
  omega

theorem fills_bind {σ α : Type} {n : Nat} {x : Traced Transfer σ α} {f : α → Traced Transfer σ (List U8)}
    (h : ∀ a, Fills buf n (f a)) : Fills buf n (x >>= f) := by
  intro s bytes u hrun i hi hlt
  rcases hx : x s with ⟨es, _ | ⟨a, t⟩⟩
  · rw [bind_of_none hx] at hrun
    cases hrun
  · rw [bind_of_some hx] at hrun ⊢
    exact (h a t bytes u hrun i hi hlt).mono fun _ he => List.mem_append_right es he

/-- A write of the next bytes, and then of those behind them. -/
theorem fills_emit {σ : Type} {n size : Nat} {x : Traced Transfer σ (List U8)} (h : Fills buf (n + size) x) :
    Fills buf n (emit (.kernel buf n size) >>= fun _ => x) := by
  intro s bytes t hrun i hi hlt
  by_cases hnow : i < n + size
  · exact ⟨n, size, List.mem_cons_self, hi, hnow⟩
  · exact (h s bytes t hrun i (Nat.le_of_not_lt hnow) hlt).mono fun _ he => List.mem_cons_of_mem _ he

theorem inodeDataLoop_fills (hreq : DataRequest e.blockSize offset len start stop)
    (hback : ¬WrapsBack e.blockSize offset len) (hlen : 0 < len.toNat) (hcap : len.toNat ≤ 4096)
    (fuel : Nat) (i : U32) (acc : List U8) (hi : start.toNat ≤ i.toNat) (hacc : acc.length ≤ len.toNat) :
    Fills buf acc.length (inodeDataLoopTraced buf e m inode offset len start stop fuel i acc) := by
  induction fuel generalizing i acc with
  | zero => exact fills_pure (Nat.le_refl _)
  | succ fuel ih =>
    obtain ⟨hstep, -⟩ | ⟨bytes, hfits, hnext, hstep, -⟩ :=
      inodeDataLoop_turn buf m inode hreq hback hlen hcap fuel acc hi hacc
    · rw [hstep]
      exact fills_pure (Nat.le_refl _)
    · rw [hstep]
      refine fills_emit ?_
      rw [← List.length_append] at hfits ⊢
      split
      · exact fills_pure (Nat.le_refl _)
      · exact ih _ _ hnext hfits

theorem ext2ReadInodeData_fills (e : Ext2) (m : Memory) (inode : Ptr) (offset : U64) (hlen : 0 < len.toNat)
    (hcap : len.toNat ≤ 4096) : Fills buf 0 (ext2ReadInodeDataTraced buf e m inode offset len) := by
  rw [ext2ReadInodeDataTraced]
  by_cases hend : offset ≥ (inodeFileSize m inode).setWidth 64
  · rw [if_pos hend]
    exact fills_pure (Nat.le_refl _)
  rw [if_neg hend]
  by_cases hzero : e.blockSize = 0#32
  · rw [if_pos hzero]
    intro s bytes t h
    cases h
  rw [if_neg hzero]
  obtain ⟨hpos, hle, hback⟩ := smallRequest (BitVec.not_le.mp hend) hlen hcap
  exact inodeDataLoop_fills (dataRequest len hzero (BitVec.not_le.mp hend)) hback hpos (Nat.le_trans hle hcap) 12 _ []
    (Nat.le_refl _) (Nat.zero_le _)

/-- **The bytes that `fs_read` delivers are bytes that its transfers write into the buffer.** -/
theorem fsRead_fills (file : FileRef) (offset : U64) (hlen : 0 < len.toNat) (hcap : len.toNat ≤ 4096) :
    Fills buf 0 (fsReadTraced buf file offset len) := by
  rw [fsReadTraced]
  refine fills_bind fun f => ?_
  by_cases hend : offset ≥ f.size
  · rw [if_pos hend]
    exact fills_pure (Nat.le_refl _)
  rw [if_neg hend]
  refine fills_bind fun s => ?_
  by_cases hext : f.fsType = .ext2
  · rw [if_pos hext, ext2ReadTraced, if_neg hend]
    refine fills_bind fun o => ?_
    cases o with
    | none => exact fills_pure (Nat.le_refl _)
    | some inode => exact ext2ReadInodeData_fills s.ext2 s.mem inode offset hlen hcap
  rw [if_neg hext]
  by_cases hnull : f.data = Ptr.null
  · rw [if_pos hnull]
    exact fills_pure (Nat.le_refl _)
  rw [if_neg hnull]
  refine fills_emit (fills_pure ?_)
  rw [Memory.bytes_length, Nat.zero_add]

end Fills

theorem copyFromUser_length {capacity : Nat} {userSrc size : U64} {s t : SysState} {bytes : List U8}
    (hrun : (copyFromUser capacity userSrc size).run s = some (some bytes, t)) : bytes.length = size.toNat := by
  rw [copyFromUser] at hrun
  by_cases hv : validateUserMemory userSrc size = true
  · rw [if_pos hv, run_getSys_bind] at hrun
    split at hrun
    · cases hrun
      exact Memory.bytes_length ..
    · cases hrun
  · rw [if_neg hv] at hrun
    cases hrun

/-- The bytes of a copy from the program are bytes that its transfers write into the buffer. -/
theorem copyFromUser_fills {kdest : KernelBuffer} {userSrc size : U64} {s t : SysState} {bytes : List U8}
    (hrun : (copyFromUserTraced kdest userSrc size s).2 = some (some bytes, t)) {i : Nat} (hi : i < bytes.length) :
    Filled kdest (copyFromUserTraced kdest userSrc size s).1 i := by
  rw [copyFromUserTraced] at hrun ⊢
  by_cases hv : validateUserMemory userSrc size = true
  · rw [if_pos hv] at hrun ⊢
    have hcopy : (copyFromUser kdest.capacity userSrc size).run s = some (some bytes, t) := hrun
    have hlength := copyFromUser_length hcopy
    exact ⟨0, size.toNat, List.mem_cons_of_mem _ List.mem_cons_self, Nat.zero_le i, by omega⟩
  · rw [if_neg hv] at hrun
    cases hrun

/-! ## What the transfers touch -/

/-- The address is one of a transfer through a pointer of the program. -/
def Touched (es : List Transfer) (a : U64) : Prop :=
  ∃ addr size, Transfer.user addr size ∈ es ∧ (a - addr).toNat < size

/-- The pool of the files is the same, and so is every byte of memory that no transfer is for. -/
structure Spares (es : List Transfer) (s t : SysState) : Prop where
  pool : t.fs.mem.pool = s.fs.mem.pool
  other : ∀ a, ¬Touched es a → t.fs.mem.other a = s.fs.mem.other a

theorem Touched.mono {es fs : List Transfer} {a : U64} (h : Touched es a) (hsub : ∀ e ∈ es, e ∈ fs) : Touched fs a := by
  obtain ⟨addr, size, hmem, hin⟩ := h
  exact ⟨addr, size, hsub _ hmem, hin⟩

/-- Where the memory is the same, no transfer is needed. -/
theorem Spares.of_mem {s t : SysState} (h : t.fs.mem = s.fs.mem) (es : List Transfer) : Spares es s t :=
  ⟨by rw [h], fun _ _ => by rw [h]⟩

theorem spares_accumulate : Accumulates Spares where
  nil s := Spares.of_mem rfl []
  append {es fs _ _ _} h h' := by
    refine ⟨h'.pool.trans h.pool, fun a ha => ?_⟩
    have hleft : ¬Touched es a := fun hin => ha (hin.mono fun _ he => List.mem_append_left fs he)
    have hright : ¬Touched fs a := fun hin => ha (hin.mono fun _ he => List.mem_append_right es he)
    exact (h'.other a hright).trans (h.other a hleft)

section Spares

theorem spares_pure {α : Type} (a : α) : Spans Spares (pure a : SysT α) := Spans.pure spares_accumulate a

theorem spares_bind {α β : Type} {x : SysT α} {f : α → SysT β} (h : Spans Spares x) (hf : ∀ a, Spans Spares (f a)) :
    Spans Spares (x >>= f) := Spans.bind spares_accumulate h hf

theorem spares_emit (e : Transfer) : Spans Spares (emit e : SysT Unit) := Spans.emit fun _ => Spares.of_mem rfl _

/-- A call that does not write to memory. -/
theorem spares_lift {α : Type} {y : SysM α} (h : ∀ s a t, y.run s = some (a, t) → t.fs.mem = s.fs.mem) :
    Spans Spares (lift y : SysT α) := Spans.lift fun s a t hrun => Spares.of_mem (h s a t hrun) []

theorem spares_modify {g : SysState → SysState} (h : ∀ s, (g s).fs.mem = s.fs.mem) :
    Spans Spares (lift (modify g : SysM PUnit)) := by
  refine spares_lift fun s a t hrun => ?_
  cases hrun
  exact h s

theorem spares_get {α : Type} {f : SysState → SysT α} (hf : ∀ s, Spans Spares (f s)) :
    Spans Spares (lift get >>= f) := by
  refine spares_bind (spares_lift fun s a t hrun => ?_) hf
  cases hrun
  rfl

theorem spares_ofFs {α : Type} {y : FsM α} (h : ∀ s a t, y.run s = some (a, t) → t.mem = s.mem) :
    Spans Spares (lift (ofFs y) : SysT α) := by
  refine spares_lift fun s a t hrun => ?_
  obtain ⟨⟨b, fs⟩, hfs, hrun⟩ := Option.map_eq_some_iff.mp hrun
  cases hrun
  exact h _ _ _ hfs

/-- A read of a file does not write to memory. -/
theorem spares_fsRead {buf : KernelBuffer} (file : FileRef) (offset : U64) {len : U64} (hlen : 0 < len.toNat)
    (hcap : len.toNat ≤ buf.capacity) : Spans Spares (SysT.ofFs (fsReadTraced buf file offset len)) := by
  intro s bytes t h
  have hresult : ((SysT.ofFs (fsReadTraced buf file offset len)) s).2 = (ofFs (fsRead file offset len)).run s :=
    (ofFs_traces (fsRead_traces file offset hlen hcap)).result s
  rw [hresult] at h
  obtain ⟨⟨b, fs⟩, hread, h⟩ := Option.map_eq_some_iff.mp h
  cases h
  rw [fsRead_run, Option.bind_eq_some_iff] at hread
  obtain ⟨f, -, hread⟩ := hread
  obtain ⟨_, -, hread⟩ := Option.map_eq_some_iff.mp hread
  cases hread
  exact Spares.of_mem rfl _

theorem spares_copyFromUser (kdest : KernelBuffer) (userSrc size : U64) :
    Spans Spares (copyFromUserTraced kdest userSrc size) := by
  rw [copyFromUserTraced]
  refine Spans.ite ?_ (spares_pure none)
  refine spares_bind (spares_emit _) fun _ => spares_bind (spares_emit _) fun _ => ?_
  refine spares_lift fun s r t hrun => ?_
  rw [copyFromUser_state hrun]

/-- A copy to the program writes what its transfer is for. -/
theorem spares_copyToUser (userDest : U64) (bytes : List U8) : Spans Spares (copyToUserTraced userDest bytes) := by
  rw [copyToUserTraced]
  by_cases hv : validateUserMemory userDest (BitVec.ofNat 64 bytes.length) = true
  · rw [if_pos hv]
    intro s b t h
    have hrun : (copyToUser userDest bytes).run s = some (b, t) := h
    have hevents : ((emit (Transfer.user userDest bytes.length) >>= fun _ => lift (copyToUser userDest bytes) :
        SysT Bool) s).1 = [Transfer.user userDest bytes.length] := rfl
    rw [hevents]
    rw [copyToUser, if_pos hv, run_getSys_bind] at hrun
    split at hrun
    · cases hrun
      refine ⟨rfl, fun a ha => ?_⟩
      have hout : (BitVec.ofNat 64 bytes.length).toNat ≤ (a - userDest).toNat := by
        refine Nat.le_of_not_lt fun hin => ha ⟨userDest, bytes.length, by simp, ?_⟩
        rw [BitVec.toNat_ofNat] at hin
        exact Nat.lt_of_lt_of_le hin (Nat.mod_le _ _)
      show ByteMem.blit s.fs.mem.other userDest _ (fun i => bytes.getD i 0#8) a = s.fs.mem.other a
      exact ByteMem.blit_outside hout
    · cases hrun
  · rw [if_neg hv]
    exact spares_pure false

theorem spares_stdinLoop (n : Nat) (keys : List U8) (room : Nat) : Spans Spares (stdinLoopTraced n keys room) := by
  induction keys generalizing n room with
  | nil =>
    cases room with
    | zero => exact spares_pure _
    | succ room => exact Spans.fault
  | cons c keys ih =>
    cases room with
    | zero => exact spares_pure _
    | succ room =>
      rw [stdinLoopTraced]
      refine Spans.ite (ih n (room + 1)) (spares_bind (spares_emit _) fun _ => ?_)
      exact Spans.ite (spares_pure _) (spares_bind (ih (n + 1) room) fun _ => spares_pure _)

theorem spares_write (fd bufPtr count : U64) : Spans Spares (sysWriteTraced fd bufPtr count) := by
  rw [sysWriteTraced]
  refine Spans.ite (spares_pure _) (Spans.ite ?_ (spares_pure _))
  refine spares_bind (spares_copyFromUser _ _ _) fun r => ?_
  cases r with
  | none => exact spares_pure _
  | some bytes => exact spares_bind (spares_modify fun _ => rfl) fun _ => spares_pure _

theorem spares_readFile (fd : Nat) (d : FileDescriptor) (bufPtr : U64) {count : U64} (hcount : count ≠ 0#64) :
    Spans Spares (sysReadFileTraced fd d bufPtr count) := by
  rw [sysReadFileTraced]
  cases d.file with
  | none => exact spares_pure _
  | some file =>
    refine spares_bind (spares_fsRead file d.position (capCount_pos hcount) (capCount_le count)) fun bytes => ?_
    refine Spans.ite (spares_pure _) (Spans.ite Spans.fault ?_)
    refine spares_bind (spares_copyToUser bufPtr bytes) fun b => ?_
    exact Spans.ite (spares_bind (spares_modify fun _ => rfl) fun _ => spares_pure _) (spares_pure _)

theorem spares_read (fd bufPtr count : U64) : Spans Spares (sysReadTraced fd bufPtr count) := by
  rw [sysReadTraced]
  by_cases hcount : count = 0#64
  · rw [if_pos hcount]
    exact spares_pure _
  rw [if_neg hcount]
  refine Spans.ite ?_ (spares_get fun s => ?_)
  · rw [sysReadStdinTraced]
    refine spares_get fun s => spares_bind (spares_stdinLoop _ _ _) fun r => ?_
    refine spares_bind (spares_modify fun _ => rfl) fun _ => spares_bind (spares_copyToUser _ _) fun _ => ?_
    exact Spans.ite (spares_pure _) (spares_pure _)
  · cases s.inUse? fd with
    | none => exact spares_pure _
    | some d => exact spares_readFile fd.toNat d bufPtr hcount

theorem spares_open (pathPtr : U64) : Spans Spares (sysOpenTraced pathPtr) := by
  rw [sysOpenTraced]
  refine spares_get fun s => ?_
  cases freeFd s.fdTable with
  | none => exact spares_pure _
  | some fd =>
    refine spares_bind (spares_copyFromUser _ _ _) fun r => ?_
    cases r with
    | none => exact spares_pure _
    | some bytes =>
      refine spares_bind (spares_emit _) fun _ => ?_
      cases CString.read (bytes ++ [0#8]) with
      | none => exact Spans.fault
      | some kpath =>
        refine Spans.ite (spares_pure _) ?_
        refine spares_bind (spares_ofFs fun s r t h => (FsSame.within_open kpath s r t h).mem) fun o => ?_
        cases o with
        | none => exact spares_pure _
        | some file => exact spares_bind (spares_modify fun _ => rfl) fun _ => spares_pure _

theorem spares_close (fd : U64) : Spans Spares (sysCloseTraced fd) := by
  refine spares_lift fun s r t h => ?_
  rw [sysClose_run] at h
  split at h <;> cases h <;> rfl

theorem spares_readdir (index bufPtr bufSize : U64) : Spans Spares (sysReaddirTraced index bufPtr bufSize) := by
  rw [sysReaddirTraced]
  refine Spans.ite (spares_pure _) (Spans.ite ?_ (spares_pure _))
  refine spares_bind (spares_ofFs fun s files t h => (FsSame.within_list s files t h).mem) fun files => ?_
  cases files[index.toNat]? with
  | none => exact spares_pure _
  | some fileInfo =>
    refine spares_bind (spares_emit _) fun _ => ?_
    cases fileInfo.name.text with
    | none => exact Spans.fault
    | some name =>
      refine spares_bind (spares_emit _) fun _ => spares_bind (spares_emit _) fun _ => ?_
      refine spares_bind (spares_emit _) fun _ => spares_bind (spares_copyToUser _ _) fun _ => ?_
      exact Spans.ite (spares_pure _) (spares_pure _)

end Spares

/-- A copy from the program depends on the bytes that its transfer is for, and on nothing else of memory. -/
theorem copyFromUser_touched {capacity : Nat} {userSrc size : U64} {s s' : SysState} {r : Option (List U8)}
    (hrun : (copyFromUser capacity userSrc size).run s = some (r, s))
    (hmapped : ∀ a, Touched [.user userSrc size.toNat] a → s'.mapped a = s.mapped a)
    (hbytes : ∀ a, Touched [.user userSrc size.toNat] a → s'.fs.mem.other a = s.fs.mem.other a) :
    (copyFromUser capacity userSrc size).run s' = some (r, s') := by
  have htouched : ∀ i < size.toNat, Touched [.user userSrc size.toNat] (userSrc + BitVec.ofNat 64 i) := by
    intro i hi
    refine ⟨userSrc, size.toNat, by simp, ?_⟩
    have hlt := size.isLt
    rw [BitVec.add_comm, BitVec.add_sub_cancel, BitVec.toNat_ofNat, Nat.mod_eq_of_lt (by omega)]
    exact hi
  have hrange : s'.mappedRange userSrc size.toNat = s.mappedRange userSrc size.toNat := by
    rw [SysState.mappedRange, SysState.mappedRange]
    refine Bool.eq_iff_iff.mpr ?_
    rw [List.all_eq_true, List.all_eq_true]
    refine forall_congr' fun i => forall_congr' fun hi => ?_
    rw [hmapped _ (htouched i (List.mem_range.mp hi))]
  have hread : s'.fs.mem.bytes (.addr userSrc) size.toNat = s.fs.mem.bytes (.addr userSrc) size.toNat :=
    List.map_congr_left fun i hi => hbytes _ (htouched i (List.mem_range.mp hi))
  rw [copyFromUser] at hrun ⊢
  by_cases hv : validateUserMemory userSrc size = true
  · rw [if_pos hv, run_getSys_bind] at hrun ⊢
    rw [hrange, hread]
    split at hrun
    · next hcond =>
      rw [if_pos hcond]
      cases hrun
      rfl
    · cases hrun
  · rw [if_neg hv] at hrun ⊢
    cases hrun
    rfl

/-- **The transfers of a system call are all that it does to memory**: a byte that none of them is for, and
every byte of the pool, is as before. -/
theorem syscall_spares {num : U64} {n : SysNum} (handler : SysNum.ofNum? num = some n)
    (pointers : n ∈ [SysNum.write, .read, .open, .close, .readdir]) (arg1 arg2 arg3 : U64) :
    Spans Spares (syscallTraced num arg1 arg2 arg3) := by
  have hcall : Spans Spares (n.handlerTraced arg1 arg2 arg3) := by
    cases n with
    | exit => exact absurd pointers (by decide)
    | fork => exact absurd pointers (by decide)
    | write => exact spares_write arg1 arg2 arg3
    | read => exact spares_read arg1 arg2 arg3
    | «open» => exact spares_open arg1
    | close => exact spares_close arg1
    | readdir => exact spares_readdir arg1 arg2 arg3
  rw [syscallTraced, handler]
  exact spares_bind hcall fun _ => Spans.ite (spares_pure _) (spares_pure _)

end PpoOS
