import PpoOS.Syscall.Verify.Transfers

/-!
# The path of an open

`sys_open` copies 255 bytes from the program, however short its string is.
**`opensString_iff`**: an open reads the string alone, and gives what the string, the
files and the descriptors determine, exactly where there is no free descriptor, the
range is refused and the file does not exist, or the string has 254 characters.
-/

namespace PpoOS

open FaultState FsM SysM Traced

variable {s : SysState} {p : U64} {path : CString} {fd : Nat}

/-! ## The open of a string -/

/-- The descriptor that an open gives, with the table and the files after it, from the path, the table and
the files before it. -/
def openPath (table : Vector FileDescriptor maxFds) (fs : FsState) (path : CString) :
    Option (U64 × Vector FileDescriptor maxFds × FsState) :=
  match freeFd table with
  | none => some (-1#64, table, fs)
  | some fd => ((fsOpen path).run fs).map fun (o, fs') =>
      match o with
      | none => (-1#64, table, fs')
      | some file => (BitVec.ofNat 64 fd, table.setIfInBounds fd ⟨some file, 0#64, true⟩, fs')

/-- The string and its NUL, of at most 255 bytes, are in the memory that the program has mapped. -/
structure UserString (s : SysState) (p : U64) (path : CString) : Prop where
  text : cstrAt s.fs.mem p 255 = some path
  mapped : ∀ i ≤ path.length, s.mapped (p + BitVec.ofNat 64 i) = true

/-- Of the program's memory, only bytes of a string of `length` characters and its NUL are read. -/
def Transfer.InString (p : U64) (length : Nat) : Transfer → Prop
  | .user addr size => ∀ i < size, ∃ j ≤ length, addr + BitVec.ofNat 64 i = p + BitVec.ofNat 64 j
  | .kernel _ _ _ => True

/-- An open reads the string, and gives what it determines; so the copy does not fault. -/
structure OpensString (s : SysState) (p : U64) (path : CString) : Prop where
  reads : ∀ t ∈ (sysOpenTraced p s).1, t.InString p path.length
  result : (sysOpenTraced p s).2 = (openPath s.fdTable s.fs path).map fun (r, table, fs) =>
    (r, { s with fdTable := table, fs := fs })

/-- Where an open reads the string alone. -/
inductive OpenFits (s : SysState) (p : U64) (path : CString) : Prop
  | noFree (h : freeFd s.fdTable = none)
  /-- The range of the copy is refused, and there is no such file. -/
  | refused (h : validateUserMemory p 255#64 = false) (absent : (fsOpen path).run s.fs = some (none, s.fs))
  | whole (h : validateUserMemory p 255#64 = true) (length : path.length = 254)

/-! ## The string in the copy -/

theorem Memory.bytes_cons (m : Memory) (a : U64) (n : Nat) :
    m.bytes (.addr a) (n + 1) = m.other a :: m.bytes (.addr (a + 1#64)) n := by
  have hzero : a + BitVec.ofNat 64 0 = a := BitVec.add_zero a
  rw [Memory.bytes, List.range_succ_eq_map, List.map_cons, List.map_map, Memory.bytes]
  refine congrArg₂ List.cons (congrArg m.other hzero) (List.map_congr_left fun i _ => congrArg m.other ?_)
  rw [Nat.succ_eq_add_one, Nat.add_comm, BitVec.ofNat_add, BitVec.add_assoc]

/-- The string at an address is that of the bytes there. -/
theorem read_of_cstrAt {m : Memory} {a : U64} {n : Nat} {c : CString} (h : cstrAt m a n = some c) (rest : List U8) :
    c.length < n ∧ CString.read (m.bytes (.addr a) n ++ rest) = some c := by
  induction n generalizing a c with
  | zero => cases h
  | succ n ih =>
    rw [cstrAt] at h
    rw [Memory.bytes_cons, List.cons_append, CString.read]
    by_cases hnul : m.other a = 0#8
    · rw [dif_pos hnul] at h ⊢
      cases h
      exact ⟨Nat.succ_pos n, rfl⟩
    · rw [dif_neg hnul] at h ⊢
      obtain ⟨tail, htail, rfl⟩ := Option.map_eq_some_iff.mp h
      obtain ⟨hlen, hread⟩ := ih htail
      rw [hread]
      exact ⟨Nat.succ_lt_succ hlen, rfl⟩

/-! ## The open -/

/-- No free descriptor: the pointer is not used. -/
theorem sysOpenTraced_noFree (hfree : freeFd s.fdTable = none) : sysOpenTraced p s = ([], some (-1#64, s)) := by
  have hget : (lift get : SysT SysState) s = ([], some (s, s)) := rfl
  rw [sysOpenTraced, bind_of_some hget, hfree]
  rfl

/-- A range that is refused. -/
theorem sysOpenTraced_refused (hfree : freeFd s.fdTable = some fd) (h : validateUserMemory p 255#64 = false) :
    sysOpenTraced p s = ([], some (-1#64, s)) := by
  have hget : (lift get : SysT SysState) s = ([], some (s, s)) := rfl
  have hcopy : copyFromUserTraced .kpath p 255#64 s = ([], some (none, s)) := by
    rw [copyFromUserTraced, h]
    rfl
  rw [sysOpenTraced, bind_of_some hget, hfree]
  dsimp only
  rw [bind_of_some hcopy]
  rfl

/-- Otherwise the 255 bytes are read. -/
theorem sysOpenTraced_reads (hfree : freeFd s.fdTable = some fd) (h : validateUserMemory p 255#64 = true) :
    Transfer.user p 255 ∈ (sysOpenTraced p s).1 := by
  have hget : (lift get : SysT SysState) s = ([], some (s, s)) := rfl
  have hcopy : Transfer.user p 255 ∈ (copyFromUserTraced .kpath p 255#64 s).1 := by
    rw [copyFromUserTraced, h]
    exact List.mem_cons_self
  rw [sysOpenTraced, bind_of_some hget, hfree]
  exact mem_bind_left hcopy

/-- The copy faults where one of the 255 addresses is not mapped. -/
theorem sysOpen_unmapped (hfree : freeFd s.fdTable = some fd) (h : validateUserMemory p 255#64 = true)
    (hmapped : s.mappedRange p 255 = false) : (sysOpen p).run s = none := by
  rw [sysOpen, run_getSys_bind, hfree]
  dsimp only
  rw [StateT.run_bind, copyFromUser, if_pos h, run_getSys_bind, if_neg fun h => ?_]
  · rfl
  · cases hmapped.symm.trans h.1

/-- Where all are mapped, the open is that of the string. -/
theorem sysOpen_mapped (hfree : freeFd s.fdTable = some fd) (h : validateUserMemory p 255#64 = true)
    (hmapped : s.mappedRange p 255 = true) (htext : cstrAt s.fs.mem p 255 = some path) :
    (sysOpen p).run s = (openPath s.fdTable s.fs path).map fun (r, table, fs) =>
      (r, { s with fdTable := table, fs := fs }) := by
  have hcopy : (copyFromUser 256 p 255#64).run s = some (some (s.fs.mem.bytes (.addr p) 255), s) := by
    rw [copyFromUser, if_pos h, run_getSys_bind, if_pos ⟨hmapped, by decide⟩]
    rfl
  obtain ⟨hlen, hread⟩ := read_of_cstrAt htext [0#8]
  rw [sysOpen, run_getSys_bind, openPath, hfree]
  dsimp only
  rw [run_bind_eq hcopy]
  dsimp only
  rw [hread]
  dsimp only
  rw [if_neg (Nat.not_le.mpr hlen), run_ofFs_bind]
  cases (fsOpen path).run s.fs with
  | none => rfl
  | some r =>
    obtain ⟨o, fs⟩ := r
    cases o <;> rfl

/-- The result is that of the string where the path is not read at all only if the file does not exist. -/
theorem openPath_refused_iff (hfree : freeFd s.fdTable = some fd) :
    some (-1#64, s) = ((openPath s.fdTable s.fs path).map fun (r, table, fs) =>
      (r, { s with fdTable := table, fs := fs })) ↔ (fsOpen path).run s.fs = some (none, s.fs) := by
  have hfd := (freeFd_some hfree).range.2
  rw [openPath, hfree]
  dsimp only
  constructor
  · intro h
    cases hopen : (fsOpen path).run s.fs with
    | none =>
      rw [hopen] at h
      cases h
    | some r =>
      obtain ⟨o, fs⟩ := r
      cases o with
      | none => rw [fsOpen_none hopen]
      | some file =>
        rw [hopen] at h
        have hr : -1#64 = BitVec.ofNat 64 fd := congrArg Prod.fst (Option.some.inj h)
        have hnat := congrArg BitVec.toNat hr
        rw [BitVec.toNat_ofNat, Nat.mod_eq_of_lt (Nat.lt_trans hfd (by decide))] at hnat
        exact absurd (hnat ▸ hfd) (by decide)
  · intro h
    rw [h]
    rfl

/-- **Where an open reads the string alone.** -/
theorem opensString_iff (hstring : UserString s p path) : OpensString s p path ↔ OpenFits s p path := by
  cases hfree : freeFd s.fdTable with
  | none =>
    have hrun := sysOpenTraced_noFree (p := p) hfree
    refine ⟨fun _ => .noFree hfree, fun _ => ⟨fun t ht => ?_, ?_⟩⟩
    · rw [hrun] at ht
      cases ht
    · rw [hrun, openPath, hfree]
      rfl
  | some fd =>
    have hnone : freeFd s.fdTable ≠ none := fun h => nomatch hfree.symm.trans h
    cases hvalid : validateUserMemory p 255#64 with
    | false =>
      have hrun := sysOpenTraced_refused hfree hvalid
      constructor
      · intro h
        have hresult := h.result
        rw [hrun] at hresult
        exact .refused hvalid ((openPath_refused_iff hfree).mp hresult)
      · intro h
        cases h with
        | noFree h => exact absurd h hnone
        | whole h => cases hvalid.symm.trans h
        | refused _ absent =>
          refine ⟨fun t ht => ?_, ?_⟩
          · rw [hrun] at ht
            cases ht
          · rw [hrun]
            exact (openPath_refused_iff hfree).mpr absent
    | true =>
      obtain ⟨hlen, -⟩ := read_of_cstrAt hstring.text []
      constructor
      · intro h
        refine .whole hvalid ?_
        by_contra hne
        -- byte `length + 1` is behind the NUL
        obtain ⟨j, hj, heq⟩ := h.reads _ (sysOpenTraced_reads hfree hvalid) (path.length + 1) (by omega)
        have hnat := congrArg BitVec.toNat ((BitVec.add_right_inj p).mp heq)
        rw [BitVec.toNat_ofNat, BitVec.toNat_ofNat] at hnat
        omega
      · intro h
        have hwhole : path.length = 254 := by
          cases h with
          | noFree h => exact absurd h hnone
          | refused h => cases hvalid.symm.trans h
          | whole _ length => exact length
        have hmapped : s.mappedRange p 255 = true := by
          refine List.all_eq_true.mpr fun i hi => hstring.mapped i ?_
          have hlt := List.mem_range.mp hi
          omega
        have htraces : Traces (Transfer.InString p path.length) (sysOpenTraced p) (sysOpen p) :=
          open_events (fun _ => ⟨fun i hi => ⟨i, by omega, rfl⟩, trivial⟩) trivial
        exact ⟨htraces.events s, (htraces.result s).trans (sysOpen_mapped hfree hvalid hmapped hstring.text)⟩

/-- A program whose stack ends with the string "a". -/
def stackEndState : SysState :=
  { sysOn FsState.zero with
    fs := { FsState.zero with
      mem := ⟨fun _ => 0#8, fun a => if a = 0x7FFFFFFE#64 then 0x61#8 else 0#8, 0#64⟩ }
    mapped := fun a => decide (a < 0x80000000#64) }

/-- The string is mapped, and the kernel reads the pages behind the stack. -/
theorem stackEnd_faults : UserString stackEndState 0x7FFFFFFE#64 (CString.ofChars ['a']) ∧
    ¬OpensString stackEndState 0x7FFFFFFE#64 (CString.ofChars ['a']) ∧
      (sysOpenTraced 0x7FFFFFFE#64 stackEndState).2 = none := by
  have hfree : freeFd stackEndState.fdTable = some 3 := by decide +kernel
  have hvalid : validateUserMemory 0x7FFFFFFE#64 255#64 = true := by decide
  refine ⟨⟨by decide, by decide⟩, fun h => ?_, ?_⟩
  · obtain ⟨j, hj, heq⟩ := h.reads _ (sysOpenTraced_reads hfree hvalid) 2 (by decide)
    exact absurd heq ((show ∀ j ≤ 1, (0x7FFFFFFE#64 : U64) + BitVec.ofNat 64 2 ≠ 0x7FFFFFFE#64 + BitVec.ofNat 64 j by
      decide) j hj)
  · rw [((open_traces _).result _), sysOpen_unmapped hfree hvalid (by decide +kernel)]

/-- A string of 254 characters in front of the end of the stack. -/
def longPathState : SysState :=
  { stackEndState with
    fs := { FsState.zero with
      mem := ⟨fun _ => 0#8, fun a => if 0x7FFFFF01#64 ≤ a ∧ a < 0x7FFFFFFF#64 then 0x61#8 else 0#8, 0#64⟩ } }

def longPath : CString := CString.ofChars (List.replicate 254 'a')

theorem opensString_iff_longPath : OpensString longPathState 0x7FFFFF01#64 longPath :=
  (opensString_iff ⟨by decide +kernel, by decide +kernel⟩).mpr (.whole (by decide) (by decide +kernel))

end PpoOS
