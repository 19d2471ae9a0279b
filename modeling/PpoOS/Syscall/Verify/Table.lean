import PpoOS.Syscall.Verify.Calls
import PpoOS.Mm.Verify.PmmRuns
import PpoOS.Fs.Verify.Independent

/-!
# The descriptor table

`syscall_init` empties the table; from then on programs call the kernel and run in
between.  **`fd_table_invariant`**: what holds of the table in every state that is
reached, and how a call may change it.
-/

namespace PpoOS

open FaultState SysM Transition

variable {s t : SysState} {num arg1 arg2 arg3 r : U64}

/-! ## Runs -/

/-- What happens between two states: a call with its result and the bytes that it put into the
program's buffer, or the program's own work. -/
inductive SysEvent where
  | call (num arg1 arg2 arg3 result : U64) (bytes : List U8)
  | program
deriving DecidableEq

/-- The bytes that a read puts into the buffer: as many as it says. -/
def SysState.received (t : SysState) (num bufPtr result : U64) : List U8 :=
  if SysNum.ofNum? num = some .read ∧ result ≠ -1#64 then t.fs.mem.bytes (.addr bufPtr) result.toNat else []

/-- One step.  The program changes its own memory, what it has mapped, and everything but the
descriptors and the file system. -/
inductive SysStep : SysState → SysEvent → SysState → Prop
  | call {s t : SysState} {num arg1 arg2 arg3 r : U64} (h : (syscall num arg1 arg2 arg3).run s = some (r, t)) :
      SysStep s (.call num arg1 arg2 arg3 r (t.received num arg2 r)) t
  | program {s t : SysState} {other : ByteMem.Mem} (fdTable : t.fdTable = s.fdTable)
      (fs : t.fs = { s.fs with mem := { s.fs.mem with other := other } })
      (kernel : ∀ a, a ≥ kernelVmaBase → other a = s.fs.mem.other a) : SysStep s .program t

/-- The states that are reached from `syscall_init`. -/
def SysReachable (s : SysState) : Prop := ∃ s₀ es, Run SysStep (syscallInit s₀) es s

/-! ## A call -/

/-- The dispatcher calls the handler. -/
theorem syscall_run {n : SysNum} (hn : SysNum.ofNum? num = some n) (hexit : n ≠ .exit) :
    (syscall num arg1 arg2 arg3).run s = (n.handler arg1 arg2 arg3).run s := by
  have htail : ∀ result : U64, (if result = 0xDEAD#64 ∧ n = .exit then (pure 0#64 : SysM U64)
      else pure result) = pure result := fun result => if_neg fun h => hexit h.2
  rw [syscall, hn]
  dsimp only
  simp only [htail, bind_pure]

/-- A call that is no open, close or read. -/
theorem syscall_quiet (hopen : SysNum.ofNum? num ≠ some .open) (hclose : SysNum.ofNum? num ≠ some .close)
    (hread : SysNum.ofNum? num ≠ some .read) (h : (syscall num arg1 arg2 arg3).run s = some (r, t)) :
    Quiet s t := by
  cases hn : SysNum.ofNum? num with
  | none =>
    rw [syscall, hn] at h
    cases h
    exact Quiet.refl s
  | some n =>
    cases n with
    | exit =>
      rw [syscall, hn] at h
      refine Quiet.bind (Quiet.exit arg1) (fun result => ?_) s r t h
      split <;> exact Quiet.pure _
    | write =>
      rw [syscall_run hn nofun] at h
      exact Quiet.write arg1 arg2 arg3 s r t h
    | readdir =>
      rw [syscall_run hn nofun] at h
      exact Quiet.readdir arg1 arg2 arg3 s r t h
    | fork =>
      rw [syscall_run hn nofun] at h
      exact Quiet.ofKern sysFork s r t h
    | read => exact absurd hn hread
    | «open» => exact absurd hn hopen
    | close => exact absurd hn hclose

/-! ## The invariant -/

/-- An entry in use has a file; one that is not has none, and position 0. -/
def FileDescriptor.Ok (d : FileDescriptor) : Prop := if d.used = true then d.file.isSome = true else d = .free

structure TableOk (table : Vector FileDescriptor maxFds) : Prop where
  entries : ∀ (i : Nat) (d : FileDescriptor), table[i]? = some d → d.Ok
  /-- Entries 0 to 2 stand for standard input and output. -/
  standard : ∀ (i : Nat) (d : FileDescriptor), i < 3 → table[i]? = some d → d.used = false

namespace TableOk

variable {table : Vector FileDescriptor maxFds} {d : FileDescriptor} {i : Nat}

theorem init : TableOk (Vector.replicate maxFds .free) where
  entries := by
    intro i d hd
    obtain ⟨hi, rfl⟩ := Vector.getElem?_eq_some_iff.mp hd
    simp [FileDescriptor.Ok, FileDescriptor.free]
  standard := by
    intro i d _ hd
    obtain ⟨hi, rfl⟩ := Vector.getElem?_eq_some_iff.mp hd
    simp [FileDescriptor.free]

theorem set (h : TableOk table) (hi : 3 ≤ i) (hd : d.Ok) : TableOk (table.setIfInBounds i d) where
  entries := by
    intro j e he
    rw [Vector.getElem?_setIfInBounds] at he
    by_cases hij : i = j
    · rw [if_pos hij] at he
      split at he
      · cases he
        exact hd
      · cases he
    · rw [if_neg hij] at he
      exact h.entries j e he
  standard := by
    intro j e hj he
    rw [Vector.getElem?_setIfInBounds, if_neg (by omega)] at he
    exact h.standard j e hj he

/-- An entry that is in use has a file, and stays well formed when its position changes. -/
theorem advance (h : TableOk table) (hd : table[i]? = some d) (hused : d.used = true) (position : U64) :
    ({ d with position := position } : FileDescriptor).Ok := by
  have hok := h.entries i d hd
  rw [FileDescriptor.Ok, if_pos hused] at hok
  rw [FileDescriptor.Ok, if_pos hused]
  exact hok

end TableOk

theorem inUse?_some {fd : U64} {d : FileDescriptor} :
    s.inUse? fd = some d ↔ 3 ≤ fd.toNat ∧ s.fdTable[fd.toNat]? = some d ∧ d.used = true := by
  rw [SysState.inUse?]
  by_cases hfd : fd ≥ 3#64
  · rw [if_pos hfd, Option.filter_eq_some_iff]
    exact ⟨fun h => ⟨hfd, h⟩, fun h => h.2⟩
  · rw [if_neg hfd]
    exact ⟨nofun, fun h => absurd h.1 hfd⟩

/-- The smallest index from 3 on whose entry is not in use. -/
structure SmallestFree (table : Vector FileDescriptor maxFds) (fd : Nat) : Prop where
  range : 3 ≤ fd ∧ fd < maxFds
  free : ∃ d, table[fd]? = some d ∧ d.used = false
  below : ∀ (i : Nat) (d : FileDescriptor), 3 ≤ i → i < fd → table[i]? = some d → d.used = true

theorem freeFd_some {table : Vector FileDescriptor maxFds} {fd : Nat} (h : freeFd table = some fd) :
    SmallestFree table fd := by
  rw [freeFd, List.find?_range_eq_some] at h
  obtain ⟨hp, hmem, hbelow⟩ := h
  have hfd : fd < maxFds := List.mem_range.mp hmem
  simp only [Bool.and_eq_true, decide_eq_true_eq] at hp
  obtain ⟨hge, hany⟩ := hp
  obtain ⟨d, hd, hfree⟩ := (Option.any_eq_true _ _).mp hany
  refine ⟨⟨hge, hfd⟩, ⟨d, hd, by simpa using hfree⟩, ?_⟩
  intro i e hi hlt he
  have hnot := hbelow i hlt
  rw [he] at hnot
  simpa [hi] using hnot

/-! ## What a call does to the table -/

/-- The entry is in use. -/
def SysState.InUse (s : SysState) (fd : U64) : Prop := ∃ d, s.fdTable[fd.toNat]? = some d ∧ d.used = true

/-- The changes that a call may make. -/
structure TableChange (s : SysState) (num arg1 result : U64) (t : SysState) : Prop where
  /-- An open fails, or takes the smallest index that is not in use. -/
  «open» : SysNum.ofNum? num = some .open → (result = -1#64 ∧ t.fdTable = s.fdTable) ∨
    ∃ fd file, SmallestFree s.fdTable fd ∧ result = BitVec.ofNat 64 fd ∧
      t.fdTable = s.fdTable.setIfInBounds fd ⟨some file, 0#64, true⟩
  /-- A close succeeds exactly where the entry is in use, and frees that entry only. -/
  close : SysNum.ofNum? num = some .close → (result = 0#64 ↔ s.InUse arg1) ∧
    (result = 0#64 → t.fdTable = s.fdTable.setIfInBounds arg1.toNat .free) ∧
      (result ≠ 0#64 → result = -1#64 ∧ t.fdTable = s.fdTable)
  /-- A read of a file moves the position of its entry by as many bytes as it says. -/
  read : SysNum.ofNum? num = some .read → t.fdTable = s.fdTable ∨
    ∃ d, s.fdTable[arg1.toNat]? = some d ∧ d.used = true ∧ result ≠ 0#64 ∧ result ≠ -1#64 ∧
      t.fdTable = s.fdTable.setIfInBounds arg1.toNat { d with position := d.position + result }
  others : SysNum.ofNum? num ≠ some .open → SysNum.ofNum? num ≠ some .close →
    SysNum.ofNum? num ≠ some .read → t.fdTable = s.fdTable

theorem TableOk.inUse_iff (h : TableOk s.fdTable) {fd : U64} : s.InUse fd ↔ (s.inUse? fd).isSome = true := by
  constructor
  · rintro ⟨d, hd, hused⟩
    have hge : 3 ≤ fd.toNat := by
      by_contra hlt
      have hfree := h.standard _ d (by omega) hd
      rw [hused] at hfree
      cases hfree
    rw [inUse?_some.mpr ⟨hge, hd, hused⟩]
    rfl
  · intro hsome
    obtain ⟨d, hd⟩ := Option.isSome_iff_exists.mp hsome
    obtain ⟨-, hd, hused⟩ := inUse?_some.mp hd
    exact ⟨d, hd, hused⟩

/-- A length that fits a buffer is neither the end of a file nor an error. -/
theorem length_result {bytes : List U8} (hne : bytes ≠ []) (hlen : bytes.length ≤ 4096) :
    BitVec.ofNat 64 bytes.length ≠ 0#64 ∧ BitVec.ofNat 64 bytes.length ≠ -1#64 := by
  have hpos := List.length_pos_of_ne_nil hne
  have hn : (BitVec.ofNat 64 bytes.length).toNat = bytes.length := by
    rw [BitVec.toNat_ofNat, Nat.mod_eq_of_lt (by omega)]
  constructor
  · intro h
    rw [h] at hn
    exact absurd hn (Nat.ne_of_lt hpos)
  · intro h
    rw [h, show (-1#64).toNat = 2 ^ 64 - 1 from rfl] at hn
    omega

theorem syscall_change (h : TableOk s.fdTable) (hrun : (syscall num arg1 arg2 arg3).run s = some (r, t)) :
    TableChange s num arg1 r t where
  «open» hn := by
    rw [syscall_run hn nofun] at hrun
    cases sysOpen_outcome hrun with
    | refused hquiet => exact Or.inl ⟨rfl, hquiet.fdTable⟩
    | opened free => exact Or.inr ⟨_, _, freeFd_some free, rfl, rfl⟩
  close hn := by
    have hclose : (sysClose arg1).run s = some (r, t) := by
      rw [syscall_run hn nofun] at hrun
      exact hrun
    rw [sysClose_run] at hclose
    rw [h.inUse_iff]
    cases hd : s.inUse? arg1 with
    | none =>
      rw [hd] at hclose
      cases hclose
      exact ⟨⟨nofun, nofun⟩, nofun, fun _ => ⟨rfl, rfl⟩⟩
    | some d =>
      rw [hd] at hclose
      cases hclose
      exact ⟨⟨fun _ => rfl, fun _ => rfl⟩, fun _ => rfl, fun hne => absurd rfl hne⟩
  read hn := by
    rw [syscall_run hn nofun] at hrun
    rcases sysRead_outcome hrun with hquiet | ⟨d, bytes, hd, -, hout⟩
    · exact Or.inl hquiet.fdTable
    · obtain ⟨-, hget, hused⟩ := inUse?_some.mp hd
      cases hout with
      | done => exact Or.inl rfl
      | rejected => exact Or.inl rfl
      | delivered hne hlen =>
        obtain ⟨hzero, herr⟩ := length_result hne hlen
        exact Or.inr ⟨d, hget, hused, hzero, herr, rfl⟩
  others hopen hclose hread := (syscall_quiet hopen hclose hread hrun).fdTable

theorem SysStep.tableOk {e : SysEvent} (h : TableOk s.fdTable) (hstep : SysStep s e t) : TableOk t.fdTable := by
  cases hstep with
  | program fdTable => rw [fdTable]; exact h
  | @call _ num arg1 _ _ r hrun =>
    have hchange := syscall_change h hrun
    by_cases hopen : SysNum.ofNum? num = some .open
    · rcases hchange.open hopen with ⟨-, hsame⟩ | ⟨fd, file, hfree, -, hset⟩
      · rw [hsame]
        exact h
      · rw [hset]
        exact h.set hfree.range.1 rfl
    by_cases hclose : SysNum.ofNum? num = some .close
    · obtain ⟨hiff, hfreed, hkept⟩ := hchange.close hclose
      by_cases hzero : r = 0#64
      · obtain ⟨d, hd⟩ := Option.isSome_iff_exists.mp (h.inUse_iff.mp (hiff.mp hzero))
        rw [hfreed hzero]
        exact h.set (inUse?_some.mp hd).1 rfl
      · rw [(hkept hzero).2]
        exact h
    by_cases hread : SysNum.ofNum? num = some .read
    · rcases hchange.read hread with hsame | ⟨d, hd, hused, -, -, hset⟩
      · rw [hsame]
        exact h
      · obtain ⟨d', hd'⟩ := Option.isSome_iff_exists.mp (h.inUse_iff.mp ⟨d, hd, hused⟩)
        rw [hset]
        exact h.set (inUse?_some.mp hd').1 (h.advance hd hused _)
    rw [hchange.others hopen hclose hread]
    exact h

/-- **The descriptor table** is well formed in every state that is reached, a call changes it only as
`TableChange` says, and a close always comes back. -/
theorem fd_table_invariant (s : SysState) (h : SysReachable s) : TableOk s.fdTable ∧
    (∀ num arg1 arg2 arg3 r t, (syscall num arg1 arg2 arg3).run s = some (r, t) →
      TableChange s num arg1 r t) ∧
    ∀ num fd arg2 arg3, SysNum.ofNum? num = some .close →
      ∃ r t, (syscall num fd arg2 arg3).run s = some (r, t) := by
  obtain ⟨s₀, es, hrun⟩ := h
  have hok : TableOk s.fdTable :=
    hrun.invariant (I := fun s => TableOk s.fdTable) (fun _ _ _ h hstep => hstep.tableOk h) TableOk.init
  refine ⟨hok, fun _ _ _ _ _ _ hcall => syscall_change hok hcall, ?_⟩
  intro num fd arg2 arg3 hnum
  rw [syscall_run hnum nofun]
  change ∃ r t, (sysClose fd).run s = some (r, t)
  rw [sysClose_run]
  cases s.inUse? fd with
  | none => exact ⟨_, _, rfl⟩
  | some d => exact ⟨_, _, rfl⟩

/-- A kernel without frames, and a program that has mapped every page. -/
def sysOn (fs : FsState) : SysState where
  fdTable := Vector.replicate maxFds .free
  fs := fs
  kernel := ⟨fun _ => 0#8, emptyPmm, 0#64, 0#64, 0#64, [], []⟩
  mapped := fun _ => true
  keys := []
  terminal := none

/-! ## Calls one after the other -/

/-- The calls of a program with their arguments, in order; the events are what comes of them. -/
def sysCalls : List (U64 × U64 × U64 × U64) → SysM (List SysEvent)
  | [] => return []
  | (num, arg1, arg2, arg3) :: calls => do
    let r ← syscall num arg1 arg2 arg3
    let bytes := (← get).received num arg2 r
    let es ← sysCalls calls
    return .call num arg1 arg2 arg3 r bytes :: es

theorem sysCalls_cons {calls : List (U64 × U64 × U64 × U64)} {es : List SysEvent}
    (h : (sysCalls ((num, arg1, arg2, arg3) :: calls)).run s = some (es, t)) :
    ∃ r u es', SysStep s (.call num arg1 arg2 arg3 r (u.received num arg2 r)) u ∧
      (sysCalls calls).run u = some (es', t) ∧
        es = .call num arg1 arg2 arg3 r (u.received num arg2 r) :: es' := by
  obtain ⟨r, u, hcall, h⟩ := run_bind_iff.mp h
  obtain ⟨u', _, hget, h⟩ := run_bind_iff.mp h
  cases hget
  obtain ⟨es', t', hcalls, h⟩ := run_bind_iff.mp h
  cases h
  exact ⟨r, u, es', .call hcall, hcalls, rfl⟩

theorem sysCalls_run {calls : List (U64 × U64 × U64 × U64)} {es : List SysEvent}
    (h : (sysCalls calls).run s = some (es, t)) : Run SysStep s es t := by
  induction calls generalizing s es with
  | nil =>
    cases h
    exact .nil _
  | cons c calls ih =>
    obtain ⟨r, u, es', hstep, hcalls, rfl⟩ := sysCalls_cons h
    exact .cons hstep (ih hcalls)

/-! ## A program with two files -/

/-- The file `a` with five bytes and the file `b` with two are made. -/
def twoFilesRun : FsM Unit := do
  let _ ← fsCreateFile fileA
  let _ ← fsCreateFile fileB
  let _ ← fsWrite (.slot 0) 0#64 (fun i => BitVec.ofNat 8 (i + 1)) 5#64
  let _ ← fsWrite (.slot 1) 0#64 ones 2#64

theorem twoFilesRun_ends : (twoFilesRun.run emptyFs).isSome = true := by decide +kernel

def twoFiles : FsState := ((twoFilesRun.run emptyFs).get twoFilesRun_ends).2

/-- A program that has the paths `a` at address 4096 and `b` at address 4098, on those files. -/
def pathSys : SysState :=
  { syscallInit (sysOn twoFiles) with
    fs := { twoFiles with mem := { twoFiles.mem with
      other := fun a => if a = 4096#64 then 0x61#8 else if a = 4098#64 then 0x62#8 else 0#8 } } }

theorem pathSys_step : SysStep (syscallInit (sysOn twoFiles)) .program pathSys := by
  refine .program rfl rfl ?_
  intro a ha
  have hne : a ≠ 4096#64 ∧ a ≠ 4098#64 := by
    constructor <;> rintro rfl <;> exact absurd ha (by decide)
  simp only [if_neg hne.1, if_neg hne.2]
  rfl

/-- Both files are opened and read, a path in the kernel half and a buffer at 0 are rejected, a
descriptor that is not open is closed, and one that is open. -/
def tableCalls : List (U64 × U64 × U64 × U64) :=
  [(3#64, 4096#64, 0#64, 0#64), (3#64, 4098#64, 0#64, 0#64), (2#64, 3#64, 8192#64, 2#64),
    (3#64, kernelVmaBase, 0#64, 0#64), (2#64, 3#64, 0#64, 2#64), (4#64, 7#64, 0#64, 0#64),
    (4#64, 4#64, 0#64, 0#64), (2#64, 3#64, 8192#64, 5000#64)]

theorem tableCalls_checked : ((sysCalls tableCalls).run pathSys).any (fun x => decide (
    (x.2.fdTable.toList.map FileDescriptor.used).take 6 = [false, false, false, true, false, false] ∧
      x.2.fdTable[3].position = 5#64)) = true := by
  decide +kernel

theorem tableCalls_end : ((sysCalls tableCalls).run pathSys).isSome = true :=
  isSome_of_any tableCalls_checked

/-- `pathSys` after the calls: one descriptor is open, at the end of its file. -/
def tableSys : SysState := (((sysCalls tableCalls).run pathSys).get tableCalls_end).2

theorem tableSys_reachable : SysReachable tableSys :=
  ⟨_, _, .cons pathSys_step (sysCalls_run (eq_some_get tableCalls_end rfl))⟩

theorem fd_table_invariant_tableSys : TableOk tableSys.fdTable ∧
    (∀ num arg1 arg2 arg3 r t, (syscall num arg1 arg2 arg3).run tableSys = some (r, t) →
      TableChange tableSys num arg1 r t) ∧
    ∀ num fd arg2 arg3, SysNum.ofNum? num = some .close →
      ∃ r t, (syscall num fd arg2 arg3).run tableSys = some (r, t) :=
  fd_table_invariant tableSys tableSys_reachable

end PpoOS
