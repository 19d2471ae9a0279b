import PpoOS.Fs.Headers
import PpoOS.Fs.Verify.Archive
import PpoOS.Lib.Transition

/-!
# The parser goes forward

Whatever the fields of the headers are, an iteration that goes on has found a header
whose record ends inside of the archive.  **`initramfs_progress`**: the loop ends,
and the data of the entries lies in the archive, one entry behind the other.
-/

namespace PpoOS

open Transition

variable {m : Memory} {stop p q : U64} {c d : ScanState} {room : Nat}

/-- The header at `p` is stored, and the loop goes on behind it. -/
structure Accepted (m : Memory) (stop p : U64) : Prop where
  inside : p + 110#64 < stop
  magic : memEq m p cpioNewcMagic = true
  entry : ¬(headerNamesize m p > 0#32 ∧ strEq m (p + 110#64) trailerName = true)
  fits : ¬headerNext m p > stop

theorem initramfsScan_accepted (h : Accepted m stop p) :
    initramfsScan m stop (room + 1) p = headerFile m p :: initramfsScan m stop room (headerNext m p) := by
  rw [initramfsScan, if_pos h.inside, if_pos h.magic]
  exact (if_neg h.entry).trans (if_neg h.fits)

theorem initramfsScan_rejected (h : ¬Accepted m stop p) : initramfsScan m stop room p = [] := by
  cases room with
  | zero => rfl
  | succ room =>
    rw [initramfsScan]
    by_cases hin : p + 110#64 < stop
    · by_cases hmagic : memEq m p cpioNewcMagic = true
      · rw [if_pos hin, if_pos hmagic]
        by_cases htrailer : headerNamesize m p > 0#32 ∧ strEq m (p + 110#64) trailerName = true
        · exact if_pos htrailer
        · refine (if_neg htrailer).trans (if_pos ?_)
          exact Classical.not_not.mp fun hfits => h ⟨hin, hmagic, htrailer, hfits⟩
      · rw [if_pos hin, if_neg hmagic]
    · rw [if_neg hin]

theorem initramfsStep_some_iff : initramfsStep m stop c = some d ↔
    Accepted m stop c.p ∧ c.files.length < 16 ∧
      d = ⟨headerNext m c.p, c.files ++ [headerFile m c.p]⟩ := by
  unfold initramfsStep
  constructor
  · intro h
    split at h
    · rename_i hloop
      split at h
      · rename_i hmagic
        split at h
        · cases h
        · rename_i hentry
          split at h
          · cases h
          · rename_i hfits
            exact ⟨⟨hloop.1, hmagic, hentry, hfits⟩, hloop.2, (Option.some.inj h).symm⟩
      · cases h
    · cases h
  · rintro ⟨h, hroom, rfl⟩
    rw [if_pos ⟨h.inside, hroom⟩, if_pos h.magic, if_neg h.entry, if_neg h.fits]

/-! ## Places of a header -/

theorem align4_bounds {a : U64} (h : a.toNat + 3 < 2 ^ 64) :
    a.toNat ≤ (align4 a).toNat ∧ (align4 a).toNat ≤ a.toNat + 3 := by
  rw [align4_toNat h]
  unfold padding
  omega

/-- The places of a header, in order; none of the sums wraps. -/
theorem header_bounds (hp : p.toNat + 2 ^ 34 < 2 ^ 64) :
    p.toNat + 110 ≤ (headerData m p).toNat ∧
      (headerData m p).toNat + (headerFile m p).size.toNat ≤ (headerNext m p).toNat := by
  have hname := (headerNamesize m p).isLt
  have hfile := (headerFilesize m p).isLt
  have hn : ((headerNamesize m p).setWidth 64).toNat = (headerNamesize m p).toNat :=
    BitVec.toNat_setWidth_of_le (by decide)
  have hf : ((headerFilesize m p).setWidth 64).toNat = (headerFilesize m p).toNat :=
    BitVec.toNat_setWidth_of_le (by decide)
  have h110 : (110#64 : U64).toNat = 110 := rfl
  have hstart := toNat_add_of_lt (a := p) (b := 110#64) (by omega)
  have hend := toNat_add_of_lt (a := p + 110#64) (b := (headerNamesize m p).setWidth 64) (by omega)
  have hdata := align4_bounds (a := p + 110#64 + (headerNamesize m p).setWidth 64) (by omega)
  change _ ≤ (headerData m p).toNat ∧ (headerData m p).toNat ≤ _ at hdata
  have hstop := toNat_add_of_lt (a := headerData m p) (b := (headerFilesize m p).setWidth 64) (by omega)
  have hnext := align4_bounds (a := headerData m p + (headerFilesize m p).setWidth 64) (by omega)
  change _ ≤ (headerNext m p).toNat ∧ (headerNext m p).toNat ≤ _ at hnext
  change _ ∧ (headerData m p).toNat + ((headerFilesize m p).setWidth 64).toNat ≤ _
  omega

theorem Accepted.next_le (h : Accepted m stop p) : (headerNext m p).toNat ≤ stop.toNat :=
  Nat.le_of_not_lt h.fits

/-- The record of an accepted header lies behind its start and in front of the end. -/
theorem Accepted.places (h : Accepted m stop p) (hstop : stop.toNat + 2 ^ 34 < 2 ^ 64)
    (hp : p.toNat ≤ stop.toNat) : p.toNat + 110 ≤ (headerData m p).toNat ∧
      (headerData m p).toNat + (headerFile m p).size.toNat ≤ (headerNext m p).toNat ∧
      (headerNext m p).toNat ≤ stop.toNat := by
  obtain ⟨hdata, hnext⟩ := header_bounds (m := m) (p := p) (by omega)
  exact ⟨hdata, hnext, h.next_le⟩

/-! ## The loop -/

def ScanStep (m : Memory) (stop : U64) (c : ScanState) (_ : Unit) (d : ScanState) : Prop :=
  initramfsStep m stop c = some d

/-- Each iteration stores one entry, and there are at most sixteen. -/
theorem scan_length {ls : List Unit} (h : Run (ScanStep m stop) c ls d) (hc : c.files.length ≤ 16) :
    d.files.length = c.files.length + ls.length ∧ d.files.length ≤ 16 := by
  induction h with
  | nil => exact ⟨rfl, hc⟩
  | snoc run last ih =>
    obtain ⟨hlen, -⟩ := ih
    obtain ⟨-, hroom, rfl⟩ := initramfsStep_some_iff.mp last
    rw [List.length_append, List.length_append, List.length_singleton, List.length_singleton]
    omega

/-- The loop comes to its end with what the parser gives. -/
theorem scan_ends (room : Nat) (hroom : c.files.length + room = 16) :
    ∃ ls d, Run (ScanStep m stop) c ls d ∧ initramfsStep m stop d = none ∧
      d.files = c.files ++ initramfsScan m stop room c.p := by
  induction room generalizing c with
  | zero =>
    refine ⟨[], c, .nil c, ?_, (List.append_nil _).symm⟩
    exact Option.eq_none_iff_forall_ne_some.mpr fun d hd => by
      have hlt := (initramfsStep_some_iff.mp hd).2.1
      omega
  | succ room ih =>
    by_cases h : Accepted m stop c.p
    · have hstep : initramfsStep m stop c = some ⟨headerNext m c.p, c.files ++ [headerFile m c.p]⟩ :=
        initramfsStep_some_iff.mpr ⟨h, by omega, rfl⟩
      obtain ⟨ls, d, hrun, hend, hfiles⟩ := ih (c := ⟨headerNext m c.p, c.files ++ [headerFile m c.p]⟩)
        (by rw [List.length_append, List.length_singleton]; omega)
      refine ⟨() :: ls, d, ?_, hend, ?_⟩
      · exact Run.cons hstep hrun
      · rw [hfiles, initramfsScan_accepted h, List.append_assoc, List.singleton_append]
    · refine ⟨[], c, .nil c, ?_, by rw [initramfsScan_rejected h, List.append_nil]⟩
      exact Option.eq_none_iff_forall_ne_some.mpr fun d hd => h (initramfsStep_some_iff.mp hd).1

/-- **The data of the entries** lies in order, between the first header and the end. -/
theorem scan_ranges (room : Nat) (hstop : stop.toNat + 2 ^ 34 < 2 ^ 64) (hp : p.toNat ≤ stop.toNat) :
    (∀ f ∈ initramfsScan m stop room p, p.toNat < f.data.toNat ∧ f.data.toNat + f.size.toNat ≤ stop.toNat) ∧
      (initramfsScan m stop room p).Pairwise fun f g =>
        f.data.toNat < g.data.toNat ∧ f.data.toNat + f.size.toNat ≤ g.data.toNat := by
  induction room generalizing p with
  | zero => exact ⟨nofun, .nil⟩
  | succ room ih =>
    by_cases h : Accepted m stop p
    · obtain ⟨hdata, hnext, hle⟩ := h.places hstop hp
      obtain ⟨hin, hpair⟩ := ih hle
      change (headerFile m p).data.toNat + _ ≤ _ at hnext
      change _ ≤ (headerFile m p).data.toNat at hdata
      rw [initramfsScan_accepted h]
      constructor
      · intro f hf
        rcases List.mem_cons.mp hf with rfl | hf
        · omega
        · have hplace := hin f hf
          omega
      · refine List.pairwise_cons.mpr ⟨fun g hg => ?_, hpair⟩
        have hplace := hin g hg
        omega
    · rw [initramfsScan_rejected h]
      exact ⟨nofun, .nil⟩

/-- The loop does not come behind the end. -/
theorem scan_forward {ls : List Unit} (h : Run (ScanStep m stop) c ls d) (hc : c.p.toNat ≤ stop.toNat) : d.p.toNat ≤ stop.toNat :=
  h.invariant (I := fun c => c.p.toNat ≤ stop.toNat) (fun c _ d _ hstep => by
    obtain ⟨hacc, -, rfl⟩ := initramfsStep_some_iff.mp hstep
    exact hacc.next_le) hc

/-- The loop over the archive of `len` bytes at `base` ends, and what it stores is in place. -/
structure ScanSound (m : Memory) (base len : U64) (files : List RamFile) : Prop where
  /-- Some iterations lead to the end of the loop, with the entries of the parser. -/
  ends : ∃ ls c, Run (ScanStep m (base + len)) ⟨base, []⟩ ls c ∧
    initramfsStep m (base + len) c = none ∧ c.files = files
  /-- No run is longer than sixteen iterations, and each one goes forward by a header at least. -/
  forward : ∀ ls c, Run (ScanStep m (base + len)) ⟨base, []⟩ ls c → ls.length ≤ 16 ∧
    ∀ d, initramfsStep m (base + len) c = some d → c.p.toNat + 110 ≤ d.p.toNat
  inRange : ∀ f ∈ files, base.toNat ≤ f.data.toNat ∧ f.data.toNat + f.size.toNat ≤ base.toNat + len.toNat
  /-- The data of an entry ends in front of the data of every later one. -/
  ordered : files.Pairwise fun f g =>
    f.data.toNat < g.data.toNat ∧ f.data.toNat + f.size.toNat ≤ g.data.toNat

/-- **The parser goes forward and stays in range**, whatever the archive holds. -/
theorem initramfs_progress (s t : FsState) (base len : U64)
    (hfit : base.toNat + len.toNat + 2 ^ 34 < 2 ^ 64) (hrun : (initramfsInit base len).run s = some ((), t)) :
    ScanSound s.mem base len t.ramfs := by
  cases hrun
  change ScanSound s.mem base len (initramfsScan s.mem (base + len) 16 base)
  have hsum := toNat_add_of_lt (a := base) (b := len) (by omega)
  have hstop : (base + len).toNat + 2 ^ 34 < 2 ^ 64 := by omega
  obtain ⟨hranges, hpair⟩ := scan_ranges (m := s.mem) (p := base) 16 hstop (by omega)
  refine ⟨?_, fun ls c hrun => ⟨?_, fun d hd => ?_⟩, fun f hf => ?_, hpair⟩
  · have hends : ∃ ls c, Run (ScanStep s.mem (base + len)) ⟨base, []⟩ ls c ∧ _ := scan_ends 16 rfl
    obtain ⟨ls, c, hrun, hend, hfiles⟩ := hends
    exact ⟨ls, c, hrun, hend, hfiles⟩
  · obtain ⟨hlen, hle⟩ := scan_length hrun (Nat.zero_le _)
    change c.files.length = 0 + ls.length at hlen
    omega
  · have hp := scan_forward hrun (by change base.toNat ≤ _; omega)
    obtain ⟨hacc, -, rfl⟩ := initramfsStep_some_iff.mp hd
    obtain ⟨hdata, hnext, -⟩ := hacc.places hstop hp
    change c.p.toNat + 110 ≤ (headerNext s.mem c.p).toNat
    omega
  · have hplace := hranges f hf
    omega

/-- The state with the archive of three files in memory. -/
def archiveFs : FsState := { FsState.zero with mem := Memory.loaded 4096#64 (archiveBytes threeFiles) }

theorem initramfs_progress_threeFiles : ∃ files : List RamFile, files.length = 3 ∧
    ScanSound archiveFs.mem 4096#64 512#64 files :=
  ⟨_, by decide +kernel, initramfs_progress archiveFs _ 4096#64 512#64 (by decide) rfl⟩

end PpoOS
