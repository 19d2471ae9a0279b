import PpoOS.Fs.Verify.Progress
import PpoOS.Lib.Checked

/-!
# What the parser reads

The parser compares the name of a header with `TRAILER!!!` before it looks at where
the name ends.  **`initramfs_safe_iff`**: it reads nothing behind the archive, and the
stored names end inside their fields, exactly where no header that it comes to has
its name cut in the middle of `TRAILER!!!` by the end of the archive, and every record
that ends in the archive has a NUL in the field of its name.
-/

namespace PpoOS

variable {m : Memory} {stop p q : U64} {room n : Nat} {f : RamFile}

/-! ## The comparison with the trailer -/

/-- How far `strcmp` looks at `s`, which is at least as long as what it is compared with. -/
theorem strcmpReads_le_iff {cs : List U8} (h0 : 0#8 ∉ cs) {s : List U8} (hs : cs.length < s.length) {r : Nat}
    (hr : r ≠ 0) : Checked.strcmpReads s (cs ++ [0#8]) ≤ r ↔ ¬(r ≤ cs.length ∧ s.take r = cs.take r) := by
  induction cs generalizing s r with
  | nil =>
    obtain ⟨a, s, rfl⟩ := List.exists_cons_of_length_pos hs
    have hone : Checked.strcmpReads (a :: s) ([] ++ [0#8]) = 1 := if_neg fun h => h.2.1 rfl
    rw [hone, List.length_nil]
    omega
  | cons b cs ih =>
    obtain ⟨a, s, rfl⟩ := List.exists_cons_of_length_pos (Nat.zero_lt_of_lt hs)
    obtain ⟨r, rfl⟩ := Nat.exists_eq_succ_of_ne_zero hr
    have hb : b ≠ 0#8 := fun h => h0 (by simp [h])
    rw [List.take_succ_cons, List.take_succ_cons, List.length_cons, Nat.succ_le_succ_iff, List.cons.injEq]
    by_cases hab : a = b
    · have hmore : Checked.strcmpReads (a :: s) (b :: cs ++ [0#8]) =
          Checked.strcmpReads s (cs ++ [0#8]) + 1 := if_pos ⟨by rw [hab]; exact hb, hb, hab⟩
      rw [hmore, Nat.succ_le_succ_iff]
      by_cases hr0 : r = 0
      · subst hr0
        have hpos : 0 < Checked.strcmpReads s (cs ++ [0#8]) := by
          unfold Checked.strcmpReads
          split
          · split <;> omega
          · exact Nat.one_pos
        simp [hab]
        omega
      · rw [ih (fun h => h0 (List.mem_cons_of_mem _ h)) (Nat.lt_of_succ_lt_succ hs) hr0]
        simp [hab]
    · have hone : Checked.strcmpReads (a :: s) (b :: cs ++ [0#8]) = 1 := if_neg fun h => hab h.2.2
      rw [hone]
      simp [hab]

/-- The archive ends in the middle of the name, and what it has of it begins `TRAILER!!!`. -/
def CutTrailer (m : Memory) (stop name : U64) : Prop :=
  stop.toNat - name.toNat ≤ trailerName.length ∧
    m.bytes (.addr name) (stop.toNat - name.toNat) = trailerName.chars.take (stop.toNat - name.toNat)

theorem isTrailer_checks {name : U64} (hname : name < stop) (namesize : U32) :
    Checks (Checked.isTrailer m stop namesize name) (namesize > 0#32 → ¬CutTrailer m stop name)
      (some (decide (namesize > 0#32 ∧ strEq m name trailerName = true))) := by
  have hlt : name.toNat < stop.toNat := hname
  have hreads := strcmpReads_le_iff (r := stop.toNat - name.toNat) trailerName.nonzero
    (s := m.bytes (.addr name) (trailerName.chars ++ [0#8]).length)
    (by rw [Memory.bytes_length, List.length_append, List.length_singleton]; omega) (by omega)
  have hiff : name.toNat + Checked.strcmpReads (m.bytes (.addr name) (trailerName.chars ++ [0#8]).length)
      (trailerName.chars ++ [0#8]) ≤ stop.toNat ↔ ¬CutTrailer m stop name := by
    rw [CutTrailer, CString.length]
    have hcut : stop.toNat - name.toNat ≤ trailerName.chars.length →
        (m.bytes (.addr name) (trailerName.chars ++ [0#8]).length).take (stop.toNat - name.toNat) =
          m.bytes (.addr name) (stop.toNat - name.toNat) := by
      intro hle
      rw [Memory.bytes_take, Nat.min_eq_left]
      rw [List.length_append, List.length_singleton]
      omega
    have hsub : name.toNat + Checked.strcmpReads
        (m.bytes (.addr name) (trailerName.chars ++ [0#8]).length) (trailerName.chars ++ [0#8]) ≤ stop.toNat ↔
        Checked.strcmpReads (m.bytes (.addr name) (trailerName.chars ++ [0#8]).length)
          (trailerName.chars ++ [0#8]) ≤ stop.toNat - name.toNat := by
      omega
    rw [hsub, hreads]
    exact not_congr (and_congr_right fun hle => by rw [hcut hle])
  have hguard : Checks (Checked.before stop name (Checked.strcmpReads
      (m.bytes (.addr name) (trailerName.chars ++ [0#8]).length) (trailerName.chars ++ [0#8])))
      (¬CutTrailer m stop name) (some ()) := (Checks.guarded ()).congr hiff
  unfold Checked.isTrailer
  by_cases hns : namesize > 0#32
  · rw [if_pos hns]
    exact ((hguard.after (f := fun _ => some (strEq m name trailerName)) fun _ => Checks.done _).congr
      ((and_iff_left trivial).trans ⟨fun h _ => h, fun h => h hns⟩)).result fun _ => by simp [hns]
  · rw [if_neg hns]
    exact ((Checks.done false).congr ⟨fun _ h => absurd h hns, fun _ => trivial⟩).result fun _ => by simp [hns]

/-! ## The headers that the parser comes to -/

/-- The parser comes from the header at the first place to the other one, over `n` entries. -/
inductive ChainTo (m : Memory) (stop : U64) : U64 → Nat → U64 → Prop
  | here (p : U64) : ChainTo m stop p 0 p
  | next {p q : U64} {n : Nat} (accepted : Accepted m stop p) (rest : ChainTo m stop (headerNext m p) n q) :
      ChainTo m stop p (n + 1) q

/-- The comparison of the header's name with `TRAILER!!!` does not go behind the end. -/
def ReadsInside (m : Memory) (stop p : U64) : Prop :=
  p + 110#64 < stop → memEq m p cpioNewcMagic = true → headerNamesize m p > 0#32 →
    ¬CutTrailer m stop (p + 110#64)

/-- What holds of the headers that are reached holds of the first one and of those behind it. -/
theorem chain_succ_iff {R : U64 → Prop} : (∀ n < room + 1, ∀ q, ChainTo m stop p n q → R q) ↔
    R p ∧ (Accepted m stop p → ∀ n < room, ∀ q, ChainTo m stop (headerNext m p) n q → R q) := by
  constructor
  · intro h
    exact ⟨h 0 (Nat.zero_lt_succ _) p (.here p), fun hacc n hn q hq =>
      h (n + 1) (Nat.succ_lt_succ hn) q (.next hacc hq)⟩
  · rintro ⟨hp, hrest⟩ n hn q hq
    cases hq with
    | here => exact hp
    | next accepted rest => exact hrest accepted _ (Nat.lt_of_succ_lt_succ hn) q rest

theorem checkedScan_checks (room : Nat) (hstop : stop.toNat + 128 ≤ 2 ^ 64) (hp : p.toNat ≤ stop.toNat) :
    Checks (Checked.initramfsScan m stop room p)
      (∀ n < room, ∀ q, ChainTo m stop p n q → ReadsInside m stop q)
      (some (initramfsScan m stop room p)) := by
  induction room generalizing p with
  | zero => exact (Checks.done _).congr ⟨fun _ n hn => absurd hn (Nat.not_lt_zero n), fun _ => trivial⟩
  | succ room ih =>
    have hadd : ∀ k : U64, k.toNat ≤ 110 → (p + k).toNat = p.toNat + k.toNat :=
      fun k hk => toNat_add_of_lt (by omega)
    have h110 : (p + 110#64).toNat = p.toNat + 110 := hadd 110#64 (by decide)
    rw [Checked.initramfsScan]
    -- a header that the loop does not get past
    have hstops : ∀ {x : Option (List RamFile)}, ¬Accepted m stop p → Checks x (ReadsInside m stop p) (some []) →
        Checks x (∀ n < room + 1, ∀ q, ChainTo m stop p n q → ReadsInside m stop q)
          (some (initramfsScan m stop (room + 1) p)) := by
      intro x hrej hx
      rw [initramfsScan_rejected hrej]
      exact hx.congr (chain_succ_iff.trans (and_iff_left fun hacc => absurd hacc hrej)).symm
    by_cases hin : p + 110#64 < stop
    swap
    · rw [if_neg hin]
      exact hstops (fun hacc => hin hacc.inside)
        ((Checks.done _).congr ⟨fun _ h => absurd h hin, fun _ => trivial⟩)
    have hlt : p.toNat + 110 < stop.toNat := by
      rw [← h110]
      exact hin
    rw [if_pos hin]
    have hguard : ∀ (k : U64) (n : Nat), k.toNat + n ≤ 110 → Checked.before stop (p + k) n = some () := by
      intro k n hk
      have hk' := hadd k (by omega)
      exact if_pos (by omega)
    have hmagicLen : cpioNewcMagic.length = 6 := rfl
    have hfirst : Checked.before stop p cpioNewcMagic.length = some () := if_pos (by omega)
    rw [hfirst, Option.bind_eq_bind, Option.bind_some]
    by_cases hmagic : memEq m p cpioNewcMagic = true
    swap
    · rw [if_neg hmagic]
      exact hstops (fun hacc => hmagic hacc.magic)
        ((Checks.done _).congr ⟨fun _ _ h => absurd h hmagic, fun _ => trivial⟩)
    rw [if_pos hmagic, hguard 94#64 8 (by decide), Option.bind_some, hguard 54#64 8 (by decide),
      Option.bind_some]
    -- the comparison with the trailer
    have htrailer := (isTrailer_checks (m := m) hin (headerNamesize m p)).congr
      (Q := ReadsInside m stop p) ⟨fun h _ _ => h, fun h => h hin hmagic⟩
    by_cases hentry : headerNamesize m p > 0#32 ∧ strEq m (p + 110#64) trailerName = true
    · rw [decide_eq_true hentry] at htrailer
      exact hstops (fun hacc => hacc.entry hentry)
        ((htrailer.after fun _ => Checks.done []).congr (and_iff_left trivial))
    rw [decide_eq_false hentry] at htrailer
    by_cases hfits : headerNext m p > stop
    · refine hstops (fun hacc => hacc.fits hfits) ((htrailer.after (Q := True) fun _ => ?_).congr (and_iff_left trivial))
      rw [if_neg Bool.false_ne_true, if_pos hfits]
      exact Checks.done []
    · have hacc : Accepted m stop p := ⟨hin, hmagic, hentry, hfits⟩
      have hrest := ih (p := headerNext m p) hacc.next_le
      rw [initramfsScan_accepted hacc]
      refine (htrailer.after (Q := ∀ n < room, ∀ q, ChainTo m stop (headerNext m p) n q → ReadsInside m stop q)
        fun _ => ?_).congr ?_
      · rw [if_neg Bool.false_ne_true, if_neg hfits]
        exact (hrest.after (f := fun files => some (headerFile m p :: files)) fun _ => Checks.done _).congr
          (and_iff_left trivial)
      · rw [chain_succ_iff]
        exact and_congr_right fun _ => ⟨fun h _ => h, fun h => h hacc⟩

/-! ## The names -/

/-- The name of the entry ends inside of the field of its header; `namesize` stands 16 bytes in front of
the name. -/
def NamedInside (m : Memory) (f : RamFile) : Prop :=
  ∃ k, k < (hex2u32 (m.bytes (.addr (f.name - 16#64)) 8)).toNat ∧ m.other (f.name + BitVec.ofNat 64 k) = 0#8

/-- The field of the header's name holds a NUL. -/
def NameEnds (m : Memory) (p : U64) : Prop :=
  ∃ k, k < (headerNamesize m p).toNat ∧ m.other (p + 110#64 + BitVec.ofNat 64 k) = 0#8

theorem namedInside_iff : NamedInside m (headerFile m p) ↔ NameEnds m p := by
  have hback : p + 110#64 - 16#64 = p + 94#64 := by
    rw [BitVec.sub_eq_add_neg, BitVec.add_assoc]
    rfl
  unfold NamedInside NameEnds headerNamesize headerFile
  dsimp only
  rw [hback]

theorem scan_named_iff : (∀ f ∈ initramfsScan m stop room p, NamedInside m f) ↔
    ∀ n < room, ∀ q, ChainTo m stop p n q → Accepted m stop q → NameEnds m q := by
  induction room generalizing p with
  | zero => exact ⟨fun _ n hn => absurd hn (Nat.not_lt_zero n), fun _ => nofun⟩
  | succ room ih =>
    rw [chain_succ_iff]
    by_cases hacc : Accepted m stop p
    · rw [initramfsScan_accepted hacc, List.forall_mem_cons, namedInside_iff, ih]
      exact and_congr ⟨fun h _ => h, fun h => h hacc⟩ ⟨fun h _ => h, fun h => h hacc⟩
    · rw [initramfsScan_rejected hacc]
      exact ⟨fun _ => ⟨fun h => absurd h hacc, fun h => absurd h hacc⟩, fun _ => nofun⟩

/-- The parser reads nothing behind the archive, and the names that it stores end in their fields. -/
structure ParserSafe (m : Memory) (base len : U64) : Prop where
  reads : Checked.initramfsScan m (base + len) 16 base = some (initramfsScan m (base + len) 16 base)
  names : ∀ f ∈ initramfsScan m (base + len) 16 base, NamedInside m f

/-- The name of the header is not cut in the middle of `TRAILER!!!`, and if the record ends in the
archive, its name ends in its field. -/
structure HeaderSafe (m : Memory) (stop p : U64) : Prop where
  trailer : ReadsInside m stop p
  name : Accepted m stop p → NameEnds m p

/-- **The parser is safe** exactly where the first sixteen headers that it comes to are. -/
theorem initramfs_safe_iff (m : Memory) (base len : U64) (hfit : base.toNat + len.toNat + 128 ≤ 2 ^ 64) :
    ParserSafe m base len ↔ ∀ n < 16, ∀ p, ChainTo m (base + len) base n p → HeaderSafe m (base + len) p := by
  have hsum := toNat_add_of_lt (a := base) (b := len) (by omega)
  have hchecks : Checks (Checked.initramfsScan m (base + len) 16 base) _ _ :=
    checkedScan_checks 16 (by omega) (by omega)
  constructor
  · rintro ⟨hreads, hnames⟩ n hn p hp
    exact ⟨hchecks.isSome_iff.mp (by rw [hreads]; rfl) n hn p hp, scan_named_iff.mp hnames n hn p hp⟩
  · intro h
    exact ⟨(hchecks.passes fun n hn p hp => (h n hn p hp).trailer).1,
      scan_named_iff.mpr fun n hn p hp => (h n hn p hp).name⟩

theorem initramfs_safe_threeFiles : ParserSafe archiveFs.mem 4096#64 512#64 ↔
    ∀ n < 16, ∀ p, ChainTo archiveFs.mem (4096#64 + 512#64) 4096#64 n p →
      HeaderSafe archiveFs.mem (4096#64 + 512#64) p :=
  initramfs_safe_iff archiveFs.mem 4096#64 512#64 (by decide)

/-- A header with a name of two bytes, `ab`, and no NUL in it. -/
def unendedArchive : List U8 :=
  cpioNewcMagic ++ List.replicate 88 0x30#8 ++ hexChars 8 2 ++ List.replicate 8 0x30#8 ++ [0x61#8, 0x62#8]

/-- A header with a name of eleven bytes, and an archive that ends behind four of them. -/
def cutArchive : List U8 :=
  cpioNewcMagic ++ List.replicate 88 0x30#8 ++ hexChars 8 11 ++ List.replicate 8 0x30#8 ++ trailerName.chars.take 4

theorem unendedArchive_not_safe : ¬ParserSafe (Memory.loaded 4096#64 unendedArchive) 4096#64 112#64 ∧
    ¬ParserSafe (Memory.loaded 4096#64 cutArchive) 4096#64 114#64 := by
  constructor
  · intro h
    have hfile : headerFile (Memory.loaded 4096#64 unendedArchive) 4096#64 ∈
        initramfsScan (Memory.loaded 4096#64 unendedArchive) (4096#64 + 112#64) 16 4096#64 := by
      decide +kernel
    obtain ⟨k, hk, hzero⟩ := namedInside_iff.mp (h.names _ hfile)
    have hall : ∀ k < 2,
        (Memory.loaded 4096#64 unendedArchive).other (4096#64 + 110#64 + BitVec.ofNat 64 k) ≠ 0#8 := by
      decide +kernel
    exact hall k (Nat.lt_of_lt_of_le hk (by decide +kernel)) hzero
  · intro h
    have hnone : Checked.initramfsScan (Memory.loaded 4096#64 cutArchive) (4096#64 + 114#64) 16 4096#64 = none := by
      decide +kernel
    have hreads := h.reads
    rw [hnone] at hreads
    cases hreads

end PpoOS
