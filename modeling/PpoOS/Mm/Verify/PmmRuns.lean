import PpoOS.Mm.Verify.Pmm
import PpoOS.Lib.Transition

/-!
# The allocator over whole runs

`pmmInit_used` says which frames `pmm_init` leaves free: the full frames of the
usable entries, less those of the kernel image and of the bitmap.  From there a
run of allocations and releases keeps the free frames and the held ones apart
(`Holds`), so that every frame handed out is a usable one that nobody holds.
-/

namespace PpoOS

open Transition

/-! ## The loops of `pmm_init` -/

/-- `frame` is one of the frames a loop from `start` to `stop` visits. -/
def InFrames (start stop : U64) (frame : Nat) : Prop :=
  start.toNat ≤ frame ∧ frame < stop.toNat

instance (start stop : U64) (frame : Nat) : Decidable (InFrames start stop frame) := by
  unfold InFrames; infer_instance

theorem mem_frames {start stop : U64} {f : Nat} :
    f ∈ List.range' start.toNat (stop.toNat - start.toNat) ↔ InFrames start stop f := by
  rw [List.mem_range'_1, InFrames]
  omega

/-- A loop whose body sets the bit of its frame to `b`, for managed frames, sets it for all the
frames it visits. -/
theorem foldl_used {body : Pmm → Nat → Pmm} {b : Bool}
    (hbody : ∀ p g f, f < 2 ^ 20 → (body p g).used f = if f = g then b else p.used f) (f : Nat)
    (hf : f < 2 ^ 20) (fs : List Nat) : ∀ p : Pmm,
    (fs.foldl body p).used f = if f ∈ fs then b else p.used f := by
  induction fs with
  | nil => intro p; rfl
  | cons g fs ih =>
    intro p
    rw [List.foldl_cons, ih, hbody p g f hf]
    by_cases hfs : f ∈ fs
    · simp [hfs]
    · by_cases hfg : f = g
      · simp [hfg]
      · simp [hfs, hfg]

theorem pmmMarkFree_used (p : Pmm) (g f : Nat) (hf : f < 2 ^ 20) :
    (pmmMarkFree p g).used f = if f = g then false else p.used f := by
  unfold pmmMarkFree
  split
  · next hg =>
    have hfg : f ≠ g := by
      rw [pmmMaxPhysAddr_eq] at hg
      omega
    rw [if_neg hfg]
  · by_cases hfg : f = g
    · simp [Pmm.used, pmmBitmapTest_unset, hfg]
    · simp [Pmm.used, pmmBitmapTest_unset, hfg]

theorem pmmMarkUsed_used (p : Pmm) (g f : Nat) (hf : f < 2 ^ 20) :
    (pmmMarkUsed p g).used f = if f = g then true else p.used f := by
  unfold pmmMarkUsed
  split
  · next hg =>
    have hfg : f ≠ g := by
      rw [pmmMaxPhysAddr_eq] at hg
      omega
    rw [if_neg hfg]
  · by_cases hfg : f = g
    · simp [Pmm.used, pmmBitmapTest_set, hfg]
    · simp [Pmm.used, pmmBitmapTest_set, hfg]

theorem forFrames_markUsed (start stop : U64) (p : Pmm) {f : Nat} (hf : f < 2 ^ 20) :
    (forFrames start stop pmmMarkUsed p).used f =
      if InFrames start stop f then true else p.used f := by
  rw [forFrames, foldl_used pmmMarkUsed_used f hf]
  simp only [mem_frames]

/-- The frames a usable entry contributes. -/
def EntryFrames (entry : MemmapEntry) (frame : Nat) : Prop :=
  entry.type = limineMemmapUsable ∧
    InFrames ((entry.base + pageSize - 1#64) / pageSize) ((entry.base + entry.length) / pageSize)
      frame

instance (entry : MemmapEntry) (frame : Nat) : Decidable (EntryFrames entry frame) := by
  unfold EntryFrames; infer_instance

theorem pmmAddEntry_used (p : Pmm) (entry : MemmapEntry) {f : Nat} (hf : f < 2 ^ 20) :
    (pmmAddEntry p entry).used f = if EntryFrames entry f then false else p.used f := by
  unfold pmmAddEntry EntryFrames
  by_cases ht : entry.type = limineMemmapUsable
  · rw [if_pos ht, forFrames, foldl_used pmmMarkFree_used f hf]
    simp only [mem_frames, ht, true_and]
  · simp [ht]

theorem foldl_addEntry_used (entries : List MemmapEntry) {f : Nat} (hf : f < 2 ^ 20) :
    ∀ p : Pmm, (entries.foldl pmmAddEntry p).used f = false ↔
      p.used f = false ∨ ∃ entry ∈ entries, EntryFrames entry f := by
  induction entries with
  | nil => intro p; simp
  | cons entry entries ih =>
    intro p
    rw [List.foldl_cons, ih, pmmAddEntry_used p entry hf]
    by_cases he : EntryFrames entry f
    · simp [he]
    · simp [he]

theorem pmmMarkAll_used (p : Pmm) {f : Nat} (hf : f < 2 ^ 20) : (pmmMarkAll p).used f = true := by
  have hbyte : f / 8 < pmmBitmapSize := by
    have hs : pmmBitmapSize = 2 ^ 17 := by decide
    omega
  have h8 : f % 8 < 8 := Nat.mod_lt _ (by omega)
  have hall : (0xFF#8 : U8) = BitVec.allOnes 8 := by decide
  rw [Pmm.used, pmmBitmapTest_eq, pmmMarkAll]
  simp only [if_pos hbyte, hall, BitVec.getLsbD_allOnes, decide_eq_true_eq]
  exact h8

/-- **Initialisation.**  A frame is free afterwards exactly when a usable entry contributes it and
neither the kernel image nor the bitmap takes it. -/
theorem pmmInit_used {b : BootInfo} {p p' : Pmm} (h : pmmInit b p = some p') {f : Nat}
    (hf : f < 2 ^ 20) :
    p'.used f = false ↔ ∃ entries ka, b.memmap = some entries ∧ b.kernelAddress = some ka ∧
      (∃ entry ∈ entries, EntryFrames entry f) ∧
      ¬InFrames (kernelStartFrame ka) (kernelEndFrame ka b.kernelEnd) f ∧
      ¬InFrames (b.pmmBitmapAddr / pageSize)
        ((b.pmmBitmapAddr + BitVec.ofNat 64 pmmBitmapSize + pageSize - 1#64) / pageSize) f := by
  unfold pmmInit at h
  obtain ⟨entries, hentries, h⟩ := Option.bind_eq_some_iff.mp h
  obtain ⟨ka, hka, h⟩ := Option.bind_eq_some_iff.mp h
  cases h
  rw [hentries, hka]
  have hadd := foldl_addEntry_used entries hf (pmmMarkAll p)
  rw [pmmMarkAll_used p hf] at hadd
  have hreset : ∀ q : Pmm, (pmmResetIndex q).used f = q.used f := fun _ => rfl
  rw [hreset, forFrames_markUsed _ _ _ hf, forFrames_markUsed _ _ _ hf]
  constructor
  · intro hu
    split at hu
    · cases hu
    · next hbm =>
      split at hu
      · cases hu
      · next hkr =>
        have hor := hadd.mp hu
        refine ⟨entries, ka, rfl, rfl, ?_, hkr, hbm⟩
        simpa using hor
  · intro hex
    obtain ⟨entries', ka', he, hk, hent, hkr, hbm⟩ := hex
    cases he
    cases hk
    rw [if_neg hbm, if_neg hkr]
    exact hadd.mpr (Or.inr hent)

/-! ## Runs of the allocator -/

/-- A call of the allocator: an allocation with its result, or a release with its argument. -/
inductive PmmOp where
  | alloc (result : U64)
  | free (physAddr : U64)

/-- The allocator and the addresses its callers hold. -/
structure Holding where
  pmm : Pmm
  held : List U64

/-- One call.  Callers release what they hold; what `pmm_free_frame` refuses they pass at will. -/
inductive HoldStep : Holding → PmmOp → Holding → Prop
  | alloc (s : Holding) :
      HoldStep s (.alloc (pmmAllocFrame s.pmm).1)
        ⟨(pmmAllocFrame s.pmm).2,
          if (pmmAllocFrame s.pmm).1 = 0#64 then s.held else (pmmAllocFrame s.pmm).1 :: s.held⟩
  | free (s : Holding) (physAddr : U64)
      (held : physAddr.toNat % 4096 = 0 → physAddr.toNat < s.pmm.highestAddress →
        physAddr ∈ s.held) :
      HoldStep s (.free physAddr) ⟨pmmFreeFrame physAddr s.pmm, s.held.filter (· ≠ physAddr)⟩

/-- The free frames and the held ones are apart, and all of them were free at first. -/
structure Holds (p₀ : Pmm) (s : Holding) : Prop where
  maxBits : s.pmm.maxBits = p₀.maxBits
  apart : ∀ f, f < s.pmm.maxBits → s.pmm.used f = false →
    p₀.used f = false ∧ frameAddr f ∉ s.held
  held : ∀ a ∈ s.held, ∃ f, p₀.Free f ∧ a = frameAddr f

/-- A frame that is free now was free at first and is not held. -/
theorem Holds.free {p₀ : Pmm} {s : Holding} (h : Holds p₀ s) {f : Nat} (hf : s.pmm.Free f) :
    p₀.Free f ∧ frameAddr f ∉ s.held := by
  obtain ⟨hu, hheld⟩ := h.apart f hf.lt_maxBits hf.2.2
  exact ⟨⟨hf.1, h.maxBits ▸ hf.lt_maxBits, hu⟩, hheld⟩

theorem Holds.alloc {p₀ : Pmm} {s : Holding} (h : Holds p₀ s) :
    Holds p₀ ⟨(pmmAllocFrame s.pmm).2,
      if (pmmAllocFrame s.pmm).1 = 0#64 then s.held else (pmmAllocFrame s.pmm).1 :: s.held⟩ := by
  rcases pmmAllocFrame_cases s.pmm with ⟨c, pm, hc, hf, hmax, hused⟩ | ⟨-, hf⟩
  · have hcb : c < 2 ^ 52 := Nat.lt_trans hc.lt (by omega)
    rw [hf, if_neg (frameAddr_ne_zero hcb hc.pos)]
    refine ⟨hmax.trans h.maxBits, ?_, ?_⟩
    · intro f hfm hu
      dsimp only at hfm hu ⊢
      rw [hused f, Bool.or_eq_false_iff, decide_eq_false_iff_not] at hu
      rw [hmax] at hfm
      obtain ⟨hu₀, hheld⟩ := h.apart f hfm hu.2
      have hfb := Nat.lt_of_lt_of_le hfm s.pmm.maxBits_le
      refine ⟨hu₀, ?_⟩
      rw [List.mem_cons, not_or]
      exact ⟨fun heq => hu.1 (frameAddr_inj (by omega) hcb heq), hheld⟩
    · intro a ha
      rcases List.mem_cons.mp ha with ha | ha
      · exact ⟨c, (h.free hc).1, ha⟩
      · exact h.held a ha
  · rw [hf, if_pos rfl]
    exact h

theorem Holds.release {p₀ : Pmm} {s : Holding} (h : Holds p₀ s) {a : U64}
    (ha : a.toNat % 4096 = 0 → a.toNat < s.pmm.highestAddress → a ∈ s.held) :
    Holds p₀ ⟨pmmFreeFrame a s.pmm, s.held.filter (· ≠ a)⟩ := by
  refine ⟨(pmmFreeFrame_maxBits a s.pmm).trans h.maxBits, ?_, ?_⟩
  · intro f hfm hu
    dsimp only at hfm hu ⊢
    rw [pmmFreeFrame_maxBits] at hfm
    have hfb := Nat.lt_of_lt_of_le hfm s.pmm.maxBits_le
    rw [List.mem_filter, not_and_or]
    by_cases hfa : frameAddr f = a
    · -- the released frame: its holder held it, so it was free at first
      have hto : a.toNat = f * 4096 := by rw [← hfa, frameAddr_toNat (by omega)]
      have hhigh : a.toNat < s.pmm.highestAddress := by
        have := s.pmm.highest_aligned
        unfold Pmm.maxBits at hfm
        omega
      obtain ⟨g, hg, hga⟩ := h.held a (ha (by omega) hhigh)
      have hfg : f = g := frameAddr_inj (by omega) (Nat.lt_trans hg.lt (by omega)) (hfa.trans hga)
      exact ⟨hfg ▸ hg.2.2, Or.inr (by simp [hfa])⟩
    · have hne : ¬(a.toNat % 4096 = 0 ∧ f = a.toNat / 4096 ∧ f < s.pmm.maxBits) := by
        intro hc
        apply hfa
        apply BitVec.eq_of_toNat_eq
        rw [frameAddr_toNat (by omega)]
        omega
      rw [pmmFreeFrame_used, decide_eq_false hne] at hu
      obtain ⟨hu₀, hheld⟩ := h.apart f hfm (by simpa using hu)
      exact ⟨hu₀, Or.inl hheld⟩
  · intro b hb
    exact h.held b (List.mem_of_mem_filter hb)

theorem Holds.step {p₀ : Pmm} {s t : Holding} {op : PmmOp} (h : Holds p₀ s)
    (hstep : HoldStep s op t) : Holds p₀ t := by
  cases hstep with
  | alloc => exact h.alloc
  | free a ha => exact h.release ha

theorem Holds.init (p₀ : Pmm) : Holds p₀ ⟨p₀, []⟩ :=
  ⟨rfl, fun _ _ hu => ⟨hu, List.not_mem_nil⟩, fun _ ha => absurd ha List.not_mem_nil⟩

/-- What `pmm_init` promises about an address it leaves free. -/
structure UsableFrame (b : BootInfo) (a : U64) : Prop where
  aligned : a.toNat % 4096 = 0
  low : 0x100000 ≤ a.toNat
  high : a.toNat + 4096 ≤ 4 * 1024 * 1024 * 1024
  inside : ∃ entries, b.memmap = some entries ∧ ∃ entry ∈ entries,
    entry.type = limineMemmapUsable ∧ entry.base.toNat ≤ a.toNat ∧
      a.toNat + 4096 ≤ entry.base.toNat + entry.length.toNat
  kernel : ∀ ka, b.kernelAddress = some ka →
    ¬InFrames (kernelStartFrame ka) (kernelEndFrame ka b.kernelEnd) (a.toNat / 4096)

/-- The frames an entry contributes lie inside it, when its end does not wrap. -/
theorem entryFrames_inside {entry : MemmapEntry} {f : Nat} (h : EntryFrames entry f)
    (hw : entry.base.toNat + entry.length.toNat < 2 ^ 64 - 4096) :
    entry.base.toNat ≤ f * 4096 ∧ f * 4096 + 4096 ≤ entry.base.toNat + entry.length.toNat := by
  obtain ⟨-, hlow, hhigh⟩ := h
  have hp : pageSize.toNat = 4096 := by decide
  have h1 : (1#64).toNat = 1 := by decide
  rw [BitVec.toNat_udiv, BitVec.toNat_sub, BitVec.toNat_add, hp, h1] at hlow
  rw [BitVec.toNat_udiv, BitVec.toNat_add, hp] at hhigh
  omega

theorem usableFrame_of_free {b : BootInfo} {p p₀ : Pmm} (h : pmmInit b p = some p₀)
    (hw : ∀ entries, b.memmap = some entries → ∀ entry ∈ entries,
      entry.base.toNat + entry.length.toNat < 2 ^ 64 - 4096) {f : Nat} (hf : p₀.Free f) :
    UsableFrame b (frameAddr f) := by
  have hlt := hf.lt
  have hlow := hf.1
  have ha : (frameAddr f).toNat = f * 4096 := frameAddr_toNat (by omega)
  have hfr : (frameAddr f).toNat / 4096 = f := by rw [ha, Nat.mul_div_cancel _ (by omega)]
  obtain ⟨entries, ka, hent, hka, ⟨entry, hmem, hfr'⟩, hker, -⟩ := (pmmInit_used h hlt).mp hf.2.2
  obtain ⟨hbase, hend⟩ := entryFrames_inside hfr' (hw entries hent entry hmem)
  refine ⟨by omega, by omega, by omega, ?_, ?_⟩
  · exact ⟨entries, hent, entry, hmem, hfr'.1, by omega, by omega⟩
  · intro ka' hka'
    rw [hka] at hka'
    cases hka'
    rw [hfr]
    exact hker

/-- **Every frame handed out is a usable one that nobody holds**, after any run of allocations and
releases from the initialised allocator. -/
theorem pmmAllocFrame_usable {b : BootInfo} {p p₀ : Pmm} (hinit : pmmInit b p = some p₀)
    (hwrap : ∀ entries, b.memmap = some entries → ∀ entry ∈ entries,
      entry.base.toNat + entry.length.toNat < 2 ^ 64 - 4096)
    {s t : Holding} {ops : List PmmOp} (hrun : Run HoldStep ⟨p₀, []⟩ ops s) {a : U64}
    (halloc : HoldStep s (.alloc a) t) (ha : a ≠ 0#64) : UsableFrame b a ∧ a ∉ s.held := by
  have hholds : Holds p₀ s :=
    hrun.invariant (I := Holds p₀) (fun _ _ _ h hs => h.step hs) (Holds.init p₀)
  cases halloc with
  | alloc =>
    rcases pmmAllocFrame_cases s.pmm with ⟨c, pm, hc, hf, -, -⟩ | ⟨-, hf⟩
    · rw [hf]
      obtain ⟨hc₀, hheld⟩ := hholds.free hc
      exact ⟨usableFrame_of_free hinit hwrap hc₀, hheld⟩
    · rw [hf] at ha
      exact absurd rfl ha

/-- A machine with three usable frames above 1 MiB, the end of the last entry cut off, a reserved
entry and its kernel below. -/
def threeFrameBoot : BootInfo where
  memmap := some [⟨0x100000#64, 0x1000#64, limineMemmapUsable⟩, ⟨0x101000#64, 0x1000#64, 1#64⟩,
    ⟨0x101800#64, 0x2900#64, limineMemmapUsable⟩]
  kernelAddress := some ⟨0x8000#64, 0xFFFFFFFF80000000#64⟩
  kernelEnd := 0xFFFFFFFF80001000#64
  pmmBitmapAddr := 0xFFFFFFFF80002000#64

def emptyPmm : Pmm where
  bitmap := fun _ => 0#8
  lastAllocIndex := 0
  highestAddress := 0
  highest_aligned := Nat.dvd_zero _
  highest_le := Nat.zero_le _
  lastAllocIndex_le := Nat.le_refl _

theorem threeFrameBoot_init : (pmmInit threeFrameBoot emptyPmm).isSome = true := by
  decide +kernel

def threeFramePmm : Pmm := (pmmInit threeFrameBoot emptyPmm).get threeFrameBoot_init

/-- Three allocations take every frame; the second one is released again, after a release of an
address inside it that is refused. -/
def threeFrameOps : List PmmOp :=
  [.alloc 0x100000#64, .alloc 0x102000#64, .alloc 0x103000#64, .alloc 0#64,
    .free 0x102800#64, .free 0x102000#64]

/-- The allocator after `n` allocations. -/
def threeFrameAllocs : Nat → Pmm
  | 0 => threeFramePmm
  | n + 1 => (pmmAllocFrame (threeFrameAllocs n)).2

theorem threeFrame_results : (pmmAllocFrame (threeFrameAllocs 0)).1 = 0x100000#64 ∧
    (pmmAllocFrame (threeFrameAllocs 1)).1 = 0x102000#64 ∧
    (pmmAllocFrame (threeFrameAllocs 2)).1 = 0x103000#64 ∧
    (pmmAllocFrame (threeFrameAllocs 3)).1 = 0#64 := by
  decide +kernel

theorem threeFrame_alloc {n : Nat} {a : U64} {held held' : List U64}
    (h : (pmmAllocFrame (threeFrameAllocs n)).1 = a)
    (hheld : (if a = 0#64 then held else a :: held) = held') :
    HoldStep ⟨threeFrameAllocs n, held⟩ (.alloc a) ⟨threeFrameAllocs (n + 1), held'⟩ := by
  subst h hheld
  rw [threeFrameAllocs]
  exact .alloc ⟨threeFrameAllocs n, held⟩

theorem threeFrame_free {p : Pmm} {a : U64} {held held' : List U64}
    (h : a.toNat % 4096 = 0 → a ∈ held) (hheld : held.filter (· ≠ a) = held') :
    HoldStep ⟨p, held⟩ (.free a) ⟨pmmFreeFrame a p, held'⟩ := by
  subst hheld
  exact .free ⟨p, held⟩ a fun haligned _ => h haligned

/-- The two frames that are held after `threeFrameOps`. -/
def threeFrameHolding : Holding :=
  ⟨pmmFreeFrame 0x102000#64 (pmmFreeFrame 0x102800#64 (threeFrameAllocs 4)),
    [0x103000#64, 0x100000#64]⟩

theorem threeFrame_run : Run HoldStep ⟨threeFramePmm, []⟩ threeFrameOps threeFrameHolding := by
  obtain ⟨h₀, h₁, h₂, h₃⟩ := threeFrame_results
  have a₀ : HoldStep ⟨threeFrameAllocs 0, []⟩ _ ⟨_, [0x100000#64]⟩ :=
    threeFrame_alloc h₀ (if_neg (by decide))
  have a₁ : HoldStep _ _ ⟨_, [0x102000#64, 0x100000#64]⟩ :=
    threeFrame_alloc h₁ (if_neg (by decide))
  have a₂ : HoldStep _ _ ⟨_, [0x103000#64, 0x102000#64, 0x100000#64]⟩ :=
    threeFrame_alloc h₂ (if_neg (by decide))
  have a₃ : HoldStep _ _ ⟨_, [0x103000#64, 0x102000#64, 0x100000#64]⟩ :=
    threeFrame_alloc h₃ (if_pos rfl)
  have f₁ : HoldStep ⟨threeFrameAllocs 4, [0x103000#64, 0x102000#64, 0x100000#64]⟩
      (.free 0x102800#64) ⟨_, [0x103000#64, 0x102000#64, 0x100000#64]⟩ :=
    threeFrame_free (by decide) (by decide)
  have f₂ : HoldStep ⟨pmmFreeFrame 0x102800#64 (threeFrameAllocs 4),
      [0x103000#64, 0x102000#64, 0x100000#64]⟩ (.free 0x102000#64) threeFrameHolding :=
    threeFrame_free (by decide) (by decide)
  rw [← threeFrameAllocs]
  exact .cons a₀ (.cons a₁ (.cons a₂ (.cons a₃ (.cons f₁ (.cons f₂ (.nil _))))))

theorem threeFrame_again : (pmmAllocFrame threeFrameHolding.pmm).1 = 0x102000#64 := by
  decide +kernel

theorem pmmAllocFrame_usable_threeFrame : UsableFrame threeFrameBoot 0x102000#64 ∧
    0x102000#64 ∉ [0x103000#64, 0x100000#64] := by
  have hstep := HoldStep.alloc threeFrameHolding
  rw [threeFrame_again] at hstep
  refine pmmAllocFrame_usable (Option.some_get threeFrameBoot_init).symm ?_ threeFrame_run hstep
    (by decide)
  intro entries hentries entry hentry
  cases hentries
  simp only [List.mem_cons, List.not_mem_nil, or_false] at hentry
  rcases hentry with rfl | rfl | rfl <;> decide

end PpoOS
