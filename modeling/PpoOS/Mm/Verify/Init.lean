import PpoOS.Mm.Verify.PmmRuns

/-!
# What `pmm_init` leaves behind

* **Frames**: the bit of a frame is clear exactly where a usable entry holds the whole frame and
  the kernel has no byte in it, unless the start of a usable entry wraps when it is rounded up
  (`pmmInit_classifies_iff`).
* **The highest address** is only ever raised, to the end of a usable frame (`Raises`).
* **A second call** changes nothing (`pmmInit_again`).
-/

namespace PpoOS

/-! ## The highest address -/

theorem pmmMarkFree_highest (p : Pmm) (g : Nat) : (pmmMarkFree p g).highestAddress =
    if g < 2 ^ 20 then max p.highestAddress ((g + 1) * 4096) else p.highestAddress := by
  have hiff : g * 4096 ≥ pmmMaxPhysAddr ↔ ¬g < 2 ^ 20 := by
    rw [pmmMaxPhysAddr_eq]
    omega
  unfold pmmMarkFree
  by_cases hg : g < 2 ^ 20
  · rw [dif_neg (by omega), if_pos hg]
  · rw [dif_pos (hiff.mpr hg), if_neg hg]

/-- From `p` to `q` the highest address was raised to the ends of the frames in `S`. -/
structure Raises (S : Nat → Prop) (p q : Pmm) : Prop where
  le : p.highestAddress ≤ q.highestAddress
  above : ∀ f, S f → f < 2 ^ 20 → (f + 1) * 4096 ≤ q.highestAddress
  attained : q.highestAddress = p.highestAddress ∨
    ∃ f, S f ∧ f < 2 ^ 20 ∧ q.highestAddress = (f + 1) * 4096

namespace Raises

variable {S T : Nat → Prop} {p q r : Pmm}

theorem none (h : q.highestAddress = p.highestAddress) (hS : ∀ f, ¬S f) : Raises S p q :=
  ⟨Nat.le_of_eq h.symm, fun f hf => absurd hf (hS f), Or.inl h⟩

theorem trans (h : Raises S p q) (h' : Raises T q r) : Raises (fun f => S f ∨ T f) p r where
  le := Nat.le_trans h.le h'.le
  above := by
    rintro f (hf | hf) hlt
    · exact Nat.le_trans (h.above f hf hlt) h'.le
    · exact h'.above f hf hlt
  attained := by
    rcases h'.attained with heq | ⟨f, hf, hlt, heq⟩
    · rcases h.attained with heq' | ⟨f, hf, hlt, heq'⟩
      · exact Or.inl (heq.trans heq')
      · exact Or.inr ⟨f, Or.inl hf, hlt, heq.trans heq'⟩
    · exact Or.inr ⟨f, Or.inr hf, hlt, heq⟩

theorem congr (h : Raises S p q) (hST : ∀ f, S f ↔ T f) : Raises T p q where
  le := h.le
  above f hf := h.above f ((hST f).mpr hf)
  attained := h.attained.imp id fun ⟨f, hf, hlt, heq⟩ => ⟨f, (hST f).mp hf, hlt, heq⟩

/-- Raising once more to the same frames changes nothing. -/
theorem again (h : Raises S p q) (h' : Raises S q r) : r.highestAddress = q.highestAddress := by
  rcases h'.attained with heq | ⟨f, hf, hlt, heq⟩
  · exact heq
  · exact Nat.le_antisymm (heq ▸ h.above f hf hlt) h'.le

theorem markFree (p : Pmm) (g : Nat) : Raises (· = g) p (pmmMarkFree p g) := by
  have hhigh := pmmMarkFree_highest p g
  by_cases hg : g < 2 ^ 20
  · rw [if_pos hg] at hhigh
    refine ⟨by omega, ?_, ?_⟩
    · rintro f rfl -
      omega
    · rcases Nat.le_total p.highestAddress ((g + 1) * 4096) with hle | hle
      · exact Or.inr ⟨g, rfl, hg, by omega⟩
      · exact Or.inl (by omega)
  · rw [if_neg hg] at hhigh
    exact ⟨Nat.le_of_eq hhigh.symm, fun f hf hlt => absurd (hf ▸ hlt) hg, Or.inl hhigh⟩

theorem fold {α : Type} {body : Pmm → α → Pmm} {S : α → Nat → Prop} (hbody : ∀ p a, Raises (S a) p (body p a))
    (l : List α) : ∀ p, Raises (fun f => ∃ a ∈ l, S a f) p (l.foldl body p) := by
  induction l with
  | nil => exact fun p => Raises.none rfl fun f hf => by simp at hf
  | cons a l ih => exact fun p => ((hbody p a).trans (ih (body p a))).congr fun f => by simp

theorem addEntry (p : Pmm) (entry : MemmapEntry) : Raises (EntryFrames entry) p (pmmAddEntry p entry) := by
  unfold pmmAddEntry
  by_cases ht : entry.type = limineMemmapUsable
  · rw [if_pos ht, forFrames]
    refine (fold markFree _ p).congr fun f => ?_
    simp only [mem_frames, exists_eq_right', EntryFrames, ht, true_and]
  · rw [if_neg ht]
    exact Raises.none rfl fun f hf => ht hf.1

end Raises

theorem forFrames_markUsed_highest (start stop : U64) (p : Pmm) :
    (forFrames start stop pmmMarkUsed p).highestAddress = p.highestAddress := by
  unfold forFrames
  generalize List.range' start.toNat (stop.toNat - start.toNat) = fs
  induction fs generalizing p with
  | nil => rfl
  | cons f fs ih =>
    rw [List.foldl_cons, ih]
    unfold pmmMarkUsed
    split <;> rfl

theorem pmmResetIndex_highest (p : Pmm) : (pmmResetIndex p).highestAddress = p.highestAddress := rfl

theorem pmmResetIndex_bitmap (p : Pmm) : (pmmResetIndex p).bitmap = p.bitmap := rfl

/-! ## Bytes behind the bitmap -/

theorem pmmBitmap_byte_lt {f : Nat} (h : ¬f * 4096 ≥ pmmMaxPhysAddr) : f / 8 < pmmBitmapSize := by
  have hs : pmmBitmapSize = 131072 := by decide
  rw [pmmMaxPhysAddr_eq] at h
  omega

theorem pmmMarkFree_beyond (p : Pmm) (f : Nat) {i : Nat} (hi : pmmBitmapSize ≤ i) :
    (pmmMarkFree p f).bitmap i = p.bitmap i := by
  unfold pmmMarkFree
  split
  · rfl
  · next h => exact if_neg (by have := pmmBitmap_byte_lt h; omega)

theorem pmmMarkUsed_beyond (p : Pmm) (f : Nat) {i : Nat} (hi : pmmBitmapSize ≤ i) :
    (pmmMarkUsed p f).bitmap i = p.bitmap i := by
  unfold pmmMarkUsed
  split
  · rfl
  · next h => exact if_neg (by have := pmmBitmap_byte_lt h; omega)

/-- A loop that leaves a byte alone at every step leaves it alone. -/
theorem foldl_byte {α : Type} {body : Pmm → α → Pmm} {i : Nat} (hbody : ∀ p a, (body p a).bitmap i = p.bitmap i)
    (l : List α) : ∀ p, (l.foldl body p).bitmap i = p.bitmap i := by
  induction l with
  | nil => exact fun _ => rfl
  | cons a l ih => exact fun p => (ih _).trans (hbody p a)

theorem pmmAddEntry_beyond (p : Pmm) (entry : MemmapEntry) {i : Nat} (hi : pmmBitmapSize ≤ i) :
    (pmmAddEntry p entry).bitmap i = p.bitmap i := by
  unfold pmmAddEntry
  split
  · exact foldl_byte (fun q f => pmmMarkFree_beyond q f hi) _ p
  · rfl

/-! ## The whole call -/

section Init

variable {b : BootInfo} {p q : Pmm} {entries : List MemmapEntry} {ka : KernelAddress}

/-- What the second and the third step of a call do to the state after the first. -/
theorem pmmInit_run (hm : b.memmap = some entries) (hk : b.kernelAddress = some ka) (p : Pmm) :
    pmmInit b p = some (pmmResetIndex
      (forFrames (b.pmmBitmapAddr / pageSize)
        ((b.pmmBitmapAddr + BitVec.ofNat 64 pmmBitmapSize + pageSize - 1#64) / pageSize) pmmMarkUsed
        (forFrames (kernelStartFrame ka) (kernelEndFrame ka b.kernelEnd) pmmMarkUsed
          (entries.foldl pmmAddEntry (pmmMarkAll p))))) := by
  rw [pmmInit, hm, hk]
  rfl

theorem pmmInit_lastAllocIndex (h : pmmInit b p = some q) : q.lastAllocIndex = 0 := by
  obtain ⟨entries, -, h⟩ := Option.bind_eq_some_iff.mp h
  obtain ⟨ka, -, h⟩ := Option.bind_eq_some_iff.mp h
  cases h
  rfl

theorem pmmInit_raises (hm : b.memmap = some entries) (h : pmmInit b p = some q) :
    Raises (fun f => ∃ entry ∈ entries, EntryFrames entry f) p q := by
  obtain ⟨entries', hm', h⟩ := Option.bind_eq_some_iff.mp h
  obtain ⟨ka, hk, h⟩ := Option.bind_eq_some_iff.mp h
  rw [hm] at hm'
  cases hm'
  cases h
  have hadd := Raises.fold Raises.addEntry entries (pmmMarkAll p)
  refine ⟨?_, fun f hf hlt => ?_, ?_⟩ <;>
    rw [pmmResetIndex_highest, forFrames_markUsed_highest, forFrames_markUsed_highest]
  · exact hadd.le
  · exact hadd.above f hf hlt
  · exact hadd.attained

theorem pmmInit_beyond (h : pmmInit b p = some q) {i : Nat} (hi : pmmBitmapSize ≤ i) :
    q.bitmap i = p.bitmap i := by
  obtain ⟨entries, -, h⟩ := Option.bind_eq_some_iff.mp h
  obtain ⟨ka, -, h⟩ := Option.bind_eq_some_iff.mp h
  cases h
  rw [pmmResetIndex_bitmap, forFrames, foldl_byte (fun q f => pmmMarkUsed_beyond q f hi), forFrames,
    foldl_byte (fun q f => pmmMarkUsed_beyond q f hi), foldl_byte (fun q entry => pmmAddEntry_beyond q entry hi)]
  exact if_neg (Nat.not_lt.mpr hi)

theorem Pmm.eq_of {p q : Pmm} (hbitmap : p.bitmap = q.bitmap) (hlast : p.lastAllocIndex = q.lastAllocIndex)
    (hhigh : p.highestAddress = q.highestAddress) : p = q := by
  cases p
  cases q
  cases hbitmap
  cases hlast
  cases hhigh
  rfl

/-- Bitmaps with the same bits for the frames below 4 GiB, and the same bytes behind them. -/
theorem bitmap_ext (hused : ∀ f, f < 2 ^ 20 → p.used f = q.used f)
    (hbeyond : ∀ i, pmmBitmapSize ≤ i → p.bitmap i = q.bitmap i) : p.bitmap = q.bitmap := by
  have hs : pmmBitmapSize = 131072 := by decide
  funext i
  by_cases hi : pmmBitmapSize ≤ i
  · exact hbeyond i hi
  · apply BitVec.eq_of_getLsbD_eq
    intro j hj
    have hdiv : (8 * i + j) / 8 = i := by omega
    have hmod : (8 * i + j) % 8 = j := by omega
    have hbit := hused (8 * i + j) (by omega)
    rwa [Pmm.used, Pmm.used, pmmBitmapTest_eq, pmmBitmapTest_eq, hdiv, hmod] at hbit

/-- **A second call** finds everything as it leaves it. -/
theorem pmmInit_again (h : pmmInit b p = some q) : pmmInit b q = some q := by
  obtain ⟨entries, hm, -⟩ := Option.bind_eq_some_iff.mp h
  obtain ⟨ka, hk, -⟩ := Option.bind_eq_some_iff.mp (Option.bind_eq_some_iff.mp h).choose_spec.2
  obtain ⟨r, hr⟩ : ∃ r, pmmInit b q = some r := ⟨_, pmmInit_run hm hk q⟩
  rw [hr]
  refine congrArg some (Pmm.eq_of (bitmap_ext (fun f hf => ?_) fun i hi => pmmInit_beyond hr hi) ?_ ?_)
  · have hiff : r.used f = false ↔ q.used f = false := (pmmInit_used hr hf).trans (pmmInit_used h hf).symm
    cases hr' : r.used f with
    | false => exact (hiff.mp hr').symm
    | true =>
      cases hq : q.used f with
      | false => rw [hiff.mpr hq] at hr'; cases hr'
      | true => rfl
  · rw [pmmInit_lastAllocIndex hr, pmmInit_lastAllocIndex h]
  · exact (pmmInit_raises hm h).again (pmmInit_raises hm hr)

end Init

/-! ## The frames that a call leaves free -/

/-- The whole frame lies in the entry, and the entry is usable. -/
def MemmapEntry.HoldsFrame (entry : MemmapEntry) (f : Nat) : Prop :=
  entry.type = limineMemmapUsable ∧ entry.base.toNat ≤ f * 4096 ∧
    (f + 1) * 4096 ≤ entry.base.toNat + entry.length.toNat

/-- The whole frame lies in a single usable entry. -/
def Usable (entries : List MemmapEntry) (f : Nat) : Prop := ∃ entry ∈ entries, entry.HoldsFrame f

/-- Adding `PAGE_SIZE - 1` to the start of the entry does not wrap. -/
def MemmapEntry.RoundsUp (entry : MemmapEntry) : Prop := entry.base.toNat + 4095 < 2 ^ 64

/-- The frame has a byte of the kernel, whose image starts at `physical_base`. -/
def KernelFrame (ka : KernelAddress) (kernelEnd : U64) (f : Nat) : Prop :=
  ka.physicalBase.toNat < (f + 1) * 4096 ∧
    f * 4096 < ka.physicalBase.toNat + (kernelEnd - ka.virtualBase).toNat

/-- What the bootloader and the linker give: entries that end below 2⁶⁴, and a kernel of at most 512 MiB in
the top 2 GiB that `pmm_bitmap` is a part of. -/
structure BootOk (b : BootInfo) (entries : List MemmapEntry) (ka : KernelAddress) : Prop where
  memmap : b.memmap = some entries
  kernelAddress : b.kernelAddress = some ka
  entries_fit : ∀ entry ∈ entries, entry.base.toNat + entry.length.toNat < 2 ^ 64
  top : 2 ^ 64 - 2 ^ 31 ≤ ka.virtualBase.toNat
  size_pos : ka.virtualBase.toNat < b.kernelEnd.toNat
  size_le : b.kernelEnd.toNat ≤ ka.virtualBase.toNat + 0x20000000
  bitmap_start : ka.virtualBase.toNat ≤ b.pmmBitmapAddr.toNat
  bitmap_end : b.pmmBitmapAddr.toNat + pmmBitmapSize ≤ b.kernelEnd.toNat

/-- The physical address of byte `i` of `pmm_bitmap`. -/
def bitmapByteAddr (b : BootInfo) (ka : KernelAddress) (i : Nat) : Nat :=
  ka.physicalBase.toNat + (b.pmmBitmapAddr - ka.virtualBase).toNat + i

/-- Every frame is classified right: a bit is clear where a usable entry holds the frame and the kernel has
no byte in it, which keeps the frames of `pmm_bitmap` itself from being free, and the highest address is the
end of the highest usable frame, or 0 where there is none. -/
structure Classified (b : BootInfo) (entries : List MemmapEntry) (ka : KernelAddress) (p : Pmm) : Prop where
  clear_iff : ∀ f, f < 2 ^ 20 → (p.used f = false ↔ Usable entries f ∧ ¬KernelFrame ka b.kernelEnd f)
  bitmap_kept : ∀ i, i < pmmBitmapSize → ¬p.Free (bitmapByteAddr b ka i / 4096)
  highest_above : ∀ f, f < 2 ^ 20 → Usable entries f → (f + 1) * 4096 ≤ p.highestAddress
  highest_attained : p.highestAddress = 0 ∨ ∃ f, f < 2 ^ 20 ∧ Usable entries f ∧ p.highestAddress = (f + 1) * 4096

/-- No usable entry starts so high that its start wraps when it is rounded up; or if one does, every frame
that the wrap frees is usable anyway. -/
def StartsFit (b : BootInfo) (entries : List MemmapEntry) (ka : KernelAddress) : Prop :=
  (∀ entry ∈ entries, entry.type = limineMemmapUsable → entry.RoundsUp) ∨
    (∀ f, f < 2 ^ 20 → ¬KernelFrame ka b.kernelEnd f → Usable entries f) ∧ Usable entries (2 ^ 20 - 1)

section Classify

variable {b : BootInfo} {entries : List MemmapEntry} {ka : KernelAddress} {entry : MemmapEntry} {f : Nat}

/-- Where the start does not wrap, the loop visits the frames that lie in the entry. -/
theorem entryFrames_iff (hfit : entry.base.toNat + entry.length.toNat < 2 ^ 64) (hup : entry.RoundsUp) :
    EntryFrames entry f ↔ entry.HoldsFrame f := by
  have hpage : pageSize.toNat = 4096 := by decide
  have hone : (1#64).toNat = 1 := by decide
  unfold MemmapEntry.RoundsUp at hup
  rw [EntryFrames, MemmapEntry.HoldsFrame, InFrames, BitVec.toNat_udiv, BitVec.toNat_sub, BitVec.toNat_add,
    BitVec.toNat_udiv, BitVec.toNat_add, hpage, hone]
  refine and_congr_right fun _ => ?_
  omega

/-- Where it wraps, the loop visits every frame below 4 GiB, and none of them lies in the entry. -/
theorem entryFrames_wrapped (hfit : entry.base.toNat + entry.length.toNat < 2 ^ 64)
    (ht : entry.type = limineMemmapUsable) (hup : ¬entry.RoundsUp) (hf : f < 2 ^ 20) : EntryFrames entry f := by
  have hpage : pageSize.toNat = 4096 := by decide
  have hone : (1#64).toNat = 1 := by decide
  have hbase := entry.base.isLt
  unfold MemmapEntry.RoundsUp at hup
  rw [EntryFrames, InFrames, BitVec.toNat_udiv, BitVec.toNat_sub, BitVec.toNat_add,
    BitVec.toNat_udiv, BitVec.toNat_add, hpage, hone]
  exact ⟨ht, by omega, by omega⟩

/-- The size that the linker symbols give. -/
theorem BootOk.kernelSize_eq (h : BootOk b entries ka) :
    kernelSize ka b.kernelEnd = b.kernelEnd - ka.virtualBase ∧
      (b.kernelEnd - ka.virtualBase).toNat = b.kernelEnd.toNat - ka.virtualBase.toNat := by
  have hsize : (b.kernelEnd - ka.virtualBase).toNat = b.kernelEnd.toNat - ka.virtualBase.toNat :=
    BitVec.toNat_sub_of_le (Nat.le_of_lt h.size_pos)
  refine ⟨?_, hsize⟩
  have hpos := h.size_pos
  have hle := h.size_le
  rw [kernelSize]
  refine if_neg ?_
  rintro (hzero | hlarge)
  · have hz := congrArg BitVec.toNat hzero
    rw [hsize, BitVec.toNat_zero] at hz
    omega
  · have hl : (0x20000000#64).toNat < (b.kernelEnd - ka.virtualBase).toNat := hlarge
    have hc : (0x20000000#64).toNat = 0x20000000 := by decide
    omega

/-- The loop over the kernel visits the frames below 4 GiB that the kernel has a byte in. -/
theorem BootOk.kernelFrames_iff (h : BootOk b entries ka) (hf : f < 2 ^ 20) :
    InFrames (kernelStartFrame ka) (kernelEndFrame ka b.kernelEnd) f ↔ KernelFrame ka b.kernelEnd f := by
  have hpage : pageSize.toNat = 4096 := by decide
  have hone : (1#64).toNat = 1 := by decide
  obtain ⟨hks, hsize⟩ := h.kernelSize_eq
  have hbase := ka.physicalBase.isLt
  have hle := h.size_le
  have hpos := h.size_pos
  rw [InFrames, KernelFrame, kernelStartFrame, kernelEndFrame, hks, BitVec.toNat_udiv, BitVec.toNat_udiv,
    BitVec.toNat_sub, BitVec.toNat_add, BitVec.toNat_add, hpage, hone, hsize]
  omega

/-- The loop over the bitmap visits frames of its virtual address, which no frame below 4 GiB has. -/
theorem BootOk.bitmapFrames (h : BootOk b entries ka) (hf : f < 2 ^ 20) : ¬InFrames (b.pmmBitmapAddr / pageSize)
    ((b.pmmBitmapAddr + BitVec.ofNat 64 pmmBitmapSize + pageSize - 1#64) / pageSize) f := by
  have hpage : pageSize.toNat = 4096 := by decide
  have htop := h.top
  have hstart := h.bitmap_start
  rw [InFrames, BitVec.toNat_udiv, hpage]
  omega

/-- The bits after a call. -/
theorem BootOk.used_iff (h : BootOk b entries ka) {p q : Pmm} (hq : pmmInit b p = some q) (hf : f < 2 ^ 20) :
    q.used f = false ↔ (∃ entry ∈ entries, EntryFrames entry f) ∧ ¬KernelFrame ka b.kernelEnd f := by
  rw [pmmInit_used hq hf]
  constructor
  · rintro ⟨entries', ka', hm, hk, hent, hker, -⟩
    rw [h.memmap] at hm
    rw [h.kernelAddress] at hk
    cases hm
    cases hk
    exact ⟨hent, fun hc => hker ((h.kernelFrames_iff hf).mpr hc)⟩
  · rintro ⟨hent, hker⟩
    exact ⟨entries, ka, h.memmap, h.kernelAddress, hent, fun hc => hker ((h.kernelFrames_iff hf).mp hc),
      h.bitmapFrames hf⟩

/-- The frames of `pmm_bitmap` are frames of the kernel. -/
theorem BootOk.bitmap_kernel (h : BootOk b entries ka) {i : Nat} (hi : i < pmmBitmapSize) :
    KernelFrame ka b.kernelEnd (bitmapByteAddr b ka i / 4096) := by
  have hsub : (b.pmmBitmapAddr - ka.virtualBase).toNat = b.pmmBitmapAddr.toNat - ka.virtualBase.toNat :=
    BitVec.toNat_sub_of_le h.bitmap_start
  have hsize := h.kernelSize_eq.2
  have hstart := h.bitmap_start
  have hend := h.bitmap_end
  rw [KernelFrame, bitmapByteAddr, hsub, hsize]
  omega

theorem BootOk.entryFrames_usable (h : BootOk b entries ka)
    (hup : ∀ entry ∈ entries, entry.type = limineMemmapUsable → entry.RoundsUp) :
    (∃ entry ∈ entries, EntryFrames entry f) ↔ Usable entries f := by
  refine exists_congr fun entry => and_congr_right fun hmem => ?_
  by_cases ht : entry.type = limineMemmapUsable
  · exact entryFrames_iff (h.entries_fit entry hmem) (hup entry hmem ht)
  · exact ⟨fun hc => absurd hc.1 ht, fun hc => absurd hc.1 ht⟩

/-- **`pmm_init` classifies every frame right** exactly where no usable entry has a start that wraps when it is
rounded up, or the wrap frees usable frames only.  A second call changes nothing in any case. -/
theorem pmmInit_classifies_iff (h : BootOk b entries ka) :
    ∃ p, pmmInit b emptyPmm = some p ∧
      (Classified b entries ka p ∧ pmmInit b p = some p ↔ StartsFit b entries ka) := by
  obtain ⟨p, hp⟩ : ∃ p, pmmInit b emptyPmm = some p := ⟨_, pmmInit_run h.memmap h.kernelAddress emptyPmm⟩
  have hraises := pmmInit_raises h.memmap hp
  have hused := fun f (hf : f < 2 ^ 20) => h.used_iff hp hf
  have hkept : ∀ i, i < pmmBitmapSize → ¬p.Free (bitmapByteAddr b ka i / 4096) := fun i hi hfree =>
    ((hused _ hfree.lt).mp hfree.2.2).2 (h.bitmap_kernel hi)
  refine ⟨p, hp, ?_⟩
  rw [and_iff_left (pmmInit_again hp)]
  constructor
  · intro hc
    by_cases hup : ∀ entry ∈ entries, entry.type = limineMemmapUsable → entry.RoundsUp
    · exact Or.inl hup
    · simp only [not_forall] at hup
      obtain ⟨entry, hmem, ht, hup⟩ := hup
      have hall : ∀ f, f < 2 ^ 20 → ∃ entry ∈ entries, EntryFrames entry f := fun f hf =>
        ⟨entry, hmem, entryFrames_wrapped (h.entries_fit entry hmem) ht hup hf⟩
      refine Or.inr ⟨fun f hf hker => ((hc.clear_iff f hf).mp ((hused f hf).mpr ⟨hall f hf, hker⟩)).1, ?_⟩
      -- the highest address is 4 GiB, which is the end of the last frame only
      have hhigh := hraises.above (2 ^ 20 - 1) (hall _ (by omega)) (by omega)
      rcases hc.highest_attained with hzero | ⟨f, hf, husable, heq⟩
      · omega
      · have hlast : f = 2 ^ 20 - 1 := by omega
        exact hlast ▸ husable
  · rintro (hup | ⟨hall, hlast⟩)
    · have husable := fun f => h.entryFrames_usable (f := f) hup
      refine ⟨fun f hf => (hused f hf).trans (and_congr_left fun _ => husable f), hkept, fun f hf hu => ?_, ?_⟩
      · exact hraises.above f ((husable f).mpr hu) hf
      · rcases hraises.attained with hzero | ⟨f, hent, hf, heq⟩
        · exact Or.inl hzero
        · exact Or.inr ⟨f, hf, (husable f).mp hent, heq⟩
    · have hent : ∀ f, f < 2 ^ 20 → Usable entries f → ∃ entry ∈ entries, EntryFrames entry f := by
        rintro f hf ⟨entry, hmem, hholds⟩
        refine ⟨entry, hmem, ?_⟩
        by_cases hup : entry.RoundsUp
        · exact (entryFrames_iff (h.entries_fit entry hmem) hup).mpr hholds
        · exact entryFrames_wrapped (h.entries_fit entry hmem) hholds.1 hup hf
      have hhigh : p.highestAddress = (2 ^ 20 - 1 + 1) * 4096 := by
        have habove := hraises.above (2 ^ 20 - 1) (hent _ (by omega) hlast) (by omega)
        have hle := p.highest_le
        rw [pmmMaxPhysAddr_eq] at hle
        omega
      refine ⟨fun f hf => (hused f hf).trans ⟨fun hu => ⟨hall f hf hu.2, hu.2⟩, fun hu => ⟨hent f hf hu.1, hu.2⟩⟩,
        hkept, fun f hf hu => hraises.above f (hent f hf hu) hf, Or.inr ⟨2 ^ 20 - 1, by omega, hlast, hhigh⟩⟩

end Classify

/-- A kernel of 33 frames at 2 MiB, and one entry of the memory map. -/
def bootWith (entry : MemmapEntry) : BootInfo where
  memmap := some [entry]
  kernelAddress := some ⟨0x200000#64, 0xFFFFFFFF80000000#64⟩
  kernelEnd := 0xFFFFFFFF80021000#64
  pmmBitmapAddr := 0xFFFFFFFF80001000#64

theorem bootWith_ok (entry : MemmapEntry) (h : entry.base.toNat + entry.length.toNat < 2 ^ 64) :
    BootOk (bootWith entry) [entry] ⟨0x200000#64, 0xFFFFFFFF80000000#64⟩ where
  memmap := rfl
  kernelAddress := rfl
  entries_fit := by simpa using h
  top := by decide
  size_pos := (by decide : (0xFFFFFFFF80000000#64).toNat < (0xFFFFFFFF80021000#64).toNat)
  size_le := (by decide : (0xFFFFFFFF80021000#64).toNat ≤ (0xFFFFFFFF80000000#64).toNat + 0x20000000)
  bitmap_start := (by decide : (0xFFFFFFFF80000000#64).toNat ≤ (0xFFFFFFFF80001000#64).toNat)
  bitmap_end := (by decide : (0xFFFFFFFF80001000#64).toNat + pmmBitmapSize ≤ (0xFFFFFFFF80021000#64).toNat)

/-- 2 MiB from 1 MiB on; the kernel lies in the second half. -/
def lowEntry : MemmapEntry := ⟨0x100000#64, 0x200000#64, limineMemmapUsable⟩

theorem pmmInit_classifies_lowEntry : ∃ p, pmmInit (bootWith lowEntry) emptyPmm = some p ∧
    Classified (bootWith lowEntry) [lowEntry] ⟨0x200000#64, 0xFFFFFFFF80000000#64⟩ p ∧
      pmmInit (bootWith lowEntry) p = some p := by
  obtain ⟨p, hp, hiff⟩ := pmmInit_classifies_iff (bootWith_ok lowEntry (by decide))
  refine ⟨p, hp, hiff.mpr (Or.inl fun entry hmem _ => ?_)⟩
  cases List.mem_singleton.mp hmem
  show lowEntry.base.toNat + 4095 < 2 ^ 64
  decide

/-- An empty entry in the last page of the address space. -/
def lastEntry : MemmapEntry := ⟨0xFFFFFFFFFFFFF001#64, 0#64, limineMemmapUsable⟩

/-- Frame 0 is free after `pmm_init`, but no entry holds it. -/
theorem pmmInit_misclassifies_lastEntry :
    BootOk (bootWith lastEntry) [lastEntry] ⟨0x200000#64, 0xFFFFFFFF80000000#64⟩ ∧
      ∃ p, pmmInit (bootWith lastEntry) emptyPmm = some p ∧ p.used 0 = false ∧
        ¬Classified (bootWith lastEntry) [lastEntry] ⟨0x200000#64, 0xFFFFFFFF80000000#64⟩ p := by
  have hok := bootWith_ok lastEntry (by decide)
  have hp := pmmInit_run hok.memmap hok.kernelAddress emptyPmm
  have hclear := (hok.used_iff hp (f := 0) (by decide)).mpr
    ⟨⟨lastEntry, List.mem_singleton.mpr rfl, by decide⟩, by unfold KernelFrame; decide⟩
  refine ⟨hok, _, hp, hclear, fun hc => ?_⟩
  obtain ⟨entry, hmem, -, hbase, -⟩ := ((hc.clear_iff 0 (by decide)).mp hclear).1
  cases List.mem_singleton.mp hmem
  exact absurd hbase (by decide)

end PpoOS
