import PpoOS.Exec.Exec
import PpoOS.Exec.Verify.Header
import PpoOS.Mm.Verify.MapPage

/-!
# Loading one page

The loops of `exec_elf` do the same thing for each page: take a frame, map it,
fill it.  A `PageJob` says which page, with which flags and contents; `Loads`
says what a state is after a job was done.  `execLoadPage_spec` and
`execMapStackPage_spec` show that the loop bodies do their jobs, or stop because
fewer frames are free than the job takes.
-/

namespace PpoOS

open ByteMem FaultState

/-! ## Jobs -/

/-- One page to be loaded: its address, its flags, its bytes (nothing where the frame is left as it
was found) and the file indices read for it. -/
structure PageJob where
  va : U64
  flags : U64
  content : Option (Nat → U8)
  reads : List U64

/-- Byte `i` of a page filled by a copy: zero outside the copied range. -/
def copiedByte (f : ElfFile) (c : CopyRange) (i : Nat) : U8 :=
  if c.offsetInPage.toNat ≤ i ∧ i < c.offsetInPage.toNat + c.bytesToCopy.toNat then
    f.data (c.fileOffset + BitVec.ofNat 64 (i - c.offsetInPage.toNat))
  else 0#8

/-- Byte `i` of the page `va` of a segment, as its own iteration fills it. -/
def segmentByte (f : ElfFile) (ph : Phdr) (va : U64) (i : Nat) : U8 :=
  match copyRange ph va with
  | some c => copiedByte f c i
  | none => 0#8

/-- The file indices that filling the page `va` of a segment reads. -/
def segmentReads (ph : Phdr) (va : U64) : List U64 :=
  match copyRange ph va with
  | some c => readIndices c.fileOffset c.bytesToCopy.toNat
  | none => []

/-- The page of the iteration `offset` of the segment at `off`. -/
def segmentPage (f : ElfFile) (off offset : U64) : U64 :=
  ((f.phdr off).p_vaddr + offset) &&& pageMask

/-- The job of the iteration `offset` of the segment at `off`. -/
def segmentJob (f : ElfFile) (off offset : U64) : PageJob where
  va := segmentPage f off offset
  flags := segmentFlags (f.phdr off)
  content := some (segmentByte f (f.phdr off) (segmentPage f off offset))
  reads := segmentReads (f.phdr off) (segmentPage f off offset)

/-- The job of a stack page: its frame keeps what it held. -/
def stackJob (va : U64) : PageJob where
  va := va
  flags := ptePresent ||| pteUser ||| pteWritable
  content := none
  reads := []

/-! ## The copy stays in its page -/

theorem copyStart_ge (ph : Phdr) (va : U64) : va.toNat ≤ (copyStart ph va).toNat := by
  unfold copyStart
  split
  · exact Nat.le_refl _
  · next h =>
    rw [gt_iff_lt, BitVec.lt_def] at h
    omega

theorem copyEnd_le (ph : Phdr) (va : U64) : (copyEnd ph va).toNat ≤ va.toNat + 4096 := by
  have h4096 : pageSize.toNat = 4096 := by decide
  have hle : (va + pageSize).toNat ≤ va.toNat + 4096 := by
    rw [BitVec.toNat_add, h4096]
    exact Nat.mod_le _ _
  unfold copyEnd
  split
  · exact hle
  · next h =>
    rw [BitVec.lt_def] at h
    omega

theorem clipToFile_le (ph : Phdr) (fileOffset bytes : U64) :
    (clipToFile ph fileOffset bytes).toNat ≤ bytes.toNat := by
  have hf := fileOffset.isLt
  have hb := bytes.isLt
  unfold clipToFile
  dsimp only
  generalize ph.p_offset + ph.p_filesz = stop
  have hs := stop.isLt
  split
  · next hgt =>
    split
    · exact Nat.zero_le _
    · next hge =>
      rw [gt_iff_lt, BitVec.lt_def, BitVec.toNat_add] at hgt
      rw [ge_iff_le, BitVec.le_def] at hge
      rw [BitVec.toNat_sub]
      omega
  · exact Nat.le_refl _

theorem copyRange_some {ph : Phdr} {va : U64} {c : CopyRange} (h : copyRange ph va = some c) :
    copyStart ph va < copyEnd ph va ∧ c.offsetInPage = copyStart ph va - va ∧
      c.fileOffset = ph.p_offset + (copyStart ph va - ph.p_vaddr) ∧
      c.bytesToCopy = clipToFile ph c.fileOffset (copyEnd ph va - copyStart ph va) := by
  unfold copyRange at h
  dsimp only at h
  split at h
  · next hlt =>
    cases h
    exact ⟨hlt, rfl, rfl, rfl⟩
  · cases h

theorem copyRange_inPage {ph : Phdr} {va : U64} {c : CopyRange} (h : copyRange ph va = some c) :
    c.offsetInPage.toNat + c.bytesToCopy.toNat ≤ 4096 := by
  obtain ⟨hlt, hoff, -, hbytes⟩ := copyRange_some h
  have hstart := copyStart_ge ph va
  have hstop := copyEnd_le ph va
  have hclip := clipToFile_le ph c.fileOffset (copyEnd ph va - copyStart ph va)
  have hs := (copyStart ph va).isLt
  have he := (copyEnd ph va).isLt
  rw [BitVec.lt_def] at hlt
  rw [← hbytes, BitVec.toNat_sub] at hclip
  rw [hoff, BitVec.toNat_sub]
  omega

/-! ## Taking a frame for data -/

section Steps

variable {D : Ownership} {k k' k₁ k₂ : Kernel} {d o : Nat} {T : U64 → Prop}

theorem Forest.log (h : Forest D k) (rs : List U64) : Forest D (k.log rs) :=
  ⟨h.closed, h.separated, h.live, h.plain⟩

/-- Reading the file changes the read history only. -/
theorem Evolves.log (h : Evolves D k k') (rs : List U64) : Evolves D k (k'.log rs) where
  forest := h.forest.log rs
  tables := h.tables
  fresh := h.fresh
  used := h.used
  maxBits := h.maxBits
  memory := h.memory
  roots := h.roots
  users := h.users
  rest := by
    rw [h.rest]
    rfl

/-- Bytes of a frame that is neither a table nor was in use may change. -/
theorem Evolves.write (h : Evolves D k k') (hfree : k.pmm.Free d) (hdata : ¬IsTable D k' d) {m : Mem}
    (hm : ∀ b, frameOf b ≠ d → m b = k'.mem b) : Evolves D k (k'.setMem m) := by
  have htab : ∀ b, IsTable D k' (frameOf b) → (k'.setMem m).mem b = k'.mem b :=
    fun b hb => hm b fun hbd => hdata (hbd ▸ hb)
  have hwalk : ∀ r q, D r q → q.length ≤ 3 → walk (k'.setMem m).mem r q = walk k'.mem r q :=
    fun r q hq hl => h.forest.walk_agree htab hq hl
  have hentry : ∀ f i, IsTable D k' f → tableAt (k'.setMem m).mem f i = tableAt k'.mem f i :=
    h.forest.entries_agree htab
  exact
    { forest := h.forest.agree htab fun f hf => (h.forest.live f hf).2
      tables := fun r q f hq hl hw => (hwalk r q hq hl).trans (h.tables r q f hq hl hw)
      fresh := fun r q f hq hl hw => h.fresh r q f hq hl ((hwalk r q hq hl).symm.trans hw)
      used := h.used
      maxBits := h.maxBits
      memory := fun b hbf hbt =>
        (hm b fun hbd => hbf (hbd ▸ hfree)).trans (h.memory b hbf hbt)
      roots := fun r i hr hp =>
        (hentry r i ⟨r, [], hr, Nat.zero_le _, rfl⟩).trans (h.roots r i hr hp)
      users := by
        intro D' hsub hu r q i f hq hl hw hpres
        have hq' := h.forest.closed (hsub r _ hq)
        have hw' : walk k'.mem r q = some f := (hwalk r q hq' (by omega)).symm.trans hw
        have he := hentry f i ⟨r, q, hq', by omega, hw'⟩
        rw [he] at hpres ⊢
        exact h.users D' hsub hu r q i f hq hl hw' hpres
      rest := by
        rw [h.rest]
        rfl }

/-- A frame was taken for data: the tables are as before. -/
structure Takes (D : Ownership) (k k' : Kernel) (d : Nat) : Prop extends Evolves D k k' where
  frame : k.pmm.Free d
  taken : k'.pmm.used d = true
  walks : ∀ r q, D r q → q.length ≤ 3 → walk k'.mem r q = walk k.mem r q
  leaves : ∀ r q i, D r q → q.length = 3 → lookup k'.mem r q i = lookup k.mem r q i
  idle : ∀ b, k'.pmm.Free (frameOf b) → k'.mem b = k.mem b
  count : k'.pmm.freeCount + 1 = k.pmm.freeCount
  reads : k'.reads = k.reads

theorem Takes.alloc (h : Forest D k) (hd : k.pmm.Free d) {pm : Pmm}
    (hmax : pm.maxBits = k.pmm.maxBits)
    (hused : ∀ g, pm.used g = (decide (g = d) || k.pmm.used g)) : Takes D k (k.setPmm pm) d := by
  have hfree := Pmm.free_of_marked hmax hused
  have hforest : Forest D (k.setPmm pm) :=
    h.agree (fun _ _ => rfl) fun f hf hc => (h.live f hf).2 ((hfree f).mp hc).2
  refine ⟨⟨hforest, fun _ _ _ _ _ hw => hw, fun _ _ _ _ _ hw => Or.inl hw, ?_, hmax,
    fun _ _ _ => rfl, fun _ _ _ _ => rfl, fun _ _ hu => hu, rfl⟩, hd, ?_, fun _ _ _ _ => rfl,
    fun _ _ _ _ _ => rfl, fun _ _ => rfl, Pmm.freeCount_of_marked hd hmax hused, rfl⟩
  · intro f hu
    rw [Kernel.setPmm_pmm, hused, hu, Bool.or_true]
  · rw [Kernel.setPmm_pmm, hused, decide_eq_true rfl, Bool.true_or]

/-- A frame that was free and is in use is not a table, unless it was linked as one. -/
theorem Takes.data (h : Forest D k) (ht : Takes D k k' d) : ¬IsTable D k' d := by
  intro hd
  obtain ⟨r, q, hq, hl, hw⟩ := hd
  exact (h.live d ⟨r, q, hq, hl, (ht.walks r q hq hl).symm.trans hw⟩).2 ht.frame

/-- The taken frame may be written. -/
theorem Takes.write (h : Forest D k) (ht : Takes D k k' d) {m : Mem}
    (hm : ∀ b, frameOf b ≠ d → m b = k'.mem b) : Takes D k (k'.setMem m) d := by
  have hdata := ht.data h
  have htab : ∀ b, IsTable D k' (frameOf b) → (k'.setMem m).mem b = k'.mem b :=
    fun b hb => hm b fun hbd => hdata (hbd ▸ hb)
  refine ⟨ht.toEvolves.write ht.frame hdata hm, ht.frame, ht.taken, ?_, ?_, ?_, ht.count, ht.reads⟩
  · intro r q hq hl
    exact (ht.forest.walk_agree htab hq hl).trans (ht.walks r q hq hl)
  · intro r q i hq hl
    exact (ht.forest.lookup_agree htab hq (by omega) i).trans (ht.leaves r q i hq hl)
  · intro b hb
    have hbd : frameOf b ≠ d := by
      intro hbd
      have hbit := hb.2.2
      rw [hbd, Kernel.setMem_pmm, ht.taken] at hbit
      cases hbit
    exact (hm b hbd).trans (ht.idle b hb)

/-- Loading stopped: some tables were linked, and no leaf changed. -/
structure Stalls (D : Ownership) (k k' : Kernel) : Prop extends Evolves D k k' where
  leaves : ∀ r q i, D r q → q.length = 3 → lookup k'.mem r q i = lookup k.mem r q i

theorem Stalls.refl (h : Forest D k) : Stalls D k k := ⟨Evolves.refl h, fun _ _ _ _ _ => rfl⟩

/-- A frame that could not be mapped is given back. -/
theorem Takes.giveBack (h : Forest D k) (ht : Takes D k k₁ d) (hg : Grows D k₁ k₂) :
    Stalls D k (k₂.setPmm (pmmFreeFrame (frameAddr d) k₂.pmm)) := by
  have hev := ht.toEvolves.trans hg.toEvolves
  have hframe : frameOf (frameAddr d) = d :=
    frameOf_frameAddr (Nat.lt_trans ht.frame.lt (by omega))
  have hother : ∀ g, g ≠ d → g ≠ frameOf (frameAddr d) := fun g hg => by rwa [hframe]
  have hdata := ht.data h
  have hnot : ∀ f, IsTable D k₂ f → f ≠ d := by
    rintro f hf rfl
    rcases hg.toEvolves.isTable hf with hf' | ⟨hf', -⟩
    · exact hdata hf'
    · exact absurd (hf'.2.2.symm.trans ht.taken) (by simp)
  have hforest : Forest D (k₂.setPmm (pmmFreeFrame (frameAddr d) k₂.pmm)) := by
    refine hev.forest.agree (fun _ _ => rfl) fun f hf hfree => (hev.forest.live f hf).2 ?_
    exact (pmmFreeFrame_free_other (hother f (hnot f hf))).mp hfree
  have hkeep : ∀ f, f ≠ d → k₂.pmm.used f = true →
      (pmmFreeFrame (frameAddr d) k₂.pmm).used f = true := by
    intro f hfd hu
    rw [pmmFreeFrame_other (hother f hfd), hu]
  exact
    { forest := hforest
      tables := hev.tables
      fresh := by
        intro r q f hq hl hw
        rcases hev.fresh r q f hq hl hw with hw' | ⟨hfree, hu⟩
        · exact Or.inl hw'
        · exact Or.inr ⟨hfree, hkeep f (hnot f ⟨r, q, hq, hl, hw⟩) hu⟩
      used := by
        intro f hu
        have hfd : f ≠ d := fun hfd => absurd ((hfd ▸ hu).symm.trans ht.frame.2.2) (by simp)
        exact hkeep f hfd (hev.used f hu)
      maxBits := by rw [Kernel.setPmm_pmm, pmmFreeFrame_maxBits, hev.maxBits]
      memory := hev.memory
      roots := hev.roots
      users := hev.users
      rest := by
        rw [hev.rest]
        rfl
      leaves := fun r q i hq hl => (hg.leaves r q i hq hl).trans (ht.leaves r q i hq hl) }

/-! ## Doing a job -/

/-- Byte `i` of the page of a job whose frame `d` held the bytes of `m`. -/
def PageJob.byte (j : PageJob) (m : Mem) (d i : Nat) : U8 :=
  match j.content with
  | some src => src i
  | none => m (frameAddr d + BitVec.ofNat 64 i)

/-- The file bytes read between two states are those of the jobs, and bytes of the program headers
`T`. -/
def ReadsOf (T : U64 → Prop) (js : List PageJob) (k k' : Kernel) : Prop :=
  ∃ rs, k'.reads = rs ++ k.reads ∧ (∀ i ∈ rs, T i ∨ ∃ j ∈ js, i ∈ j.reads) ∧
    ∀ j ∈ js, ∀ i ∈ j.reads, i ∈ rs

/-- A job was done for the page of root `o`: a frame `d` that was free is mapped there and filled,
and no other leaf has changed. -/
structure Loads (D : Ownership) (T : U64 → Prop) (o : Nat) (j : PageJob) (k k' : Kernel) (d : Nat) :
    Prop extends Evolves D k k' where
  owned : D o (tablePath j.va)
  frame : k.pmm.Free d
  taken : k'.pmm.used d = true
  data : ¬IsTable D k' d
  leaf : translate k'.mem o j.va = entryLeaf (frameAddr d ||| j.flags)
  others : ∀ r q i, D r q → q.length = 3 → ¬(r = o ∧ q = tablePath j.va ∧ i = leafIdx j.va) →
    lookup k'.mem r q i = lookup k.mem r q i
  reached : ∀ r q, D r q → q.length ≤ 3 →
    (reaches k'.mem r q = true ↔ reaches k.mem r q = true ∨ (r = o ∧ q <+: tablePath j.va))
  count : k'.pmm.freeCount + (missing (reaches k.mem o) [] (tablePath j.va) + 1) = k.pmm.freeCount
  idle : ∀ b, k'.pmm.Free (frameOf b) → k'.mem b = k.mem b
  content : ∀ i, i < 4096 → k'.mem (frameAddr d + BitVec.ofNat 64 i) = j.byte k.mem d i
  reads : ReadsOf T [j] k k'

/-- What is missing on an owned path depends on the owned tables only. -/
theorem missing_walks (h : Forest D k) {q : List Idx} (ho : D o q) (hl : q.length ≤ 3)
    (hw : ∀ r p, D r p → p.length ≤ 3 → walk k'.mem r p = walk k.mem r p) :
    missing (reaches k'.mem o) [] q = missing (reaches k.mem o) [] q := by
  refine missing_congr fun s _ hs => ?_
  obtain ⟨u, hu⟩ := hs
  have hds : D o s := h.closed.append (hu ▸ ho)
  have hls : s.length ≤ 3 := by
    have hlen := congrArg List.length hu
    rw [List.length_append] at hlen
    omega
  rw [List.nil_append, reaches, reaches, hw o s hds hls]

/-- Taking a frame, mapping it and filling it does a job. -/
theorem Loads.of_maps {j : PageJob} {rs₀ rs : List U64} {m : Mem} (h : Forest D k)
    (ho : D o (tablePath j.va)) (ht : Takes D (k.log rs₀) k₁ d)
    (hm : Maps D k₁ k₂ o j.va (frameAddr d ||| j.flags))
    (hmem : ∀ b, frameOf b ≠ d → m b = k₂.mem b)
    (hcontent : ∀ i, i < 4096 → m (frameAddr d + BitVec.ofNat 64 i) = j.byte k.mem d i)
    (hreads : ReadsOf T [j] k ((k.log rs₀).log rs)) :
    Loads D T o j k ((k₂.setMem m).log rs) d := by
  have h₀ := h.log rs₀
  have hdata₁ := ht.data h₀
  have hdata : ¬IsTable D k₂ d := by
    intro hc
    rcases hm.toEvolves.isTable hc with hc' | ⟨hc', -⟩
    · exact hdata₁ hc'
    · exact absurd (hc'.2.2.symm.trans ht.taken) (by simp)
  have htab : ∀ b, IsTable D k₂ (frameOf b) → (k₂.setMem m).mem b = k₂.mem b :=
    fun b hb => hmem b fun hbd => hdata (hbd ▸ hb)
  have hev : Evolves D k k₂ :=
    (((Evolves.refl h).log rs₀).trans ht.toEvolves).trans hm.toEvolves
  have hwalk : ∀ r q, D r q → q.length ≤ 3 →
      walk ((k₂.setMem m).log rs).mem r q = walk k₂.mem r q :=
    fun r q hq hl => hm.forest.walk_agree htab hq hl
  have hlook : ∀ r q i, D r q → q.length = 3 →
      lookup ((k₂.setMem m).log rs).mem r q i = lookup k₂.mem r q i :=
    fun r q i hq hl => hm.forest.lookup_agree htab hq (by omega) i
  have hmiss := missing_walks h₀ ho (Nat.le_refl 3) ht.walks
  exact
    { toEvolves := (hev.write ht.frame hdata hmem).log rs
      owned := ho
      frame := ht.frame
      taken := hm.used d ht.taken
      data := fun hc => hdata ((hm.forest.isTable_agree htab).mp hc)
      leaf := (hlook o _ _ ho rfl).trans hm.leaf
      others := fun r q i hq hl hne =>
        (hlook r q i hq hl).trans ((hm.others r q i hq hl hne).trans (ht.leaves r q i hq hl))
      reached := by
        intro r q hq hl
        have hw₁ : reaches k₁.mem r q = reaches k.mem r q := by
          rw [reaches, reaches, ht.walks r q hq hl, Kernel.log_mem]
        rw [reaches, hwalk r q hq hl, ← hw₁]
        exact hm.reached r q hq hl
      count := by
        have hc := hm.count
        rw [hmiss, Kernel.log_mem] at hc
        have hc' := ht.count
        rw [Kernel.log_pmm] at hc'
        rw [Kernel.log_pmm, Kernel.setMem_pmm]
        omega
      idle := by
        intro b hb
        have hbd : frameOf b ≠ d :=
          fun hbd => absurd ((hbd ▸ hb.2.2).symm.trans (hm.used d ht.taken)) (by simp)
        exact (hmem b hbd).trans ((hm.idle b hb).trans (ht.idle b (hm.toEvolves.free hb)))
      content := hcontent
      reads := by
        have hr : ((k₂.setMem m).log rs).reads = ((k.log rs₀).log rs).reads := by
          rw [Kernel.log_reads, Kernel.log_reads, ← ht.reads, ← hm.reads]
          rfl
        unfold ReadsOf at hreads ⊢
        rw [hr]
        exact hreads }

/-- A job was not done: fewer frames are free than it takes. -/
structure StallsAt (D : Ownership) (T : U64 → Prop) (o : Nat) (j : PageJob) (k k' : Kernel) : Prop
    extends Stalls D k k' where
  owned : D o (tablePath j.va)
  short : k.pmm.freeCount < missing (reaches k.mem o) [] (tablePath j.va) + 1
  reads : ReadsOf T [] k k'

theorem readsOf_headers {rs : List U64} (hrs : ∀ i ∈ rs, T i) : ReadsOf T [] k (k.log rs) :=
  ⟨rs, rfl, fun i hi => Or.inl (hrs i hi), fun _ hj => absurd hj List.not_mem_nil⟩

/-- No frame is free for the page. -/
theorem StallsAt.full {j : PageJob} {rs : List U64} (h : Forest D k) (ho : D o (tablePath j.va))
    (hnone : ∀ f, ¬k.pmm.Free f)
    (hrs : ∀ i ∈ rs, T i) : StallsAt D T o j k (k.log rs) where
  toStalls := ⟨(Evolves.refl h).log rs, fun _ _ _ _ _ => rfl⟩
  owned := ho
  short := by
    rw [Pmm.freeCount_eq_zero.mpr hnone]
    exact Nat.succ_pos _
  reads := readsOf_headers hrs

/-- A frame is free for the page, but not for all its tables. -/
theorem StallsAt.giveBack {j : PageJob} {rs : List U64} (h : Forest D k) (ho : D o (tablePath j.va))
    (ht : Takes D (k.log rs) k₁ d) (hg : Grows D k₁ k₂)
    (hshort : k₁.pmm.freeCount < missing (reaches k₁.mem o) [] (tablePath j.va))
    (hrs : ∀ i ∈ rs, T i) :
    StallsAt D T o j k (k₂.setPmm (pmmFreeFrame (frameAddr d) k₂.pmm)) := by
  have h₀ := h.log rs
  have hs := ht.giveBack h₀ hg
  refine ⟨⟨((Evolves.refl h).log rs).trans hs.toEvolves, hs.leaves⟩, ho, ?_, ?_⟩
  · have hmiss := missing_walks h₀ ho (Nat.le_refl 3) ht.walks
    have hcount := ht.count
    rw [hmiss, Kernel.log_mem] at hshort
    rw [Kernel.log_pmm] at hcount
    omega
  · have hr : (k₂.setPmm (pmmFreeFrame (frameAddr d) k₂.pmm)).reads = (k.log rs).reads :=
      hg.reads.trans ht.reads
    have hread := readsOf_headers (k := k) hrs
    unfold ReadsOf at hread ⊢
    rw [hr]
    exact hread

/-- A data frame is taken, or there is none. -/
theorem pmmAlloc_takes (h : Forest D k) :
    (∃ d pm, pmmAlloc.run k = some (frameAddr d, k.setPmm pm) ∧ frameAddr d ≠ 0#64 ∧
      d < frameBound ∧ Takes D k (k.setPmm pm) d) ∨
    (pmmAlloc.run k = some (0#64, k) ∧ ∀ f, ¬k.pmm.Free f) := by
  rcases pmmAllocFrame_cases k.pmm with ⟨d, pm, hd, halloc, hmax, hused⟩ | ⟨hnone, halloc⟩
  · have hd52 : d < 2 ^ 52 := Nat.lt_trans hd.lt (by omega)
    refine Or.inl ⟨d, pm, ?_, frameAddr_ne_zero hd52 hd.pos,
      Nat.lt_trans hd.lt (by unfold frameBound; omega), Takes.alloc h hd hmax hused⟩
    rw [pmmAlloc_run, halloc]
  · refine Or.inr ⟨?_, hnone⟩
    rw [pmmAlloc_run, halloc]
    rfl

/-- Mapping leaves the bytes of a frame that was taken for data. -/
theorem Takes.maps_keep {v va : U64} (h : Forest D k) (ht : Takes D k k₁ d)
    (hm : Maps D k₁ k₂ o va v) {b : U64} (hb : frameOf b = d) : k₂.mem b = k₁.mem b := by
  refine hm.memory b ?_ ?_
  · intro hfree
    exact absurd ((hb ▸ hfree.2.2).symm.trans ht.taken) (by simp)
  · rw [hb]
    exact ht.data h

theorem frameOf_add {d i : Nat} (hd : d < frameBound) (hi : i < 4096) :
    frameOf (frameAddr d + BitVec.ofNat 64 i) = d := by
  unfold frameBound at hd
  have ha : (frameAddr d).toNat = d * 4096 := frameAddr_toNat (by omega)
  rw [frameOf, BitVec.toNat_add, BitVec.toNat_ofNat, ha]
  omega

/-! ## The loop bodies -/

/-- The body of the stack loop does the job of its page. -/
theorem execMapStackPage_spec {c : Nat} {va : U64} (h : Forest D k) (hw : Owns D k c va o) :
    (∃ k' d, (execMapStackPage (frameAddr c) va).run k = some (true, k') ∧
      Loads D T o (stackJob va) k k' d) ∨
    (∃ k', (execMapStackPage (frameAddr c) va).run k = some (false, k') ∧
      StallsAt D T o (stackJob va) k k') := by
  have hnil : ∀ i ∈ ([] : List U64), T i := fun _ hi => absurd hi List.not_mem_nil
  rcases pmmAlloc_takes h with ⟨d, pm, halloc, hd0, hdb, ht⟩ | ⟨halloc, hnone⟩
  · rcases vmmMapPage_spec ht.forest (hw.evolves h ht.toEvolves) (frameAddr d)
      (ptePresent ||| pteUser ||| pteWritable) with ⟨k₂, hmap, hm⟩ | ⟨k₂, hmap, hg, hshort⟩
    · refine Or.inl ⟨k₂, d, ?_, ?_⟩
      · rw [execMapStackPage, run_bind_eq halloc, if_neg hd0, run_bind_eq hmap]
        rfl
      · have ht₀ : Takes D (k.log []) (k.setPmm pm) d := ht
        have hloads : ReadsOf T [stackJob va] k ((k.log []).log []) → Loads D T o (stackJob va) k
            ((k₂.setMem k₂.mem).log []) d := by
          refine Loads.of_maps h hw.path ht₀ hm (fun _ _ => rfl) ?_
          intro i hi
          exact ht.maps_keep h hm (frameOf_add hdb hi)
        refine hloads ⟨[], rfl, fun _ hi => absurd hi List.not_mem_nil, ?_⟩
        intro j hj i hi
        rw [List.mem_singleton.mp hj] at hi
        exact hi
    · have ht₀ : Takes D (k.log []) (k.setPmm pm) d := ht
      refine Or.inr ⟨_, ?_, StallsAt.giveBack h hw.path ht₀ hg hshort hnil⟩
      rw [execMapStackPage, run_bind_eq halloc, if_neg hd0, run_bind_eq hmap]
      rfl
  · have hfull : StallsAt D T o (stackJob va) k (k.log []) := StallsAt.full h hw.path hnone hnil
    refine Or.inr ⟨k, ?_, hfull⟩
    rw [execMapStackPage, run_bind_eq halloc, if_pos rfl]
    rfl

/-- Copying into a zeroed frame. -/
theorem execCopy_run {f : ElfFile} {c : CopyRange} (hd : d < frameBound)
    (hc : c.offsetInPage.toNat + c.bytesToCopy.toNat ≤ 4096) {m₀ : Mem}
    (hm₀ : k.mem = fill m₀ (frameAddr d) 4096 0#8) :
    ∃ m, (execCopy f (frameAddr d) c).run k = some ((), (k.setMem m).log
        (readIndices c.fileOffset c.bytesToCopy.toNat)) ∧
      (∀ b, frameOf b ≠ d → m b = k.mem b) ∧
      ∀ i, i < 4096 → m (frameAddr d + BitVec.ofNat 64 i) = copiedByte f c i := by
  unfold execCopy
  by_cases h0 : c.bytesToCopy > 0#64
  · have hd' := hd
    unfold frameBound at hd'
    have ha : (frameAddr d + c.offsetInPage).toNat = d * 4096 + c.offsetInPage.toNat := by
      have hfa : (frameAddr d).toNat = d * 4096 := frameAddr_toNat (by omega)
      rw [BitVec.toNat_add, hfa]
      omega
    have hmap : inDirectMap (frameAddr d + c.offsetInPage) c.bytesToCopy.toNat := by
      rw [inDirectMap, directMapEnd, ha]
      omega
    refine ⟨blit k.mem (frameAddr d + c.offsetInPage) c.bytesToCopy.toNat
      fun i => f.data (c.fileOffset + BitVec.ofNat 64 i), ?_,
      fun b hb => blit_frame_outside _ hd ha hc hb _, fun i hi => ?_⟩
    · rw [if_pos h0, run_bind_eq (logReads_run _ _ k), writeBytes_run _ _ hmap]
      rfl
    · rw [hm₀]
      exact blit_fill_at m₀ _ _ _ _ (by omega) hc hi
  · have hzero : c.bytesToCopy.toNat = 0 := by
      rw [gt_iff_lt, BitVec.lt_def, BitVec.toNat_zero] at h0
      omega
    refine ⟨k.mem, ?_, fun _ _ => rfl, fun i hi => ?_⟩
    · rw [if_neg h0, hzero]
      rfl
    · have hout : ¬(c.offsetInPage.toNat ≤ i ∧
          i < c.offsetInPage.toNat + c.bytesToCopy.toNat) := by omega
      rw [copiedByte, if_neg hout, hm₀, fill_at m₀ _ _ (by omega) hi]

/-- Filling a frame with a page of a segment. -/
theorem execFill_run (f : ElfFile) (off va : U64) (hd : d < frameBound) (k : Kernel) :
    ∃ m, (do
        memset (frameAddr d) 0#8 4096
        logReads (off + 8#64) 8
        match copyRange (f.phdr off) va with
        | some c => execCopy f (frameAddr d) c
        | none => pure ()
        return true : Kern Bool).run k = some (true, (k.setMem m).log
          (segmentReads (f.phdr off) va ++ readIndices (off + 8#64) 8)) ∧
      (∀ b, frameOf b ≠ d → m b = k.mem b) ∧
      ∀ i, i < 4096 → m (frameAddr d + BitVec.ofNat 64 i) = segmentByte f (f.phdr off) va i := by
  have hd' := hd
  unfold frameBound at hd'
  have ha : (frameAddr d).toNat = d * 4096 + 0 := by
    rw [frameAddr_toNat (by omega), Nat.add_zero]
  have hout : ∀ b, frameOf b ≠ d → fill k.mem (frameAddr d) 4096 0#8 b = k.mem b :=
    fun b hb => blit_frame_outside _ hd ha (by omega) hb _
  have hset := memset_run 0#8 k (frame_inDirectMap hd)
  unfold segmentByte segmentReads
  cases hcr : copyRange (f.phdr off) va with
  | none =>
    refine ⟨fill k.mem (frameAddr d) 4096 0#8, ?_, hout, fun i hi => ?_⟩
    · rw [run_bind_eq hset, run_bind_eq (logReads_run _ _ _)]
      rfl
    · exact fill_at k.mem _ _ (by omega) hi
  | some c =>
    obtain ⟨m, hcopy, hother, hbyte⟩ := execCopy_run (f := f) hd (copyRange_inPage hcr)
      (k := (k.setMem (fill k.mem (frameAddr d) 4096 0#8)).log (readIndices (off + 8#64) 8)) rfl
    refine ⟨m, ?_, fun b hb => (hother b hb).trans (hout b hb), hbyte⟩
    rw [run_bind_eq hset, run_bind_eq (logReads_run _ _ _)]
    refine (run_bind_eq hcopy).trans ?_
    rw [run_pure_iff]
    exact ⟨rfl, by rw [← Kernel.log_log]; rfl⟩

/-- The bytes of a program header. -/
def phdrIndices (off : U64) : List U64 := readIndices off 56

theorem readIndices_append (off : U64) (n m : Nat) :
    readIndices off (n + m) = readIndices off n ++ readIndices (off + BitVec.ofNat 64 n) m := by
  unfold readIndices
  rw [List.range_add, List.map_append, List.map_map]
  congr 1
  refine List.map_congr_left fun i _ => ?_
  rw [Function.comp_apply, BitVec.add_assoc, BitVec.ofNat_add]

/-- A field of a program header. -/
theorem phdr_field {off : U64} {n m : Nat} (h : n + m ≤ 56) :
    ∀ i ∈ readIndices (off + BitVec.ofNat 64 n) m, i ∈ phdrIndices off := by
  intro i hi
  obtain ⟨l, hl⟩ := Nat.exists_eq_add_of_le h
  rw [phdrIndices, hl, readIndices_append, readIndices_append]
  simp [hi]

/-- The first field of a program header. -/
theorem phdr_field₀ {off : U64} {m : Nat} (h : m ≤ 56) :
    ∀ i ∈ readIndices off m, i ∈ phdrIndices off := by
  intro i hi
  obtain ⟨l, hl⟩ := Nat.exists_eq_add_of_le h
  rw [phdrIndices, hl, readIndices_append]
  exact List.mem_append.mpr (Or.inl hi)

/-- The body of the page loop does the job of its page. -/
theorem execLoadPage_spec {f : ElfFile} {c : Nat} {off offset : U64} (h : Forest D k)
    (hw : Owns D k c (segmentPage f off offset) o) (hT : ∀ i ∈ phdrIndices off, T i) :
    (∃ k' d, (execLoadPage f (frameAddr c) off offset).run k = some (true, k') ∧
      Loads D T o (segmentJob f off offset) k k' d) ∨
    (∃ k', (execLoadPage f (frameAddr c) off offset).run k = some (false, k') ∧
      StallsAt D T o (segmentJob f off offset) k k') := by
  have hread := readU64_run f (off + 16#64) k
  have hhead : ∀ i ∈ readIndices (off + 16#64) 8, T i := fun i hi => hT i (phdr_field (by omega) i hi)
  have h₀ := h.log (readIndices (off + 16#64) 8)
  have hw₀ := hw.evolves h ((Evolves.refl h).log (readIndices (off + 16#64) 8))
  rcases pmmAlloc_takes h₀ with ⟨d, pm, halloc, hd0, hdb, ht⟩ | ⟨halloc, hnone⟩
  · rcases vmmMapPage_spec ht.forest (hw₀.evolves h₀ ht.toEvolves) (frameAddr d)
      (segmentFlags (f.phdr off)) with ⟨k₂, hmap, hm⟩ | ⟨k₂, hmap, hg, hshort⟩
    · obtain ⟨m, hfill, hother, hbyte⟩ :=
        execFill_run f off (segmentPage f off offset) hdb k₂
      refine Or.inl ⟨(k₂.setMem m).log (segmentReads (f.phdr off) (segmentPage f off offset) ++
        readIndices (off + 8#64) 8), d, ?_, Loads.of_maps h hw.path ht hm hother hbyte ?_⟩
      · rw [execLoadPage, run_bind_eq hread, run_bind_eq halloc, if_neg hd0]
        exact (run_bind_eq hmap).trans hfill
      · refine ⟨_, by rw [Kernel.log_log]; rfl, ?_, ?_⟩
        · intro i hi
          rcases List.mem_append.mp hi with hi | hi
          · rcases List.mem_append.mp hi with hi | hi
            · exact Or.inr ⟨_, List.mem_singleton.mpr rfl, hi⟩
            · exact Or.inl (hT i (phdr_field (by omega) i hi))
          · exact Or.inl (hhead i hi)
        · intro j hj i hi
          rw [List.mem_singleton.mp hj] at hi
          exact List.mem_append.mpr (Or.inl (List.mem_append.mpr (Or.inl hi)))
    · refine Or.inr ⟨_, ?_, StallsAt.giveBack h hw.path ht hg hshort hhead⟩
      rw [execLoadPage, run_bind_eq hread, run_bind_eq halloc, if_neg hd0]
      exact (run_bind_eq hmap).trans rfl
  · refine Or.inr ⟨_, ?_, StallsAt.full h hw.path hnone hhead⟩
    rw [execLoadPage, run_bind_eq hread, run_bind_eq halloc, if_pos rfl]
    rfl

end Steps

end PpoOS
