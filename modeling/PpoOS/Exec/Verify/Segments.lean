import PpoOS.Exec.Verify.Image
import PpoOS.Exec.Verify.Outcome

/-!
# Loading into a new address space

Where the segments lie in the user half, loading touches the new address space
and nothing else of the tables, whatever the kernel half holds.  The jobs of a
segment are then told by page numbers: the page loop of a segment *visits* the
pages at every multiple of the page size from its start.
-/

namespace PpoOS

open ByteMem FaultState

/-! ## The new address space -/

section

variable {k k₁ k' : Kernel} {c : Nat} {T : U64 → Prop}

/-- An address below the end of the lower half. -/
theorem userHalf_of_lt {va : U64} (h : va.toNat < 2 ^ 47) : UserHalf va := by
  rw [userHalf_iff]
  omega

/-- Below the end of the lower half, pages are told apart by their numbers. -/
theorem pageIdx_eq_of_lt {va va' : U64} (h : va.toNat < 2 ^ 47) (h' : va'.toNat < 2 ^ 47) :
    pageIdx va = pageIdx va' ↔ frameOf va = frameOf va' := by
  rw [BitVec.toNat_inj.symm, pageIdx_toNat, pageIdx_toNat, frameOf, frameOf]
  omega

/-- A new address space is ready to be loaded. -/
theorem Creates.loading (hc : Creates k k₁ c) (rs : List U64) :
    Loading (UserOwned [c]) (fun _ => c) UserHalf c (k₁.log rs) := by
  have hf : Forest (UserOwned [c]) (k₁.log rs) := (forest_cons (forest_nil k) hc).log rs
  exact ⟨hf, fun va hva => Owns.self hf (userOwned_path (List.mem_singleton.mpr rfl) hva)⟩

/-- The user half of a new address space has no tables yet. -/
theorem Creates.lower_none (hc : Creates k k₁ c) {i : Idx} (hi : i.toNat < 256) (q : List Idx) :
    walk k₁.mem c (i :: q) = none := by
  have habs : entryChild (tableAt k₁.mem c i) = none := by rw [hc.lower i hi, entryChild_zero]
  simp [walk, Radix.walk, habs]

theorem Creates.userTables (hc : Creates k k₁ c) (rs : List U64) :
    UserTables (UserOwned [c]) (k₁.log rs) := by
  intro r q i f hq hl hw hpres
  have hr := List.mem_singleton.mp hq.1
  subst hr
  cases q with
  | nil =>
    cases hw
    rw [Kernel.log_mem, hc.lower i (hq.2 i rfl)] at hpres
    cases hpres
  | cons j q =>
    have hj : walk k₁.mem r (j :: q) = some f := hw
    rw [hc.lower_none (hq.2 j rfl)] at hj
    cases hj

/-- The byte a program reads at an address. -/
def readByte (m : Mem) (r : Nat) (va : U64) : Option U8 :=
  (userTranslate m r va).map fun e =>
    m (frameAddr (entryFrame e) + BitVec.ofNat 64 (va.toNat % 4096))

/-- The flags of a job make its page accessible, and stay out of the address bits of the entry. -/
structure PageJob.UserFlags (j : PageJob) : Prop where
  user : entryUser j.flags = true
  present : entryPresent j.flags = true
  plain : j.flags.extractLsb' 12 40 = 0#40

theorem segmentFlags_eq (ph : Phdr) : ∃ writable nx, segmentFlags ph = userFlags writable nx := by
  unfold segmentFlags userFlags
  by_cases hw : ph.p_flags &&& pfW ≠ 0#32
  · by_cases hx : ph.p_flags &&& pfX = 0#32
    · exact ⟨true, true, by simp [hw, hx]⟩
    · exact ⟨true, false, by simp [hw, hx]⟩
  · by_cases hx : ph.p_flags &&& pfX = 0#32
    · exact ⟨false, true, by simp [hw, hx]⟩
    · exact ⟨false, false, by simp [hw, hx]⟩

theorem userFlags_of_eq {j : PageJob} (h : ∃ writable nx, j.flags = userFlags writable nx) :
    j.UserFlags := by
  obtain ⟨writable, nx, h⟩ := h
  refine ⟨?_, ?_, ?_⟩ <;> rw [h] <;> cases writable <;> cases nx <;> decide

theorem segmentJob_userFlags (f : ElfFile) (off offset : U64) : (segmentJob f off offset).UserFlags :=
  userFlags_of_eq (segmentFlags_eq _)

/-- A page that shows a job, in user mode. -/
theorem Shows.userTranslate {D D' : Ownership} {k k' : Kernel} {o d : Nat} {va : U64} {j : PageJob}
    (h : Shows D k k' o va j d) (hj : j.UserFlags) (hf : Forest D' k') (hu : UserTables D' k')
    (hD : D' o (tablePath va)) :
    userTranslate k'.mem o va = some (frameAddr d ||| j.flags) := by
  have hpres : entryPresent (frameAddr d ||| j.flags) = true := by
    rw [entryPresent, BitVec.getLsbD_or, ← entryPresent, ← entryPresent, hj.present, Bool.or_true]
  have huser : entryUser (frameAddr d ||| j.flags) = true := by
    rw [entryUser, BitVec.getLsbD_or, ← entryUser, ← entryUser, hj.user, Bool.or_true]
  rw [userTranslate_eq hf hu hD, h.leaf, entryLeaf, if_pos hpres, Option.filter_some, if_pos huser]

/-- The byte a job puts at an address. -/
def jobByte (j : PageJob) (va : U64) : Option U8 := j.content.map fun src => src (va.toNat % 4096)

/-- The byte at an address after the jobs `js` were done in a new address space. -/
def imageByte (js : List PageJob) (va : U64) : Option U8 := (lastJob js va).bind fun j => jobByte j va

/-- **What a program reads** after loading into a new address space: the byte of the last job for
the page, where there is one. -/
theorem Loaded.image {js : List PageJob} (hc : Creates k k₁ c) {rs : List U64}
    (h : Loaded (UserOwned [c]) T (fun _ => c) (k₁.log rs) js k')
    (hjs : ∀ j ∈ js, j.UserFlags ∧ j.content.isSome = true) {va : U64} (hva : UserHalf va) :
    ((userTranslate k'.mem c va).isSome = true ↔ lastJob js va ≠ none) ∧
      readByte k'.mem c va = imageByte js va := by
  have hload := hc.loading rs
  have hD : UserOwned [c] c (tablePath va) := userOwned_path (List.mem_singleton.mpr rfl) hva
  have hev := h.evolves hload.forest
  have hu := hev.users _ (fun _ _ h => h) (hc.userTables rs)
  obtain ⟨hsome, hnone⟩ := h.page_shows hload.forest hD
  unfold readByte imageByte
  cases hl : lastJob js va with
  | none =>
    have hempty : translate k₁.mem c va = none := translate_of_none (hc.lower_none hva _)
    have htrans : userTranslate k'.mem c va = none := by
      rw [userTranslate_eq hev.forest hu hD, hnone hl]
      exact congrArg (Option.filter entryUser) hempty
    rw [htrans]
    simp
  | some j =>
    obtain ⟨d, hs⟩ := hsome j hl
    obtain ⟨hflags, hcontent⟩ := hjs j (lastJob_some hl).1
    obtain ⟨src, hsrc⟩ := Option.isSome_iff_exists.mp hcontent
    have htrans := hs.userTranslate hflags hev.forest hu hD
    have hd40 : d < 2 ^ 40 := Nat.lt_trans hs.frame.lt (by omega)
    have hbyte := hs.content (va.toNat % 4096) (Nat.mod_lt _ (by omega))
    rw [PageJob.byte, hsrc] at hbyte
    rw [htrans, Option.map_some, entryFrame_or hd40 hflags.plain, hbyte, Option.bind_some, jobByte,
      hsrc]
    simp

/-! ## Pages of segments -/

/-- `va` lies in the segment. -/
def Phdr.Contains (ph : Phdr) (va : U64) : Prop :=
  ph.p_vaddr.toNat ≤ va.toNat ∧ va.toNat < ph.p_vaddr.toNat + ph.p_memsz.toNat

/-- The page loop of the segment visits the page with this number. -/
def Phdr.Visits (ph : Phdr) (page : Nat) : Prop :=
  ∃ n, n * 4096 < ph.p_memsz.toNat ∧ (ph.p_vaddr.toNat + n * 4096) / 4096 = page

/-- The segment ends below `bound`, without wrapping. -/
def Phdr.EndsBelow (ph : Phdr) (bound : Nat) : Prop := ph.p_vaddr.toNat + ph.p_memsz.toNat ≤ bound

theorem lt_pageCount {n : Nat} {memsz : U64} : n < pageCount memsz ↔ n * 4096 < memsz.toNat := by
  unfold pageCount
  omega

/-- The page of an iteration, below the end of the lower half. -/
theorem pageJob_va {f : ElfFile} {off : U64} {n : Nat} (hb : (f.phdr off).EndsBelow (2 ^ 47))
    (hn : n * 4096 < (f.phdr off).p_memsz.toNat) :
    (pageJob f off n).va.toNat = ((f.phdr off).p_vaddr.toNat + n * 4096) / 4096 * 4096 := by
  have h4096 : pageSize.toNat = 4096 := by decide
  unfold Phdr.EndsBelow at hb
  have hsum : ((f.phdr off).p_vaddr + BitVec.ofNat 64 n * pageSize).toNat =
      (f.phdr off).p_vaddr.toNat + n * 4096 := by
    rw [BitVec.toNat_add, BitVec.toNat_mul, BitVec.toNat_ofNat, h4096]
    omega
  have hva : (pageJob f off n).va =
      ((f.phdr off).p_vaddr + BitVec.ofNat 64 n * pageSize) &&& pageMask := rfl
  rw [hva, and_pageMask_toNat, hsum]

theorem pageJob_lt {f : ElfFile} {off : U64} {n : Nat} (hb : (f.phdr off).EndsBelow (2 ^ 47))
    (hn : n * 4096 < (f.phdr off).p_memsz.toNat) : (pageJob f off n).va.toNat < 2 ^ 47 := by
  have hva := pageJob_va hb hn
  unfold Phdr.EndsBelow at hb
  omega

theorem mem_segmentJobs {f : ElfFile} {off : U64} {j : PageJob} :
    j ∈ segmentJobs f off ↔ (f.phdr off).p_type = ptLoad ∧
      ∃ n, n * 4096 < (f.phdr off).p_memsz.toNat ∧ pageJob f off n = j := by
  unfold segmentJobs
  split
  · next h => simp [h, lt_pageCount]
  · next h => simp [h]

theorem segmentJobs_userFlags {f : ElfFile} {off : U64} {j : PageJob} (h : j ∈ segmentJobs f off) :
    j.UserFlags ∧ j.content.isSome = true := by
  obtain ⟨-, n, -, rfl⟩ := mem_segmentJobs.mp h
  exact ⟨segmentJob_userFlags f off _, rfl⟩

theorem copyStart_ge_vaddr (ph : Phdr) (va : U64) : ph.p_vaddr.toNat ≤ (copyStart ph va).toNat := by
  unfold copyStart
  split
  · next h =>
    rw [gt_iff_lt, BitVec.lt_def] at h
    omega
  · exact Nat.le_refl _

theorem copyEnd_le_end (ph : Phdr) (va : U64) :
    (copyEnd ph va).toNat ≤ ph.p_vaddr.toNat + ph.p_memsz.toNat := by
  have hle : (ph.p_vaddr + ph.p_memsz).toNat ≤ ph.p_vaddr.toNat + ph.p_memsz.toNat := by
    rw [BitVec.toNat_add]
    exact Nat.mod_le _ _
  unfold copyEnd
  split
  · next h =>
    rw [BitVec.lt_def] at h
    omega
  · exact hle

/-- A job of the segment is for the page of `va` exactly when the page loop visits that page. -/
theorem exists_job_iff {f : ElfFile} {off va : U64} (hb : (f.phdr off).EndsBelow (2 ^ 47))
    (hva : va.toNat < 2 ^ 47) :
    (∃ j ∈ segmentJobs f off, pageIdx j.va = pageIdx va) ↔
      (f.phdr off).p_type = ptLoad ∧ (f.phdr off).Visits (frameOf va) := by
  constructor
  · rintro ⟨j, hj, hpage⟩
    obtain ⟨hload, n, hn, rfl⟩ := mem_segmentJobs.mp hj
    rw [pageIdx_eq_of_lt (pageJob_lt hb hn) hva, frameOf, pageJob_va hb hn] at hpage
    exact ⟨hload, n, hn, by omega⟩
  · rintro ⟨hload, n, hn, hpage⟩
    refine ⟨_, mem_segmentJobs.mpr ⟨hload, n, hn, rfl⟩, ?_⟩
    rw [pageIdx_eq_of_lt (pageJob_lt hb hn) hva, frameOf, pageJob_va hb hn]
    omega

end

end PpoOS
