import PpoOS.Process.Verify.Exec

/-!
# Loading and the kernel half

The page tables below the kernel's PML4 entries are shared, and the loader maps
a segment wherever its header says.  **`execElf_kernelHalf_iff`**: a call of
`exec_elf` leaves the kernel half of every address space as it was exactly when
no page of a segment that it gets to lies in a slot the kernel's PML4 shares.
-/

namespace PpoOS

open ByteMem FaultState Transition

/-- The kernel's root and the address spaces translate the kernel half as before. -/
def KeepsKernelHalf (k k' : Kernel) : Prop :=
  ∀ x, x = frameOf k.gKernelPml4 ∨ x ∈ k.spaces → ∀ va : U64, 256 ≤ (rootIdx va).toNat →
    translate k'.mem x va = translate k.mem x va

section

variable {k₀ k k₁ k₂ k₃ k' : Kernel} {g c : Nat} {f : ElfFile} {T : U64 → Prop} {va : U64}
  {o : Option UserEntry} {rs : List U64} {done : List PageJob} {j : PageJob}

theorem Valid.sharedPage_iff (h : Valid (bootLayout g k₀) k) :
    SharedPage k va ↔ sharedSlots k₀ g (rootIdx va) = true := by
  have hinv : SharedSlots g (sharedSlots k₀ g) k := h.inv
  rw [SharedPage, h.gKernelPml4.2.2.2]
  constructor
  · rintro ⟨hi, hp⟩
    rwa [hinv.present _ hi] at hp
  · intro hs
    exact ⟨hinv.upper _ hs, by rw [hinv.present _ (hinv.upper _ hs), hs]⟩

theorem Valid.shared_owned (h : Valid (bootLayout g k₀) k) (hs : SharedPage k va) (rs : List Nat) :
    FullOwned g (sharedSlots k₀ g) rs g (tablePath va) := by
  refine Or.inl ⟨rfl, fun i hi => ?_⟩
  cases hi
  exact h.sharedPage_iff.mp hs

theorem Valid.unshared_owned (h : Valid (bootLayout g k₀) k) (hs : ¬SharedPage k va) {x : Nat}
    {rs : List Nat} (hx : x ∈ rs) : FullOwned g (sharedSlots k₀ g) rs x (tablePath va) := by
  refine Or.inr ⟨hx, fun i hi => ?_⟩
  cases hi
  rw [h.sharedPage_iff] at hs
  exact (Bool.not_eq_true _).mp hs

/-- In a slot that is not shared the kernel's root has nothing in the kernel half. -/
theorem Valid.unshared_root (h : Valid (bootLayout g k₀) k) (hi : 256 ≤ (rootIdx va).toNat)
    (hs : ¬SharedPage k va) : translate k.mem g va = none := by
  have hg := h.gKernelPml4.2.2.2
  rw [SharedPage, hg] at hs
  have habs : entryPresent (tableAt k.mem g (rootIdx va)) = false := by
    simpa using fun hp => hs ⟨hi, hp⟩
  have hchild := entryChild_eq_none.mpr habs
  have hpath : tablePath va = rootIdx va :: [va.extractLsb' 30 9, va.extractLsb' 21 9] := rfl
  refine translate_of_none ?_
  rw [hpath]
  simp [walk, Radix.walk, hchild]

/-- The kernel half is kept where the owners of its pages keep their leaves. -/
theorem Valid.keepsKernelHalf (h : Valid (bootLayout g k₀) k) (h' : Valid (bootLayout g k₀) k')
    (hspaces : ∀ x ∈ k.spaces, x ∈ k'.spaces)
    (hshared : ∀ va, SharedPage k va → translate k'.mem g va = translate k.mem g va)
    (hother : ∀ x ∈ k.spaces, ∀ va, ¬SharedPage k va →
      translate k'.mem x va = translate k.mem x va) : KeepsKernelHalf k k' := by
  have hsame : ∀ va, SharedPage k' va ↔ SharedPage k va :=
    fun va => h'.sharedPage_iff.trans h.sharedPage_iff.symm
  intro x hx va hi
  by_cases hs : SharedPage k va
  · rcases hx with hx | hx
    · rw [hx, h.gKernelPml4.2.2.2]
      exact hshared va hs
    · have hown : (bootLayout g k₀).own x (rootIdx va) = g := if_pos (h.sharedPage_iff.mp hs)
      have ho := (@Layout.owns (bootLayout g k₀) _ _ va h.inv hx trivial).translate_eq
      have ho' := (@Layout.owns (bootLayout g k₀) _ _ va h'.inv (hspaces x hx) trivial).translate_eq
      rw [hown] at ho ho'
      rw [ho, ho']
      exact hshared va hs
  · rcases hx with hx | hx
    · rw [hx, h.gKernelPml4.2.2.2, h.unshared_root hi hs,
        h'.unshared_root hi fun hc => hs ((hsame va).mp hc)]
    · exact hother x hx va hs

/-- Making an address space keeps the tables there are. -/
theorem Valid.create_translate (h : Valid (bootLayout g k₀) k) (hc : Creates (k.log rs) k₁ c)
    {x : Nat} (hD : (bootLayout g k₀).owned k.spaces x (tablePath va)) :
    translate k₁.mem x va = translate k.mem x va := by
  have hf := (h.log rs).sound.forest
  exact hf.lookup_agree (hc.tables hf) hD (Nat.le_refl 3) _

/-- Only a job in a shared slot is for a page of the kernel's root. -/
theorem ExecLoads.keeps (h : Valid (bootLayout g k₀) k)
    (he : ExecLoads (bootLayout g k₀) T f k o k' rs c k₁ done k₂ k₃) {x : Nat}
    (hD : (bootLayout g k₀).owned k.spaces x (tablePath va))
    (hne : ∀ j ∈ done, pageIdx j.va = pageIdx va → (bootLayout g k₀).own c (rootIdx va) ≠ x) :
    translate k'.mem x va = translate k.mem x va := by
  have hD₁ : (bootLayout g k₀).owned k₁.spaces x (tablePath va) := by
    rw [he.created.rest]
    exact hD.imp id fun hx => ⟨List.mem_cons_of_mem _ hx.1, hx.2⟩
  have hothers : translate k₂.mem x va = translate k₁.mem x va := by
    refine he.loaded.others hD₁ rfl fun j hj hc => ?_
    have hpage := (path_eq_iff.mp hc.2).symm
    refine hne j hj hpage ?_
    rw [← rootIdx_of_pageIdx hpage]
    exact hc.1.symm
  rw [he.mem]
  exact (he.stalls.leaves x _ _ hD₁ rfl).trans (hothers.trans (h.create_translate he.created hD))

/-- A job in a shared slot replaces the leaf of the kernel's root by one of a fresh frame. -/
theorem ExecLoads.replaces (h : Valid (bootLayout g k₀) k)
    (he : ExecLoads (bootLayout g k₀) T f k o k' rs c k₁ done k₂ k₃) (hj : j ∈ done)
    (hs : SharedPage k j.va) : translate k'.mem g j.va ≠ translate k.mem g j.va := by
  have hv₁ := (h.log rs).create he.created
  have hown : (bootLayout g k₀).own c (rootIdx j.va) = g := if_pos (h.sharedPage_iff.mp hs)
  have hD := h.shared_owned hs k.spaces
  have hD₁ := h.shared_owned hs k₁.spaces
  have hroot : (bootLayout g k₀).owned k₁.spaces ((bootLayout g k₀).own c (rootIdx j.va))
      (tablePath j.va) := by
    rw [hown]
    exact hD₁
  obtain ⟨hshow, -⟩ := he.loaded.page_shows (hv₁.log tableReads).sound.forest hroot
  -- the last job for the page
  obtain ⟨j', hlast⟩ : ∃ j', lastJob done j.va = some j' := by
    cases hl : lastJob done j.va with
    | none => exact absurd rfl (lastJob_eq_none.mp hl j hj)
    | some j' => exact ⟨j', rfl⟩
  obtain ⟨d, hd⟩ := hshow j' hlast
  rw [hown] at hd
  have hflags := setupJobs_userFlags f j' ((he.done_iff j').mp (lastJob_some hlast).1).mem
  have hpres : entryPresent (frameAddr d ||| j'.flags) = true := by
    rw [entryPresent, BitVec.getLsbD_or, ← entryPresent, ← entryPresent, hflags.present,
      Bool.or_true]
  have huser : entryUser (frameAddr d ||| j'.flags) = true := by
    rw [entryUser, BitVec.getLsbD_or, ← entryUser, ← entryUser, hflags.user, Bool.or_true]
  have hleaf : translate k'.mem g j.va = some (frameAddr d ||| j'.flags) := by
    rw [he.mem, ← entryLeaf_eq_some.mpr ⟨hpres, rfl⟩, ← hd.leaf]
    exact he.stalls.leaves g _ _ hD₁ rfl
  intro hsame
  rw [hleaf] at hsame
  have hold : DataLeaf ((bootLayout g k₀).owned k.spaces) k g (tablePath j.va) (leafIdx j.va)
      (frameAddr d ||| j'.flags) := ⟨hD, rfl, hsame.symm, Or.inr huser⟩
  -- the frame was free, and a leaf of user mode refers to a used one
  have hused := h.sound.frames.used _ _ _ _ hold
  rw [entryFrame_or (Nat.lt_trans hd.frame.lt (by omega)) hflags.plain] at hused
  have hfree := hd.frame.2.2
  rw [Kernel.log_pmm, he.created.used, Kernel.log_pmm, hused, Bool.or_true] at hfree
  cases hfree

end

/-- **A call of `exec_elf` leaves the kernel half of every address space as it was exactly when no
page of a segment that it gets to is in a shared slot.**  The kernel's own variables and the file
are assumed to stay what they are during the call, also where a segment is mapped over them; before
the first page in a shared slot nothing is. -/
theorem execElf_kernelHalf_iff {k₀ : Kernel} {g : Nat} {es : List Event} {m : Machine} (f : ElfFile)
    (hrun : Run MachineStep ⟨k₀, []⟩ es m) (h₀ : Handover g k₀) :
    ∃ o k', (execElf (some f)).run m.kernel = some (o, k') ∧
      (KeepsKernelHalf m.kernel k' ↔
        ¬(f.Begins m.kernel ∧ ∃ j ∈ f.segmentJobs, SharedPage m.kernel j.va ∧
          Reached (kernelReaches m.kernel) (m.kernel.pmm.freeCount - 1) f.setupJobs j)) := by
  have h := (run_valid_boot hrun h₀).kernel
  obtain ⟨o, k', hexec⟩ := h.exec_ends (some f)
  obtain ⟨h', hspaces, -⟩ := h.exec (bootLayout_allows g k₀ _) hexec
  refine ⟨o, k', hexec, ?_⟩
  by_cases hb : f.Begins m.kernel
  · obtain ⟨rs, c, k₁, done, k₂, k₃, he⟩ := h.exec_loads (T := fun _ => True) hb
      (fun _ _ _ _ => trivial) hexec
    have hfresh : c ∉ m.kernel.spaces := (h.log rs).create_fresh he.created
    constructor
    · rintro hkeep ⟨-, j, -, hs, hreach⟩
      have hgk := h.gKernelPml4.2.2.2
      have hsame := hkeep g (Or.inl hgk.symm) j.va hs.1
      exact he.replaces h ((he.done_iff j).mpr hreach) hs hsame
    · intro hno
      refine h.keepsKernelHalf h' hspaces ?_ ?_
      · intro va hs
        refine he.keeps h (h.shared_owned hs m.kernel.spaces) fun j hj hpage _ => hno ⟨hb, j, ?_⟩
        have hreach := (he.done_iff j).mp hj
        have hroot := rootIdx_of_pageIdx hpage
        have hs' : SharedPage m.kernel j.va := by rwa [SharedPage, hroot]
        refine ⟨(List.mem_append.mp hreach.mem).resolve_right fun hstack => ?_, hs', hreach⟩
        have hlow := stackJobs_user j hstack
        have hhigh := hs'.1
        unfold UserHalf at hlow
        omega
      · intro x hx va hs
        refine he.keeps h (h.unshared_owned hs hx) fun j _ _ hown => ?_
        have hc : (bootLayout g k₀).own c (rootIdx va) = c :=
          if_neg fun hc => hs (h.sharedPage_iff.mpr hc)
        exact hfresh (hc.symm.trans hown ▸ hx)
  · refine ⟨fun _ hc => hb hc.1, fun _ => ?_⟩
    obtain ⟨-, -, hmem⟩ := h.exec_idle hb hexec
    have hkeep : ∀ {x va}, (bootLayout g k₀).owned m.kernel.spaces x (tablePath va) →
        translate k'.mem x va = translate m.kernel.mem x va := by
      intro x va hD
      rcases hmem with ⟨hmem, -⟩ | ⟨rs, c, k₁, hc, hmem, -⟩
      · rw [hmem]
      · rw [hmem]
        exact h.create_translate hc hD
    exact h.keepsKernelHalf h' hspaces (fun va hs => hkeep (h.shared_owned hs m.kernel.spaces))
      fun x hx va hs => hkeep (h.unshared_owned hs hx)

/-! ## A page of the kernel that is replaced -/

/-- A file with a segment at the start of the kernel half. -/
def kernelHalfFile : ElfFile :=
  fileOf (headerBytes 64 1 ++ segmentBytes 120 0xffff800000000000 0 0x1000) (by decide +kernel)

theorem execElf_kernelHalf_iff_chain :
    ∃ o k', (execElf (some kernelHalfFile)).run chainKernel = some (o, k') ∧
      (KeepsKernelHalf chainKernel k' ↔
        ¬(kernelHalfFile.Begins chainKernel ∧ ∃ j ∈ kernelHalfFile.segmentJobs,
          SharedPage chainKernel j.va ∧ Reached (kernelReaches chainKernel)
            (chainKernel.pmm.freeCount - 1) kernelHalfFile.setupJobs j)) :=
  execElf_kernelHalf_iff (m := ⟨chainKernel, []⟩) kernelHalfFile (Run.nil _) chainKernel_handover

theorem kernelHalfFile_checked : ((execElf (some kernelHalfFile)).run chainKernel).any (fun r => decide
    (r.1.isSome = true ∧ translate r.2.mem 1 0xffff800000000000#64 = some 0x101007#64)) = true := by decide +kernel

/-- The kernel page gives way to a page of the program, accessible from user mode. -/
theorem kernelHalfFile_remaps : Handover 1 chainKernel ∧
    translate chainKernel.mem 1 0xffff800000000000#64 = some 0x5003#64 ∧
    ∃ u k', (execElf (some kernelHalfFile)).run chainKernel = some (some u, k') ∧
      ∃ e, translate k'.mem 1 0xffff800000000000#64 = some e ∧ entryUser e = true ∧
        ¬KeepsKernelHalf chainKernel k' := by
  have hbefore : translate chainKernel.mem 1 0xffff800000000000#64 = some 0x5003#64 := by
    decide +kernel
  have hruns := isSome_of_any kernelHalfFile_checked
  obtain ⟨hstarts, hafter⟩ := get_of_any kernelHalfFile_checked hruns
  obtain ⟨u, hu⟩ := Option.isSome_iff_exists.mp hstarts
  refine ⟨chainKernel_handover, hbefore, u, _, eq_some_get hruns hu, 0x101007#64,
    hafter, by decide, fun hkeep => ?_⟩
  have hsame := hkeep 1 (Or.inl rfl) 0xffff800000000000#64 (by decide)
  rw [hbefore] at hsame
  exact absurd (hafter.symm.trans hsame) (by decide)

end PpoOS
