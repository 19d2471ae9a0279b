import PpoOS.Process.Verify.Exec
import PpoOS.Exec.Verify.Overlap

/-!
# What is left in free frames

A segment's pages are zeroed before they are filled, the stack pages are not.
**`execElf_noLeak_iff`**: what a new program can read is independent of what the
free frames hold exactly when `exec_elf` does not get to start it.
-/

namespace PpoOS

open ByteMem FaultState Transition

/-- The two machines differ in the contents of free frames only. -/
structure SameButFree (k k' : Kernel) : Prop where
  same : k' = k.setMem k'.mem
  mem : ∀ b, ¬k.pmm.Free (frameOf b) → k'.mem b = k.mem b

/-- Started on machines that differ in free frames only, the program finds the same bytes. -/
def NoLeak (f : ElfFile) (k : Kernel) : Prop :=
  ∀ l, SameButFree k l → ∀ u k' v l', (execElf (some f)).run k = some (some u, k') →
    (execElf (some f)).run l = some (some v, l') →
    ∀ va, readByte k'.mem (frameOf u.userPml4) va = readByte l'.mem (frameOf v.userPml4) va

/-- The free frames suffice for the address space and everything in it. -/
def ElfFile.Completes (f : ElfFile) (k : Kernel) : Prop :=
  f.Begins k ∧ framesNeeded (kernelReaches k) f.setupJobs + 1 ≤ k.pmm.freeCount

section

variable {k₀ k k' l : Kernel} {g : Nat} {f : ElfFile} {o : Option UserEntry} {u : UserEntry}

theorem Valid.starts_iff (h : Valid (bootLayout g k₀) k)
    (hrun : (execElf (some f)).run k = some (o, k')) : o.isSome = true ↔ f.Completes k := by
  by_cases hb : f.Begins k
  · obtain ⟨rs, c, k₁, done, k₂, k₃, he⟩ := h.exec_loads (T := fun _ => True) hb
      (fun _ _ _ _ => trivial) hrun
    rw [he.starts]
    exact ⟨fun hn => ⟨hb, hn⟩, fun hc => hc.2⟩
  · obtain ⟨rfl, -⟩ := h.exec_idle hb hrun
    exact ⟨fun hc => (nomatch hc), fun hc => absurd hc.1 hb⟩

theorem lastJob_stack :
    lastJob stackJobs userStackTopVaddr = some (stackJob userStackTopVaddr) := rfl

/-- The first byte of the highest stack page is what a free frame held. -/
theorem Valid.stack_byte (h : Valid (bootLayout g k₀) k)
    (hrun : (execElf (some f)).run k = some (some u, k')) :
    ∃ b, k.pmm.Free (frameOf b) ∧
      readByte k'.mem (frameOf u.userPml4) userStackTopVaddr = some (k.mem b) := by
  have hb := ((h.starts_iff hrun).mp rfl).1
  obtain ⟨rs, c, k₁, done, k₂, k₃, he⟩ := h.exec_loads (T := fun _ => True) hb
    (fun _ _ _ _ => trivial) hrun
  have hv₁ := ((h.log rs).create he.created).log tableReads
  have hc : c ∈ k₁.spaces := by
    rw [he.created.rest]
    exact List.mem_cons_self
  have huser : UserHalf userStackTopVaddr := by decide
  have hown : (bootLayout g k₀).own c (rootIdx userStackTopVaddr) = c :=
    (bootLayout g k₀).userOwn c _ huser
  have hsub : ∀ r q, UserOwned [c] r q → (bootLayout g k₀).owned k₁.spaces r q := by
    intro r q hq
    refine (bootLayout g k₀).user ⟨?_, hq.2⟩
    rw [List.mem_singleton.mp hq.1]
    exact hc
  have hDc : UserOwned [c] c (tablePath userStackTopVaddr) :=
    userOwned_path (List.mem_singleton.mpr rfl) huser
  have hD := hsub _ _ hDc
  -- the last job for the page is that of the stack
  have hlast : lastJob done userStackTopVaddr = some (stackJob userStackTopVaddr) := by
    rw [he.all rfl, ElfFile.setupJobs, lastJob_append, lastJob_stack]
    rfl
  obtain ⟨d, hd⟩ := (he.loaded.page_shows hv₁.sound.forest (by rw [hown]; exact hD)).1 _ hlast
  rw [hown] at hd
  have hshow := hd.evolves he.stalls.toEvolves (he.stalls.leaves c _ _ hD rfl)
  have hev := (he.loaded.evolves hv₁.sound.forest).trans he.stalls.toEvolves
  have hforest := hev.forest.restrict (userOwned_closed [c]) hsub
  have htables := hev.users _ hsub (he.created.userTables tableReads)
  have hflags := stackJob_userFlags userStackTopVaddr
  have htrans := hshow.userTranslate hflags hforest htables hDc
  have hd40 : d < 2 ^ 40 := Nat.lt_trans hd.frame.lt (by omega)
  have hframe : frameOf (frameAddr d) = d := frameOf_frameAddr (by omega)
  have hroot : frameOf (frameAddr c) = c := frameOf_frameAddr (by
    have := he.created.free.lt
    omega)
  have hfree := he.created.free
  have hd' : (k.log rs).pmm.Free d ∧ d ≠ c := by
    have := hd.frame
    rw [Kernel.log_pmm, Pmm.free_of_marked he.created.maxBits he.created.used] at this
    exact ⟨this.2, this.1⟩
  refine ⟨frameAddr d, by rw [hframe]; exact hd'.1, ?_⟩
  have hbyte := hshow.content 0 (by omega)
  have hzero : userStackTopVaddr.toNat % 4096 = 0 := by decide
  rw [he.entry u rfl, hroot, readByte, he.mem, htrans, Option.map_some,
    entryFrame_or hd40 hflags.plain, hzero, hbyte]
  have hcreate := he.created.memory (frameAddr d) (by rw [hframe]; exact hd'.2)
  simp only [PageJob.byte, stackJob, Kernel.log_mem, BitVec.add_zero]
  rw [hcreate, Kernel.log_mem]

/-! ## The other machine -/

/-- `k` with every free frame filled with `b`. -/
def fillFree (k : Kernel) (b : U8) : Kernel :=
  k.setMem fun a => if k.pmm.Free (frameOf a) then b else k.mem a

theorem fillFree_sameButFree (k : Kernel) (b : U8) : SameButFree k (fillFree k b) :=
  ⟨rfl, fun _ ha => if_neg ha⟩

theorem SameButFree.valid (hs : SameButFree k l) (h : Valid (bootLayout g k₀) k) :
    Valid (bootLayout g k₀) l := by
  rw [hs.same]
  exact h.write fun b hb => hs.mem b (h.sound.forest.live _ hb).2

/-- What a call needs does not depend on the free frames. -/
theorem SameButFree.completes (hs : SameButFree k l) (h : Valid (bootLayout g k₀) k)
    (hc : f.Completes k) : f.Completes l := by
  have hinv : SharedSlots g (sharedSlots k₀ g) k := h.inv
  have hinv' : SharedSlots g (sharedSlots k₀ g) l := (hs.valid h).inv
  have hpmm : l.pmm = k.pmm := by
    rw [hs.same]
    rfl
  have hmem : ∀ b, IsTable ((bootLayout g k₀).owned k.spaces) k (frameOf b) → l.mem b = k.mem b :=
    fun b hb => hs.mem b (h.sound.forest.live _ hb).2
  have hreach : ∀ p, p.length ≤ 3 → kernelReaches k p = kernelReaches l p := by
    intro p hp
    unfold kernelReaches
    rw [h.gKernelPml4.2.2.2, (hs.valid h).gKernelPml4.2.2.2]
    cases p with
    | nil => rw [List.head?_nil, Option.any_none, Bool.false_and, Bool.false_and]
    | cons i p =>
      rw [List.head?_cons, Option.any_some]
      by_cases hi : 256 ≤ i.toNat
      · rw [decide_eq_true hi, Bool.true_and, Bool.true_and]
        cases hsh : sharedSlots k₀ g i with
        | true =>
          have hD : FullOwned g (sharedSlots k₀ g) k.spaces g (i :: p) := by
            refine Or.inl ⟨rfl, fun j hj => ?_⟩
            cases hj
            exact hsh
          rw [reaches, reaches, h.sound.forest.walk_agree hmem hD hp]
        | false =>
          have hk : entryChild (tableAt k.mem g i) = none := by
            rw [entryChild_eq_none, hinv.present i hi, hsh]
          have hl : entryChild (tableAt l.mem g i) = none := by
            rw [entryChild_eq_none, hinv'.present i hi, hsh]
          simp [reaches, walk, Radix.walk, hk, hl]
      · rw [decide_eq_false hi, Bool.false_and, Bool.false_and]
  obtain ⟨hb, hn⟩ := hc
  refine ⟨⟨hb.1, hb.2.1, by rw [hpmm]; exact hb.2.2⟩, ?_⟩
  rw [hpmm, ← framesNeeded_congr hreach]
  exact hn

/-- Where a program starts, another filling of the free frames makes it find another byte. -/
theorem Valid.leaks (h : Valid (bootLayout g k₀) k) (hc : f.Completes k) : ¬NoLeak f k := by
  intro hno
  obtain ⟨o, k', hexec⟩ := h.exec_ends (some f)
  obtain ⟨u, rfl⟩ := Option.isSome_iff_exists.mp ((h.starts_iff hexec).mpr hc)
  obtain ⟨b, -, hbyte⟩ := h.stack_byte hexec
  -- the other machine has another byte in every free frame
  have hs := fillFree_sameButFree k (k.mem b + 1#8)
  have h' := hs.valid h
  obtain ⟨o', l', hexec'⟩ := h'.exec_ends (some f)
  obtain ⟨v, rfl⟩ := Option.isSome_iff_exists.mp ((h'.starts_iff hexec').mpr (hs.completes h hc))
  obtain ⟨b', hfree, hbyte'⟩ := h'.stack_byte hexec'
  have hsame := hno _ hs u k' v l' hexec hexec' userStackTopVaddr
  have hfill : (fillFree k (k.mem b + 1#8)).mem b' = k.mem b + 1#8 := if_pos hfree
  rw [hbyte, hbyte', hfill] at hsame
  have hne := Option.some.inj hsame
  bv_omega

end

/-- **What a new program can read is independent of what the free frames hold exactly when
`exec_elf` does not get to start it.**  Also where a segment is mapped over the kernel's own
variables or over the file, these are assumed to stay what they are during the call. -/
theorem execElf_noLeak_iff {k₀ : Kernel} {g : Nat} {es : List Event} {m : Machine} (f : ElfFile)
    (hrun : Run MachineStep ⟨k₀, []⟩ es m) (h₀ : Handover g k₀) :
    NoLeak f m.kernel ↔ ¬f.Completes m.kernel := by
  have h := (run_valid_boot hrun h₀).kernel
  constructor
  · exact fun hno hc => h.leaks hc hno
  · intro hc l _ u k' v l' hexec _
    exact absurd ((h.starts_iff hexec).mp rfl) hc

theorem execElf_noLeak_iff_chain :
    NoLeak unalignedFile chainKernel ↔ ¬unalignedFile.Completes chainKernel :=
  execElf_noLeak_iff (m := ⟨chainKernel, []⟩) unalignedFile (Run.nil _) chainKernel_handover

theorem chain_exec_checked : ((execElf (some unalignedFile)).run chainKernel).any
    (fun r => decide (r.1.isSome = true)) = true := by decide +kernel

/-- On a small machine at boot the stack of a new program shows what its frame held. -/
theorem unalignedFile_leaks : Handover 1 chainKernel ∧ ¬NoLeak unalignedFile chainKernel := by
  have hruns := isSome_of_any chain_exec_checked
  have hstarts := get_of_any chain_exec_checked hruns
  have h := (run_valid_boot (Run.nil (⟨chainKernel, []⟩ : Machine)) chainKernel_handover).kernel
  have hcompletes := (h.starts_iff (eq_some_get hruns rfl)).mp hstarts
  exact ⟨chainKernel_handover, h.leaks hcompletes⟩

end PpoOS
