import PpoOS.Process.Verify.Frames
import PpoOS.Exec.Verify.Coverage
import PpoOS.Mm.Bitmap

/-!
# Who owns the tables

A `Layout` says which tables belong to which address space, and what has to hold
of the roots for that.  There are two: `userLayout` is about the lower halves
only, and needs nothing; `fullLayout` covers the kernel half as well.  There the
slots of the kernel's PML4 that are present at boot are shared: every address
space has the same entry, and the kernel's root owns what is below.
-/

namespace PpoOS

open ByteMem FaultState

/-- The roots' own tables are as before, but for entries that were absent and are owned. -/
structure KeepsRoots (D : Ownership) (k k' : Kernel) : Prop where
  roots : ∀ r i, D r [] → entryPresent (tableAt k.mem r i) = true ∨ ¬D r [i] →
    tableAt k'.mem r i = tableAt k.mem r i
  gKernelPml4 : k'.gKernelPml4 = k.gKernelPml4
  spaces : k'.spaces = k.spaces

/-- Which trees the address spaces own, and which root owns the pages that address space `c` has in
slot `i` of its PML4. -/
structure Layout where
  owned : List Nat → Ownership
  own : Nat → Idx → Nat
  inv : Kernel → Prop
  pages : U64 → Prop
  closed : ∀ rs, Radix.PrefixClosed (owned rs)
  cons : ∀ {rs c r q}, owned (c :: rs) r q → owned rs r q ∨ r = c
  user : ∀ {rs r q}, UserOwned rs r q → owned rs r q
  userPages : ∀ va, UserHalf va → pages va
  userOwn : ∀ c (i : Idx), i.toNat < 256 → own c i = c
  owns : ∀ {k c va}, inv k → c ∈ k.spaces → pages va →
    Owns (owned k.spaces) k c va (own c (rootIdx va))
  create : ∀ {k k' c}, inv k → Forest (owned k.spaces) k → Creates k k' c →
    inv k' ∧ ∀ i q, owned (c :: k.spaces) c (i :: q) → entryPresent (tableAt k'.mem c i) = false
  keep : ∀ {k k'}, inv k → KeepsRoots (owned k.spaces) k k' → inv k'

/-! ## The lower halves -/

/-- Only the lower halves are owned. -/
def userLayout : Layout where
  owned := UserOwned
  own := fun c _ => c
  inv := fun _ => True
  pages := UserHalf
  closed := userOwned_closed
  cons := by
    intro rs c r q h
    rcases List.mem_cons.mp h.1 with hr | hr
    · exact Or.inr hr
    · exact Or.inl ⟨hr, h.2⟩
  user := id
  userPages := fun _ h => h
  userOwn := fun _ _ _ => rfl
  owns := fun _ hc hva =>
    ⟨userOwned_path hc hva, ⟨hc, fun _ hi => by cases hi⟩, Or.inl rfl⟩
  create := by
    intro k k' c _ _ hc
    refine ⟨trivial, ?_⟩
    intro i q hq
    rw [hc.lower i (hq.2 i rfl), entryPresent_zero]
  keep := fun _ _ => trivial

/-! ## The whole address spaces -/

/-- The kernel's root `g` owns the shared slots; every other root owns the rest of its own. -/
def FullOwned (g : Nat) (sh : Idx → Bool) (rs : List Nat) : Ownership := fun r q =>
  (r = g ∧ ∀ i ∈ q.head?, sh i = true) ∨ (r ∈ rs ∧ ∀ i ∈ q.head?, sh i = false)

theorem fullOwned_closed (g : Nat) (sh : Idx → Bool) (rs : List Nat) :
    Radix.PrefixClosed (FullOwned g sh rs) := by
  intro r q i h
  refine h.imp (fun h => ⟨h.1, ?_⟩) (fun h => ⟨h.1, ?_⟩)
  · cases q with
    | nil => simp
    | cons j q => exact h.2
  · cases q with
    | nil => simp
    | cons j q => exact h.2

/-- The kernel's PML4 has the shared slots and, in the upper half, no others; every address space
has its entries in the shared slots. -/
structure SharedSlots (g : Nat) (sh : Idx → Bool) (k : Kernel) : Prop where
  root : k.gKernelPml4 = frameAddr g
  pos : 0 < g
  other : g ∉ k.spaces
  upper : ∀ i, sh i = true → 256 ≤ i.toNat
  present : ∀ i : Idx, 256 ≤ i.toNat → entryPresent (tableAt k.mem g i) = sh i
  same : ∀ r ∈ k.spaces, ∀ i, sh i = true → tableAt k.mem r i = tableAt k.mem g i

theorem SharedSlots.keep {g : Nat} {sh : Idx → Bool} {k k' : Kernel} (h : SharedSlots g sh k)
    (hk : KeepsRoots (FullOwned g sh k.spaces) k k') : SharedSlots g sh k' := by
  have hg : ∀ i : Idx, 256 ≤ i.toNat → tableAt k'.mem g i = tableAt k.mem g i := by
    intro i hi
    refine hk.roots g i (Or.inl ⟨rfl, by simp⟩) ?_
    cases hs : sh i with
    | true =>
      rw [h.present i hi]
      exact Or.inl hs
    | false =>
      refine Or.inr ?_
      rintro (hc | hc)
      · rw [hc.2 i rfl] at hs
        cases hs
      · exact h.other hc.1
  refine ⟨hk.gKernelPml4.trans h.root, h.pos, by rw [hk.spaces]; exact h.other, h.upper, ?_, ?_⟩
  · intro i hi
    rw [hg i hi, h.present i hi]
  · intro r hr i hs
    rw [hk.spaces] at hr
    have hi := h.upper i hs
    have hri := hk.roots r i (Or.inr ⟨hr, by simp⟩)
      (Or.inl (by rw [h.same r hr i hs, h.present i hi, hs]))
    rw [hri, hg i hi]
    exact h.same r hr i hs

theorem SharedSlots.owns {g c : Nat} {sh : Idx → Bool} {k : Kernel} (h : SharedSlots g sh k)
    (hc : c ∈ k.spaces) (va : U64) :
    Owns (FullOwned g sh k.spaces) k c va (if sh (rootIdx va) then g else c) := by
  have hroot : FullOwned g sh k.spaces c [] := Or.inr ⟨hc, by simp⟩
  cases hs : sh (rootIdx va) with
  | true =>
    have hpath : FullOwned g sh k.spaces g (tablePath va) := by
      refine Or.inl ⟨rfl, fun i hi => ?_⟩
      cases hi
      exact hs
    rw [if_pos rfl]
    refine ⟨hpath, hroot, Or.inr ⟨?_, h.same c hc _ hs⟩⟩
    rw [h.present _ (h.upper _ hs), hs]
  | false =>
    have hpath : FullOwned g sh k.spaces c (tablePath va) := by
      refine Or.inr ⟨hc, fun i hi => ?_⟩
      cases hi
      exact hs
    exact ⟨hpath, hroot, Or.inl rfl⟩

theorem SharedSlots.create {g c : Nat} {sh : Idx → Bool} {k k' : Kernel} (h : SharedSlots g sh k)
    (hf : Forest (FullOwned g sh k.spaces) k) (hc : Creates k k' c) :
    SharedSlots g sh k' ∧ ∀ i q, FullOwned g sh (c :: k.spaces) c (i :: q) →
      entryPresent (tableAt k'.mem c i) = false := by
  have hroot : FullOwned g sh k.spaces g [] := Or.inl ⟨rfl, by simp⟩
  obtain ⟨hgb, hgf⟩ := hf.root_live hroot
  have hgc : g ≠ c := fun h => hgf (h ▸ hc.free)
  have hup : ∀ i : Idx, 256 ≤ i.toNat → tableAt k'.mem c i =
      if entryPresent (tableAt k.mem g i) then tableAt k.mem g i else 0#64 :=
    hc.upper g h.root hgb hgc
  have hkeep : ∀ r, FullOwned g sh k.spaces r [] → ∀ i, tableAt k'.mem r i = tableAt k.mem r i := by
    intro r hr i
    obtain ⟨hrb, hrf⟩ := hf.root_live hr
    exact hc.entries hrb (fun h => hrf (h ▸ hc.free)) i
  have hspaces : k'.spaces = c :: k.spaces := by rw [hc.rest]
  have hnew : ∀ i, sh i = true → tableAt k'.mem c i = tableAt k.mem g i := by
    intro i hs
    rw [hup i (h.upper i hs), h.present i (h.upper i hs), hs]
    rfl
  refine ⟨⟨by rw [hc.rest]; exact h.root, h.pos, ?_, h.upper, ?_, ?_⟩, ?_⟩
  · rw [hspaces]
    exact fun hg => (List.mem_cons.mp hg).elim hgc h.other
  · intro i hi
    rw [hkeep g hroot i, h.present i hi]
  · intro r hr i hs
    rw [hspaces] at hr
    rw [hkeep g hroot i]
    rcases List.mem_cons.mp hr with rfl | hr
    · exact hnew i hs
    · rw [hkeep r (Or.inr ⟨hr, by simp⟩) i]
      exact h.same r hr i hs
  · intro i q hq
    have hs : sh i = false := by
      rcases hq with hq | hq
      · exact absurd hq.1.symm hgc
      · exact hq.2 i rfl
    by_cases hi : i.toNat < 256
    · rw [hc.lower i hi, entryPresent_zero]
    · rw [hup i (by omega), h.present i (by omega), hs]
      exact entryPresent_zero

/-- The whole address spaces are owned, the shared slots by the kernel's root. -/
def fullLayout (g : Nat) (sh : Idx → Bool) (hsh : ∀ i, sh i = true → 256 ≤ i.toNat) : Layout where
  owned := FullOwned g sh
  own := fun c i => if sh i then g else c
  inv := SharedSlots g sh
  pages := fun _ => True
  closed := fullOwned_closed g sh
  cons := by
    rintro rs c r q (h | h)
    · exact Or.inl (Or.inl h)
    · rcases List.mem_cons.mp h.1 with hr | hr
      · exact Or.inr hr
      · exact Or.inl (Or.inr ⟨hr, h.2⟩)
  user := by
    intro rs r q h
    refine Or.inr ⟨h.1, fun i hi => ?_⟩
    have hlt := h.2 i hi
    cases hs : sh i with
    | false => rfl
    | true =>
      have := hsh i hs
      omega
  userPages := fun _ _ => trivial
  userOwn := by
    intro c i hi
    refine if_neg fun hs => ?_
    have := hsh i hs
    omega
  owns := fun h hc _ => h.owns hc _
  create := fun h hf hc => h.create hf hc
  keep := fun h hk => h.keep hk

/-! ## Boot -/

/-- The slots that address spaces share with the kernel's root `g`. -/
def sharedSlots (k : Kernel) (g : Nat) (i : Idx) : Bool :=
  decide (256 ≤ i.toNat) && entryPresent (tableAt k.mem g i)

theorem sharedSlots_upper {k : Kernel} {g : Nat} {i : Idx} (h : sharedSlots k g i = true) :
    256 ≤ i.toNat := by
  rw [sharedSlots, Bool.and_eq_true, decide_eq_true_iff] at h
  exact h.1

/-- What the kernel finds at boot: the tables of its upper half are a forest of frames that are not
free, and no page there is accessible from user mode. -/
structure Handover (g : Nat) (k : Kernel) : Prop where
  spaces : k.spaces = []
  root : k.gKernelPml4 = frameAddr g
  pos : 0 < g
  forest : Forest (FullOwned g (sharedSlots k g) []) k
  supervisor : ∀ q i e, (∀ j ∈ q.head?, 256 ≤ j.toNat) → q.length = 3 →
    lookup k.mem g q i = some e → entryUser e = false

/-- The layout of the kernel's tables at boot. -/
def bootLayout (g : Nat) (k : Kernel) : Layout :=
  fullLayout g (sharedSlots k g) fun _ => sharedSlots_upper

theorem Handover.sound {g : Nat} {k : Kernel} (h : Handover g k) :
    Sound ((bootLayout g k).owned k.spaces) k := by
  have hnone : ∀ r q i e, ¬DataLeaf (FullOwned g (sharedSlots k g) []) k r q i e := by
    intro r q i e hl
    obtain ⟨rfl, hq⟩ := hl.owned.resolve_right fun hc => List.not_mem_nil hc.1
    have hup : ∀ j ∈ q.head?, 256 ≤ j.toNat := fun j hj => sharedSlots_upper (hq j hj)
    rcases hl.reach with hlow | huser
    · cases q with
      | nil => exact nomatch hl.level
      | cons j q =>
        have hlt := hlow j rfl
        have hge := hup j rfl
        omega
    · rw [h.supervisor q i e hup hl.level hl.entry] at huser
      cases huser
  rw [h.spaces]
  exact ⟨h.forest, ⟨fun r q i e hl => absurd hl (hnone r q i e),
    fun r q i e hl => absurd hl (hnone r q i e),
    fun r q i e _ _ _ _ hl => absurd hl (hnone r q i e)⟩⟩

theorem Handover.shared {g : Nat} {k : Kernel} (h : Handover g k) :
    SharedSlots g (sharedSlots k g) k where
  root := h.root
  pos := h.pos
  other := by rw [h.spaces]; exact List.not_mem_nil
  upper := fun _ => sharedSlots_upper
  present := by
    intro i hi
    rw [sharedSlots, decide_eq_true hi, Bool.true_and]
  same := by
    intro r hr
    rw [h.spaces] at hr
    cases hr

/-! ### Small machines at boot -/

/-- Four tables in a row, from the PML4 in frame 1 on; no page of the last one is accessible from user
mode. -/
structure ChainTables (m : Mem) (a b c : Idx) : Prop where
  root : ∀ i, tableAt m 1 i = if i = a then 0x2003#64 else 0#64
  second : ∀ i, tableAt m 2 i = if i = b then 0x3003#64 else 0#64
  third : ∀ i, tableAt m 3 i = if i = c then 0x4003#64 else 0#64
  pages : ∀ i, entryUser (tableAt m 4 i) = false

/-- The tables of the chain, by their paths. -/
def chainTable (a b c : Idx) : List Idx → Option Nat
  | [] => some 1
  | [i] => if i = a then some 2 else none
  | [i, j] => if i = a ∧ j = b then some 3 else none
  | [i, j, l] => if i = a ∧ j = b ∧ l = c then some 4 else none
  | _ => none

section

variable {m : Mem} {a b c : Idx} {q q' : List Idx} {f : Nat}

theorem ChainTables.walk_eq (h : ChainTables m a b c) (hq : q.length ≤ 3) :
    walk m 1 q = chainTable a b c q := by
  have h1 : ∀ i, entryChild (tableAt m 1 i) = if i = a then some 2 else none := by
    intro i
    rw [h.root]
    split
    · decide
    · exact entryChild_zero
  have h2 : ∀ i, entryChild (tableAt m 2 i) = if i = b then some 3 else none := by
    intro i
    rw [h.second]
    split
    · decide
    · exact entryChild_zero
  have h3 : ∀ i, entryChild (tableAt m 3 i) = if i = c then some 4 else none := by
    intro i
    rw [h.third]
    split
    · decide
    · exact entryChild_zero
  match q, hq with
  | [], _ => rfl
  | [i], _ =>
    by_cases hi : i = a <;> simp [walk, Radix.walk, chainTable, h1, hi]
  | [i, j], _ =>
    by_cases hi : i = a <;> by_cases hj : j = b <;>
      simp [walk, Radix.walk, chainTable, h1, h2, hi, hj]
  | [i, j, l], _ =>
    by_cases hi : i = a <;> by_cases hj : j = b <;> by_cases hl : l = c <;>
      simp [walk, Radix.walk, chainTable, h1, h2, h3, hi, hj, hl]
  | _ :: _ :: _ :: _ :: _, hq => exact absurd hq (by simp only [List.length_cons]; omega)

/-- The chain has no table twice. -/
theorem chainTable_inj (h : chainTable a b c q = some f) (h' : chainTable a b c q' = some f) : q = q' := by
  unfold chainTable at h h'
  split at h <;> split at h' <;> simp_all <;> omega

theorem chainTable_length (h : chainTable a b c q = some f) : f = q.length + 1 ∧ q.length ≤ 3 := by
  unfold chainTable at h
  split at h <;> simp_all
  omega

/-- The entries for tables are plain. -/
theorem ChainTables.plain (h : ChainTables m a b c) (hf : 1 ≤ f ∧ f ≤ 3) (i : Idx) :
    (tableAt m f i).toNat < 2 ^ 47 := by
  obtain rfl | rfl | rfl : f = 1 ∨ f = 2 ∨ f = 3 := by omega
  · rw [h.root]
    split <;> decide
  · rw [h.second]
    split <;> decide
  · rw [h.third]
    split <;> decide

/-- A machine with these tables is as it should be at boot. -/
theorem ChainTables.handover {k : Kernel} (h : ChainTables k.mem a b c) (hspaces : k.spaces = [])
    (hroot : k.gKernelPml4 = frameAddr 1) : Handover 1 k where
  spaces := hspaces
  root := hroot
  pos := by decide
  forest := by
    have htable : ∀ {r q f}, FullOwned 1 (sharedSlots k 1) [] r q → q.length ≤ 3 →
        walk k.mem r q = some f → r = 1 ∧ chainTable a b c q = some f := by
      intro r q f hD hl hw
      obtain ⟨rfl, -⟩ := hD.resolve_right fun hc => List.not_mem_nil hc.1
      exact ⟨rfl, (h.walk_eq hl).symm.trans hw⟩
    refine ⟨fullOwned_closed _ _ _, ?_, ?_, ?_⟩
    · intro r q r' q' f hD hD' hl hl' hw hw'
      obtain ⟨rfl, hf⟩ := htable hD hl hw
      obtain ⟨rfl, hf'⟩ := htable hD' hl' hw'
      exact ⟨rfl, chainTable_inj hf hf'⟩
    · rintro f ⟨r, q, hD, hl, hw⟩
      have hlen := chainTable_length (htable hD hl hw).2
      refine ⟨by unfold frameBound; omega, fun hfree => ?_⟩
      have hlow := hfree.1
      omega
    · intro r q i f hD hl hw _
      have hlen := chainTable_length (htable ((fullOwned_closed _ _ _) hD) (by omega) hw).2
      exact h.plain (by omega) i
  supervisor := by
    intro q i e _ hl he
    rw [lookup, Radix.lookup, Option.bind_eq_some_iff] at he
    obtain ⟨f, hf, he⟩ := he
    have hlen := chainTable_length ((h.walk_eq (Nat.le_of_eq hl)).symm.trans hf)
    obtain rfl : f = 4 := by omega
    obtain ⟨-, rfl⟩ := entryLeaf_eq_some.mp he
    exact h.pages i

end

/-- Four tables below entry 256 of the PML4 in frame 1, and a kernel page in frame 5. -/
def chainMem : Mem :=
  store64 (store64 (store64 (store64 (fun _ => 0#8) (entryAddr 1 256#9) 0x2003#64)
    (entryAddr 2 0#9) 0x3003#64) (entryAddr 3 0#9) 0x4003#64) (entryAddr 4 0#9) 0x5003#64

/-- `smallKernel` with a kernel page at the start of the kernel half. -/
def chainKernel : Kernel := smallKernel.setMem chainMem

theorem tableAt_chainMem {f : Nat} (hf : f < frameBound) (i : Idx) :
    tableAt chainMem f i =
      if f = 4 ∧ i = 0#9 then 0x5003#64 else if f = 3 ∧ i = 0#9 then 0x4003#64
      else if f = 2 ∧ i = 0#9 then 0x3003#64 else if f = 1 ∧ i = 256#9 then 0x2003#64 else 0#64 := by
  have hzero : tableAt (fun _ => 0#8) f i = 0#64 := by
    unfold tableAt load64
    beta_reduce
    decide
  have hb : ∀ n, n < 5 → n < frameBound := by
    intro n hn
    unfold frameBound
    omega
  rw [chainMem, tableAt_store64 _ (hb 4 (by omega)) hf, tableAt_store64 _ (hb 3 (by omega)) hf,
    tableAt_store64 _ (hb 2 (by omega)) hf, tableAt_store64 _ (hb 1 (by omega)) hf, hzero]

theorem chainMem_tables : ChainTables chainMem 256#9 0#9 0#9 := by
  have hb : ∀ n, n < 5 → n < frameBound := by
    intro n hn
    unfold frameBound
    omega
  constructor
  · intro i
    simp [tableAt_chainMem (hb 1 (by omega))]
  · intro i
    simp [tableAt_chainMem (hb 2 (by omega))]
  · intro i
    simp [tableAt_chainMem (hb 3 (by omega))]
  · intro i
    rw [tableAt_chainMem (hb 4 (by omega))]
    repeat' split
    all_goals decide

theorem chainKernel_handover : Handover 1 chainKernel :=
  ChainTables.handover (k := chainKernel) chainMem_tables rfl rfl

theorem imageMem_tables : ChainTables (tablesMem imageEntry) 511#9 510#9 0#9 := by
  have hb : ∀ n, n < 5 → n < frameBound := by
    intro n hn
    unfold frameBound
    omega
  constructor
  · intro i
    simp [tableAt_tablesMem _ (hb 1 (by omega)), imageEntry]
  · intro i
    simp [tableAt_tablesMem _ (hb 2 (by omega)), imageEntry]
  · intro i
    simp [tableAt_tablesMem _ (hb 3 (by omega)), imageEntry]
  · intro i
    rw [tableAt_tablesMem _ (hb 4 (by omega))]
    revert i
    decide +kernel

theorem imageKernel_handover (pmm : Pmm) : Handover 1 (imageKernel pmm) :=
  ChainTables.handover (k := imageKernel pmm) imageMem_tables rfl rfl

end PpoOS
