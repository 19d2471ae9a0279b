import PpoOS.Process.Verify.Invariant

/-!
# Isolation of address spaces

`Refers` is a present entry of a user half, at any level: in a valid state every frame that one refers
to is marked used, and no two refer to one frame.  `KeepsSpace` and `HoldsFrame` say of a fork that it
changes no address space there is, and shares no frame with one (`Valid.fork_isolated`).
-/

namespace PpoOS

open ByteMem FaultState Transition

/-! ## The entries of the user halves -/

/-- The entry in slot `i` of the table at path `q`, in the lower half of address space `r`, is present
and refers to frame `d`. -/
structure Refers (k : Kernel) (r : Nat) (q : List Idx) (i : Idx) (d : Nat) : Prop where
  space : r ∈ k.spaces
  level : q.length ≤ 3
  half : ∀ j ∈ (q ++ [i]).head?, j.toNat < 256
  refers : (walk k.mem r q).bind (fun t => entryChild (tableAt k.mem t i)) = some d

section

variable {k k' : Kernel} {r r' d : Nat} {q q' : List Idx} {i i' : Idx}

theorem Refers.owned (h : Refers k r q i d) : UserOwned k.spaces r q := by
  refine ⟨h.space, fun j hj => h.half j ?_⟩
  cases q with
  | nil => cases hj
  | cons j' q => exact hj

/-- An entry refers to a table or to a page. -/
theorem Refers.table_or_leaf (h : Refers k r q i d) :
    (q.length < 3 ∧ UserOwned k.spaces r (q ++ [i]) ∧ walk k.mem r (q ++ [i]) = some d) ∨
      ∃ e, entryFrame e = d ∧ DataLeaf (UserOwned k.spaces) k r q i e := by
  have href := h.refers
  rw [Option.bind_eq_some_iff] at href
  obtain ⟨t, hw, hchild⟩ := href
  by_cases hl : q.length < 3
  · exact Or.inl ⟨hl, ⟨h.space, h.half⟩, (walk_concat_of hw i).trans hchild⟩
  · refine Or.inr ⟨tableAt k.mem t i, ?_, h.owned, ?_, ?_, Or.inl h.owned.2⟩
    · rw [entryChild] at hchild
      split at hchild
      · exact Option.some.inj hchild
      · cases hchild
    · have := h.level
      omega
    · have hpres : entryPresent (tableAt k.mem t i) = true := by
        cases hp : entryPresent (tableAt k.mem t i) with
        | true => rfl
        | false =>
          rw [entryChild_eq_none.mpr hp] at hchild
          cases hchild
      unfold walk at hw
      rw [lookup, Radix.lookup, hw, Option.bind_some, entryLeaf, if_pos hpres]

theorem Valid.refers_used (h : Valid userLayout k) (hr : Refers k r q i d) :
    k.pmm.used d = true := by
  rcases hr.table_or_leaf with ⟨hl, hD, hw⟩ | ⟨e, rfl, hleaf⟩
  · exact h.tables d ⟨r, q ++ [i], hD, by rw [List.length_append, List.length_singleton]; omega, hw⟩
  · exact h.sound.frames.used _ _ _ _ hleaf

theorem Valid.refers_inj (h : Valid userLayout k) (hr : Refers k r q i d)
    (hr' : Refers k r' q' i' d) : r = r' ∧ q = q' ∧ i = i' := by
  have htable : ∀ {r q i}, q.length < 3 → UserOwned k.spaces r (q ++ [i]) →
      walk k.mem r (q ++ [i]) = some d → IsTable (UserOwned k.spaces) k d := by
    intro r q i hl hD hw
    exact ⟨r, q ++ [i], hD, by rw [List.length_append, List.length_singleton]; omega, hw⟩
  rcases hr.table_or_leaf with ⟨hl, hD, hw⟩ | ⟨e, he, hleaf⟩
  · rcases hr'.table_or_leaf with ⟨hl', hD', hw'⟩ | ⟨e', he', hleaf'⟩
    · obtain ⟨hrr, hqq⟩ := h.sound.forest.separated hD hD'
        (by rw [List.length_append, List.length_singleton]; omega)
        (by rw [List.length_append, List.length_singleton]; omega) hw hw'
      obtain ⟨hq, hi⟩ := List.append_inj' hqq rfl
      exact ⟨hrr, hq, List.singleton_inj.mp hi⟩
    · exact absurd (he' ▸ htable hl hD hw) (h.sound.frames.data _ _ _ _ hleaf')
  · rcases hr'.table_or_leaf with ⟨hl', hD', hw'⟩ | ⟨e', he', hleaf'⟩
    · exact absurd (he ▸ htable hl' hD' hw') (h.sound.frames.data _ _ _ _ hleaf)
    · exact h.sound.frames.once _ _ _ _ _ _ _ _ hleaf hleaf' (he.trans he'.symm)

end

/-! ## Forking -/

section

variable {k k₁ k' : Kernel} {c r : Nat} {va e : U64} {js : List PageJob} {T : U64 → Prop}

/-- The pages of address space `r`, and what they hold, are as before. -/
def KeepsSpace (k k' : Kernel) (r : Nat) : Prop :=
  ∀ va, UserHalf va → translate k'.mem r va = translate k.mem r va ∧
    ∀ e, translate k.mem r va = some e → k'.mem (byteAddr e va) = k.mem (byteAddr e va)

theorem KeepsSpace.trans (h : KeepsSpace k k₁ r) (h' : KeepsSpace k₁ k' r) : KeepsSpace k k' r := by
  intro va hva
  obtain ⟨ht, hb⟩ := h va hva
  obtain ⟨ht', hb'⟩ := h' va hva
  refine ⟨ht'.trans ht, fun e he => ?_⟩
  rw [hb' e (ht.trans he), hb e he]

theorem frameOf_byteAddr (e va : U64) : frameOf (byteAddr e va) = entryFrame e := by
  have hf : entryFrame e < 2 ^ 40 := (e.extractLsb' 12 40).isLt
  rw [frameOf, byteAddr, BitVec.toNat_add, frameAddr_toNat (by omega), BitVec.toNat_ofNat]
  omega

theorem userLeaf (hr : r ∈ k.spaces) (hva : UserHalf va)
    (he : translate k.mem r va = some e) :
    DataLeaf (UserOwned k.spaces) k r (tablePath va) (leafIdx va) e := by
  refine ⟨userOwned_path hr hva, rfl, he, Or.inl fun i hi => ?_⟩
  cases hi
  exact hva

/-- A step that loads keeps the spaces whose leaves it keeps. -/
theorem Valid.keepsSpace (h : Valid userLayout k) (he : Evolves (UserOwned k.spaces) k k')
    (hr : r ∈ k.spaces)
    (hleaf : ∀ va, UserHalf va → translate k'.mem r va = translate k.mem r va) :
    KeepsSpace k k' r := by
  intro va hva
  refine ⟨hleaf va hva, fun e hte => ?_⟩
  have hl := userLeaf hr hva hte
  exact (he.keep_data (h.sound.frames.used _ _ _ _ hl) (h.sound.frames.data _ _ _ _ hl)).2 _
    (frameOf_byteAddr e va)

theorem Valid.create_keepsSpace (h : Valid userLayout k) (hc : Creates k k' c)
    (hr : r ∈ k.spaces) : KeepsSpace k k' r := by
  have hf := h.sound.forest
  intro va hva
  refine ⟨hf.lookup_agree (hc.tables hf) (userOwned_path hr hva) (Nat.le_refl 3) _, ?_⟩
  intro e he
  refine hc.memory _ fun hec => ?_
  have hu := h.sound.frames.used _ _ _ _ (userLeaf hr hva he)
  rw [← frameOf_byteAddr e va, hec, hc.free.2.2] at hu
  cases hu

/-- Frame `d` is the PML4 of address space `r`, or an entry of its user half refers to it. -/
def HoldsFrame (k : Kernel) (r d : Nat) : Prop := d = r ∨ ∃ q i, Refers k r q i d

theorem Valid.holds_disjoint (h : Valid userLayout k) (hc : c ∈ k.spaces) (hr : r ∈ k.spaces)
    (hne : c ≠ r) {d : Nat} (hd : HoldsFrame k c d) : ¬HoldsFrame k r d := by
  have hroot : ∀ {x y q i}, x ∈ k.spaces → ¬Refers k y q i x := by
    intro x y q i hx href
    have hD : UserOwned k.spaces x [] := ⟨hx, by simp⟩
    rcases href.table_or_leaf with ⟨hl, hD', hw⟩ | ⟨e, he, hleaf⟩
    · obtain ⟨-, hq⟩ := h.sound.forest.separated hD hD' (by simp)
        (by rw [List.length_append, List.length_singleton]; omega) rfl hw
      simp at hq
    · exact h.sound.frames.data _ _ _ _ hleaf (he ▸ ⟨x, [], hD, by simp, rfl⟩)
  intro hd'
  rcases hd with rfl | ⟨q, i, href⟩
  · rcases hd' with hcr | ⟨q', i', href'⟩
    · exact hne hcr
    · exact hroot hc href'
  · rcases hd' with rfl | ⟨q', i', href'⟩
    · exact hroot hr href
    · exact hne (h.refers_inj href href').1

/-- What a fork does: nothing, or it adds an address space and keeps the others. -/
theorem Valid.fork_keeps {pid : U64} (h : Valid userLayout k)
    (hrun : sysFork.run k = some (pid, k')) :
    k' = k ∨ ∃ c, c ∉ k.spaces ∧ k'.spaces = c :: k.spaces ∧ ∀ r ∈ k.spaces, KeepsSpace k k' r := by
  have hcreated : ∀ {c : Nat} {k₁ k₂ : Kernel} {b : Bool} {parent : U64}, Creates k k₁ c →
      (forkVaddrs.allM fun va => forkCopyPage parent (frameAddr c) va).run k₁ = some (b, k₂) →
      c ∉ k.spaces ∧ k₂.spaces = c :: k.spaces ∧ ∀ r ∈ k.spaces, KeepsSpace k k₂ r := by
    intro c k₁ k₂ b parent hc hcopy
    have hspaces : k₁.spaces = c :: k.spaces := by rw [hc.rest]
    have hmem : c ∈ k₁.spaces := by rw [hspaces]; exact List.mem_cons_self
    have h₁ := h.create hc
    obtain ⟨hv, js, k₃, -, hl, hs⟩ := h₁.copy hmem hcopy
    have hfresh := h.create_fresh hc
    have hev := (hl.evolves h₁.sound.forest).trans hs.toEvolves
    refine ⟨hfresh, hev.spaces.trans hspaces, fun r hr => ?_⟩
    have hr₁ : r ∈ k₁.spaces := by rw [hspaces]; exact List.mem_cons_of_mem _ hr
    have hne : r ≠ c := fun hrc => hfresh (hrc ▸ hr)
    refine (h.create_keepsSpace hc hr).trans (h₁.keepsSpace hev hr₁ fun va hva => ?_)
    have hD : UserOwned k₁.spaces r (tablePath va) := userOwned_path hr₁ hva
    exact (hs.leaves r _ _ hD rfl).trans (hl.others hD rfl fun j _ hc => hne hc.1)
  cases sysFork_outcome hrun with
  | noParent _ => exact Or.inl rfl
  | noFrame _ => exact Or.inl rfl
  | failed _ created copy => exact Or.inr ⟨_, hcreated created copy⟩
  | forked _ created copy =>
    obtain ⟨hfresh, hspaces, hkeep⟩ := hcreated created copy
    exact Or.inr ⟨_, hfresh, hspaces, hkeep⟩

/-- A fork has changed no page of the address spaces there were, and shares no frame with one. -/
def ForkIsolated (k k' : Kernel) : Prop :=
  (∀ r ∈ k.spaces, KeepsSpace k k' r) ∧
  (k'.spaces = k.spaces ∨ ∃ c, c ∉ k.spaces ∧ k'.spaces = c :: k.spaces ∧
    ∀ r ∈ k.spaces, ∀ d, HoldsFrame k' c d → ¬HoldsFrame k' r d)

theorem Valid.fork_isolated {pid : U64} (h : Valid userLayout k)
    (hfork : sysFork.run k = some (pid, k')) : ForkIsolated k k' := by
  rcases h.fork_keeps hfork with rfl | ⟨c, hfresh, hspaces, hkeep⟩
  · exact ⟨fun r _ va _ => ⟨rfl, fun _ _ => rfl⟩, Or.inl rfl⟩
  · refine ⟨hkeep, Or.inr ⟨c, hfresh, hspaces, fun r hr d => ?_⟩⟩
    have h' := (h.fork hfork).1
    have hne : c ≠ r := fun hcr => hfresh (hcr ▸ hr)
    refine h'.holds_disjoint ?_ ?_ hne
    · rw [hspaces]
      exact List.mem_cons_self
    · rw [hspaces]
      exact List.mem_cons_of_mem _ hr

end

end PpoOS
