import PpoOS.Exec.Verify.Load
import PpoOS.Exec.Verify.Image

/-!
# How far the free frames reach

A list of page jobs takes one frame for each job and one for each upper table
that is missing, however often a table is used.  **`LoadOutcome.reached`**: a
loop over page jobs does exactly those whose predecessors leave enough frames.
-/

namespace PpoOS

open ByteMem FaultState

/-! ## Counting missing tables -/

/-- The paths of the upper tables on the way to a page. -/
def pageTables (va : U64) : List (List Idx) := (tablePath va).inits.tail

theorem mem_pageTables {va : U64} {p : List Idx} :
    p ∈ pageTables va ↔ p <+: tablePath va ∧ p ≠ [] := by
  rw [pageTables, ← List.mem_inits]
  simp only [tablePath, List.inits, List.map, List.tail_cons, List.mem_cons, List.not_mem_nil, or_false]
  constructor
  · rintro (h | h | h) <;> simp [h]
  · rintro ⟨h | h, hne⟩
    · exact absurd h hne
    · exact h

theorem pageTables_nodup (va : U64) : (pageTables va).Nodup := by
  simp [pageTables, tablePath]

/-- The missing tables of a page, counted as a list. -/
theorem missing_eq_length (P : List Idx → Bool) (va : U64) :
    missing P [] (tablePath va) = ((pageTables va).filter fun p => !P p).length := by
  rw [← List.countP_eq_length_filter]
  simp only [pageTables, tablePath, List.inits, List.map, List.tail_cons, missing, List.countP_cons,
    List.countP_nil, List.nil_append, List.cons_append]
  rcases Bool.eq_false_or_eq_true (P [va.extractLsb' 39 9]) with h₁ | h₁ <;>
    rcases Bool.eq_false_or_eq_true (P [va.extractLsb' 39 9, va.extractLsb' 30 9]) with h₂ | h₂ <;>
      rcases Bool.eq_false_or_eq_true
        (P [va.extractLsb' 39 9, va.extractLsb' 30 9, va.extractLsb' 21 9]) with h₃ | h₃ <;>
        simp [h₁, h₂, h₃]

/-- The tables that a list of jobs needs, where those in `P` are there. -/
def neededTables (P : List Idx → Bool) (js : List PageJob) : Finset (List Idx) :=
  ((js.flatMap fun j => pageTables j.va).filter fun p => !P p).toFinset

/-- The frames that a list of jobs takes: one for each job and one for each table it needs. -/
def framesNeeded (P : List Idx → Bool) (js : List PageJob) : Nat :=
  js.length + (neededTables P js).card

theorem mem_neededTables {P : List Idx → Bool} {js : List PageJob} {p : List Idx} :
    p ∈ neededTables P js ↔ P p = false ∧ p ≠ [] ∧ ∃ j ∈ js, p <+: tablePath j.va := by
  rw [neededTables, List.mem_toFinset, List.mem_filter, List.mem_flatMap, Bool.not_eq_true']
  constructor
  · rintro ⟨⟨j, hj, hp⟩, hP⟩
    obtain ⟨hpre, hne⟩ := mem_pageTables.mp hp
    exact ⟨hP, hne, j, hj, hpre⟩
  · rintro ⟨hP, hne, j, hj, hpre⟩
    exact ⟨⟨j, hj, mem_pageTables.mpr ⟨hpre, hne⟩⟩, hP⟩

/-- One more job: its frame and the tables that are still missing. -/
theorem framesNeeded_concat (P : List Idx → Bool) (js : List PageJob) (j : PageJob) :
    framesNeeded P (js ++ [j]) = framesNeeded P js +
      (missing (fun p => P p || decide (p ∈ neededTables P js)) [] (tablePath j.va) + 1) := by
  have hnew : neededTables P (js ++ [j]) = (((pageTables j.va).filter
      fun p => !(P p || decide (p ∈ neededTables P js))).toFinset) ∪ neededTables P js := by
    ext p
    rw [Finset.mem_union, List.mem_toFinset, List.mem_filter, mem_pageTables]
    constructor
    · intro hp
      obtain ⟨hP, hne, j', hj', hpre⟩ := mem_neededTables.mp hp
      by_cases hold : p ∈ neededTables P js
      · exact Or.inr hold
      · rcases List.mem_append.mp hj' with hj' | hj'
        · exact absurd (mem_neededTables.mpr ⟨hP, hne, j', hj', hpre⟩) hold
        · rw [List.mem_singleton.mp hj'] at hpre
          exact Or.inl ⟨⟨hpre, hne⟩, by simp [hP, hold]⟩
    · rintro (⟨⟨hpre, hne⟩, hP⟩ | hp)
      · have hP' : P p = false := by
          rw [Bool.not_eq_true', Bool.or_eq_false_iff] at hP
          exact hP.1
        exact mem_neededTables.mpr ⟨hP', hne, j, by simp, hpre⟩
      · obtain ⟨hP, hne, j', hj', hpre⟩ := mem_neededTables.mp hp
        exact mem_neededTables.mpr ⟨hP, hne, j', by simp [hj'], hpre⟩
  have hdisj : Disjoint (((pageTables j.va).filter
      fun p => !(P p || decide (p ∈ neededTables P js))).toFinset) (neededTables P js) := by
    rw [Finset.disjoint_left]
    intro p hp hp'
    simp [hp'] at hp
  rw [framesNeeded, framesNeeded, hnew, Finset.card_union_of_disjoint hdisj,
    List.toFinset_card_of_nodup ((pageTables_nodup j.va).filter _), ← missing_eq_length,
    List.length_append, List.length_singleton]
  omega

theorem framesNeeded_mono {P : List Idx → Bool} {js js' : List PageJob} (h : js <+: js') :
    framesNeeded P js ≤ framesNeeded P js' := by
  have hsub : neededTables P js ⊆ neededTables P js' := by
    intro p hp
    obtain ⟨hP, hne, j, hj, hpre⟩ := mem_neededTables.mp hp
    exact mem_neededTables.mpr ⟨hP, hne, j, h.subset hj, hpre⟩
  exact Nat.add_le_add h.length_le (Finset.card_le_card hsub)

/-! ## The frames a loop takes -/

section

variable {D : Ownership} {T : U64 → Prop} {own : Idx → Nat} {P : List Idx → Bool}
  {k k' k'' : Kernel} {js : List PageJob} {j : PageJob} {b : Bool}

/-- `P` tells which upper tables are there, by their paths. -/
def Present (D : Ownership) (own : Idx → Nat) (P : List Idx → Bool) (m : Mem) : Prop :=
  ∀ i p, D (own i) (i :: p) → p.length < 3 → reaches m (own i) (i :: p) = P (i :: p)

theorem Present.missing (hP : Present D own P k.mem) (hf : Forest D k) {va : U64}
    (hD : D (own (rootIdx va)) (tablePath va)) :
    missing (reaches k.mem (own (rootIdx va))) [] (tablePath va) = missing P [] (tablePath va) := by
  refine missing_congr fun s hs hpre => ?_
  have hlen : s.length ≤ 3 := hpre.length_le
  obtain ⟨u, hu⟩ := hpre
  have hDs : D (own (rootIdx va)) s := hf.closed.append (hu ▸ hD)
  cases s with
  | nil => exact absurd rfl hs
  | cons i p =>
    have hi : i = rootIdx va := (List.cons.inj hu).1
    rw [List.length_cons] at hlen
    rw [List.nil_append]
    subst hi
    exact hP _ p hDs (by omega)

/-- The jobs done took the frames they need, and their tables are there. -/
theorem Loaded.frames (h : Loaded D T own k js k') (hf : Forest D k) (hP : Present D own P k.mem) :
    k'.pmm.freeCount + framesNeeded P js = k.pmm.freeCount ∧
      Present D own (fun p => P p || decide (p ∈ neededTables P js)) k'.mem := by
  induction h with
  | nil =>
    refine ⟨rfl, fun i p hD hl => ?_⟩
    have hnot : i :: p ∉ neededTables P [] := fun hc => by simpa using mem_neededTables.mp hc
    simp only [hP i p hD hl, decide_eq_false hnot, Bool.or_false]
  | log _ _ ih => exact ih
  | @page js j k' k'' d h hl ih =>
    obtain ⟨hcount, hpres⟩ := ih
    have hf' := (h.evolves hf).forest
    constructor
    · have hc := hl.count
      rw [hpres.missing hf' hl.owned] at hc
      rw [framesNeeded_concat]
      omega
    · intro i p hD hlen
      have hiff := hl.reached (own i) (i :: p) hD (by rw [List.length_cons]; omega)
      rw [hpres i p hD hlen, Bool.or_eq_true, decide_eq_true_iff] at hiff
      rw [Bool.eq_iff_iff, hiff, Bool.or_eq_true, decide_eq_true_iff]
      constructor
      · rintro ((hp | hp) | ⟨-, hpre⟩)
        · exact Or.inl hp
        · obtain ⟨hP', hne, j', hj', hpre⟩ := mem_neededTables.mp hp
          exact Or.inr (mem_neededTables.mpr ⟨hP', hne, j', by simp [hj'], hpre⟩)
        · by_cases hp : P (i :: p) = true
          · exact Or.inl hp
          · refine Or.inr (mem_neededTables.mpr ⟨by simpa using hp, by simp, j, by simp, hpre⟩)
      · rintro (hp | hp)
        · exact Or.inl (Or.inl hp)
        · obtain ⟨hP', hne, j', hj', hpre⟩ := mem_neededTables.mp hp
          rcases List.mem_append.mp hj' with hj' | hj'
          · exact Or.inl (Or.inr (mem_neededTables.mpr ⟨hP', hne, j', hj', hpre⟩))
          · rw [List.mem_singleton.mp hj'] at hpre
            have hi : i = rootIdx j.va := (List.cons_prefix_cons.mp hpre).1
            exact Or.inr ⟨by rw [hi], hpre⟩

/-- A job that was not done is out of reach of the free frames. -/
theorem StallsAt.frames (h : Loaded D T own k js k') (hf : Forest D k) (hP : Present D own P k.mem)
    (hs : StallsAt D T (own (rootIdx j.va)) j k' k'') :
    k.pmm.freeCount < framesNeeded P (js ++ [j]) := by
  obtain ⟨hcount, hpres⟩ := h.frames hf hP
  have hshort := hs.short
  rw [hpres.missing (h.evolves hf).forest hs.owned] at hshort
  rw [framesNeeded_concat]
  omega

/-- `n` frames reach far enough for the job `j` of the list. -/
def Reached (P : List Idx → Bool) (n : Nat) (js : List PageJob) (j : PageJob) : Prop :=
  ∃ i, js[i]? = some j ∧ framesNeeded P (js.take (i + 1)) ≤ n

theorem Reached.mem {n : Nat} (h : Reached P n js j) : j ∈ js := by
  obtain ⟨i, hi, -⟩ := h
  exact List.mem_of_getElem? hi

theorem framesNeeded_congr {P' : List Idx → Bool} (h : ∀ p, p.length ≤ 3 → P p = P' p) :
    framesNeeded P js = framesNeeded P' js := by
  have hset : neededTables P js = neededTables P' js := by
    ext p
    rw [mem_neededTables, mem_neededTables]
    constructor
    · rintro ⟨hP, hne, j, hj, hpre⟩
      exact ⟨by rw [← h p hpre.length_le, hP], hne, j, hj, hpre⟩
    · rintro ⟨hP, hne, j, hj, hpre⟩
      exact ⟨by rw [h p hpre.length_le, hP], hne, j, hj, hpre⟩
  rw [framesNeeded, framesNeeded, hset]

/-- **The jobs done are those that the free frames reach**, and the loop does all of them exactly
when there are frames for all. -/
theorem LoadOutcome.reached (h : LoadOutcome D T own k js b k') (hf : Forest D k)
    (hP : Present D own P k.mem) :
    (b = true ↔ framesNeeded P js ≤ k.pmm.freeCount) ∧
    ∃ done k₁, Loaded D T own k done k₁ ∧ Stalls D k₁ k' ∧ ReadsOf T [] k₁ k' ∧
      (b = true → done = js) ∧ ∀ j, j ∈ done ↔ Reached P k.pmm.freeCount js j := by
  cases h with
  | all h =>
    have hcount := (h.frames hf hP).1
    refine ⟨⟨fun _ => by omega, fun _ => rfl⟩, js, k', h,
      Stalls.refl (h.evolves hf).forest, ReadsOf.refl, fun _ => rfl, fun j => ?_⟩
    constructor
    · intro hj
      obtain ⟨i, hi⟩ := List.mem_iff_getElem?.mp hj
      exact ⟨i, hi, Nat.le_trans (framesNeeded_mono (List.take_prefix _ js)) (by omega)⟩
    · rintro ⟨i, hi, -⟩
      exact List.mem_of_getElem? hi
  | @stalled js rest j₀ k₁ _ h hs =>
    have hcount := (h.frames hf hP).1
    have hshort := hs.frames h hf hP
    have hpre : js ++ [j₀] <+: js ++ j₀ :: rest := ⟨rest, by simp⟩
    refine ⟨⟨fun hb => (nomatch hb), fun hle => ?_⟩, js, k₁, h, hs.toStalls, hs.reads,
      fun hb => (nomatch hb), fun j => ?_⟩
    · have := framesNeeded_mono (P := P) hpre
      omega
    · constructor
      · intro hj
        obtain ⟨i, hi⟩ := List.mem_iff_getElem?.mp hj
        have hlt : i < js.length := (List.getElem?_eq_some_iff.mp hi).1
        refine ⟨i, by rw [List.getElem?_append_left hlt, hi], ?_⟩
        rw [List.take_append_of_le_length (by omega)]
        exact Nat.le_trans (framesNeeded_mono (List.take_prefix _ js)) (by omega)
      · rintro ⟨i, hi, hle⟩
        by_cases hlt : i < js.length
        · rw [List.getElem?_append_left hlt] at hi
          exact List.mem_of_getElem? hi
        · -- the list up to a later job contains the one the loop stopped at
          have hlong : js ++ [j₀] <+: (js ++ j₀ :: rest).take (i + 1) := by
            refine List.prefix_of_prefix_length_le hpre (List.take_prefix _ _) ?_
            have hlen := (List.getElem?_eq_some_iff.mp hi).1
            rw [List.length_append, List.length_singleton, List.length_take]
            omega
          have := framesNeeded_mono (P := P) hlong
          omega

end

end PpoOS
