import PpoOS.Exec.Verify.Load
import PpoOS.Mm.Verify.UserHalf

/-!
# The image of a loaded program

What the address space looks like after the jobs of a program were done: a page
shows the last job for it (`Loaded.page`), every other page is as it was
(`Loaded.others`), and the file bytes read are those of the jobs
(`Loaded.reads`).
-/

namespace PpoOS

open ByteMem FaultState

section

variable {D : Ownership} {T : U64 → Prop} {own : Idx → Nat} {k k' k'' : Kernel} {o d : Nat}
  {va : U64} {js js' : List PageJob} {j : PageJob}

/-! ## Pages -/

/-- Addresses of one page have the same indices. -/
theorem rootIdx_of_pageIdx {va va' : U64} (h : pageIdx va = pageIdx va') : rootIdx va = rootIdx va' := by
  have hpath := (path_eq_iff.mpr h).1
  exact (List.cons.inj hpath).1

theorem translate_of_pageIdx {va va' : U64} (h : pageIdx va = pageIdx va') (m : Mem) (r : Nat) :
    translate m r va = translate m r va' := by
  obtain ⟨hpath, hleaf⟩ := path_eq_iff.mpr h
  rw [translate, translate, hpath, hleaf]

/-- The last job for the page of an address. -/
def lastJob (js : List PageJob) (va : U64) : Option PageJob :=
  js.reverse.find? fun j => pageIdx j.va = pageIdx va

theorem lastJob_concat (js : List PageJob) (j : PageJob) (va : U64) :
    lastJob (js ++ [j]) va = if pageIdx j.va = pageIdx va then some j else lastJob js va := by
  rw [lastJob, List.reverse_append, List.reverse_singleton, List.singleton_append, List.find?_cons]
  by_cases h : pageIdx j.va = pageIdx va
  · simp [h]
  · simp [h, lastJob]

theorem lastJob_eq_none : lastJob js va = none ↔ ∀ j ∈ js, pageIdx j.va ≠ pageIdx va := by
  simp [lastJob, List.find?_eq_none]

theorem lastJob_some (h : lastJob js va = some j) : j ∈ js ∧ pageIdx j.va = pageIdx va := by
  unfold lastJob at h
  exact ⟨List.mem_reverse.mp (List.mem_of_find?_eq_some h), by simpa using List.find?_some h⟩

/-- The page `va` of root `o` shows the job `j`: its frame `d` was free in `k` and holds the bytes of
the job. -/
structure Shows (D : Ownership) (k k' : Kernel) (o : Nat) (va : U64) (j : PageJob) (d : Nat) :
    Prop where
  frame : k.pmm.Free d
  taken : k'.pmm.used d = true
  data : ¬IsTable D k' d
  leaf : translate k'.mem o va = entryLeaf (frameAddr d ||| j.flags)
  content : ∀ i, i < 4096 → k'.mem (frameAddr d + BitVec.ofNat 64 i) = j.byte k.mem d i

/-- Loading does not touch a frame that is used for data. -/
theorem Evolves.keep_data (h : Evolves D k k') (hu : k.pmm.used d = true) (hd : ¬IsTable D k d) :
    ¬IsTable D k' d ∧ ∀ b, frameOf b = d → k'.mem b = k.mem b := by
  have hfree : ¬k.pmm.Free d := fun hf => absurd (hf.2.2.symm.trans hu) (by simp)
  constructor
  · intro hc
    rcases h.isTable hc with hc' | ⟨hc', -⟩
    · exact hd hc'
    · exact hfree hc'
  · intro b hb
    exact h.memory b (hb ▸ hfree) (hb ▸ hd)

theorem Shows.evolves (h : Shows D k k' o va j d) (he : Evolves D k' k'')
    (hleaf : translate k''.mem o va = translate k'.mem o va) : Shows D k k'' o va j d := by
  obtain ⟨hdata, hmem⟩ := he.keep_data h.taken h.data
  refine ⟨h.frame, he.used d h.taken, hdata, hleaf.trans h.leaf, fun i hi => ?_⟩
  have hdb : d < frameBound := Nat.lt_trans h.frame.lt (by unfold frameBound; omega)
  exact (hmem _ (frameOf_add hdb hi)).trans (h.content i hi)

/-! ## Jobs done -/

/-- Frames that are still free hold what they held. -/
theorem Loaded.idle (h : Loaded D T own k js k') {b : U64}
    (hb : k'.pmm.Free (frameOf b)) : k'.mem b = k.mem b := by
  induction h with
  | nil => rfl
  | log _ _ ih => exact ih hb
  | page h hl ih => exact (hl.idle b hb).trans (ih (hl.toEvolves.free hb))

/-- A job shows right after it was done. -/
theorem Loads.shows (h : Loaded D T own k js k') (hf : Forest D k) (hl : Loads D T o j k' k'' d)
    (hva : pageIdx j.va = pageIdx va) : Shows D k k'' o va j d := by
  have hdb : d < frameBound := Nat.lt_trans hl.frame.lt (by unfold frameBound; omega)
  refine ⟨(h.evolves hf).free hl.frame, hl.taken, hl.data, ?_, fun i hi => ?_⟩
  · rw [← translate_of_pageIdx hva, hl.leaf]
  · rw [hl.content i hi]
    unfold PageJob.byte
    split
    · rfl
    · exact h.idle (by rw [frameOf_add hdb hi]; exact hl.frame)

/-- **A page shows the last job for it**, and is as it was when there is none. -/
theorem Loaded.page_shows (hf : Forest D k) (h : Loaded D T own k js k')
    (hD : D (own (rootIdx va)) (tablePath va)) :
    (∀ j, lastJob js va = some j → ∃ d, Shows D k k' (own (rootIdx va)) va j d) ∧
    (lastJob js va = none →
      translate k'.mem (own (rootIdx va)) va = translate k.mem (own (rootIdx va)) va) := by
  induction h with
  | nil => exact ⟨fun _ hj => (nomatch hj), fun _ => rfl⟩
  | log _ _ ih =>
    refine ⟨fun j hj => ?_, ih.2⟩
    obtain ⟨d, hs⟩ := ih.1 j hj
    exact ⟨d, hs.frame, hs.taken, hs.data, hs.leaf, hs.content⟩
  | @page js j k' k'' d h hl ih =>
    rw [lastJob_concat]
    by_cases hj : pageIdx j.va = pageIdx va
    · rw [if_pos hj]
      refine ⟨fun j' hj' => ?_, fun hc => (nomatch hc)⟩
      cases hj'
      have hl' := hl
      rw [rootIdx_of_pageIdx hj] at hl'
      exact ⟨d, hl'.shows h hf hj⟩
    · have hleaf : translate k''.mem (own (rootIdx va)) va =
          translate k'.mem (own (rootIdx va)) va := by
        refine hl.others _ _ _ hD rfl fun hc => hj ?_
        exact (path_eq_iff.mp hc.2).symm
      rw [if_neg hj]
      refine ⟨fun j' hj' => ?_, fun hnone => hleaf.trans (ih.2 hnone)⟩
      obtain ⟨d', hs⟩ := ih.1 j' hj'
      exact ⟨d', hs.evolves hl.toEvolves hleaf⟩

/-- Leaves that no job is for are as they were. -/
theorem Loaded.others (h : Loaded D T own k js k') {r : Nat} {q : List Idx} {i : Idx}
    (hq : D r q) (hl : q.length = 3)
    (hne : ∀ j ∈ js, ¬(r = own (rootIdx j.va) ∧ q = tablePath j.va ∧ i = leafIdx j.va)) :
    lookup k'.mem r q i = lookup k.mem r q i := by
  induction h with
  | nil => rfl
  | log _ _ ih => exact ih hne
  | @page js j _ _ _ _ hload ih =>
    have hlast := hload.others r q i hq hl (hne j (by simp))
    exact hlast.trans (ih fun j' hj' => hne j' (by simp [hj']))

/-! ## Reads -/

theorem ReadsOf.refl : ReadsOf T [] k k :=
  ⟨[], rfl, fun _ hi => absurd hi List.not_mem_nil, fun _ hj => absurd hj List.not_mem_nil⟩

theorem ReadsOf.trans (h : ReadsOf T js k k') (h' : ReadsOf T js' k' k'') :
    ReadsOf T (js ++ js') k k'' := by
  obtain ⟨rs, hr, hsub, hall⟩ := h
  obtain ⟨rs', hr', hsub', hall'⟩ := h'
  refine ⟨rs' ++ rs, by rw [hr', hr, List.append_assoc], ?_, ?_⟩
  · intro i hi
    rcases List.mem_append.mp hi with hi | hi
    · exact (hsub' i hi).imp id fun ⟨j, hj, hij⟩ => ⟨j, by simp [hj], hij⟩
    · exact (hsub i hi).imp id fun ⟨j, hj, hij⟩ => ⟨j, by simp [hj], hij⟩
  · intro j hj i hi
    rcases List.mem_append.mp hj with hj | hj
    · exact List.mem_append.mpr (Or.inr (hall j hj i hi))
    · exact List.mem_append.mpr (Or.inl (hall' j hj i hi))

theorem Loaded.reads (h : Loaded D T own k js k') : ReadsOf T js k k' := by
  induction h with
  | nil => exact ReadsOf.refl
  | log _ hrs ih => simpa using ih.trans (readsOf_headers hrs)
  | page _ hl ih => exact ih.trans hl.reads

end

end PpoOS
