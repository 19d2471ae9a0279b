import PpoOS.Lib.Path

/-!
# Computations with checks

`Checks x P y` compares a computation `x` that checks what it does with the same
computation `y` without the checks: `x` goes through exactly where `P` holds, and is
`y` there.  A rule for each way to build a computation gives the `P` of the whole
from those of its parts.
-/

universe u v

variable {α : Type u} {β : Type v}

/-- Where `P` holds, `x` goes through and is `y`; elsewhere it has no result. -/
structure Checks (x : Option α) (P : Prop) (y : Option α) : Prop where
  passes : P → x = y ∧ x.isSome = true
  fails : ¬P → x = none

namespace Checks

variable {x x' y y' : Option α} {P Q : Prop} {a : α}

theorem isSome_iff (h : Checks x P y) : x.isSome = true ↔ P := by
  constructor
  · intro hx
    refine Classical.byContradiction fun hP => ?_
    rw [h.fails hP] at hx
    cases hx
  · exact fun hP => (h.passes hP).2

theorem congr (h : Checks x P y) (hPQ : P ↔ Q) : Checks x Q y :=
  ⟨fun hQ => h.passes (hPQ.mpr hQ), fun hQ => h.fails fun hP => hQ (hPQ.mp hP)⟩

theorem result (h : Checks x P y) (hy : P → y = y') : Checks x P y' :=
  ⟨fun hP => ⟨(h.passes hP).1.trans (hy hP), (h.passes hP).2⟩, h.fails⟩

/-! ## Rules -/

theorem done (a : α) : Checks (some a) True (some a) := ⟨fun _ => ⟨rfl, rfl⟩, fun h => absurd trivial h⟩

theorem stuck (y : Option α) : Checks none False y := ⟨False.elim, fun _ => rfl⟩

/-- A check. -/
theorem guarded [Decidable P] (a : α) : Checks (if P then some a else none) P (some a) :=
  ⟨fun h => by rw [if_pos h]; exact ⟨rfl, rfl⟩, fun h => if_neg h⟩

theorem bind {x y : Option α} {f g : α → Option β} {Q : α → Prop} (h : Checks x P y)
    (hf : ∀ a, y = some a → Checks (f a) (Q a) (g a)) :
    Checks (x.bind f) (P ∧ ∀ a, y = some a → Q a) (y.bind g) := by
  constructor
  · rintro ⟨hP, hQ⟩
    obtain ⟨hxy, hx⟩ := h.passes hP
    obtain ⟨a, rfl⟩ := Option.isSome_iff_exists.mp hx
    rw [← hxy]
    exact (hf a hxy.symm).passes (hQ a hxy.symm)
  · intro hnot
    rcases Classical.em P with hP | hP
    · obtain ⟨hxy, hx⟩ := h.passes hP
      obtain ⟨a, rfl⟩ := Option.isSome_iff_exists.mp hx
      refine (hf a hxy.symm).fails fun hQ => hnot ⟨hP, fun b hb => ?_⟩
      obtain rfl : a = b := Option.some.inj (hxy.trans hb)
      exact hQ
    · rw [h.fails hP]
      rfl

/-- After a step whose result is known, and that went through. -/
theorem after {f : α → Option β} {y : Option β} (h : Checks x P (some a)) (hf : P → Checks (f a) Q y) :
    Checks (x.bind f) (P ∧ Q) y := by
  constructor
  · rintro ⟨hP, hQ⟩
    rw [(h.passes hP).1, Option.bind_some]
    exact (hf hP).passes hQ
  · intro hnot
    rcases Classical.em P with hP | hP
    · rw [(h.passes hP).1, Option.bind_some]
      exact (hf hP).fails fun hQ => hnot ⟨hP, hQ⟩
    · rw [h.fails hP]
      rfl

/-- After a step whose result is known. -/
theorem next {f : α → Option β} {y : Option β} (h : Checks x P (some a)) (hf : Checks (f a) Q y) :
    Checks (x.bind f) (P ∧ Q) y := h.after fun _ => hf

/-- After a step that cannot go through. -/
theorem stop {f : α → Option β} (y : Option β) (h : Checks x P none) : Checks (x.bind f) False y := by
  refine ⟨False.elim, fun _ => ?_⟩
  rw [h.fails fun hP => ?_]
  · rfl
  · obtain ⟨hx, hsome⟩ := h.passes hP
    rw [hx] at hsome
    cases hsome

theorem ite {c : Prop} [Decidable c] (ht : c → Checks x P y) (hf : ¬c → Checks x' Q y') :
    Checks (if c then x else x') ((c → P) ∧ (¬c → Q)) (if c then y else y') := by
  by_cases hc : c
  · rw [if_pos hc, if_pos hc]
    exact (ht hc).congr ⟨fun hP => ⟨fun _ => hP, fun h => absurd hc h⟩, fun h => h.1 hc⟩
  · rw [if_neg hc, if_neg hc]
    exact (hf hc).congr ⟨fun hQ => ⟨fun h => absurd h hc, fun _ => hQ⟩, fun h => h.2 hc⟩

/-! ## Loops -/

/-- A loop that stops at the first result: the steps up to there have to go through. -/
theorem findSome {f : α → Option (Option β)} {P : α → Prop} {g : α → Option β} {l : List α}
    (h : ∀ a ∈ l, Checks (f a) (P a) (some (g a))) :
    Checks (l.findSomeM? f)
      (∀ before a after, l = before ++ a :: after → (∀ b ∈ before, g b = none) → P a)
      (some (l.findSome? g)) := by
  induction l with
  | nil => exact (done none).congr ⟨fun _ _ _ _ hl => by simp at hl, fun _ => trivial⟩
  | cons a l ih =>
    have hrest := ih fun b hb => h b (List.mem_cons_of_mem _ hb)
    have hstep : Checks ((a :: l).findSomeM? f)
        (P a ∧ (g a = none → ∀ before c after, l = before ++ c :: after → (∀ b ∈ before, g b = none) → P c))
        (some ((a :: l).findSome? g)) := by
      rw [List.findSomeM?_cons, List.findSome?_cons]
      refine (h a List.mem_cons_self).next ?_
      cases g a with
      | some b => exact (done (some b)).congr ⟨fun _ h => absurd h (Option.some_ne_none b), fun _ => trivial⟩
      | none => exact hrest.congr ⟨fun h _ => h, fun h => h rfl⟩
    refine hstep.congr ⟨?_, fun hall => ⟨hall [] a l rfl nofun, fun hnone before c after hl hb => ?_⟩⟩
    · rintro ⟨hP, hmore⟩ before c after hl hb
      cases before with
      | nil =>
        obtain ⟨rfl, rfl⟩ := List.cons.inj hl
        exact hP
      | cons d before =>
        obtain ⟨rfl, rfl⟩ := List.cons.inj hl
        exact hmore (hb a List.mem_cons_self) before c after rfl fun b hm => hb b (List.mem_cons_of_mem _ hm)
    · refine hall (a :: before) c after (by rw [hl, List.cons_append]) fun b hm => ?_
      rcases List.mem_cons.mp hm with rfl | hm
      · exact hnone
      · exact hb b hm

/-- A loop over a list: every step has to go through in the state that the steps before it lead to. -/
theorem fold {f : β → α → Option β} {P : β → α → Prop} {g : β → α → β} {l : List α}
    (h : ∀ s, ∀ a ∈ l, Checks (f s a) (P s a) (some (g s a))) (s : β) :
    Checks (l.foldlM f s) (∀ before a after, l = before ++ a :: after → P (before.foldl g s) a)
      (some (l.foldl g s)) := by
  induction l generalizing s with
  | nil => exact (done s).congr ⟨fun _ _ _ _ hl => by simp at hl, fun _ => trivial⟩
  | cons a l ih =>
    have hrest := ih (fun s b hb => h s b (List.mem_cons_of_mem _ hb)) (g s a)
    have hstep := (h s a List.mem_cons_self).next (f := fun t => l.foldlM f t) hrest
    refine Checks.congr (x := (a :: l).foldlM f s) hstep
      ⟨?_, fun hall => ⟨hall [] a l rfl, fun before c after hl => ?_⟩⟩
    · rintro ⟨hP, hmore⟩ before c after hl
      cases before with
      | nil =>
        obtain ⟨rfl, rfl⟩ := List.cons.inj hl
        exact hP
      | cons d before =>
        obtain ⟨rfl, rfl⟩ := List.cons.inj hl
        exact hmore before c after rfl
    · exact hall (a :: before) c after (by rw [hl, List.cons_append])

/-- The elements of an initial segment, with those before them. -/
theorem range_split {n : Nat} {P : List Nat → Nat → Prop} :
    (∀ before i after, List.range n = before ++ i :: after → P before i) ↔ ∀ i < n, P (List.range i) i := by
  constructor
  · intro h i hi
    refine h (List.range i) i ((List.range (n - i - 1)).map (i + 1 + ·)) ?_
    have hsplit : List.range n = List.range (i + (1 + (n - i - 1))) := congrArg List.range (by omega)
    rw [hsplit, List.range_add, List.range_add]
    simp [Nat.add_assoc]
  · intro h before i after hl
    have hlen := congrArg List.length hl
    rw [List.length_range, List.length_append, List.length_cons] at hlen
    have hi : i = before.length := by
      have hget := congrArg (·[before.length]?) hl
      simp only [List.getElem?_append_right (Nat.le_refl _), Nat.sub_self, List.getElem?_cons_zero] at hget
      rw [List.getElem?_range (by omega)] at hget
      exact (Option.some.inj hget).symm
    have hbefore : before = List.range before.length := by
      have htake := congrArg (List.take before.length) hl
      rw [List.take_left, List.take_range, Nat.min_eq_left (by omega)] at htake
      exact htake.symm
    rw [hi, hbefore, List.length_range]
    exact h before.length (by omega)

/-- A walk: the lookups along the path have to go through. -/
theorem walk {N : Type u} {C : Type v} {f g : N → C → Option (Option N)} {P : N → C → Prop} {cs : List C} {p : N}
    (h : ∀ p c, Checks (f p c) (P p c) (g p c)) :
    Checks (Path.walk f cs p)
      (∀ before c after, cs = before ++ c :: after → ∀ q, Path.walk g before p = some (some q) → P q c)
      (Path.walk g cs p) := by
  induction cs generalizing p with
  | nil => exact (done (some p)).congr ⟨fun _ _ _ _ hl => by simp at hl, fun _ => trivial⟩
  | cons c cs ih =>
    have hstep := (h p c).bind (f := fun o => o.elim (some none) (Path.walk f cs))
      (g := fun o => o.elim (some none) (Path.walk g cs))
      (Q := fun o => ∀ q, o = some q → ∀ before d after, cs = before ++ d :: after →
        ∀ r, Path.walk g before q = some (some r) → P r d) fun o _ => by
      cases o with
      | none => exact (done none).congr ⟨fun _ q hq => (nomatch hq), fun _ => trivial⟩
      | some q => exact ih.congr ⟨fun hq _ h => Option.some.inj h ▸ hq, fun hall => hall q rfl⟩
    rw [Path.walk_cons, Path.walk_cons]
    refine hstep.congr ⟨?_, fun hall => ⟨hall [] c cs rfl p rfl, fun o ho q hq before d after hl r hr => ?_⟩⟩
    · rintro ⟨hP, hmore⟩ before d after hl q hq
      cases before with
      | nil =>
        obtain ⟨rfl, rfl⟩ := List.cons.inj hl
        cases hq
        exact hP
      | cons b before =>
        obtain ⟨rfl, rfl⟩ := List.cons.inj hl
        rw [Path.walk_cons] at hq
        obtain ⟨o, ho, hq⟩ := Option.bind_eq_some_iff.mp hq
        cases o with
        | none => cases hq
        | some q' => exact hmore _ ho q' rfl before d after rfl q hq
    · refine hall (c :: before) d after (by rw [hl, List.cons_append]) r ?_
      rw [Path.walk_cons, ho, hq]
      exact hr

end Checks

/-! ## Computations with a state -/

/-- From every state, `x` goes through exactly where `P` holds, and `a` is its result. -/
def ChecksState {σ : Type u} {α : Type u} (x : StateT σ Option α) (P : Prop) (a : α) : Prop :=
  ∀ s, ∃ t, Checks (x.run s) P (some (a, t))

namespace ChecksState

variable {σ α β : Type u} {x x' : StateT σ Option α} {P Q : Prop} {a : α} {b : β}

theorem isSome_iff (h : ChecksState x P a) (s : σ) : (x.run s).isSome = true ↔ P := by
  obtain ⟨t, ht⟩ := h s
  exact ht.isSome_iff

theorem congr (h : ChecksState x P a) (hPQ : P ↔ Q) : ChecksState x Q a := fun s => by
  obtain ⟨t, ht⟩ := h s
  exact ⟨t, ht.congr hPQ⟩

theorem done (a : α) : ChecksState (pure a : StateT σ Option α) True a := fun s => ⟨s, Checks.done (a, s)⟩

theorem update (f : σ → σ) : ChecksState (modify f : StateT σ Option PUnit) True PUnit.unit := fun s =>
  ⟨f s, Checks.done (PUnit.unit, f s)⟩

theorem lift {y : Option α} (h : Checks y P (some a)) : ChecksState (liftM y : StateT σ Option α) P a := fun s => by
  refine ⟨s, ?_⟩
  have hrun : (liftM y : StateT σ Option α).run s = y.bind fun b => some (b, s) := rfl
  rw [hrun]
  exact (h.next (Checks.done (a, s))).congr ⟨And.left, fun hP => ⟨hP, trivial⟩⟩

/-- Where the condition is known. -/
theorem lift_of {y : Option α} (h : Checks y P (some a)) (hP : P) : ChecksState (liftM y : StateT σ Option α) True a :=
  lift (h.congr (iff_true_intro hP))

theorem bind {f : α → StateT σ Option β} (h : ChecksState x P a) (hf : P → ChecksState (f a) Q b) :
    ChecksState (x >>= f) (P ∧ Q) b := fun s => by
  obtain ⟨t, ht⟩ := h s
  rcases Classical.em P with hP | hP
  · obtain ⟨u, hu⟩ := hf hP t
    exact ⟨u, ht.after fun _ => hu⟩
  · exact ⟨s, fun hPQ => absurd hPQ.1 hP, fun _ => by rw [StateT.run_bind, ht.fails hP]; rfl⟩

/-- After a step that always goes through. -/
theorem after {f : α → StateT σ Option β} (h : ChecksState x True a) (hf : ChecksState (f a) Q b) :
    ChecksState (x >>= f) Q b := (h.bind fun _ => hf).congr ⟨And.right, fun hQ => ⟨trivial, hQ⟩⟩

theorem ite {c : Prop} [Decidable c] (ht : c → ChecksState x P a) (hf : ¬c → ChecksState x' Q a) :
    ChecksState (if c then x else x') ((c → P) ∧ (¬c → Q)) a := by
  by_cases hc : c
  · rw [if_pos hc]
    exact (ht hc).congr ⟨fun hP => ⟨fun _ => hP, fun h => absurd hc h⟩, fun h => h.1 hc⟩
  · rw [if_neg hc]
    exact (hf hc).congr ⟨fun hQ => ⟨fun h => absurd h hc, fun _ => hQ⟩, fun h => h.2 hc⟩

/-- A loop over a list. -/
theorem each {γ : Type v} {f : γ → StateT σ Option PUnit} {P : γ → Prop} {l : List γ}
    (h : ∀ c ∈ l, ChecksState (f c) (P c) PUnit.unit) : ChecksState (l.forM f) (∀ c ∈ l, P c) PUnit.unit := by
  induction l with
  | nil => exact (done PUnit.unit).congr ⟨fun _ c hc => absurd hc List.not_mem_nil, fun _ => trivial⟩
  | cons c l ih =>
    have hrest := ih fun d hd => h d (List.mem_cons_of_mem _ hd)
    exact ((h c List.mem_cons_self).bind fun _ => hrest).congr List.forall_mem_cons.symm

end ChecksState
