import Mathlib.Data.List.Induction

/-!
# Radix trees in a store of tables

A store gives every table its entries; an entry may refer to a child table.
Several roots own parts of the store: `D r q` says that root `r` owns the path
`q`.  The trees are *separated* to depth `n` when no table is reached by two
owned paths of at most `n` steps.  Three updates keep them separated and change
the lookups in a known way: linking a fresh empty table (`walk_link`), writing
an entry of a last-level table (`walk_set`), and adding a fresh root
(`walk_root`).
-/

namespace Radix

universe u v w x

variable {F : Type u} {I : Type v} {E : Type w} {L : Type x}

/-- The table reached from `f` along a path. -/
def walk (child : E → Option F) (σ : F → I → E) : F → List I → Option F
  | f, [] => some f
  | f, i :: q => (child (σ f i)).bind fun g => walk child σ g q

/-- The leaf in slot `i` of the table reached from `r` along `q`. -/
def lookup (child : E → Option F) (leaf : E → Option L) (σ : F → I → E) (r : F) (q : List I)
    (i : I) : Option L :=
  (walk child σ r q).bind fun f => leaf (σ f i)

/-- No table is reached by two owned paths of at most `n` steps. -/
def Separated (child : E → Option F) (σ : F → I → E) (D : F → List I → Prop) (n : Nat) : Prop :=
  ∀ ⦃r q r' q' f⦄, D r q → D r' q' → q.length ≤ n → q'.length ≤ n →
    walk child σ r q = some f → walk child σ r' q' = some f → r = r' ∧ q = q'

/-- The tables that owned paths of at most `n` steps reach. -/
def Owned (child : E → Option F) (σ : F → I → E) (D : F → List I → Prop) (n : Nat) (f : F) :
    Prop :=
  ∃ r q, D r q ∧ q.length ≤ n ∧ walk child σ r q = some f

/-- Ownership passes to shorter paths. -/
def PrefixClosed (D : F → List I → Prop) : Prop :=
  ∀ ⦃r q i⦄, D r (q ++ [i]) → D r q

variable {child : E → Option F} {leaf : E → Option L} {σ σ' : F → I → E}
  {D : F → List I → Prop} {n : Nat}

theorem walk_append (r : F) (p q : List I) :
    walk child σ r (p ++ q) = (walk child σ r p).bind fun f => walk child σ f q := by
  induction p generalizing r with
  | nil => rfl
  | cons i p ih =>
    simp only [List.cons_append, walk, Option.bind_assoc]
    exact Option.bind_congr fun g _ => ih g

theorem walk_concat (r : F) (q : List I) (i : I) :
    walk child σ r (q ++ [i]) = (walk child σ r q).bind fun f => child (σ f i) := by
  rw [walk_append]
  exact Option.bind_congr fun f _ => by simp [walk]

theorem PrefixClosed.append (h : PrefixClosed D) {r : F} {p s : List I} (hd : D r (p ++ s)) :
    D r p := by
  induction s using List.reverseRecOn with
  | nil => simpa using hd
  | append_singleton s i ih => exact ih (h (by rwa [List.append_assoc]))

/-- A walk depends only on the children that the entries on its way refer to. -/
theorem walk_congr {child' : E → Option F} {r : F} : ∀ {q : List I},
    (∀ p i f, p ++ [i] <+: q → walk child σ r p = some f → child' (σ' f i) = child (σ f i)) →
      walk child' σ' r q = walk child σ r q := by
  intro q
  induction q using List.reverseRecOn with
  | nil => intro _; rfl
  | append_singleton q i ih =>
    intro h
    rw [walk_concat, walk_concat,
      ih fun p j f hp hf => h p j f (hp.trans (List.prefix_append q [i])) hf]
    exact Option.bind_congr fun f hf => h q i f List.prefix_rfl hf

/-- A walk that follows fewer links. -/
theorem walk_mono {child' : E → Option F} (h : ∀ e f, child' e = some f → child e = some f) {f : F} :
    ∀ {q : List I} {r : F}, walk child' σ r q = some f → walk child σ r q = some f := by
  intro q
  induction q with
  | nil => exact id
  | cons i q ih =>
    intro r hw
    rw [walk, Option.bind_eq_some_iff] at hw ⊢
    obtain ⟨g, hg, hw⟩ := hw
    exact ⟨g, h _ _ hg, ih hw⟩

/-- An owned path of a separated forest is found again from its table. -/
theorem Separated.eq (h : Separated child σ D n) {r r' f : F} {q q' : List I}
    (hq : D r q) (hq' : D r' q') (hl : q.length ≤ n) (hl' : q'.length ≤ n)
    (hf : walk child σ r q = some f) (hf' : walk child σ r' q' = some f) : r = r' ∧ q = q' :=
  h hq hq' hl hl' hf hf'

/-! ## Linking a fresh table -/

section Link

/-- `σ'` is `σ` with the fresh empty table `c` linked into slot `j` of the table `t` that root
`r` owns at `p`. -/
structure Link (child : E → Option F) (leaf : E → Option L) (σ σ' : F → I → E)
    (D : F → List I → Prop) (n : Nat) (r : F) (p : List I) (t : F) (j : I) (c : F) : Prop where
  owned : D r (p ++ [j])
  table : walk child σ r p = some t
  depth : p.length < n
  empty : child (σ t j) = none
  fresh : ¬Owned child σ D n c
  linked : child (σ' t j) = some c
  no_child : ∀ i, child (σ' c i) = none
  no_leaf : ∀ i, leaf (σ' c i) = none
  keep : ∀ f i, Owned child σ D n f → ¬(f = t ∧ i = j) → σ' f i = σ f i

variable {r t c : F} {p : List I} {j : I}

/-- After a link the new path reaches the new table and every other owned path, also one step
past the depth of separation, reaches what it reached before. -/
theorem walk_link (hD : PrefixClosed D) (hs : Separated child σ D n)
    (h : Link child leaf σ σ' D n r p t j c) :
    ∀ {q : List I} {r' : F}, D r' q → q.length ≤ n + 1 →
      (r' = r ∧ q = p ++ [j] ∧ walk child σ' r' q = some c) ∨
        (¬(r' = r ∧ q = p ++ [j]) ∧ walk child σ' r' q = walk child σ r' q) := by
  have hp : D r p := hD h.owned
  intro q
  induction q using List.reverseRecOn with
  | nil => intro r' _ _; exact Or.inr ⟨by simp, rfl⟩
  | append_singleton q i ih =>
    intro r' hq hl
    rw [List.length_append, List.length_singleton] at hl
    rw [walk_concat, walk_concat]
    rcases ih (hD hq) (by omega) with ⟨rfl, rfl, hw⟩ | ⟨hne, hw⟩
    · -- below the new table there is nothing, as there was nothing before it was linked
      refine Or.inr ⟨fun hc => ?_, ?_⟩
      · have := congrArg List.length hc.2
        simp at this
      · rw [hw, walk_concat, h.table]
        simp [h.no_child, h.empty]
    · rw [hw]
      cases hf : walk child σ r' q with
      | none =>
        refine Or.inr ⟨?_, rfl⟩
        rintro ⟨rfl, hc⟩
        obtain ⟨rfl, -⟩ := List.append_inj' hc rfl
        rw [h.table] at hf
        cases hf
      | some f =>
        have hof : Owned child σ D n f := ⟨r', q, hD hq, by omega, hf⟩
        by_cases hft : f = t ∧ i = j
        · obtain ⟨rfl, rfl⟩ := hft
          obtain ⟨rfl, rfl⟩ := hs.eq (hD hq) hp (by omega) (Nat.le_of_lt h.depth) hf h.table
          exact Or.inl ⟨rfl, rfl, h.linked⟩
        · refine Or.inr ⟨?_, by simp [h.keep f i hof hft]⟩
          rintro ⟨rfl, hc⟩
          obtain ⟨rfl, hi⟩ := List.append_inj' hc rfl
          rw [h.table] at hf
          exact hft ⟨(Option.some.inj hf).symm, by simpa using hi⟩

/-- The tables after a link are the old ones and the new one. -/
theorem walk_link_some (hD : PrefixClosed D) (hs : Separated child σ D n)
    (h : Link child leaf σ σ' D n r p t j c) {q : List I} {r' f : F} (hq : D r' q)
    (hl : q.length ≤ n + 1) (hf : walk child σ' r' q = some f) :
    walk child σ r' q = some f ∨ (r' = r ∧ q = p ++ [j] ∧ f = c) := by
  rcases walk_link hD hs h hq hl with ⟨hr, hqe, hw⟩ | ⟨-, hw⟩
  · rw [hw] at hf
    exact Or.inr ⟨hr, hqe, (Option.some.inj hf).symm⟩
  · exact Or.inl (hw ▸ hf)

/-- Tables already reached stay where they are. -/
theorem walk_link_mono (hD : PrefixClosed D) (hs : Separated child σ D n)
    (h : Link child leaf σ σ' D n r p t j c) {q : List I} {r' f : F} (hq : D r' q)
    (hl : q.length ≤ n + 1) (hf : walk child σ r' q = some f) : walk child σ' r' q = some f := by
  rcases walk_link hD hs h hq hl with ⟨rfl, rfl, -⟩ | ⟨-, hw⟩
  · rw [walk_concat, h.table] at hf
    simp [h.empty] at hf
  · rw [hw, hf]

theorem separated_link (hD : PrefixClosed D) (hs : Separated child σ D n)
    (h : Link child leaf σ σ' D n r p t j c) : Separated child σ' D n := by
  intro r₁ q₁ r₂ q₂ f h₁ h₂ l₁ l₂ w₁ w₂
  rcases walk_link_some hD hs h h₁ (by omega) w₁ with v₁ | ⟨rfl, rfl, rfl⟩
  · rcases walk_link_some hD hs h h₂ (by omega) w₂ with v₂ | ⟨rfl, rfl, rfl⟩
    · exact hs.eq h₁ h₂ l₁ l₂ v₁ v₂
    · exact absurd ⟨_, _, h₁, l₁, v₁⟩ h.fresh
  · rcases walk_link_some hD hs h h₂ (by omega) w₂ with v₂ | ⟨rfl, rfl, -⟩
    · exact absurd ⟨_, _, h₂, l₂, v₂⟩ h.fresh
    · exact ⟨rfl, rfl⟩

/-- Linking an empty table changes no leaf. -/
theorem lookup_link (hD : PrefixClosed D) (hs : Separated child σ D n)
    (h : Link child leaf σ σ' D n r p t j c) {q : List I} {r' : F} (hq : D r' q)
    (hl : q.length = n) (i : I) : lookup child leaf σ' r' q i = lookup child leaf σ r' q i := by
  unfold lookup
  rcases walk_link hD hs h hq (by omega) with ⟨rfl, rfl, hw⟩ | ⟨-, hw⟩
  · rw [hw, walk_concat, h.table]
    simp [h.no_leaf, h.empty]
  · rw [hw]
    refine Option.bind_congr fun f hf => ?_
    rw [h.keep f i ⟨r', q, hq, by omega, hf⟩]
    rintro ⟨rfl, -⟩
    obtain ⟨-, rfl⟩ := hs.eq hq (hD h.owned) (by omega) (Nat.le_of_lt h.depth) hf h.table
    exact absurd hl (Nat.ne_of_lt h.depth)

end Link

/-! ## Writing an entry of a last-level table -/

section Write

variable {r t : F} {p : List I} {j : I}

/-- Writing an entry of a last-level table moves no table. -/
theorem walk_set (hD : PrefixClosed D) (hs : Separated child σ D n) (hp : D r p)
    (ht : walk child σ r p = some t) (hl : p.length = n)
    (hk : ∀ f i, Owned child σ D n f → ¬(f = t ∧ i = j) → σ' f i = σ f i) {q : List I} {r' : F} (hq : D r' q)
    (hlq : q.length ≤ n) : walk child σ' r' q = walk child σ r' q := by
  refine walk_congr fun p₀ i f hpre hf => ?_
  have hlen : p₀.length + 1 ≤ q.length := by simpa using hpre.length_le
  obtain ⟨s, hs'⟩ := hpre
  rw [← hs', List.append_assoc] at hq
  have hp₀ : D r' p₀ := hD.append hq
  rw [hk f i ⟨r', p₀, hp₀, by omega, hf⟩]
  rintro ⟨rfl, -⟩
  obtain ⟨-, rfl⟩ := hs.eq hp₀ hp (by omega) (by omega) hf ht
  omega

theorem separated_set (hD : PrefixClosed D) (hs : Separated child σ D n) (hp : D r p)
    (ht : walk child σ r p = some t) (hl : p.length = n)
    (hk : ∀ f i, Owned child σ D n f → ¬(f = t ∧ i = j) → σ' f i = σ f i) : Separated child σ' D n := by
  intro r₁ q₁ r₂ q₂ f h₁ h₂ l₁ l₂ w₁ w₂
  rw [walk_set hD hs hp ht hl hk h₁ l₁] at w₁
  rw [walk_set hD hs hp ht hl hk h₂ l₂] at w₂
  exact hs.eq h₁ h₂ l₁ l₂ w₁ w₂

/-- The written leaf reads back. -/
theorem lookup_set_same (hD : PrefixClosed D) (hs : Separated child σ D n) (hp : D r p)
    (ht : walk child σ r p = some t) (hl : p.length = n)
    (hk : ∀ f i, Owned child σ D n f → ¬(f = t ∧ i = j) → σ' f i = σ f i) :
    lookup child leaf σ' r p j = leaf (σ' t j) := by
  rw [lookup, walk_set hD hs hp ht hl hk hp (by omega), ht]
  rfl

/-- Every other leaf of every tree keeps its value. -/
theorem lookup_set_other (hD : PrefixClosed D) (hs : Separated child σ D n) (hp : D r p)
    (ht : walk child σ r p = some t) (hl : p.length = n)
    (hk : ∀ f i, Owned child σ D n f → ¬(f = t ∧ i = j) → σ' f i = σ f i) {q : List I} {r' : F} {i : I} (hq : D r' q)
    (hlq : q.length ≤ n) (hne : ¬(r' = r ∧ q = p ∧ i = j)) :
    lookup child leaf σ' r' q i = lookup child leaf σ r' q i := by
  unfold lookup
  rw [walk_set hD hs hp ht hl hk hq hlq]
  refine Option.bind_congr fun f hf => ?_
  rw [hk f i ⟨r', q, hq, hlq, hf⟩]
  rintro ⟨rfl, rfl⟩
  obtain ⟨rfl, rfl⟩ := hs.eq hq hp hlq (by omega) hf ht
  exact hne ⟨rfl, rfl, rfl⟩

end Write

/-! ## Tables outside the forest -/

section Outside

/-- Rewriting a table that no owned path reaches moves no table. -/
theorem walk_outside (hD : PrefixClosed D)
    (hk : ∀ f i, Owned child σ D n f → σ' f i = σ f i) :
    ∀ {q : List I} {r : F}, D r q → q.length ≤ n + 1 →
      walk child σ' r q = walk child σ r q := by
  intro q
  induction q using List.reverseRecOn with
  | nil => intro r _ _; rfl
  | append_singleton q i ih =>
    intro r hq hl
    rw [List.length_append, List.length_singleton] at hl
    rw [walk_concat, walk_concat, ih (hD hq) (by omega)]
    refine Option.bind_congr fun f hf => ?_
    rw [hk f i ⟨r, q, hD hq, by omega, hf⟩]

theorem lookup_outside (hD : PrefixClosed D)
    (hk : ∀ f i, Owned child σ D n f → σ' f i = σ f i) {q : List I} {r : F} (hq : D r q)
    (hl : q.length ≤ n) (i : I) : lookup child leaf σ' r q i = lookup child leaf σ r q i := by
  unfold lookup
  rw [walk_outside hD hk hq (by omega)]
  refine Option.bind_congr fun f hf => ?_
  rw [hk f i ⟨r, q, hq, hl, hf⟩]

/-- A fresh table whose owned slots are empty is a new tree of its own. -/
theorem separated_root {D' : F → List I → Prop} {c : F} (hD : PrefixClosed D)
    (hs : Separated child σ D n) (hfresh : ¬Owned child σ D n c)
    (hk : ∀ f i, Owned child σ D n f → σ' f i = σ f i)
    (hD' : ∀ r q, D' r q → D r q ∨ r = c)
    (hempty : ∀ i q, D' c (i :: q) → child (σ' c i) = none) : Separated child σ' D' n := by
  -- an owned path of the new forest is a path of the old one or the new root itself
  have key : ∀ {r q f}, D' r q → q.length ≤ n → walk child σ' r q = some f →
      (D r q ∧ walk child σ r q = some f) ∨ (r = c ∧ q = [] ∧ f = c) := by
    intro r q f hq hl hf
    rcases hD' r q hq with h | rfl
    · exact Or.inl ⟨h, by rwa [walk_outside hD hk h (by omega)] at hf⟩
    · cases q with
      | nil => exact Or.inr ⟨rfl, rfl, (Option.some.inj hf).symm⟩
      | cons i q => simp [walk, hempty i q hq] at hf
  intro r₁ q₁ r₂ q₂ f h₁ h₂ l₁ l₂ w₁ w₂
  rcases key h₁ l₁ w₁ with ⟨d₁, v₁⟩ | ⟨rfl, rfl, rfl⟩
  · rcases key h₂ l₂ w₂ with ⟨d₂, v₂⟩ | ⟨rfl, rfl, rfl⟩
    · exact hs.eq d₁ d₂ l₁ l₂ v₁ v₂
    · exact absurd ⟨_, _, d₁, l₁, v₁⟩ hfresh
  · rcases key h₂ l₂ w₂ with ⟨d₂, v₂⟩ | ⟨rfl, rfl, -⟩
    · exact absurd ⟨_, _, d₂, l₂, v₂⟩ hfresh
    · exact ⟨rfl, rfl⟩

end Outside

end Radix
