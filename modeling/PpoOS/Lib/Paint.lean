import PpoOS.Lib.Ends
import Mathlib.Logic.Function.Basic

/-!
# Loops that paint a table

`PaintsOver col W f x`: the computation `x` ends in a table that has the values of `col` where `W` holds
and those of `f` elsewhere.  As the value of a cell does not depend on when it is written, a loop
paints what its iterations paint, in whatever order they overlap (`PaintsOver.foldlM`).
-/

universe u v w

/-- `x` ends in `f`, painted with `col` where `W` holds. -/
def PaintsOver {κ : Type u} {α : Type v} (col : κ → α) (W : κ → Prop) (f : κ → α) (x : Option (κ → α)) : Prop :=
  Ends x fun f' => ∀ k, (W k → f' k = col k) ∧ (¬W k → f' k = f k)

namespace PaintsOver

variable {κ : Type u} {α : Type v} {ι : Type w} {col : κ → α} {W W' : κ → Prop} {f : κ → α} {x : Option (κ → α)}

theorem none_painted (f : κ → α) : PaintsOver col (fun _ => False) f (some f) :=
  Ends.pure fun _ => ⟨False.elim, fun _ => rfl⟩

theorem congr (h : PaintsOver col W f x) (hW : ∀ k, W k ↔ W' k) : PaintsOver col W' f x :=
  h.mono fun _ hf k => ⟨fun hk => (hf k).1 ((hW k).mpr hk), fun hk => (hf k).2 fun hk' => hk ((hW k).mp hk')⟩

/-- A single cell -/
theorem write [DecidableEq κ] {k : κ} {a : α} (ha : a = col k) : PaintsOver col (· = k) f (some (Function.update f k a)) := by
  refine Ends.pure fun k' => ⟨?_, fun hne => Function.update_of_ne hne a f⟩
  rintro rfl
  rw [Function.update_self, ha]

theorem bind {g : (κ → α) → Option (κ → α)} (h : PaintsOver col W f x) (hg : ∀ f', PaintsOver col W' f' (g f')) :
    PaintsOver col (fun k => W k ∨ W' k) f (x.bind g) := by
  refine Ends.bind h fun f' hf' => (hg f').mono fun f'' hf'' k => ⟨?_, fun hk => ?_⟩
  · intro hk
    by_cases hlate : W' k
    · exact (hf'' k).1 hlate
    · rw [(hf'' k).2 hlate]
      exact (hf' k).1 (hk.resolve_right hlate)
  · rw [(hf'' k).2 fun hlate => hk (.inr hlate), (hf' k).2 fun hearly => hk (.inl hearly)]

theorem foldlM {step : (κ → α) → ι → Option (κ → α)} {W : ι → κ → Prop} {is : List ι}
    (h : ∀ i ∈ is, ∀ f, PaintsOver col (W i) f (step f i)) : PaintsOver col (fun k => ∃ i ∈ is, W i k) f (is.foldlM step f) := by
  induction is generalizing f with
  | nil =>
    refine (none_painted f).congr fun k => ⟨False.elim, ?_⟩
    rintro ⟨i, hi, -⟩
    exact absurd hi List.not_mem_nil
  | cons i is ih =>
    rw [List.foldlM_cons]
    refine (bind (h i List.mem_cons_self f) fun f' => ih fun j hj => h j (List.mem_cons_of_mem i hj)).congr fun k => ?_
    rw [List.exists_mem_cons_iff]

end PaintsOver
