import PpoOS.Mm.Verify.Pmm
import PpoOS.Mm.Vmm
import PpoOS.Lib.Radix

/-!
# Page tables as a store of entries

Physical memory gives every frame 512 entries (`tableAt`).  This module says how
the three kinds of write the code makes act on the entries: a stored entry, a
zeroed frame, and a write that stays inside one frame.  The forest invariant
`Forest D` is stated over the entries: the tables the roots own through `D` are
distinct frames, none of them free.
-/

namespace PpoOS

open ByteMem

/-- Frames below this bound lie in the direct map. -/
def frameBound : Nat := 2 ^ 35

/-- Entry `i` of the table in frame `f`. -/
def tableAt (m : Mem) (f : Nat) (i : Idx) : U64 := load64 m (entryAddr f i)

/-! ## Writes to memory, seen on the entries -/

theorem entryAddr_inDirectMap {f : Nat} (hf : f < frameBound) (i : Idx) :
    inDirectMap (entryAddr f i) 8 := by
  have hi := i.isLt
  unfold frameBound at hf
  rw [inDirectMap, directMapEnd, entryAddr_toNat (by omega)]
  omega

theorem frame_inDirectMap {f : Nat} (hf : f < frameBound) : inDirectMap (frameAddr f) 4096 := by
  unfold frameBound at hf
  rw [inDirectMap, directMapEnd, frameAddr_toNat (by omega)]
  omega

/-- The entries of a frame depend on its bytes only. -/
theorem tableAt_congr {m m' : Mem} {f : Nat} (hf : f < frameBound)
    (h : ∀ b, frameOf b = f → m' b = m b) (i : Idx) : tableAt m' f i = tableAt m f i := by
  apply load64_congr
  intro j hj
  apply h
  have hi := i.isLt
  unfold frameBound at hf
  have ha : (entryAddr f i).toNat = f * 4096 + 8 * i.toNat := entryAddr_toNat (by omega)
  rw [frameOf, BitVec.toNat_add, BitVec.toNat_ofNat, ha]
  omega

/-- A stored entry reads back, and no other entry changes. -/
theorem tableAt_store64 (m : Mem) {f g : Nat} (hf : f < frameBound) (hg : g < frameBound)
    (i j : Idx) (v : U64) :
    tableAt (store64 m (entryAddr f i) v) g j = if g = f ∧ j = i then v else tableAt m g j := by
  unfold tableAt
  by_cases h : g = f ∧ j = i
  · rw [if_pos h, h.1, h.2, load64_store64]
  · rw [if_neg h]
    have hi := i.isLt
    have hj := j.isLt
    unfold frameBound at hf hg
    have ha : (entryAddr f i).toNat = f * 4096 + 8 * i.toNat := entryAddr_toNat (by omega)
    have hb : (entryAddr g j).toNat = g * 4096 + 8 * j.toNat := entryAddr_toNat (by omega)
    have hne : g * 512 + j.toNat ≠ f * 512 + i.toNat := by
      intro hc
      have hji : j.toNat = i.toNat := by omega
      exact h ⟨by omega, BitVec.eq_of_toNat_eq hji⟩
    have hd := BitVec.toNat_sub (entryAddr g j) (entryAddr f i)
    rw [ha, hb] at hd
    exact load64_store64_outside (by omega) (by omega)

/-- A write inside frame `f` changes no entry of another frame. -/
theorem tableAt_blit (m : Mem) {f g o n : Nat} {a : U64} (hf : f < frameBound)
    (hg : g < frameBound) (ha : a.toNat = f * 4096 + o) (hn : o + n ≤ 4096) (hne : g ≠ f)
    (src : Nat → U8) (i : Idx) : tableAt (blit m a n src) g i = tableAt m g i := by
  have hi := i.isLt
  unfold frameBound at hf hg
  have hb : (entryAddr g i).toNat = g * 4096 + 8 * i.toNat := entryAddr_toNat (by omega)
  have hd := BitVec.toNat_sub (entryAddr g i) a
  rw [ha, hb] at hd
  exact load64_blit_outside (by omega) (by omega)

/-- A zeroed frame is an empty table. -/
theorem tableAt_fill (m : Mem) {f g : Nat} (hf : f < frameBound) (hg : g < frameBound) (i : Idx) :
    tableAt (fill m (frameAddr f) 4096 0#8) g i = if g = f then 0#64 else tableAt m g i := by
  have hi := i.isLt
  have hf' := hf
  unfold frameBound at hf'
  have ha : (frameAddr f).toNat = f * 4096 := frameAddr_toNat (by omega)
  by_cases h : g = f
  · subst h
    have hb : (entryAddr g i).toNat = g * 4096 + 8 * i.toNat := entryAddr_toNat (by omega)
    have hd := BitVec.toNat_sub (entryAddr g i) (frameAddr g)
    rw [ha, hb] at hd
    rw [if_pos rfl]
    exact load64_fill_zero (by omega) (by omega)
  · have ha' : (frameAddr f).toNat = f * 4096 + 0 := by rw [ha, Nat.add_zero]
    rw [if_neg h, fill]
    exact tableAt_blit m hf hg ha' (by omega) h _ i

/-- A byte is outside a frame that is not its own. -/
theorem blit_frame_outside (m : Mem) {f o n : Nat} {a b : U64} (hf : f < frameBound)
    (ha : a.toNat = f * 4096 + o) (hn : o + n ≤ 4096) (hb : frameOf b ≠ f) (src : Nat → U8) :
    blit m a n src b = m b := by
  unfold frameBound at hf
  have hd := BitVec.toNat_sub b a
  have hlt := b.isLt
  unfold frameOf at hb
  exact blit_outside (by omega)

/-! ## Walks -/

/-- The table the upper levels reach from root `r` along `q`. -/
abbrev walk (m : Mem) (r : Nat) (q : List Idx) : Option Nat :=
  Radix.walk entryChild (tableAt m) r q

theorem walk_concat_of {m : Mem} {r f : Nat} {q : List Idx} (h : walk m r q = some f) (i : Idx) :
    walk m r (q ++ [i]) = entryChild (tableAt m f i) := by
  unfold walk at h ⊢
  rw [Radix.walk_concat, h]
  rfl

/-- The present leaf entry in slot `i` of the table at `q`. -/
abbrev lookup (m : Mem) (r : Nat) (q : List Idx) (i : Idx) : Option U64 :=
  Radix.lookup entryChild entryLeaf (tableAt m) r q i

/-- The four-level walk of a virtual address. -/
def translate (m : Mem) (r : Nat) (va : U64) : Option U64 :=
  lookup m r (tablePath va) (leafIdx va)

theorem translate_of_walk {m : Mem} {r pt : Nat} {va : U64}
    (h : walk m r (tablePath va) = some pt) :
    translate m r va = entryLeaf (tableAt m pt (leafIdx va)) := by
  unfold translate lookup Radix.lookup
  unfold walk at h
  rw [h]
  rfl

theorem translate_of_none {m : Mem} {r : Nat} {va : U64} (h : walk m r (tablePath va) = none) :
    translate m r va = none := by
  unfold translate lookup Radix.lookup
  unfold walk at h
  rw [h]
  rfl

/-- Which paths of upper-level indices a root owns. -/
abbrev Ownership := Nat → List Idx → Prop

/-- Frame `f` is a table some root owns. -/
abbrev IsTable (D : Ownership) (k : Kernel) (f : Nat) : Prop :=
  Radix.Owned entryChild (tableAt k.mem) D 3 f

/-- The tables that roots own are distinct frames in the direct map, none of them free, and their
entries for owned tables are plain: an address and low flags. -/
structure Forest (D : Ownership) (k : Kernel) : Prop where
  closed : Radix.PrefixClosed D
  separated : Radix.Separated entryChild (tableAt k.mem) D 3
  live : ∀ f, IsTable D k f → f < frameBound ∧ ¬k.pmm.Free f
  plain : ∀ r q i f, D r (q ++ [i]) → q.length < 3 → walk k.mem r q = some f →
    entryPresent (tableAt k.mem f i) = true → (tableAt k.mem f i).toNat < 2 ^ 47

/-- Masking a plain entry gives the address of its frame. -/
theorem and_pageMask_plain {e : U64} (h : e.toNat < 2 ^ 47) :
    e &&& pageMask = frameAddr (entryFrame e) := by
  rw [and_pageMask_eq, entryFrame_eq, frameOf]
  congr 1
  omega

/-! ## States that agree on the tables -/

section Agree

variable {D : Ownership} {k k' : Kernel}

/-- Entries of tables are equal where the bytes of the tables are. -/
theorem Forest.entries_agree (h : Forest D k)
    (hm : ∀ b, IsTable D k (frameOf b) → k'.mem b = k.mem b) (f : Nat) (i : Idx)
    (hf : IsTable D k f) : tableAt k'.mem f i = tableAt k.mem f i :=
  tableAt_congr (h.live f hf).1 (fun b hb => hm b (hb ▸ hf)) i

theorem Forest.walk_agree (h : Forest D k)
    (hm : ∀ b, IsTable D k (frameOf b) → k'.mem b = k.mem b) {r : Nat} {q : List Idx}
    (hq : D r q) (hl : q.length ≤ 3) : walk k'.mem r q = walk k.mem r q :=
  Radix.walk_outside h.closed (h.entries_agree hm) hq (by omega)

theorem Forest.lookup_agree (h : Forest D k)
    (hm : ∀ b, IsTable D k (frameOf b) → k'.mem b = k.mem b) {r : Nat} {q : List Idx}
    (hq : D r q) (hl : q.length ≤ 3) (i : Idx) : lookup k'.mem r q i = lookup k.mem r q i :=
  Radix.lookup_outside h.closed (h.entries_agree hm) hq hl i

theorem Forest.isTable_agree (h : Forest D k)
    (hm : ∀ b, IsTable D k (frameOf b) → k'.mem b = k.mem b) {f : Nat} :
    IsTable D k' f ↔ IsTable D k f := by
  constructor
  · intro hf
    obtain ⟨r, q, hq, hl, hw⟩ := hf
    exact ⟨r, q, hq, hl, (h.walk_agree hm hq hl).symm.trans hw⟩
  · intro hf
    obtain ⟨r, q, hq, hl, hw⟩ := hf
    exact ⟨r, q, hq, hl, (h.walk_agree hm hq hl).trans hw⟩

/-- A state that keeps the bytes of the tables, and keeps them from being free, keeps the forest. -/
theorem Forest.agree (h : Forest D k)
    (hm : ∀ b, IsTable D k (frameOf b) → k'.mem b = k.mem b)
    (hp : ∀ f, IsTable D k f → ¬k'.pmm.Free f) : Forest D k' where
  closed := h.closed
  separated := by
    intro r q r' q' f hq hq' hl hl' hw hw'
    have hwk := h.walk_agree hm hq hl
    have hwk' := h.walk_agree hm hq' hl'
    exact h.separated hq hq' hl hl' (hwk.symm.trans hw) (hwk'.symm.trans hw')
  live := by
    intro f hf
    have hf' := (h.isTable_agree hm).mp hf
    exact ⟨(h.live f hf').1, hp f hf'⟩
  plain := by
    intro r q i f hq hl hw hpres
    have hdq := h.closed hq
    rw [h.walk_agree hm hdq (by omega)] at hw
    rw [h.entries_agree hm f i ⟨r, q, hdq, by omega, hw⟩] at hpres ⊢
    exact h.plain r q i f hq hl hw hpres

end Agree

end PpoOS
