import PpoOS.Mm.Verify.Create

/-!
# The user halves

A page of the user half has 35 bits.  The user halves of the address spaces are
a forest of their own (`UserOwned`), whatever the kernel half holds, and a new
address space joins it (`forest_cons`).
-/

namespace PpoOS

open ByteMem FaultState

/-! ## Pages -/

/-- The page number the four levels translate. -/
def pageIdx (va : U64) : BitVec 36 := va.extractLsb' 12 36

/-- The four indices of an address are its page number. -/
theorem path_eq_iff {va va' : U64} :
    tablePath va = tablePath va' ∧ leafIdx va = leafIdx va' ↔ pageIdx va = pageIdx va' := by
  have hidx : ∀ (x y : U64) (s : Nat),
      x.extractLsb' s 9 = y.extractLsb' s 9 ↔ x.toNat / 2 ^ s % 512 = y.toNat / 2 ^ s % 512 := by
    intro x y s
    rw [BitVec.toNat_inj.symm, BitVec.extractLsb'_toNat, BitVec.extractLsb'_toNat,
      Nat.shiftRight_eq_div_pow, Nat.shiftRight_eq_div_pow]
  have hpage : pageIdx va = pageIdx va' ↔
      va.toNat / 2 ^ 12 % 2 ^ 36 = va'.toNat / 2 ^ 12 % 2 ^ 36 := by
    rw [pageIdx, pageIdx, BitVec.toNat_inj.symm, BitVec.extractLsb'_toNat,
      BitVec.extractLsb'_toNat, Nat.shiftRight_eq_div_pow, Nat.shiftRight_eq_div_pow]
  rw [hpage]
  simp only [tablePath, leafIdx, List.cons.injEq, and_true, hidx]
  omega

/-- The lower half of the address space: PML4 index below 256. -/
def UserHalf (va : U64) : Prop := (rootIdx va).toNat < 256

instance (va : U64) : Decidable (UserHalf va) := by unfold UserHalf; infer_instance

/-- A page of the lower half. -/
abbrev Page := BitVec 35

def userPage (va : U64) : Page := va.extractLsb' 12 35

def pageBase (u : Page) : U64 := u.setWidth 64 <<< 12

theorem userHalf_iff (va : U64) : UserHalf va ↔ va.toNat / 2 ^ 39 % 512 < 256 := by
  rw [UserHalf, rootIdx, BitVec.extractLsb'_toNat, Nat.shiftRight_eq_div_pow]

theorem userPage_toNat (va : U64) : (userPage va).toNat = va.toNat / 2 ^ 12 % 2 ^ 35 := by
  rw [userPage, BitVec.extractLsb'_toNat, Nat.shiftRight_eq_div_pow]

theorem pageIdx_toNat (va : U64) : (pageIdx va).toNat = va.toNat / 2 ^ 12 % 2 ^ 36 := by
  rw [pageIdx, BitVec.extractLsb'_toNat, Nat.shiftRight_eq_div_pow]

theorem pageBase_toNat (u : Page) : (pageBase u).toNat = u.toNat * 4096 := by
  have hu := u.isLt
  rw [pageBase, BitVec.toNat_shiftLeft, BitVec.toNat_setWidth, Nat.shiftLeft_eq]
  omega

theorem userHalf_pageBase (u : Page) : UserHalf (pageBase u) := by
  have hu := u.isLt
  rw [userHalf_iff, pageBase_toNat]
  omega

theorem userPage_pageBase (u : Page) : userPage (pageBase u) = u := by
  have hu := u.isLt
  apply BitVec.eq_of_toNat_eq
  rw [userPage_toNat, pageBase_toNat]
  omega

/-- In the lower half the page number has 35 bits. -/
theorem pageIdx_eq_iff {va va' : U64} (h : UserHalf va) (h' : UserHalf va') :
    pageIdx va = pageIdx va' ↔ userPage va = userPage va' := by
  rw [userHalf_iff] at h h'
  rw [BitVec.toNat_inj.symm, BitVec.toNat_inj.symm, pageIdx_toNat, pageIdx_toNat, userPage_toNat,
    userPage_toNat]
  omega

/-! ## The forest of user halves -/

/-- The lower halves of the address spaces `rs`. -/
def UserOwned (rs : List Nat) : Ownership := fun r q => r ∈ rs ∧ ∀ i ∈ q.head?, i.toNat < 256

theorem userOwned_closed (rs : List Nat) : Radix.PrefixClosed (UserOwned rs) := by
  intro r q i h
  refine ⟨h.1, ?_⟩
  cases q with
  | nil => simp
  | cons j q => exact h.2

theorem userOwned_path {rs : List Nat} {r : Nat} {va : U64} (hr : r ∈ rs) (hva : UserHalf va) :
    UserOwned rs r (tablePath va) := by
  refine ⟨hr, ?_⟩
  intro i hi
  cases hi
  exact hva

/-- With no address space there is nothing to own. -/
theorem forest_nil (k : Kernel) : Forest (UserOwned []) k where
  closed := userOwned_closed []
  separated := fun _ _ _ _ _ h => absurd h.1 List.not_mem_nil
  live := by
    intro f hf
    obtain ⟨r, q, h, -⟩ := hf
    exact absurd h.1 List.not_mem_nil
  plain := fun _ _ _ _ h => absurd h.1 List.not_mem_nil

theorem forest_cons {k k' : Kernel} {rs : List Nat} {c : Nat} (h : Forest (UserOwned rs) k)
    (hc : Creates k k' c) : Forest (UserOwned (c :: rs)) k' := by
  refine h.create hc (userOwned_closed _) ?_ ?_
  · intro r q hq
    rcases List.mem_cons.mp hq.1 with hr | hr
    · exact Or.inr hr
    · exact Or.inl ⟨hr, hq.2⟩
  · intro i q hq
    rw [hc.lower i (hq.2 i rfl), entryPresent_zero]

/-! ## Access from user mode -/

/-- The flags `exec_elf` and `sys_fork` build. -/
def userFlags (writable nx : Bool) : U64 :=
  ptePresent ||| pteUser ||| (if writable then pteWritable else 0#64) |||
    (if nx then pteNx else 0#64)

/-- The table an entry refers to for the processor in user mode. -/
def entryUserChild (e : U64) : Option Nat := if entryUser e then entryChild e else none

def entryUserLeaf (e : U64) : Option U64 := if entryUser e then entryLeaf e else none

/-- The four-level walk of the processor in user mode: every entry must be accessible. -/
def userTranslate (m : Mem) (r : Nat) (va : U64) : Option U64 :=
  Radix.lookup entryUserChild entryUserLeaf (tableAt m) r (tablePath va) (leafIdx va)

theorem entryUserLeaf_eq (e : U64) : entryUserLeaf e = (entryLeaf e).filter entryUser := by
  unfold entryUserLeaf entryLeaf
  cases hp : entryPresent e with
  | false => cases entryUser e <;> rfl
  | true => cases hu : entryUser e <;> simp [Option.filter, hu]

/-- What the processor finds in user mode is a leaf. -/
theorem userTranslate_some {m : Mem} {r : Nat} {va e : U64} (h : userTranslate m r va = some e) :
    translate m r va = some e ∧ entryUser e = true := by
  have hchild : ∀ e f, entryUserChild e = some f → entryChild e = some f := by
    intro e f he
    unfold entryUserChild at he
    split at he
    · exact he
    · cases he
  rw [userTranslate, Radix.lookup, Option.bind_eq_some_iff] at h
  obtain ⟨pt, hw, hleaf⟩ := h
  rw [entryUserLeaf_eq, Option.filter_eq_some_iff] at hleaf
  rw [translate_of_walk (Radix.walk_mono hchild hw)]
  exact hleaf

/-- Where the tables are accessible, the leaf decides. -/
theorem userTranslate_eq {D : Ownership} {k : Kernel} {r : Nat} {va : U64} (h : Forest D k)
    (hu : UserTables D k) (hD : D r (tablePath va)) :
    userTranslate k.mem r va = (translate k.mem r va).filter entryUser := by
  have hchild : ∀ p i f, p ++ [i] <+: tablePath va → walk k.mem r p = some f →
      entryUserChild (tableAt k.mem f i) = entryChild (tableAt k.mem f i) := by
    intro p i f hpre hw
    have hlen : p.length + 1 ≤ 3 := by simpa [tablePath] using hpre.length_le
    obtain ⟨s, hs⟩ := hpre
    have hDp : D r (p ++ [i]) := h.closed.append (hs ▸ hD)
    cases hp : entryPresent (tableAt k.mem f i) with
    | true => rw [entryUserChild, if_pos (hu r p i f hDp (by omega) hw hp)]
    | false =>
      rw [entryUserChild, entryChild_eq_none.mpr hp]
      exact ite_self none
  have hwalk : Radix.walk entryUserChild (tableAt k.mem) r (tablePath va) =
      walk k.mem r (tablePath va) := Radix.walk_congr hchild
  rw [userTranslate, Radix.lookup, hwalk]
  cases hw : walk k.mem r (tablePath va) with
  | none => rw [translate_of_none hw]; rfl
  | some pt =>
    rw [translate_of_walk hw]
    exact entryUserLeaf_eq _

end PpoOS
