import PpoOS.Lib.CString

/-!
# The string functions (`string.c`)

Source strings are `CString`, arrays that are written are `Buf`: a call that
writes outside of its array, or looks for the end of a text that has none, has
no result.  Each function writes the bytes that its loop writes, in that order.
-/

namespace PpoOS

variable {n : Nat}

/-! ## Comparing -/

/-- The loop of `strcmp`; the end of a list is the NUL. -/
def strcmpLoop : List (BitVec 8) → List (BitVec 8) → Int
  | a :: s, b :: t => if a = b then strcmpLoop s t else (a.toNat : Int) - b.toNat
  | a :: _, [] => a.toNat
  | [], b :: _ => -(b.toNat : Int)
  | [], [] => 0

def strcmp (s t : CString) : Int := strcmpLoop s.chars t.chars

/-- The loop of `strncmp`. -/
def strncmpLoop : List (BitVec 8) → List (BitVec 8) → Nat → Int
  | _, _, 0 => 0
  | a :: s, b :: t, m + 1 =>
    if a ≠ 0#8 ∧ a = b then strncmpLoop s t m else (a.toNat : Int) - b.toNat
  | a :: _, [], _ + 1 => a.toNat
  | [], b :: _, _ + 1 => -(b.toNat : Int)
  | [], [], _ + 1 => 0

def strncmp (s t : CString) (m : Nat) : Int := strncmpLoop s.chars t.chars m

theorem toNat_ne_zero {c : BitVec 8} {l : List (BitVec 8)} (h : 0#8 ∉ c :: l) : c.toNat ≠ 0 := by
  intro hc
  have hc0 : c = 0#8 := BitVec.eq_of_toNat_eq hc
  exact h (by simp [hc0])

theorem strcmpLoop_eq_zero {s t : List (BitVec 8)} (hs : 0#8 ∉ s) (ht : 0#8 ∉ t) :
    strcmpLoop s t = 0 ↔ s = t := by
  induction s generalizing t with
  | nil =>
    cases t with
    | nil => simp [strcmpLoop]
    | cons b t => simp [strcmpLoop, toNat_ne_zero ht]
  | cons a s ih =>
    cases t with
    | nil => simp [strcmpLoop, toNat_ne_zero hs]
    | cons b t =>
      rw [strcmpLoop]
      by_cases hab : a = b
      · rw [if_pos hab, ih (fun h => hs (by simp [h])) (fun h => ht (by simp [h]))]
        simp [hab]
      · have hne : a.toNat ≠ b.toNat := fun h => hab (BitVec.eq_of_toNat_eq h)
        rw [if_neg hab]
        simp only [List.cons.injEq, hab, false_and, iff_false]
        omega

/-- `strcmp` gives zero exactly for equal strings. -/
@[simp] theorem strcmp_eq_zero {s t : CString} : strcmp s t = 0 ↔ s = t := by
  rw [strcmp, strcmpLoop_eq_zero s.nonzero t.nonzero, CString.ext_iff]

/-- Up to the length of its second string, `strncmp` gives zero exactly for a prefix. -/
theorem strncmpLoop_eq_zero {s t : List (BitVec 8)} (ht : 0#8 ∉ t) :
    strncmpLoop s t t.length = 0 ↔ t <+: s := by
  induction t generalizing s with
  | nil => simp [strncmpLoop]
  | cons b t ih =>
    have hb := toNat_ne_zero ht
    cases s with
    | nil => simp [strncmpLoop, hb]
    | cons a s =>
      rw [List.length_cons, strncmpLoop]
      by_cases hab : a = b
      · have ha : a ≠ 0#8 := fun h => hb (by rw [← hab, h]; rfl)
        rw [if_pos ⟨ha, hab⟩, ih (fun h => ht (by simp [h]))]
        simp [hab]
      · have hne : a.toNat ≠ b.toNat := fun h => hab (BitVec.eq_of_toNat_eq h)
        rw [if_neg fun h => hab h.2]
        simp only [List.cons_prefix_cons, Ne.symm hab, false_and, iff_false]
        omega

/-! ## Copying and joining -/

def strcpy (dest : Buf n) (src : CString) : Option (Buf n) := dest.put 0 (src.chars ++ [0#8])

/-- At most `m` characters, and NULs up to `m` bytes. -/
def strncpy (dest : Buf n) (src : CString) (m : Nat) : Option (Buf n) :=
  dest.put 0 (src.chars.take m ++ List.replicate (m - src.length) 0#8)

def strcat (dest : Buf n) (src : CString) : Option (Buf n) := do
  let s ← dest.text
  dest.put s.length (src.chars ++ [0#8])

/-- At most `m` characters, and a NUL after them. -/
def strncat (dest : Buf n) (src : CString) (m : Nat) : Option (Buf n) := do
  let s ← dest.text
  dest.put s.length (src.chars.take m ++ [0#8])

/-- `strncpy(dest, src, sizeof(dest) - 1); dest[sizeof(dest) - 1] = 0` -/
def strncpyCut (dest : Buf n) (src : CString) : Option (Buf n) := do
  let d ← strncpy dest src (n - 1)
  d.write (n - 1) 0#8

theorem take_length_lt (src : CString) (h : 0 < n) : (src.take (n - 1)).length < n := by
  rw [CString.length_take]
  omega

/-- A truncating copy fills the whole array. -/
theorem strncpyCut_eq (dest : Buf n) (src : CString) (h : 0 < n) :
    strncpyCut dest src = some (Buf.ofText n (src.take (n - 1))) := by
  obtain ⟨m, rfl⟩ := Nat.exists_eq_succ_of_ne_zero (Nat.ne_of_gt h)
  have hlen : (src.chars.take m ++ List.replicate (m - src.length) 0#8).length = m := by
    simp [CString.length]
    omega
  obtain ⟨d, hd⟩ := Option.isSome_iff_exists.mp
    ((Buf.put_isSome_iff (b := dest) (Nat.zero_le _)).mpr (by rw [hlen]; omega))
  obtain ⟨-, hbytes⟩ := (Buf.put_some_iff (Nat.zero_le _)).mp hd
  rw [strncpyCut, strncpy, Nat.succ_sub_one, hd, Option.bind_eq_bind, Option.bind_some,
    Buf.write_some_iff]
  refine ⟨Nat.lt_succ_self m, ?_⟩
  -- the last byte is set, the ones before it come from the copy
  obtain ⟨x, hx⟩ : ∃ x, dest.bytes.drop m = [x] := by
    rw [← List.length_eq_one_iff, List.length_drop, dest.length_eq]
    omega
  rw [hbytes, hlen, Nat.zero_add, hx, List.take_zero, List.nil_append,
    List.set_append_right _ _ (Nat.le_of_eq hlen), hlen, Nat.sub_self, List.set_cons_zero,
    Buf.bytes_ofText, CString.chars_take, List.append_assoc, ← List.replicate_succ']
  rw [List.take_append, List.take_of_length_le (by rw [List.length_take]; omega), List.take_replicate]
  congr 2
  simp [CString.length]
  omega

theorem strcpy_isSome_iff {dest : Buf n} {src : CString} :
    (strcpy dest src).isSome = true ↔ src.length < n := by
  rw [strcpy, Buf.put_isSome_iff (Nat.zero_le n), List.length_append, List.length_singleton,
    CString.length]
  omega

theorem strcpy_text {dest d : Buf n} {src : CString} (h : strcpy dest src = some d) :
    d.text = some src := Buf.text_put_zero h

theorem strncat_isSome_iff {dest : Buf n} {s src : CString} {m : Nat} (hs : dest.text = some s) :
    (strncat dest src m).isSome = true ↔ s.length + min m src.length < n := by
  rw [strncat, hs, Option.bind_eq_bind, Option.bind_some,
    Buf.put_isSome_iff (Nat.le_of_lt (Buf.length_lt_of_text hs)), List.length_append,
    List.length_singleton, List.length_take, CString.length, CString.length]
  omega

theorem strncat_text {dest d : Buf n} {s src : CString} {m : Nat} (hs : dest.text = some s)
    (h : strncat dest src m = some d) : d.text = some (s ++ src.take m) := by
  rw [strncat, hs, Option.bind_eq_bind, Option.bind_some] at h
  exact Buf.text_put hs h

theorem strncat_some {b : Buf n} {s : CString} (h : b.text = some s) (src : CString) {m : Nat}
    (hfit : s.length + min m src.length < n) : ∃ c, strncat b src m = some c ∧ c.text = some (s ++ src.take m) := by
  obtain ⟨c, hc⟩ := Option.isSome_iff_exists.mp ((strncat_isSome_iff h).mpr hfit)
  exact ⟨c, hc, strncat_text h hc⟩

/-- `strcat` is `strncat` without a limit. -/
theorem strcat_eq (dest : Buf n) (src : CString) : strcat dest src = strncat dest src src.length := by
  rw [strcat, strncat, CString.length, List.take_length]

theorem strcat_some {b : Buf n} {s : CString} (src : CString) (h : b.text = some s)
    (hlen : s.length + src.length < n) :
    ∃ c, strcat b src = some c ∧ c.text = some (s ++ src) := by
  obtain ⟨c, hc, htext⟩ := strncat_some h src (m := src.length) (by rw [Nat.min_self]; exact hlen)
  refine ⟨c, by rw [strcat_eq, hc], ?_⟩
  rw [htext, CString.take_of_length_le (Nat.le_refl _)]

/-- `memmove(dest, dest + from, count)` within one array: the bytes move to the front. -/
def memmoveFront (b : Buf n) (start count : Nat) : Option (Buf n) :=
  if start + count ≤ n then b.put 0 ((b.bytes.drop start).take count) else none

/-! ## Searching -/

/-- The characters before the first `c`, and those after it where there is one: `strchr` and the
cut that its callers make there. -/
def strchrCut (c : BitVec 8) : List (BitVec 8) → List (BitVec 8) × Option (List (BitVec 8))
  | [] => ([], none)
  | d :: s =>
    if d = c then ([], some s)
    else (d :: (strchrCut c s).1, (strchrCut c s).2)

/-- What follows the last `c`, where there is one: `strrchr(s, c) + 1`. -/
def strrchrAfter (c : BitVec 8) : List (BitVec 8) → Option (List (BitVec 8))
  | [] => none
  | d :: s =>
    match strrchrAfter c s with
    | some t => some t
    | none => if d = c then some s else none

/-- The length of the initial run of bytes from `accept`. -/
def strspn (accept : List (BitVec 8)) : List (BitVec 8) → Nat
  | [] => 0
  | c :: s => if c ∈ accept then strspn accept s + 1 else 0

/-- The index of the first byte from `accept`. -/
def strpbrk (accept : List (BitVec 8)) : List (BitVec 8) → Option Nat
  | [] => none
  | c :: s => if c ∈ accept then some 0 else (strpbrk accept s).map (· + 1)

/-- `strtok_r`: the token at the front of `s` and what `saveptr` leads to. -/
def strtokR (delim s : List (BitVec 8)) :
    Option (List (BitVec 8) × List (BitVec 8)) :=
  match s.drop (strspn delim s) with
  | [] => none
  | c :: t =>
    match strpbrk delim (c :: t) with
    | none => some (c :: t, [])
    | some i => some ((c :: t).take i, (c :: t).drop (i + 1))

end PpoOS
