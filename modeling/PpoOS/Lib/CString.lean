import Mathlib.Algebra.Group.Int.Defs
import Mathlib.Algebra.GroupWithZero.Nat
import Mathlib.Data.List.Basic
import Mathlib.Data.List.TakeWhile

/-!
# Strings that end with a NUL byte, and the arrays that hold them

`CString` is the text before the NUL.  `Buf n` is an array of `n` bytes; a write
outside of it has no result.  Every function that fills an array writes a list
of bytes one after the other (`Buf.put`), so all of them share `put_some_iff`.
`Buf.text` is what a reader of the array sees, and has no result where the array
holds no NUL.
-/

/-- The characters of a NUL-terminated string, without the NUL. -/
@[ext]
structure CString where
  chars : List (BitVec 8)
  nonzero : 0#8 ∉ chars
deriving DecidableEq

namespace CString

def length (s : CString) : Nat := s.chars.length

def empty : CString := ⟨[], by simp⟩

def cons (c : BitVec 8) (h : c ≠ 0#8) (s : CString) : CString :=
  ⟨c :: s.chars, by simpa [Ne.symm h] using s.nonzero⟩

def append (s t : CString) : CString :=
  ⟨s.chars ++ t.chars, by simp [s.nonzero, t.nonzero]⟩

instance : Append CString := ⟨append⟩

/-- The first `m` characters. -/
def take (m : Nat) (s : CString) : CString :=
  ⟨s.chars.take m, fun h => s.nonzero (List.mem_of_mem_take h)⟩

/-- The characters from the `m`-th on. -/
def drop (m : Nat) (s : CString) : CString :=
  ⟨s.chars.drop m, fun h => s.nonzero (List.mem_of_mem_drop h)⟩

/-- A string of characters of the source. -/
def ofChars (cs : List Char) : CString :=
  ⟨(cs.map fun c => BitVec.ofNat 8 c.toNat).filter (· ≠ 0#8), by simp⟩

@[simp] theorem chars_empty : empty.chars = [] := rfl
@[simp] theorem chars_append (s t : CString) : (s ++ t).chars = s.chars ++ t.chars := rfl
@[simp] theorem chars_take (m : Nat) (s : CString) : (s.take m).chars = s.chars.take m := rfl
@[simp] theorem chars_drop (m : Nat) (s : CString) : (s.drop m).chars = s.chars.drop m := rfl
@[simp] theorem length_append (s t : CString) : (s ++ t).length = s.length + t.length := by
  simp [length]
@[simp] theorem length_take (m : Nat) (s : CString) : (s.take m).length = min m s.length := by
  simp [length]

theorem take_of_length_le {s : CString} {m : Nat} (h : s.length ≤ m) : s.take m = s := by
  ext1
  exact List.take_of_length_le h

theorem length_eq_zero {s : CString} : s.length = 0 ↔ s = empty := by
  rw [CString.ext_iff, length, List.length_eq_zero_iff]
  rfl

/-! ## Reading up to the NUL -/

/-- The string at the front of the bytes, where a NUL ends it. -/
def read : List (BitVec 8) → Option CString
  | [] => none
  | c :: l => if h : c = 0#8 then some empty else (read l).map (cons c h)

/-- A string is read exactly where its characters and a NUL are the front of the bytes. -/
theorem read_eq_some_iff {l : List (BitVec 8)} {s : CString} :
    read l = some s ↔ ∃ rest, l = s.chars ++ 0#8 :: rest := by
  induction l generalizing s with
  | nil => simp [read]
  | cons c l ih =>
    by_cases hc : c = 0#8
    · rw [read, dif_pos hc, hc]
      constructor
      · rintro h
        cases h
        exact ⟨l, rfl⟩
      · rintro ⟨rest, h⟩
        obtain ⟨cs, hcs⟩ := s
        cases cs with
        | nil => rfl
        | cons d ds =>
          have hd : 0#8 = d := by simpa using congrArg List.head? h
          exact absurd hd (by simpa using fun hd => hcs (by simp [hd]))
    · rw [read, dif_neg hc, Option.map_eq_some_iff]
      constructor
      · rintro ⟨t, ht, rfl⟩
        obtain ⟨rest, rfl⟩ := ih.mp ht
        exact ⟨rest, rfl⟩
      · rintro ⟨rest, h⟩
        obtain ⟨cs, hcs⟩ := s
        cases cs with
        | nil =>
          have hd : c = 0#8 := by simpa using congrArg List.head? h
          exact absurd hd hc
        | cons d ds =>
          have hds : 0#8 ∉ ds := fun hm => hcs (List.mem_cons_of_mem _ hm)
          obtain ⟨rfl, hl⟩ := List.cons.inj h
          exact ⟨⟨ds, hds⟩, ih.mpr ⟨rest, hl⟩, rfl⟩

@[simp] theorem read_append (s : CString) (rest : List (BitVec 8)) :
    read (s.chars ++ 0#8 :: rest) = some s := read_eq_some_iff.mpr ⟨rest, rfl⟩

theorem read_isSome_iff {l : List (BitVec 8)} : (read l).isSome = true ↔ 0#8 ∈ l := by
  induction l with
  | nil => simp [read]
  | cons c l ih =>
    rw [read]
    by_cases hc : c = 0#8
    · simp [hc]
    · rw [dif_neg hc, Option.isSome_map, ih, List.mem_cons]
      exact ⟨Or.inr, fun h => h.resolve_left fun h0 => hc h0.symm⟩

/-- What lies behind the NUL does not count. -/
theorem read_append_of_some {l : List (BitVec 8)} {s : CString} (h : read l = some s) (l' : List (BitVec 8)) :
    read (l ++ l') = some s := by
  obtain ⟨rest, rfl⟩ := read_eq_some_iff.mp h
  rw [List.append_assoc, List.cons_append, read_append]

end CString

/-! ## Arrays of bytes -/

/-- An array of `n` bytes. -/
@[ext]
structure Buf (n : Nat) where
  bytes : List (BitVec 8)
  length_eq : bytes.length = n
deriving DecidableEq

namespace Buf

variable {n : Nat}

/-- All bytes zero. -/
def zero (n : Nat) : Buf n := ⟨List.replicate n 0#8, by simp⟩

/-- The array that holds a text, with NULs behind it. -/
def ofText (n : Nat) (s : CString) : Buf n :=
  ⟨(s.chars ++ List.replicate n 0#8).take n, by simp⟩

def write (b : Buf n) (i : Nat) (c : BitVec 8) : Option (Buf n) :=
  if i < n then some ⟨b.bytes.set i c, by simp [b.length_eq]⟩ else none

/-- Write bytes one after the other, from index `i` on. -/
def put (b : Buf n) (i : Nat) : List (BitVec 8) → Option (Buf n)
  | [] => some b
  | c :: l => (b.write i c).bind fun b' => b'.put (i + 1) l

/-- The string the array holds. -/
def text (b : Buf n) : Option CString := CString.read b.bytes

theorem write_some_iff {b b' : Buf n} {i : Nat} {c : BitVec 8} :
    b.write i c = some b' ↔ i < n ∧ b'.bytes = b.bytes.set i c := by
  unfold write
  by_cases h : i < n
  · simp [h, Buf.ext_iff, eq_comm]
  · simp [h]

/-- The bytes go through exactly where they fit, and replace those that were there. -/
theorem put_some_iff {b b' : Buf n} {i : Nat} {l : List (BitVec 8)} (hi : i ≤ n) :
    b.put i l = some b' ↔
      i + l.length ≤ n ∧ b'.bytes = b.bytes.take i ++ l ++ b.bytes.drop (i + l.length) := by
  induction l generalizing b i with
  | nil => simp [put, Buf.ext_iff, eq_comm, hi]
  | cons c l ih =>
    rw [put, write]
    by_cases h : i < n
    · rw [if_pos h, Option.bind_some, ih h]
      have hlen : i < b.bytes.length := by rw [b.length_eq]; exact h
      have hfront : (b.bytes.set i c).take (i + 1) = b.bytes.take i ++ [c] := by
        rw [List.take_add_one, List.take_set_of_le (Nat.le_refl i)]
        simp [hlen]
      have hback : (b.bytes.set i c).drop (i + 1 + l.length) =
          b.bytes.drop (i + (c :: l).length) := by
        rw [List.drop_set_of_lt (by omega), List.length_cons]
        congr 1
        omega
      rw [hfront, hback]
      simp only [List.length_cons, List.append_assoc, List.singleton_append]
      exact and_congr_left' ⟨fun _ => by omega, fun _ => by omega⟩
    · rw [if_neg h, Option.bind_none]
      simp only [List.length_cons, reduceCtorEq, false_iff, not_and]
      intro hle
      omega

theorem put_isSome_iff {b : Buf n} {i : Nat} {l : List (BitVec 8)} (hi : i ≤ n) :
    (b.put i l).isSome = true ↔ i + l.length ≤ n := by
  constructor
  · intro h
    obtain ⟨b', hb⟩ := Option.isSome_iff_exists.mp h
    exact ((put_some_iff hi).mp hb).1
  · intro h
    have hlen : (b.bytes.take i ++ l ++ b.bytes.drop (i + l.length)).length = n := by
      simp [b.length_eq]
      omega
    rw [(@put_some_iff n b ⟨_, hlen⟩ i l hi).mpr ⟨h, rfl⟩]
    rfl

theorem text_eq_some_iff {b : Buf n} {s : CString} :
    b.text = some s ↔ ∃ rest, b.bytes = s.chars ++ 0#8 :: rest := CString.read_eq_some_iff

/-- The text and its NUL fit in the array. -/
theorem length_lt_of_text {b : Buf n} {s : CString} (h : b.text = some s) : s.length < n := by
  obtain ⟨rest, hr⟩ := text_eq_some_iff.mp h
  have hl := congrArg List.length hr
  rw [b.length_eq, List.length_append, List.length_cons] at hl
  unfold CString.length
  omega

/-- Writing a string, with its NUL, over the NUL of another joins them. -/
theorem text_put {b b' : Buf n} {s t : CString} (hs : b.text = some s)
    (h : b.put s.length (t.chars ++ [0#8]) = some b') : b'.text = some (s ++ t) := by
  obtain ⟨rest, hr⟩ := text_eq_some_iff.mp hs
  obtain ⟨-, hbytes⟩ := (put_some_iff (Nat.le_of_lt (length_lt_of_text hs))).mp h
  rw [hr, CString.length, List.take_left] at hbytes
  refine text_eq_some_iff.mpr
    ⟨(s.chars ++ 0#8 :: rest).drop (s.chars.length + (t.chars ++ [0#8]).length), ?_⟩
  rw [hbytes]
  simp

/-- Writing a string, with its NUL, at the front. -/
theorem text_put_zero {b b' : Buf n} {t : CString} (h : b.put 0 (t.chars ++ [0#8]) = some b') :
    b'.text = some t := by
  obtain ⟨-, hbytes⟩ := (put_some_iff (Nat.zero_le n)).mp h
  refine text_eq_some_iff.mpr ⟨b.bytes.drop (0 + (t.chars ++ [0#8]).length), ?_⟩
  rw [hbytes]
  simp

/-- A NUL written at the end of the text, or behind it, does not show. -/
theorem text_write_zero {b b' : Buf n} {s : CString} {i : Nat} (hs : b.text = some s)
    (hi : s.length ≤ i) (h : b.write i 0#8 = some b') : b'.text = some s := by
  obtain ⟨rest, hr⟩ := text_eq_some_iff.mp hs
  obtain ⟨-, hbytes⟩ := write_some_iff.mp h
  unfold CString.length at hi
  rw [hr, List.set_append_right _ _ hi] at hbytes
  cases hk : i - s.chars.length with
  | zero => exact text_eq_some_iff.mpr ⟨rest, by rw [hbytes, hk, List.set_cons_zero]⟩
  | succ k => exact text_eq_some_iff.mpr ⟨rest.set k 0#8, by rw [hbytes, hk, List.set_cons_succ]⟩

theorem bytes_ofText (n : Nat) (s : CString) :
    (ofText n s).bytes = (s.chars ++ List.replicate n 0#8).take n := rfl

theorem text_ofText {s : CString} (h : s.length < n) : (ofText n s).text = some s := by
  obtain ⟨m, hm⟩ := Nat.exists_eq_succ_of_ne_zero (Nat.sub_ne_zero_of_lt h)
  refine text_eq_some_iff.mpr ⟨List.replicate m 0#8, ?_⟩
  unfold CString.length at *
  rw [bytes_ofText, List.take_append, List.take_of_length_le (Nat.le_of_lt h), List.take_replicate,
    Nat.min_eq_left (Nat.sub_le _ _), hm, List.replicate_succ]

theorem text_zero (h : 0 < n) : (zero n).text = some CString.empty := by
  obtain ⟨m, rfl⟩ := Nat.exists_eq_succ_of_ne_zero (Nat.ne_of_gt h)
  exact text_eq_some_iff.mpr ⟨List.replicate m 0#8, by simp [zero, List.replicate_succ]⟩

end Buf
