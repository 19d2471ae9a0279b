import Mathlib.Data.List.Forall2
import Mathlib.Tactic.IntervalCases
import PpoOS.Fs.Verify.Tables

/-!
# What `initramfs_init` reads from an archive

`NewcArchive` is the newc format: headers of hex fields, names and contents padded
to four bytes, and a trailer.  **`initramfs_roundtrip`**: the parser gives back the
entries that were encoded, the first sixteen of them.
-/

namespace PpoOS

open ByteMem FaultState FsM

/-! ## Bytes in memory -/

/-- The memory outside of the pool holds the bytes from `k` places behind `p` on. -/
def Memory.Holds (m : Memory) (p : U64) (k : Nat) (l : List U8) : Prop :=
  ∀ i, i < l.length → some (m.other (p + BitVec.ofNat 64 (k + i))) = l[i]?

section Holds

variable {m : Memory} {p : U64} {k : Nat} {l l' : List U8}

theorem Memory.holds_append :
    m.Holds p k (l ++ l') ↔ m.Holds p k l ∧ m.Holds p (k + l.length) l' := by
  constructor
  · intro h
    constructor
    · intro i hi
      rw [h i (by rw [List.length_append]; omega), List.getElem?_append_left hi]
    · intro i hi
      have hi' := h (l.length + i) (by rw [List.length_append]; omega)
      rw [List.getElem?_append_right (Nat.le_add_right _ _), Nat.add_sub_cancel_left,
        ← Nat.add_assoc] at hi'
      exact hi'
  · rintro ⟨h, h'⟩ i hi
    by_cases hlt : i < l.length
    · rw [List.getElem?_append_left hlt, h i hlt]
    · rw [List.length_append] at hi
      have hi' := h' (i - l.length) (by omega)
      have hk : k + l.length + (i - l.length) = k + i := by omega
      rw [List.getElem?_append_right (Nat.le_of_not_lt hlt), ← hi', hk]

theorem Memory.Holds.bytes (h : m.Holds p k l) : m.bytes (.addr (p + BitVec.ofNat 64 k)) l.length = l := by
  apply List.ext_getElem?
  intro i
  by_cases hi : i < l.length
  · rw [Memory.bytes, List.getElem?_map, List.getElem?_range hi, Option.map_some, ← h i hi]
    change some (m.other (p + BitVec.ofNat 64 k + BitVec.ofNat 64 i)) = _
    rw [BitVec.add_assoc, ← BitVec.ofNat_add]
  · rw [List.getElem?_eq_none (Nat.le_of_not_lt hi), List.getElem?_eq_none]
    rw [Memory.bytes, List.length_map, List.length_range]
    exact Nat.le_of_not_lt hi

theorem Memory.holds_of_bytes (h : m.bytes (.addr p) l.length = l) : m.Holds p 0 l := by
  intro i hi
  have hi' := congrArg (fun l => l[i]?) h
  rw [← hi', Memory.bytes, List.getElem?_map, List.getElem?_range hi, Nat.zero_add]
  rfl

/-- The same bytes, counted from another address. -/
theorem Memory.Holds.shift (h : m.Holds p k l) : m.Holds (p + BitVec.ofNat 64 k) 0 l := by
  intro i hi
  rw [← h i hi, Nat.zero_add, BitVec.add_assoc, ← BitVec.ofNat_add]

end Holds

/-! ## The format -/

/-- The character is the hex digit of `d`, in either case. -/
def HexDigit (c : U8) (d : Nat) : Prop :=
  (d < 10 ∧ c = BitVec.ofNat 8 (0x30 + d)) ∨
    (10 ≤ d ∧ d < 16 ∧ (c = BitVec.ofNat 8 (0x61 + (d - 10)) ∨ c = BitVec.ofNat 8 (0x41 + (d - 10))))

/-- The characters are hex digits of `n`. -/
inductive HexDigits : List U8 → Nat → Prop
  | nil : HexDigits [] 0
  | snoc {l : List U8} {n d : Nat} {c : U8} (front : HexDigits l n) (last : HexDigit c d) :
      HexDigits (l ++ [c]) (16 * n + d)

/-- The bytes that fill `n` up to a multiple of four. -/
def padding (n : Nat) : Nat := (4 - n % 4) % 4

/-- An entry: the header, of which only the sizes of the data and of the name matter, then the name
with its NUL and the data. -/
inductive NewcEntry (name : CString) (data : List U8) : List U8 → Prop
  | mk {before fileSize between nameSize after pad pad' : List U8} (hbefore : before.length = 48)
      (hfileSize : fileSize.length = 8) (hfile : HexDigits fileSize data.length)
      (hbetween : between.length = 32) (hnameSize : nameSize.length = 8)
      (hname : HexDigits nameSize (name.length + 1)) (hafter : after.length = 8)
      (hpad : pad.length = padding (110 + (name.length + 1))) (hpad' : pad'.length = padding data.length) :
      NewcEntry name data (cpioNewcMagic ++ (before ++ (fileSize ++ (between ++ (nameSize ++ (after ++
        ((name.chars ++ [0#8]) ++ (pad ++ (data ++ pad')))))))))

/-- An archive of the entries, with the trailer behind them. -/
inductive NewcArchive : List (CString × List U8) → List U8 → Prop
  | trailer {bytes : List U8} (h : NewcEntry trailerName [] bytes) : NewcArchive [] bytes
  | entry {name : CString} {data bytes rest : List U8} {entries : List (CString × List U8)}
      (first : NewcEntry name data bytes) (others : NewcArchive entries rest) :
      NewcArchive ((name, data) :: entries) (bytes ++ rest)

/-! ## Hex fields -/

/-- The value of a digit, in the low four bits. -/
theorem hexStep_digit {c : U8} {d : Nat} (h : HexDigit c d) (v : U32) :
    hexStep v c = v <<< 4 ||| BitVec.ofNat 32 d := by
  rcases h with ⟨hd, rfl⟩ | ⟨hlo, hhi, rfl | rfl⟩
  · interval_cases d <;> rfl
  · interval_cases d <;> rfl
  · interval_cases d <;> rfl

/-- A shift makes room for a digit. -/
theorem shift_or_digit (n : Nat) {d : Nat} (hd : d < 16) :
    BitVec.ofNat 32 n <<< 4 ||| BitVec.ofNat 32 d = BitVec.ofNat 32 (16 * n + d) := by
  have hshift : BitVec.ofNat 32 n <<< 4 = BitVec.ofNat 32 (2 ^ 4 * n) := by
    apply BitVec.eq_of_toNat_eq
    rw [BitVec.toNat_shiftLeft, BitVec.toNat_ofNat, BitVec.toNat_ofNat, Nat.shiftLeft_eq]
    omega
  apply BitVec.eq_of_getLsbD_eq
  intro i hi
  rw [hshift, BitVec.getLsbD_or, BitVec.getLsbD_ofNat, BitVec.getLsbD_ofNat, BitVec.getLsbD_ofNat,
    show 16 * n + d = 2 ^ 4 * n + d from rfl, Nat.two_pow_add_eq_or_of_lt hd, Nat.testBit_or]
  simp [hi]

theorem hexDigit_lt {c : U8} {d : Nat} (h : HexDigit c d) : d < 16 := by
  rcases h with ⟨hd, -⟩ | ⟨-, hd, -⟩ <;> omega

/-- A hex field gives back its number, where that has 32 bits. -/
theorem hex2u32_eq {l : List U8} {n : Nat} (h : HexDigits l n) : hex2u32 l = BitVec.ofNat 32 n := by
  induction h with
  | nil => rfl
  | snoc front last ih =>
    rw [hex2u32, List.foldl_append, List.foldl_cons, List.foldl_nil]
    change hexStep (hex2u32 _) _ = _
    rw [ih, hexStep_digit last, shift_or_digit _ (hexDigit_lt last)]

/-- Eight digits do not give more than 32 bits. -/
theorem hexDigits_lt {l : List U8} {n : Nat} (h : HexDigits l n) : n < 16 ^ l.length := by
  induction h with
  | nil => exact Nat.one_pos
  | snoc front last ih =>
    have hd := hexDigit_lt last
    rw [List.length_append, List.length_singleton, Nat.pow_succ]
    omega

theorem hexField_toNat {l : List U8} {n : Nat} (h : HexDigits l n) (hl : l.length = 8) :
    ((hex2u32 l).setWidth 64).toNat = n := by
  have hlt := hexDigits_lt h
  rw [hl] at hlt
  rw [hex2u32_eq h, BitVec.toNat_setWidth_of_le (by decide), BitVec.toNat_ofNat]
  exact Nat.mod_eq_of_lt (Nat.lt_of_lt_of_le hlt (by decide))

/-! ## Alignment -/

theorem align4_toNat {a : U64} (h : a.toNat + 3 < 2 ^ 64) : (align4 a).toNat = a.toNat + padding a.toNat := by
  have hsum : (a + 3#64).toNat = a.toNat + 3 := by
    rw [BitVec.toNat_add]
    exact Nat.mod_eq_of_lt h
  have hmask : align4 a = (a + 3#64) >>> 2 <<< 2 := by
    apply BitVec.eq_of_getLsbD_eq
    intro i hi
    rw [align4, BitVec.getLsbD_and, BitVec.getLsbD_shiftLeft, BitVec.getLsbD_ushiftRight]
    by_cases h2 : i < 2
    · interval_cases i <;> simp
    · have hone : (~~~3#64).getLsbD i = true := by
        rw [BitVec.getLsbD_not, BitVec.getLsbD_ofNat, show 3 = 2 ^ 2 - 1 from rfl,
          Nat.testBit_two_pow_sub_one]
        simp [hi, h2]
      rw [hone, Nat.add_sub_cancel' (Nat.le_of_not_lt h2)]
      simp [hi, h2]
  rw [hmask, BitVec.toNat_shiftLeft, BitVec.toNat_ushiftRight, hsum, Nat.shiftLeft_eq,
    Nat.shiftRight_eq_div_pow]
  unfold padding
  omega

/-! ## Names -/

section Names

variable {m : Memory} {p : U64} {k : Nat} {name name' : CString}

theorem Memory.Holds.isPrefix {l l' : List U8} (h : m.Holds p k l) (h' : m.Holds p k l')
    (hle : l.length ≤ l'.length) : l <+: l' := by
  rw [List.prefix_iff_getElem?]
  intro i hi
  rw [← h' i (by omega), h i hi, List.getElem?_eq_getElem hi]

/-- Only one string is at an address. -/
theorem Memory.Holds.name_unique (h : m.Holds p k (name.chars ++ [0#8]))
    (h' : m.Holds p k (name'.chars ++ [0#8])) : name = name' := by
  have hread : ∀ {s t : CString}, s.chars ++ [0#8] <+: t.chars ++ [0#8] → s = t := by
    rintro s t ⟨rest, hrest⟩
    have hs : CString.read (t.chars ++ [0#8]) = some s := by
      rw [← hrest, List.append_assoc]
      exact CString.read_append s rest
    exact Option.some.inj (hs.symm.trans (CString.read_append t []))
  rcases Nat.le_total (name.chars ++ [0#8]).length (name'.chars ++ [0#8]).length with hle | hle
  · exact hread (h.isPrefix h' hle)
  · exact (hread (h'.isPrefix h hle)).symm

theorem strEq_iff (h : m.Holds p k (name.chars ++ [0#8])) :
    strEq m (p + BitVec.ofNat 64 k) name' = true ↔ name = name' := by
  rw [strEq, memEq, decide_eq_true_iff]
  constructor
  · intro hb
    have h' := Memory.holds_of_bytes hb
    exact h.shift.name_unique h'
  · rintro rfl
    exact h.bytes

theorem cstrAt_eq {cs : List U8} (h0 : 0#8 ∉ cs) {fuel : Nat} (hfuel : cs.length < fuel)
    (h : m.Holds p k (cs ++ [0#8])) : cstrAt m (p + BitVec.ofNat 64 k) fuel = some ⟨cs, h0⟩ := by
  induction cs generalizing k fuel with
  | nil =>
    obtain ⟨fuel, rfl⟩ := Nat.exists_eq_succ_of_ne_zero (Nat.ne_of_gt hfuel)
    have hzero : m.other (p + BitVec.ofNat 64 k) = 0#8 := Option.some.inj (h 0 Nat.one_pos)
    rw [cstrAt, dif_pos hzero]
    rfl
  | cons c cs ih =>
    obtain ⟨fuel, rfl⟩ := Nat.exists_eq_succ_of_ne_zero (Nat.ne_of_gt (Nat.zero_lt_of_lt hfuel))
    obtain ⟨hc, hrest⟩ := Memory.holds_append.mp (show m.Holds p k ([c] ++ (cs ++ [0#8])) from h)
    have hchar : m.other (p + BitVec.ofNat 64 k) = c := Option.some.inj (hc 0 Nat.one_pos)
    have hne : c ≠ 0#8 := fun hz => h0 (by simp [hz])
    have htail := ih (fun hm => h0 (List.mem_cons_of_mem _ hm)) (Nat.lt_of_succ_lt_succ hfuel) hrest
    have hnext : p + BitVec.ofNat 64 k + 1#64 = p + BitVec.ofNat 64 (k + [c].length) := by
      rw [BitVec.add_assoc, List.length_singleton, BitVec.ofNat_add]
    subst hchar
    rw [cstrAt, dif_neg hne, hnext, htail]
    rfl

end Names

/-! ## The parser -/

/-- What `initramfs_list` gives for the entry. -/
structure RamFile.ReadsAs (m : Memory) (r : RamFile) (name : CString) (data : List U8) : Prop where
  name : cstrAt m r.name (2 ^ 64) = some name
  size : r.size.toNat = data.length
  size_lt : data.length < 2 ^ 32
  data : m.Holds r.data 0 data

section Scan

variable {m : Memory} {stop p : U64} {room : Nat} {name : CString} {data bytes : List U8}

theorem newcEntry_length (h : NewcEntry name data bytes) : bytes.length =
    110 + (name.length + 1) + padding (110 + (name.length + 1)) + data.length + padding data.length := by
  cases h with
  | mk hbefore hfileSize _ hbetween hnameSize _ hafter hpad hpad' =>
    simp only [List.length_append, hbefore, hfileSize, hbetween, hnameSize, hafter, hpad, hpad',
      CString.length, cpioNewcMagic, List.length_cons, List.length_nil]
    omega

/-- The fields of an entry, as the parser reads them. -/
structure EntryFields (m : Memory) (p : U64) (name : CString) (data : List U8) : Prop where
  magic : memEq m p cpioNewcMagic = true
  fileSize : ((hex2u32 (m.bytes (.addr (p + 54#64)) 8)).setWidth 64).toNat = data.length
  nameSize : ((hex2u32 (m.bytes (.addr (p + 94#64)) 8)).setWidth 64).toNat = name.length + 1
  text : m.Holds p 110 (name.chars ++ [0#8])
  contents : m.Holds p (110 + (name.length + 1) + padding (110 + (name.length + 1))) data
  data_lt : data.length < 2 ^ 32
  name_lt : name.length + 1 < 2 ^ 32

theorem newcEntry_fields (h : NewcEntry name data bytes) (hm : m.Holds p 0 bytes) :
    EntryFields m p name data := by
  cases h with
  | mk hbefore hfileSize hfile hbetween hnameSize hname hafter hpad _ =>
    obtain ⟨hmagic, hm⟩ := Memory.holds_append.mp hm
    obtain ⟨-, hm⟩ := Memory.holds_append.mp hm
    obtain ⟨hf, hm⟩ := Memory.holds_append.mp hm
    obtain ⟨-, hm⟩ := Memory.holds_append.mp hm
    obtain ⟨hn, hm⟩ := Memory.holds_append.mp hm
    obtain ⟨-, hm⟩ := Memory.holds_append.mp hm
    obtain ⟨ht, hm⟩ := Memory.holds_append.mp hm
    obtain ⟨-, hm⟩ := Memory.holds_append.mp hm
    obtain ⟨hd, -⟩ := Memory.holds_append.mp hm
    have hmagicLen : cpioNewcMagic.length = 6 := rfl
    have htext : (name.chars ++ [0#8]).length = name.length + 1 := by simp [CString.length]
    simp only [hbefore, hfileSize, hbetween, hnameSize, hafter, hmagicLen, htext, hpad] at hf hn ht hd
    have hfs := hf.bytes
    have hns := hn.bytes
    rw [hfileSize] at hfs
    rw [hnameSize] at hns
    have hdlt := hexDigits_lt hfile
    have hnlt := hexDigits_lt hname
    rw [hfileSize, show 16 ^ 8 = 2 ^ 32 from rfl] at hdlt
    rw [hnameSize, show 16 ^ 8 = 2 ^ 32 from rfl] at hnlt
    refine ⟨?_, ?_, ?_, ht, hd, hdlt, hnlt⟩
    · have hmb := hmagic.bytes
      rw [BitVec.add_zero] at hmb
      exact decide_eq_true hmb
    · rw [show m.bytes (.addr (p + 54#64)) 8 = _ from hfs]
      exact hexField_toNat hfile hfileSize
    · rw [show m.bytes (.addr (p + 94#64)) 8 = _ from hns]
      exact hexField_toNat hname hnameSize

/-- The trailer ends the scan. -/
theorem initramfsScan_trailer (h : NewcEntry trailerName data bytes) (hm : m.Holds p 0 bytes) :
    initramfsScan m stop room p = [] := by
  have hfields := newcEntry_fields h hm
  cases room with
  | zero => rfl
  | succ room =>
    have hgt : hex2u32 (m.bytes (.addr (p + 94#64)) 8) > 0#32 := by
      have hpos := hfields.nameSize
      rw [BitVec.toNat_setWidth_of_le (by decide)] at hpos
      rw [gt_iff_lt, BitVec.lt_def, hpos]
      exact Nat.succ_pos _
    rw [initramfsScan]
    split
    · rw [if_pos hfields.magic]
      exact if_pos ⟨hgt, (strEq_iff hfields.text).mpr rfl⟩
    · rfl

/-- An entry is stored, and the scan goes on behind it. -/
theorem initramfsScan_entry (h : NewcEntry name data bytes) (hp : p.toNat % 4 = 0)
    (hm : m.Holds p 0 bytes) (hend : p.toNat + bytes.length ≤ stop.toNat) (hne : name ≠ trailerName)
    (room : Nat) : ∃ r : RamFile, r.ReadsAs m name data ∧ initramfsScan m stop (room + 1) p =
      r :: initramfsScan m stop room (p + BitVec.ofNat 64 bytes.length) := by
  have hlen := newcEntry_length h
  have hfields := newcEntry_fields h hm
  have hstop := stop.isLt
  have hsize := hfields.fileSize
  have hnsize := hfields.nameSize
  have hdlt := hfields.data_lt
  have hnlt := hfields.name_lt
  have hseq : strEq m (p + BitVec.ofNat 64 110) trailerName = true ↔ name = trailerName :=
    strEq_iff hfields.text
  unfold padding at hlen
  have hadd : ∀ n, p.toNat + n ≤ stop.toNat → (p + BitVec.ofNat 64 n).toNat = p.toNat + n :=
    fun n hn => toNat_add_ofNat (by omega)
  have h110 : (p + 110#64).toNat = p.toNat + 110 := hadd 110 (by omega)
  have hguard : p + 110#64 < stop := by
    rw [BitVec.lt_def, h110]
    omega
  rw [initramfsScan]
  dsimp only
  rw [if_pos hguard, if_pos hfields.magic, if_neg (fun h => hne (hseq.mp h.2))]
  generalize (hex2u32 (m.bytes (.addr (p + 54#64)) 8)).setWidth 64 = fileSize at hsize ⊢
  generalize (hex2u32 (m.bytes (.addr (p + 94#64)) 8)).setWidth 64 = nameSize at hnsize ⊢
  -- the data starts behind the name and its padding
  have hstart : (p + 110#64 + nameSize).toNat = p.toNat + 110 + (name.length + 1) := by
    rw [toNat_add_of_lt (by omega), h110, hnsize]
  have hdata : align4 (p + 110#64 + nameSize) =
      p + BitVec.ofNat 64 (110 + (name.length + 1) + padding (110 + (name.length + 1))) := by
    apply BitVec.eq_of_toNat_eq
    rw [align4_toNat (by omega), hstart, hadd _ (by unfold padding; omega)]
    unfold padding
    omega
  have hnext : align4 (align4 (p + 110#64 + nameSize) + fileSize) = p + BitVec.ofNat 64 bytes.length := by
    have hfd := hadd (110 + (name.length + 1) + padding (110 + (name.length + 1)))
      (by unfold padding; omega)
    have hsum : (align4 (p + 110#64 + nameSize) + fileSize).toNat =
        p.toNat + (110 + (name.length + 1) + padding (110 + (name.length + 1))) + data.length := by
      rw [hdata, toNat_add_of_lt (by rw [hfd]; unfold padding; omega), hfd, hsize]
    apply BitVec.eq_of_toNat_eq
    unfold padding at hsum
    rw [align4_toNat (by omega), hsum, hadd _ hend]
    unfold padding
    omega
  rw [hnext, if_neg (by rw [gt_iff_lt, BitVec.lt_def, hadd _ hend]; omega), hdata]
  refine ⟨_, ⟨?_, hsize, hdlt, ?_⟩, rfl⟩
  · have hlt : name.chars.length < 2 ^ 64 := by
      unfold CString.length at hnlt
      omega
    exact cstrAt_eq name.nonzero hlt hfields.text
  · exact hfields.contents.shift

/-! ## The archive -/

/-- The scan stores the first `room` entries of an archive. -/
theorem initramfsScan_archive {entries : List (CString × List U8)} (h : NewcArchive entries bytes)
    (hne : ∀ e ∈ entries, e.1 ≠ trailerName) (hp : p.toNat % 4 = 0) (hm : m.Holds p 0 bytes)
    (hend : p.toNat + bytes.length ≤ stop.toNat) (room : Nat) :
    List.Forall₂ (fun r e => RamFile.ReadsAs m r e.1 e.2) (initramfsScan m stop room p)
      (entries.take room) := by
  induction h generalizing p room with
  | trailer h =>
    rw [initramfsScan_trailer h hm, List.take_nil]
    exact .nil
  | @entry name data b rest entries first others ih =>
    cases room with
    | zero => exact .nil
    | succ room =>
      rw [List.length_append] at hend
      obtain ⟨hm, hrest⟩ := Memory.holds_append.mp hm
      rw [Nat.zero_add] at hrest
      have hb : p.toNat + b.length ≤ stop.toNat := by omega
      obtain ⟨r, hr, hscan⟩ := initramfsScan_entry first hp hm hb (hne _ List.mem_cons_self) room
      have hlen := newcEntry_length first
      have hstop := stop.isLt
      have hnext : (p + BitVec.ofNat 64 b.length).toNat = p.toNat + b.length :=
        toNat_add_ofNat (by omega)
      rw [hscan, List.take_succ_cons]
      refine .cons hr (ih (fun e he => hne e (List.mem_cons_of_mem _ he)) ?_ hrest.shift ?_ room)
      · unfold padding at hlen
        omega
      · omega

end Scan

/-- **Parsing undoes the encoding**: `initramfs_list` gives the first sixteen entries, in order and
each with its name, size and bytes, and then NULL. -/
theorem initramfs_roundtrip (s : FsState) (base : U64) (entries : List (CString × List U8))
    (archive rest : List U8) (encoded : NewcArchive entries archive)
    (names : ∀ e ∈ entries, e.1 ≠ trailerName) (aligned : base.toNat % 4 = 0)
    (fits : base.toNat + (archive ++ rest).length < 2 ^ 64)
    (loaded : s.mem.bytes (.addr base) (archive ++ rest).length = archive ++ rest) :
    ∃ t, (initramfsInit base (BitVec.ofNat 64 (archive ++ rest).length)).run s = some ((), t) ∧
      ∀ i, match (entries.take 16)[i]? with
        | some (name, data) => ∃ r : RamFile, (initramfsList i).run t = some (some r, t) ∧
            cstrAt t.mem r.name (2 ^ 64) = some name ∧ r.size.toNat = data.length ∧
            t.mem.bytes (.addr r.data) data.length = data
        | none => (initramfsList i).run t = some (none, t) := by
  refine ⟨_, rfl, fun i => ?_⟩
  have hm := (Memory.holds_append.mp (Memory.holds_of_bytes loaded)).1
  have hstop := toNat_add_ofNat fits
  have hscan : List.Forall₂ (fun r e => RamFile.ReadsAs s.mem r e.1 e.2)
      (initramfsScan s.mem (base + BitVec.ofNat 64 (archive ++ rest).length) 16 base)
      (entries.take 16) := by
    refine initramfsScan_archive encoded names aligned hm ?_ 16
    rw [hstop, List.length_append]
    omega
  have hlist : ∀ t : FsState, (initramfsList i).run t = some (t.ramfs[i]?, t) := fun _ => rfl
  cases hi : (entries.take 16)[i]? with
  | none =>
    rw [hlist, List.getElem?_eq_none]
    rw [hscan.length_eq]
    exact List.getElem?_eq_none_iff.mp hi
  | some e =>
    obtain ⟨hlt, he⟩ := List.getElem?_eq_some_iff.mp hi
    have hlt' := hlt
    rw [← hscan.length_eq] at hlt'
    have hr := hscan.get hlt' hlt
    rw [List.get_eq_getElem, List.get_eq_getElem, he] at hr
    have hbytes := hr.data.bytes
    rw [BitVec.add_zero] at hbytes
    exact ⟨_, by rw [hlist, List.getElem?_eq_getElem hlt'], hr.name, hr.size, hbytes⟩

/-! ## An encoder -/

/-- The hex digits of a number, `k` of them. -/
def hexChars : Nat → Nat → List U8
  | 0, _ => []
  | k + 1, n =>
    let d := n % 16
    hexChars k (n / 16) ++ [if d < 10 then BitVec.ofNat 8 (0x30 + d) else BitVec.ofNat 8 (0x61 + (d - 10))]

theorem hexChars_digits {k n : Nat} (h : n < 16 ^ k) : HexDigits (hexChars k n) n := by
  induction k generalizing n with
  | zero =>
    obtain rfl : n = 0 := Nat.lt_one_iff.mp h
    exact .nil
  | succ k ih =>
    rw [Nat.pow_succ] at h
    have hdiv : n / 16 < 16 ^ k := by omega
    have hsplit : 16 * (n / 16) + n % 16 = n := Nat.div_add_mod n 16
    have hmod : n % 16 < 16 := Nat.mod_lt _ (by decide)
    suffices hlast : HexDigit (if n % 16 < 10 then BitVec.ofNat 8 (0x30 + n % 16)
        else BitVec.ofNat 8 (0x61 + (n % 16 - 10))) (n % 16) by
      have hdigits := HexDigits.snoc (ih hdiv) hlast
      rw [hsplit] at hdigits
      exact hdigits
    by_cases hd : n % 16 < 10
    · rw [if_pos hd]
      exact Or.inl ⟨hd, rfl⟩
    · rw [if_neg hd]
      exact Or.inr ⟨Nat.le_of_not_lt hd, hmod, Or.inl rfl⟩

theorem hexChars_length (k n : Nat) : (hexChars k n).length = k := by
  induction k generalizing n with
  | zero => rfl
  | succ k ih =>
    rw [hexChars]
    simp [ih]

/-- An entry with zeros in the fields that do not matter. -/
def newcBytes (name : CString) (data : List U8) : List U8 :=
  cpioNewcMagic ++ (List.replicate 48 0x30#8 ++ (hexChars 8 data.length ++ (List.replicate 32 0x30#8 ++
    (hexChars 8 (name.length + 1) ++ (List.replicate 8 0x30#8 ++ ((name.chars ++ [0#8]) ++
      (List.replicate (padding (110 + (name.length + 1))) 0#8 ++
        (data ++ List.replicate (padding data.length) 0#8))))))))

theorem newcBytes_entry {name : CString} {data : List U8} (hname : name.length + 1 < 16 ^ 8)
    (hdata : data.length < 16 ^ 8) : NewcEntry name data (newcBytes name data) :=
  .mk List.length_replicate (hexChars_length 8 _) (hexChars_digits hdata) List.length_replicate
    (hexChars_length 8 _) (hexChars_digits hname) List.length_replicate List.length_replicate
    List.length_replicate

/-- The bytes of an archive. -/
def archiveBytes (entries : List (CString × List U8)) : List U8 :=
  (entries.flatMap fun e => newcBytes e.1 e.2) ++ newcBytes trailerName []

theorem archiveBytes_newc {entries : List (CString × List U8)}
    (h : ∀ e ∈ entries, e.1.length + 1 < 16 ^ 8 ∧ e.2.length < 16 ^ 8) :
    NewcArchive entries (archiveBytes entries) := by
  induction entries with
  | nil => exact .trailer (newcBytes_entry (by decide) (by decide))
  | cons e entries ih =>
    obtain ⟨hname, hdata⟩ := h e List.mem_cons_self
    have hrest := ih fun e' he' => h e' (List.mem_cons_of_mem _ he')
    rw [archiveBytes, List.flatMap_cons, List.append_assoc]
    exact .entry (newcBytes_entry hname hdata) hrest

/-- A memory with the bytes from `base` on, and zeros elsewhere. -/
def Memory.loaded (base : U64) (l : List U8) : Memory where
  pool := fun _ => 0#8
  other := fun a => (l[(a - base).toNat]?).getD 0#8
  poolBase := 0#64

theorem Memory.loaded_bytes {base : U64} {l : List U8} (h : l.length < 2 ^ 64) :
    (Memory.loaded base l).bytes (.addr base) l.length = l := by
  apply List.ext_getElem?
  intro i
  by_cases hi : i < l.length
  · have hd : (base + BitVec.ofNat 64 i - base).toNat = i := by
      rw [BitVec.add_comm, BitVec.add_sub_cancel, BitVec.toNat_ofNat]
      exact Nat.mod_eq_of_lt (by omega)
    rw [Memory.bytes, List.getElem?_map, List.getElem?_range hi, Option.map_some]
    change some ((l[(base + BitVec.ofNat 64 i - base).toNat]?).getD 0#8) = _
    rw [hd, List.getElem?_eq_getElem hi]
    rfl
  · rw [List.getElem?_eq_none (Nat.le_of_not_lt hi), List.getElem?_eq_none]
    rw [Memory.bytes, List.length_map, List.length_range]
    exact Nat.le_of_not_lt hi

/-- Files with names and data of several lengths. -/
def threeFiles : List (CString × List U8) :=
  [(CString.ofChars ['a'], [1#8]),
    (CString.ofChars ['b', 'i', 'n', '/', 'l', 's'], [2#8, 3#8, 4#8, 5#8, 6#8]),
    (CString.ofChars ['.', '/', 'm', 'o', 't', 'd'], [7#8, 8#8, 9#8, 10#8, 11#8, 12#8, 13#8, 14#8])]

theorem initramfs_roundtrip_threeFiles :
    ∃ t, (initramfsInit 4096#64 (BitVec.ofNat 64 (archiveBytes threeFiles ++ [0x55#8, 0x66#8]).length)).run
        { FsState.zero with mem := Memory.loaded 4096#64 (archiveBytes threeFiles ++ [0x55#8, 0x66#8]) } = some ((), t) ∧
      ∀ i, match (threeFiles.take 16)[i]? with
        | some (name, data) => ∃ r : RamFile, (initramfsList i).run t = some (some r, t) ∧
            cstrAt t.mem r.name (2 ^ 64) = some name ∧ r.size.toNat = data.length ∧
            t.mem.bytes (.addr r.data) data.length = data
        | none => (initramfsList i).run t = some (none, t) :=
  initramfs_roundtrip { FsState.zero with mem := Memory.loaded 4096#64 (archiveBytes threeFiles ++ [0x55#8, 0x66#8]) }
    4096#64 threeFiles (archiveBytes threeFiles) [0x55#8, 0x66#8] (archiveBytes_newc (by decide)) (by decide) (by decide)
    (by decide +kernel) (Memory.loaded_bytes (by decide +kernel))

end PpoOS
