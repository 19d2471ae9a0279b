import PpoOS.Exec.Verify.Itoa
import PpoOS.Lib.Checked

/-!
# Where `elf_print_info` stays inside the file

The texts always fit into the local arrays (`myItoa_text`, `appendFlags_text`).  The file is
another matter: `elf_is_valid` only knows the header that both classes share, so that the end of
the header of the class, and every entry of a table, may lie behind the end of the file.
**`elfPrintInfo_safe_iff`** says that nothing else can go wrong.
-/

namespace PpoOS

open Numeral

/-! ## The local arrays -/

/-- Every number is printed as some text that fits. -/
theorem myItoa_text (n : BitVec 32) {base : BitVec 32} (hlo : 2 ≤ base.toNat) (hhi : base.toNat ≤ 16) (b : Buf 64) :
    ∃ b' s, myItoa n b base = some b' ∧ b'.text = some s := by
  have hholds : ∃ text, HoldsText (myItoa n b base) text := by
    by_cases h0 : n = 0#32
    · exact ⟨_, h0 ▸ myItoa_zero b base⟩
    rcases Int.le_total 0 (itoaNum n base).toInt with hsign | hsign
    · exact ⟨_, myItoa_holds hlo (itoa_divides_nonneg base hlo hhi)
        (fun d hd => digitByte_ne_zero d (by omega)) h0 hsign⟩
    · exact ⟨_, myItoa_holds hlo (itoa_divides_nonpos base hlo hhi)
        (fun d hd => negDigit_ne_zero d (by omega)) h0 hsign⟩
  obtain ⟨text, s, hs, -⟩ := hholds
  obtain ⟨b', hb, ht⟩ := Option.bind_eq_some_iff.mp hs
  exact ⟨b', s, hb, ht⟩

variable {size : Nat}

theorem strAppend_text {dest : Buf size} {s : CString} (src : CString) (hs : dest.text = some s) (hfit : s.length + src.length < size) :
    ∃ b, strAppend dest src = some b ∧ b.text = some (s ++ src) := by
  have hput : (dest.put s.length (src.chars ++ [0#8])).isSome = true := by
    refine (Buf.put_isSome_iff (by omega)).mpr ?_
    rw [List.length_append, List.length_singleton]
    exact hfit
  obtain ⟨b, hb⟩ := Option.isSome_iff_exists.mp hput
  exact ⟨b, by rw [strAppend, hs, Option.bind_some, hb], Buf.text_put hs hb⟩

/-- Names that fit together fit where some are left out. -/
theorem appendFlags_text (flags : U64) {names : List (U64 × CString)} {buf : Buf size} {s : CString}
    (hs : buf.text = some s) (hfit : s.length + (names.map fun x => x.2.length).sum < size) :
    ∃ b t, appendFlags flags names buf = some b ∧ b.text = some t := by
  induction names generalizing buf s with
  | nil => exact ⟨buf, s, rfl, hs⟩
  | cons x names ih =>
    rw [List.map_cons, List.sum_cons] at hfit
    rw [appendFlags, List.foldlM_cons]
    by_cases hflag : flags &&& x.1 ≠ 0#64
    · obtain ⟨b, hb, ht⟩ := strAppend_text x.2 hs (by omega)
      rw [if_pos hflag, hb]
      exact ih ht (by rw [CString.length_append]; omega)
    · rw [if_neg hflag]
      exact ih hs (by omega)

/-- The flags of a table are printed as some text that fits. -/
def ElfTable.FlagsFit (t : ElfTable) : Prop := ∀ v, ∃ b s, t.flagsStr v = some b ∧ b.text = some s

theorem elfGetSectionFlagsStr_text (v : U64) : ∃ b s, elfGetSectionFlagsStr v = some b ∧ b.text = some s :=
  appendFlags_text v (Buf.text_zero (by decide)) (by decide)

theorem elfGetProgramFlagsStr_text (v : U32) : ∃ b s, elfGetProgramFlagsStr v = some b ∧ b.text = some s :=
  appendFlags_text _ (Buf.text_zero (by decide)) (by decide)

/-! ## Reads -/

namespace ElfData

variable {f : ElfData} {entry off : U64} {x : ElfField} {len : Nat}

/-- The fields of the header lie in front of its end. -/
theorem has_iff (hlen : 0 < len) (h : off.toNat + len < 2 ^ 64) : f.Has off len ↔ off.toNat + len ≤ f.size.toNat := by
  constructor
  · intro hall
    have hlast := hall (len - 1) (by omega)
    rw [ByteMem.toNat_add_ofNat (by omega)] at hlast
    omega
  · intro hle i hi
    rw [ByteMem.toNat_add_ofNat (by omega)]
    omega

def field (f : ElfData) (entry : U64) (x : ElfField) : U64 :=
  if x.wide then f.u64 (entry + x.offset) else (f.u32 (entry + x.offset)).setWidth 64

def HasField (f : ElfData) (entry : U64) (x : ElfField) : Prop := f.Has (entry + x.offset) (if x.wide then 8 else 4)

theorem read8_checks (off : U64) : Checks (f.read8 off) (f.Has off 1) (some (f.data off)) := Checks.guarded _
theorem read16_checks (off : U64) : Checks (f.read16 off) (f.Has off 2) (some (f.u16 off)) := Checks.guarded _
theorem read32_checks (off : U64) : Checks (f.read32 off) (f.Has off 4) (some (f.u32 off)) := Checks.guarded _

theorem readField_checks (entry : U64) (x : ElfField) :
    Checks (f.readField entry x) (f.HasField entry x) (some (f.field entry x)) := by
  obtain ⟨offset, wide⟩ := x
  cases wide with
  | true => exact Checks.guarded _
  | false =>
    exact ((read32_checks (entry + offset)).next (Checks.done ((f.u32 (entry + offset)).setWidth 64))).congr ⟨And.left, fun h => ⟨h, trivial⟩⟩

end ElfData

/-! ## Printing -/

theorem elfPrint_checks (str : CString) : ChecksState (elfPrint str) True () := ChecksState.update _

theorem printItoa_checks (n : BitVec 32) {base : BitVec 32} (hlo : 2 ≤ base.toNat) (hhi : base.toNat ≤ 16) :
    ChecksState (printItoa n base) True () := fun s => by
  obtain ⟨b, str, hb, hstr⟩ := myItoa_text n hlo hhi s.buffer
  refine ⟨⟨b, s.out ++ [str]⟩, ?_⟩
  have hrun : (printItoa n base).run s = some ((), ⟨b, s.out ++ [str]⟩) := by
    rw [StateT.run, printItoa, hb]
    simp only [Option.bind_eq_bind, Option.bind_some, hstr]
    rfl
  rw [hrun]
  exact Checks.done _

variable {f : ElfData} {t : ElfTable} {entry : U64}

theorem printAddr_checks (x : ElfField × CString) : ChecksState (printAddr f entry x) (f.HasField entry x.1) () :=
  (elfPrint_checks _).after <|
    ((ChecksState.lift (f.readField_checks entry x.1)).bind fun _ =>
      (printItoa_checks _ (by decide) (by decide)).after (elfPrint_checks _)).congr
    ⟨And.left, fun h => ⟨h, trivial⟩⟩

/-- The fields of an entry that are printed. -/
def ElfTable.EntryInside (t : ElfTable) (f : ElfData) (entry : U64) : Prop :=
  f.Has (entry + t.type) 4 ∧ f.HasField entry t.flags ∧ ∀ x ∈ t.addrs, f.HasField entry x.1

theorem printEntry_checks (ht : t.FlagsFit) : ChecksState (printEntry f t entry) (t.EntryInside f entry) () := by
  obtain ⟨b, str, hb, hstr⟩ := ht (f.field entry t.flags)
  have hflags : ChecksState (liftM (t.flagsStr (f.field entry t.flags)) : Printing (Buf 4)) True b :=
    ChecksState.lift (hb ▸ Checks.done b)
  have htext : ChecksState (liftM b.text : Printing CString) True str := ChecksState.lift (hstr ▸ Checks.done str)
  exact (elfPrint_checks _).after <| (ChecksState.lift (f.read32_checks _)).bind fun _ =>
    (elfPrint_checks _).after <| (elfPrint_checks _).after <|
      (ChecksState.lift (f.readField_checks entry t.flags)).bind fun _ =>
        hflags.after <| htext.after <| (elfPrint_checks str).after <| (elfPrint_checks _).after <|
          ChecksState.each fun x _ => printAddr_checks x

/-- The fields of the header that lead to the table. -/
structure ElfTable.HeaderInside (t : ElfTable) (f : ElfData) : Prop where
  num : f.Has t.e_num 2
  off : f.HasField 0#64 t.e_off
  entsize : f.Has t.e_entsize 2

/-- Entry `i`. -/
def ElfTable.entryAt (t : ElfTable) (f : ElfData) (i : Nat) : U64 :=
  f.field 0#64 t.e_off + BitVec.ofNat 64 (i * (f.u16 t.e_entsize).toNat)

theorem tableLoop_checks (ht : t.FlagsFit) (h : t.HeaderInside f) (left i : Nat) :
    ChecksState (tableLoop f t left i)
      (∀ j, i ≤ j → j < i + left → j < (f.u16 t.e_num).toNat → t.EntryInside f (t.entryAt f j)) () := by
  have hnum : ChecksState (liftM (f.read16 t.e_num) : Printing U16) True (f.u16 t.e_num) :=
    ChecksState.lift_of (f.read16_checks _) h.num
  have hoff : ChecksState (liftM (f.readField 0#64 t.e_off) : Printing U64) True (f.field 0#64 t.e_off) :=
    ChecksState.lift_of (f.readField_checks _ _) h.off
  have hentsize : ChecksState (liftM (f.read16 t.e_entsize) : Printing U16) True (f.u16 t.e_entsize) :=
    ChecksState.lift_of (f.read16_checks _) h.entsize
  induction left generalizing i with
  | zero => exact (hnum.after (ChecksState.done ())).congr ⟨fun _ j hij hj => absurd hj (by omega), fun _ => trivial⟩
  | succ left ih =>
    refine (hnum.after (ChecksState.ite (fun _ => hoff.after <| hentsize.after <|
      (printEntry_checks ht).bind fun _ => ih (i + 1)) fun _ => ChecksState.done ())).congr ⟨?_, fun hall => ⟨?_, ?_⟩⟩
    · rintro ⟨hgo, -⟩ j hij hj hlt
      obtain ⟨hentry, hrest⟩ := hgo (by omega)
      rcases Nat.eq_or_lt_of_le hij with rfl | hij
      · exact hentry
      · exact hrest j hij (by omega) hlt
    · intro hlt
      exact ⟨hall i (Nat.le_refl i) (by omega) hlt, fun j hij hj => hall j (by omega) (by omega)⟩
    · exact fun _ => trivial

/-- All entries that are printed lie inside the file. -/
def ElfTable.Inside (t : ElfTable) (f : ElfData) : Prop :=
  ∀ i < min (f.u16 t.e_num).toNat t.limit, t.EntryInside f (t.entryAt f i)

theorem printTable_checks (ht : t.FlagsFit) (h : t.HeaderInside f) : ChecksState (printTable f t) (t.Inside f) () := by
  have hnum : ChecksState (liftM (f.read16 t.e_num) : Printing U16) True (f.u16 t.e_num) :=
    ChecksState.lift_of (f.read16_checks _) h.num
  refine (hnum.after (ChecksState.ite (fun _ => elfPrint_checks t.nothing) fun _ =>
    (elfPrint_checks t.columns).after (tableLoop_checks ht h t.limit 0))).congr
    ⟨fun hcond i hi => ?_, fun hin => ⟨fun _ => trivial, fun _ j _ hj hlt => hin j (by omega)⟩⟩
  have hne : f.u16 t.e_num ≠ 0#16 := by
    intro h0
    rw [h0] at hi
    exact absurd hi (by simp)
  exact hcond.2 hne i (Nat.zero_le i) (by omega) (by omega)

/-! ## The whole -/

/-- What `elf_is_valid` looks for. -/
structure ElfData.Valid (f : ElfData) : Prop where
  size_le : 24 ≤ f.size.toNat
  e_magic : f.u32 0#64 = elfMagic
  e_class : f.data 4#64 = 1#8 ∨ f.data 4#64 = elfClass64
  e_data : f.data 5#64 = elfData2Lsb ∨ f.data 5#64 = 2#8
  e_version : f.data 6#64 = evCurrent

/-- A range of the header in front of its place `n`. -/
theorem ElfData.has_of_le {n len : Nat} {off : U64} (hsize : n ≤ f.size.toNat) (hlen : 0 < len) (h : off.toNat + len ≤ n) :
    f.Has off len := by
  have hmax := f.size.isLt
  exact (has_iff hlen (by omega)).mpr (by omega)

theorem elfIsValid_eq (f : ElfData) : ∃ v, elfIsValid f = some v ∧ (v = true ↔ f.Valid) := by
  rw [elfIsValid]
  by_cases hsize : f.size < 24#64
  · refine ⟨false, if_pos hsize, nofun, fun h => absurd h.size_le ?_⟩
    exact Nat.not_le.mpr hsize
  have h24 : 24 ≤ f.size.toNat := Nat.le_of_not_lt hsize
  have h0 : f.read32 0#64 = some (f.u32 0#64) := if_pos (ElfData.has_of_le h24 (by decide) (by decide))
  have h4 : f.read8 4#64 = some (f.data 4#64) := if_pos (ElfData.has_of_le h24 (by decide) (by decide))
  have h5 : f.read8 5#64 = some (f.data 5#64) := if_pos (ElfData.has_of_le h24 (by decide) (by decide))
  have h6 : f.read8 6#64 = some (f.data 6#64) := if_pos (ElfData.has_of_le h24 (by decide) (by decide))
  rw [if_neg hsize]
  simp only [h0, h4, h5, h6, Option.bind_eq_bind, Option.bind_some, Option.pure_def]
  by_cases hmagic : f.u32 0#64 ≠ elfMagic
  · exact ⟨false, if_pos hmagic, nofun, fun h => absurd h.e_magic hmagic⟩
  by_cases hclass : f.data 4#64 ≠ 1#8 ∧ f.data 4#64 ≠ elfClass64
  · rw [if_neg hmagic, if_pos hclass]
    exact ⟨false, rfl, nofun, fun h => absurd h.e_class (not_or.mpr hclass)⟩
  by_cases hdata : f.data 5#64 ≠ elfData2Lsb ∧ f.data 5#64 ≠ 2#8
  · rw [if_neg hmagic, if_neg hclass, if_pos hdata]
    exact ⟨false, rfl, nofun, fun h => absurd h.e_data (not_or.mpr hdata)⟩
  rw [if_neg hmagic, if_neg hclass, if_neg hdata]
  refine ⟨_, rfl, ?_⟩
  rw [decide_eq_true_iff]
  refine ⟨fun hversion => ⟨h24, not_not.mp hmagic, ?_, ?_, hversion⟩, ElfData.Valid.e_version⟩
  · rwa [not_and_or, not_not, not_not] at hclass
  · rwa [not_and_or, not_not, not_not] at hdata

theorem printCounts_checks (e_phnum e_shnum : U64) :
    ChecksState (printCounts f e_phnum e_shnum) (f.Has e_phnum 2 ∧ f.Has e_shnum 2) () :=
  (elfPrint_checks _).after <| (ChecksState.lift (f.read16_checks e_phnum)).bind fun _ =>
    (printItoa_checks _ (by decide) (by decide)).after <| (elfPrint_checks _).after <| (elfPrint_checks _).after <|
      ((ChecksState.lift (f.read16_checks e_shnum)).bind fun _ =>
        (printItoa_checks _ (by decide) (by decide)).after (elfPrint_checks _)).congr ⟨And.left, fun h => ⟨h, trivial⟩⟩

/-- The later of the two counts ends at `n`. -/
theorem printCounts_inside {e_phnum e_shnum : U64} {n : Nat} (hph : e_phnum.toNat + 2 ≤ n)
    (hsh : e_shnum.toNat + 2 = n) (hn : n < 2 ^ 64) :
    ChecksState (printCounts f e_phnum e_shnum) (n ≤ f.size.toNat) () := by
  refine (printCounts_checks e_phnum e_shnum).congr ⟨fun hread => ?_, fun hle => ⟨?_, ?_⟩⟩
  · rw [← hsh] at hn ⊢
    exact (ElfData.has_iff (by decide) hn).mp hread.2
  · exact ElfData.has_of_le hle (by decide) hph
  · exact ElfData.has_of_le hle (by decide) (Nat.le_of_eq hsh)

/-- The header of the class, up to its field `e_shnum`. -/
def ElfData.headerEnd (f : ElfData) : Nat := if f.data 4#64 = elfClass64 then 62 else 50

theorem elfPrintHeader_checks (h : f.Valid) (buffer : Buf 64) :
    ChecksState (elfPrintHeader f buffer) (f.headerEnd ≤ f.size.toNat) () := by
  have hread8 : ∀ off : U64, off.toNat + 1 ≤ 24 →
      ChecksState (liftM (f.read8 off) : Printing U8) True (f.data off) := fun off hoff =>
    ChecksState.lift_of (f.read8_checks off) (ElfData.has_of_le h.size_le (by decide) hoff)
  have hread16 : ∀ off : U64, off.toNat + 2 ≤ 24 →
      ChecksState (liftM (f.read16 off) : Printing U16) True (f.u16 off) := fun off hoff =>
    ChecksState.lift_of (f.read16_checks off) (ElfData.has_of_le h.size_le (by decide) hoff)
  have hcounts : ChecksState (if f.data 4#64 = 1#8 then printCounts f 44#64 48#64 else printCounts f 56#64 60#64)
      (f.headerEnd ≤ f.size.toNat) () := by
    rw [ElfData.headerEnd]
    rcases h.e_class with hclass | hclass
    · rw [if_pos hclass, if_neg (by rw [hclass]; decide)]
      exact printCounts_inside (by decide) rfl (by decide)
    · rw [if_neg (by rw [hclass]; decide), if_pos hclass]
      exact printCounts_inside (by decide) rfl (by decide)
  exact (ChecksState.update _).after <| (elfPrint_checks _).after <| (elfPrint_checks _).after <|
    (elfPrint_checks _).after <| (hread8 4#64 (by decide)).after <| (elfPrint_checks _).after <|
    (elfPrint_checks _).after <| (elfPrint_checks _).after <| (hread8 5#64 (by decide)).after <|
    (elfPrint_checks _).after <| (elfPrint_checks _).after <| (elfPrint_checks _).after <|
    (elfPrint_checks _).after <| (hread16 16#64 (by decide)).after <| (elfPrint_checks _).after <|
    (elfPrint_checks _).after <| (elfPrint_checks _).after <| (hread16 18#64 (by decide)).after <|
    (elfPrint_checks _).after <| (elfPrint_checks _).after <| (hread8 4#64 (by decide)).after hcounts

theorem printClassTable_checks {t64 t32 : ElfTable} (h : f.Valid) (h64 : t64.FlagsFit) (h32 : t32.FlagsFit)
    (hhead : (if f.data 4#64 = elfClass64 then t64 else t32).HeaderInside f) (buffer : Buf 64) (title : CString) :
    ChecksState (printClassTable f buffer title t64 t32) ((if f.data 4#64 = elfClass64 then t64 else t32).Inside f) () := by
  have hclass : ChecksState (liftM (f.read8 4#64) : Printing U8) True (f.data 4#64) :=
    ChecksState.lift_of (f.read8_checks _) (ElfData.has_of_le h.size_le (by decide) (by decide))
  have hbranch : ChecksState (if f.data 4#64 = elfClass64 then printTable f t64 else printTable f t32)
      ((if f.data 4#64 = elfClass64 then t64 else t32).Inside f) () := by
    by_cases hc : f.data 4#64 = elfClass64
    · rw [if_pos hc] at hhead ⊢
      rw [if_pos hc]
      exact printTable_checks h64 hhead
    · rw [if_neg hc] at hhead ⊢
      rw [if_neg hc]
      exact printTable_checks h32 hhead
  exact (ChecksState.update _).after <| (elfPrint_checks title).after <| hclass.after hbranch

/-- The tables of the class. -/
def ElfData.programHeaders (f : ElfData) : ElfTable :=
  if f.data 4#64 = elfClass64 then elf64ProgramHeaders else elf32ProgramHeaders

def ElfData.sectionHeaders (f : ElfData) : ElfTable :=
  if f.data 4#64 = elfClass64 then elf64SectionHeaders else elf32SectionHeaders

/-- The header of the class, and the entries of its two tables that are printed, are bytes of the file. -/
structure ElfData.Printable (f : ElfData) : Prop where
  header : f.headerEnd ≤ f.size.toNat
  program : f.programHeaders.Inside f
  sections : f.sectionHeaders.Inside f

theorem headerInside (h : f.headerEnd ≤ f.size.toNat) :
    f.programHeaders.HeaderInside f ∧ f.sectionHeaders.HeaderInside f := by
  rw [ElfData.headerEnd] at h
  rw [ElfData.programHeaders, ElfData.sectionHeaders]
  by_cases hc : f.data 4#64 = elfClass64
  · rw [if_pos hc] at h
    rw [if_pos hc, if_pos hc]
    refine ⟨⟨?_, ?_, ?_⟩, ⟨?_, ?_, ?_⟩⟩ <;> exact ElfData.has_of_le h (by decide) (by decide)
  · rw [if_neg hc] at h
    rw [if_neg hc, if_neg hc]
    refine ⟨⟨?_, ?_, ?_⟩, ⟨?_, ?_, ?_⟩⟩ <;> exact ElfData.has_of_le h (by decide) (by decide)

theorem printers_checks (h : f.Valid) (b₁ b₂ b₃ : Buf 64) :
    ChecksState (do elfPrintHeader f b₁; elfPrintProgramHeaders f b₂; elfPrintSectionHeaders f b₃) f.Printable () := by
  have hprogram : elf64ProgramHeaders.FlagsFit ∧ elf32ProgramHeaders.FlagsFit :=
    ⟨fun _ => elfGetProgramFlagsStr_text _, fun _ => elfGetProgramFlagsStr_text _⟩
  have hsections : elf64SectionHeaders.FlagsFit ∧ elf32SectionHeaders.FlagsFit :=
    ⟨elfGetSectionFlagsStr_text, elfGetSectionFlagsStr_text⟩
  refine ((elfPrintHeader_checks h b₁).bind fun hend =>
    (printClassTable_checks h hprogram.1 hprogram.2 (headerInside hend).1 b₂ _).bind fun _ =>
      printClassTable_checks h hsections.1 hsections.2 (headerInside hend).2 b₃ _).congr ⟨?_, ?_⟩
  · rintro ⟨hhead, hprog, hsect⟩
    exact ⟨hhead, hprog, hsect⟩
  · rintro ⟨hhead, hprog, hsect⟩
    exact ⟨hhead, hprog, hsect⟩

theorem elfPrintInfo_checks (f : ElfData) (b₁ b₂ b₃ : Buf 64) :
    ChecksState (elfPrintInfo f b₁ b₂ b₃) (f.Valid → f.Printable) () := by
  obtain ⟨v, hv, hvalid⟩ := elfIsValid_eq f
  have hlift : ChecksState (liftM (elfIsValid f) : Printing Bool) True v := ChecksState.lift (hv ▸ Checks.done v)
  have hbranch : ChecksState (if v = true then
      (do elfPrintHeader f b₁; elfPrintProgramHeaders f b₂; elfPrintSectionHeaders f b₃ : Printing Unit)
      else elfPrint (elfText "Not a valid ELF file\n")) (f.Valid → f.Printable) () := by
    by_cases htrue : v = true
    · rw [if_pos htrue]
      exact (printers_checks (hvalid.mp htrue) b₁ b₂ b₃).congr ⟨fun hp _ => hp, fun hp => hp (hvalid.mp htrue)⟩
    · rw [if_neg htrue]
      exact (elfPrint_checks _).congr ⟨fun _ h => absurd (hvalid.mpr h) htrue, fun _ => trivial⟩
  exact hlift.after hbranch

/-- `elf_print_info` reads only bytes of the file, and writes only into its local arrays, exactly where the file is not
valid, or what is printed of it is inside. -/
theorem elfPrintInfo_safe_iff (f : ElfData) (b₁ b₂ b₃ : Buf 64) (s : PrintState) :
    ((elfPrintInfo f b₁ b₂ b₃).run s).isSome = true ↔ (f.Valid → f.Printable) :=
  (elfPrintInfo_checks f b₁ b₂ b₃).isSome_iff s

/-- The header that both classes share, and nothing behind it. -/
def commonHeader : ElfData where
  data i := ([0x7F#8, 0x45#8, 0x4C#8, 0x46#8, 2#8, 1#8, 1#8] : List U8).getD i.toNat 0#8
  size := 24#64

/-- It is valid, and `e_phnum` is read behind its end. -/
theorem commonHeader_unsafe : elfIsValid commonHeader = some true ∧
    (elfPrintInfo commonHeader (Buf.zero 64) (Buf.zero 64) (Buf.zero 64)).run ⟨Buf.zero 64, []⟩ = none := by
  have hvalid : commonHeader.Valid := ⟨by decide, by decide, .inr (by decide), .inl (by decide), by decide⟩
  have hend : ¬commonHeader.headerEnd ≤ commonHeader.size.toNat := by decide
  refine ⟨by decide, ?_⟩
  rw [← Option.not_isSome_iff_eq_none, (elfPrintInfo_checks commonHeader _ _ _).isSome_iff]
  exact fun hp => hend (hp hvalid).header

end PpoOS
