import PpoOS.Fs.Verify.Tables

/-!
# What `fs_open` finds

On the in-memory file system, `fs_open` compares names after a leading `./` was
taken off and 31 characters were kept.  **`fsOpen_run`**: it finds the first file
of the table whose name agrees with the one asked for in one of its three
comparisons.
-/

namespace PpoOS

open FaultState FsM

/-- The string without a leading `./`. -/
def stripDot (s : CString) : CString := if strncmp s dotSlash 2 = 0 then s.drop 2 else s

/-- The stored name `entry` answers to `name`. -/
def Answers (entry name : CString) : Prop :=
  stripDot entry = (stripDot name).take 31 ∨ entry = (stripDot name).take 31 ∨ entry = name

instance (entry name : CString) : Decidable (Answers entry name) := by
  unfold Answers; infer_instance

/-- The file answers to `name`. -/
def FsFile.answers (f : FsFile) (name : CString) : Bool :=
  match f.name.text with
  | some entry => decide (Answers entry name)
  | none => false

section

variable {s : FsState} {name entry : CString} {f : FsFile}

theorem strncmp_dotSlash : strncmp name dotSlash 2 = 0 ↔ dotSlash.chars <+: name.chars :=
  strncmpLoop_eq_zero dotSlash.nonzero

theorem length_of_dotSlash (h : strncmp name dotSlash 2 = 0) : 2 ≤ name.length :=
  (strncmp_dotSlash.mp h).length_le

/-! ## The two buffers -/

theorem processName_text (name : CString) : ∃ b, processName name = some b ∧ b.text = some ((stripDot name).take 31) := by
  refine ⟨_, strncpyCut_eq _ _ (by decide), ?_⟩
  exact Buf.text_ofText (take_length_lt _ (by decide))

/-- Moving the text of an array two places to the front. -/
theorem memmoveFront_text {n : Nat} {b : Buf n} (h : b.text = some entry) (hlen : 2 ≤ entry.length) :
    ∃ c d, memmoveFront b 2 (entry.length - 1) = some c ∧ c.write (entry.length - 2) 0#8 = some d ∧
      d.text = some (entry.drop 2) := by
  obtain ⟨rest, hr⟩ := Buf.text_eq_some_iff.mp h
  have hlt := Buf.length_lt_of_text h
  unfold CString.length at *
  have hmoved : (b.bytes.drop 2).take (entry.chars.length - 1) = entry.chars.drop 2 ++ [0#8] := by
    rw [hr, List.drop_append_of_le_length hlen, List.take_append, List.take_of_length_le (by simp; omega)]
    have hone : entry.chars.length - 1 - (entry.chars.drop 2).length = 1 := by simp; omega
    rw [hone]
    rfl
  have hfits : 0 + (entry.chars.drop 2 ++ [0#8]).length ≤ n := by simp; omega
  obtain ⟨c, hc⟩ := Option.isSome_iff_exists.mp ((Buf.put_isSome_iff (b := b) (Nat.zero_le n)).mpr hfits)
  have htext : c.text = some (entry.drop 2) := Buf.text_put_zero (t := entry.drop 2) hc
  obtain ⟨tail, ht⟩ := Buf.text_eq_some_iff.mp htext
  -- the last write puts a NUL where one is
  have hsame : c.bytes.set (entry.chars.length - 2) 0#8 = c.bytes := by
    rw [ht, CString.chars_drop, List.set_append_right _ _ (by simp)]
    simp
  refine ⟨c, c, ?_, Buf.write_some_iff.mpr ⟨by omega, hsame.symm⟩, htext⟩
  rw [memmoveFront, if_pos (by omega), hmoved]
  exact hc

theorem processEntry_text (h : entry.length < 32) :
    ∃ b, processEntry entry = some b ∧ b.text = some (stripDot entry) := by
  have hcut : entry.take 31 = entry := CString.take_of_length_le (by omega)
  have htext := Buf.text_ofText (n := 32) h
  rw [processEntry, strncpyCut_eq _ _ (by decide), show 32 - 1 = 31 from rfl, hcut, stripDot]
  simp only [Option.bind_eq_bind, Option.bind_some, htext]
  by_cases hdot : strncmp entry dotSlash 2 = 0
  · have hlen := length_of_dotSlash hdot
    obtain ⟨c, d, hc, hd, ht⟩ := memmoveFront_text htext hlen
    rw [if_pos hdot, if_pos hlen, if_pos hdot, hc, Option.bind_some, hd]
    exact ⟨d, rfl, ht⟩
  · rw [if_neg hdot, if_neg hdot]
    exact ⟨_, rfl, htext⟩

/-! ## The search -/

theorem fsMatches_eq (h : f.name.text.isSome = true) :
    fsMatches name ((stripDot name).take 31) f = some (f.answers name) := by
  obtain ⟨entry, he⟩ := Option.isSome_iff_exists.mp h
  obtain ⟨b, hb, ht⟩ := processEntry_text (Buf.length_lt_of_text he)
  rw [fsMatches, FsFile.answers, he]
  simp only [hb, ht, Option.bind_eq_bind, Option.bind_some, strcmp_eq_zero]
  refine congrArg some (Bool.eq_iff_iff.mpr ?_)
  rw [decide_eq_true_iff, Answers]
  simp [or_assoc]

/-- The loop finds the first file that answers. -/
theorem fsOpenScan_eq {files : List FsFile} (h : ∀ f ∈ files, f.name.text.isSome = true) (i : Nat) :
    fsOpenScan name ((stripDot name).take 31) files i =
      some ((files.findIdx? fun f => f.answers name).map (· + i)) := by
  induction files generalizing i with
  | nil => rfl
  | cons f files ih =>
    rw [fsOpenScan, fsMatches_eq (h f (by simp)), Option.bind_eq_bind, Option.bind_some,
      List.findIdx?_cons]
    cases f.answers name with
    | true => simp
    | false =>
      rw [if_neg Bool.false_ne_true, ih fun g hg => h g (by simp [hg])]
      simp [Function.comp_def, Nat.add_assoc, Nat.add_comm 1]

/-- The file that `fs_open` finds in the table. -/
def fsLookup (fs : FsMount) (name : CString) : Option Nat :=
  if name.length = 0 then none else fs.liveFiles.findIdx? fun f => f.answers name

/-- **`fs_open` on the in-memory file system** finds the first file that answers to the name. -/
theorem fsOpen_run (hfs : s.fs.activeFs ≠ .ext2)
    (h : ∀ f ∈ s.fs.liveFiles, f.name.text.isSome = true) :
    (fsOpen name).run s = some ((fsLookup s.fs name).map .slot, s) := by
  rw [fsOpen, fsLookup]
  by_cases hlen : name.length = 0
  · rw [if_pos hlen, if_pos hlen]
    rfl
  · obtain ⟨b, hb, ht⟩ := processName_text name
    rw [if_neg hlen, if_neg hlen, run_get_bind, if_neg hfs, run_ofOption_bind, hb, Option.bind_some,
      run_ofOption_bind, ht, Option.bind_some, run_ofOption_bind, fsOpenScan_eq h 0]
    simp

theorem fsLookup_some {fs : FsMount} {i : Nat} (h : fsLookup fs name = some i) :
    ∃ f, fs.liveFiles[i]? = some f ∧ f.answers name = true := by
  unfold fsLookup at h
  by_cases hlen : name.length = 0
  · rw [if_pos hlen] at h
    cases h
  · rw [if_neg hlen, List.findIdx?_eq_some_iff_getElem] at h
    obtain ⟨hi, hf, -⟩ := h
    exact ⟨_, List.getElem?_eq_getElem hi, hf⟩

end

end PpoOS
