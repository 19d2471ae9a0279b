import PpoOS.Fs.Verify.Taken

/-!
# The names of a listing

`ext2_list` copies the name of a record into the array of 32 bytes of an entry, however
long it is.

* **`entryWrites_keep`**: nothing in front of the entry that is filled is written.
* **`ext2List_sound_iff`**: the listing writes only to the entries that it fills, and
  every one has a name that ends in its array, exactly where every name that it takes
  has a NUL, or its end, in its first 32 bytes, and runs on into entries at most that
  are filled later.
* **`ext2ListInto_files`**: the entries are the files that the calls return.
-/

namespace PpoOS

open ByteMem

variable {e : Ext2} {m : Memory} {p : Ptr} {path : CString} {c : FileCache} {ts : List (Ptr × List U8)}

/-! ## The name of an entry -/

/-- The bytes of a name that get into an array of 32 bytes. -/
def nameArray (name : List U8) : List U8 := (List.range 32).map fun k => name.getD k 0#8

/-- The text in the name array of an entry, where it ends there. -/
def FileCache.nameText (c : FileCache) (i : Nat) : Option CString :=
  CString.read ((List.range 32).map fun k => c.bytes (BitVec.ofNat 64 (fsFileSize * i + k)))

theorem CacheHolds.nameText (h : CacheHolds m ts c) {i : Nat} {t : Ptr × List U8} (ht : ts[i]? = some t) :
    c.nameText i = CString.read (nameArray t.2) := by
  rw [FileCache.nameText, nameArray]
  congr 1
  exact List.map_congr_left fun k hk => h.name i t ht k (List.mem_range.mp hk)

/-- The name ends in the array. -/
def NameEndsInArray (name : List U8) : Prop := name.length ≤ 31 ∨ 0#8 ∈ name.take 32

instance (name : List U8) : Decidable (NameEndsInArray name) := inferInstanceAs (Decidable (_ ∨ _))

theorem nameArray_zero_iff {name : List U8} : 0#8 ∈ nameArray name ↔ NameEndsInArray name := by
  rw [nameArray, List.mem_map, NameEndsInArray]
  constructor
  · rintro ⟨k, hk, hzero⟩
    have hlt := List.mem_range.mp hk
    by_cases hin : k < name.length
    · refine Or.inr (List.mem_iff_getElem?.mpr ⟨k, ?_⟩)
      rw [List.getElem?_take_of_lt hlt, List.getElem?_eq_getElem hin]
      rw [List.getD_eq_getElem _ _ hin] at hzero
      exact congrArg some hzero
    · exact Or.inl (by omega)
  · rintro (hlen | hmem)
    · exact ⟨name.length, List.mem_range.mpr (by omega), List.getD_eq_default _ _ (Nat.le_refl _)⟩
    · obtain ⟨k, hk⟩ := List.mem_iff_getElem?.mp hmem
      obtain ⟨hlt, -⟩ := List.getElem?_eq_some_iff.mp hk
      rw [List.length_take] at hlt
      rw [List.getElem?_take_of_lt (by omega)] at hk
      refine ⟨k, List.mem_range.mpr (by omega), ?_⟩
      rw [List.getD_eq_getElem?_getD, hk]
      rfl

theorem nameArray_short {name : List U8} (hlen : name.length ≤ 31) :
    nameArray name = name ++ List.replicate (32 - name.length) 0#8 := by
  refine List.ext_getElem ?_ fun k hk hk' => ?_
  · simp only [nameArray, List.length_map, List.length_range, List.length_append, List.length_replicate]
    omega
  · rw [List.getElem_append]
    simp only [nameArray, List.getElem_map, List.getElem_range]
    by_cases hin : k < name.length
    · rw [dif_pos hin, List.getD_eq_getElem _ _ hin]
    · rw [dif_neg hin, List.getD_eq_default _ _ (Nat.not_lt.mp hin), List.getElem_replicate]

/-- The text of the array is a beginning of the name. -/
theorem nameArray_prefix {name : List U8} {s : CString} (h : CString.read (nameArray name) = some s) :
    s.length ≤ 31 ∧ s.chars <+: name := by
  obtain ⟨rest, hrest⟩ := CString.read_eq_some_iff.mp h
  have hlen : s.length ≤ 31 := by
    have hl := congrArg List.length hrest
    rw [nameArray, List.length_map, List.length_range, List.length_append, List.length_cons] at hl
    change s.chars.length ≤ 31
    omega
  have hget : ∀ k < s.chars.length, name[k]? = s.chars[k]? := by
    intro k hk
    have hshort : k < 32 := Nat.lt_of_lt_of_le hk (Nat.le_succ_of_le hlen)
    have hbyte : name.getD k 0#8 = s.chars[k] := by
      have hk' : (nameArray name)[k]? = (s.chars ++ 0#8 :: rest)[k]? := by rw [hrest]
      rw [nameArray, List.getElem?_map, List.getElem?_range hshort, Option.map_some,
        List.getElem?_append_left hk, List.getElem?_eq_getElem hk] at hk'
      exact Option.some.inj hk'
    have hin : k < name.length := by
      refine Nat.lt_of_not_le fun hle => s.nonzero ?_
      rw [List.getD_eq_default _ _ hle] at hbyte
      rw [hbyte]
      exact List.getElem_mem _
    rw [List.getD_eq_getElem _ _ hin] at hbyte
    rw [List.getElem?_eq_getElem hin, List.getElem?_eq_getElem hk, hbyte]
  refine ⟨hlen, List.prefix_iff_getElem?.mpr fun k hk => ?_⟩
  rw [hget k hk, List.getElem?_eq_getElem hk]

/-! ## The writes -/

/-- Nothing in front of the entry is written. -/
theorem entryWrites_keep {i n : Nat} {w : CacheWrite} (hw : w ∈ entryWrites i n) : fsFileSize * w.entry ≤ w.start := by
  simp only [entryWrites, List.mem_cons, List.not_mem_nil, or_false] at hw
  rcases hw with rfl | rfl | rfl | rfl | rfl | rfl | rfl
  · exact Nat.le_refl _
  · exact Nat.le_refl _
  · exact Nat.le_add_right _ _
  · exact Nat.le_add_right _ _
  · exact Nat.le_add_right _ _
  · exact Nat.le_add_right _ _
  · exact Nat.le_add_right _ _

/-- How far the writes for an entry go: to its end, or to that of the NUL behind the name. -/
theorem entryWrites_end {i n k : Nat} : (∀ w ∈ entryWrites i n, w.start + w.size ≤ k) ↔
    fsFileSize * i + fsFileSize ≤ k ∧ fsFileSize * i + n < k := by
  have hsize : fsFileSize = 64 := rfl
  simp only [entryWrites, List.forall_mem_cons, List.not_mem_nil, false_imp_iff, implies_true, and_true]
  omega

/-- The writes stay in the entries that are filled. -/
theorem CacheHolds.inside_iff (h : CacheHolds m ts c) : (∀ w ∈ c.writes, w.start + w.size ≤ fsFileSize * c.count) ↔
    ∀ i t, ts[i]? = some t → fsFileSize * i + t.2.length < fsFileSize * ts.length := by
  rw [h.count]
  constructor
  · intro hin i t ht
    exact (entryWrites_end.mp fun w hw => hin w ((h.writes w).mpr ⟨i, t, ht, hw⟩)).2
  · intro hin w hw
    obtain ⟨i, t, ht, hw⟩ := (h.writes w).mp hw
    obtain ⟨hi, -⟩ := List.getElem?_eq_some_iff.mp ht
    have hentry : fsFileSize * (i + 1) ≤ fsFileSize * ts.length := Nat.mul_le_mul_left _ hi
    exact entryWrites_end.mpr ⟨hentry, hin i t ht⟩ w hw

/-! ## The listing -/

/-- The entries are those of the records, and every write and every name is where it should be. -/
structure ListingSound (c : FileCache) (ts : List (Ptr × List U8)) : Prop where
  count : c.count = ts.length
  /-- Only the entries that are filled are written. -/
  inside : ∀ w ∈ c.writes, w.start + w.size ≤ fsFileSize * c.count
  /-- The entries that were filled before the one that is filled are left alone. -/
  keeps : ∀ w ∈ c.writes, fsFileSize * w.entry ≤ w.start
  /-- The name ends in its array, and is a beginning of the one on the disk. -/
  names : ∀ i t, ts[i]? = some t → ∃ s : CString, c.nameText i = some s ∧ s.length ≤ 31 ∧ s.chars <+: t.2

/-- The names end in their arrays, and run on at most into entries that are filled later. -/
def NamesFit (ts : List (Ptr × List U8)) : Prop :=
  ∀ i t, ts[i]? = some t → NameEndsInArray t.2 ∧ fsFileSize * i + t.2.length < fsFileSize * ts.length

theorem CacheHolds.sound_iff (h : CacheHolds m ts c) : ListingSound c ts ↔ NamesFit ts := by
  constructor
  · intro hs i t ht
    obtain ⟨s, hs', -⟩ := hs.names i t ht
    refine ⟨nameArray_zero_iff.mp (CString.read_isSome_iff.mp ?_), h.inside_iff.mp hs.inside i t ht⟩
    rw [← h.nameText ht, hs']
    rfl
  · intro hfit
    refine ⟨h.count, h.inside_iff.mpr fun i t ht => (hfit i t ht).2, fun w hw => ?_, fun i t ht => ?_⟩
    · obtain ⟨i, t, -, hw⟩ := (h.writes w).mp hw
      exact entryWrites_keep hw
    · obtain ⟨s, hs⟩ := Option.isSome_iff_exists.mp
        (CString.read_isSome_iff.mpr (nameArray_zero_iff.mpr (hfit i t ht).1))
      exact ⟨s, (h.nameText ht).trans hs, nameArray_prefix hs⟩

/-- Names that fit stay in `file_cache`. -/
theorem NamesFit.inCache (h : NamesFit ts) (hlen : ts.length ≤ fsMaxFiles) : NamesInCache ts := by
  intro i t ht
  exact Nat.lt_of_lt_of_le (h i t ht).2 (Nat.mul_le_mul_left _ hlen)

theorem takenEntries_length (ds : List DirItem) : (takenEntries e m ds).length ≤ fsMaxFiles := List.length_take_le _ _

/-- What is left in `file_cache` where the listing ends. -/
theorem ext2ListInto_holds {bytes : Mem} (hfind : ext2FindInodeByPath e m path = some (some p))
    (hdir : inodeIsDir m p = true) (hrun : ext2ListInto e m path bytes = some (some c)) :
    CacheHolds m (takenEntries e m (dirItems e m p)) c := by
  rw [ext2ListInto_taken hfind hdir, Option.map_eq_some_iff] at hrun
  obtain ⟨c', hrun, hc⟩ := hrun
  cases hc
  rcases @listTaken_holds m _ bytes (takenEntries_length _) with ⟨-, c', hrun', hholds⟩ | ⟨-, hnone⟩
  · obtain rfl := Option.some.inj (hrun.symm.trans hrun')
    exact hholds
  · rw [hnone] at hrun
    cases hrun

/-- **The listing is sound** exactly where the names that it takes fit. -/
theorem ext2List_sound_iff (e : Ext2) (m : Memory) (path : CString) (p : Ptr) (bytes : Mem)
    (hfind : ext2FindInodeByPath e m path = some (some p)) (hdir : inodeIsDir m p = true) :
    (∃ c, ext2ListInto e m path bytes = some (some c) ∧ ListingSound c (takenEntries e m (dirItems e m p))) ↔
      NamesFit (takenEntries e m (dirItems e m p)) := by
  constructor
  · rintro ⟨c, hrun, hs⟩
    exact (ext2ListInto_holds hfind hdir hrun).sound_iff.mp hs
  · intro hfit
    obtain ⟨-, c, hrun, hholds⟩ := (listTaken_holds (m := m) (takenEntries_length _)).resolve_right
      fun h => h.1 (hfit.inCache (takenEntries_length _))
    refine ⟨c, ?_, hholds.sound_iff.mpr hfit⟩
    rw [ext2ListInto_taken hfind hdir, hrun]
    rfl

/-! ## The files that `ext2_list` returns -/

/-- Where the array has room for a name, it holds it with NULs behind it. -/
theorem ext2ListName_some {name : List U8} {b : Buf 32} (h : ext2ListName name = some b) :
    name.length ≤ 31 ∧ b.bytes = nameArray name := by
  rw [ext2ListName, Option.bind_eq_bind, Option.bind_eq_some_iff] at h
  obtain ⟨b', hput, hwrite⟩ := h
  obtain ⟨-, hb'⟩ := (Buf.put_some_iff (Nat.zero_le _)).mp hput
  obtain ⟨hlt, hb⟩ := Buf.write_some_iff.mp hwrite
  have hlen : name.length ≤ 31 := Nat.le_of_lt_succ hlt
  have hbytes : b'.bytes = nameArray name := by
    rw [hb', nameArray_short hlen, Buf.zero, List.take_zero, List.nil_append, Nat.zero_add, List.drop_replicate]
  have hnul : (nameArray name)[name.length]? = some 0#8 := by
    rw [nameArray, List.getElem?_map, List.getElem?_range hlt, Option.map_some, List.getD_eq_default _ _ (Nat.le_refl _)]
  refine ⟨hlen, ?_⟩
  rw [hb, hbytes]
  obtain ⟨hin, hget⟩ := List.getElem?_eq_some_iff.mp hnul
  rw [← hget, List.set_getElem_self]

/-- The files of a listing are those of the records that are taken. -/
theorem listFiles_taken {acc files : List FsFile}
    (h : ts.foldlM (fun acc t => listFile m t.1 t.2 acc) acc = some files) :
    ∃ fs, files = acc ++ fs ∧ List.Forall₂ (fun t f => ∃ b, ext2ListName t.2 = some b ∧ f = inodeFile m t.1 b) ts fs := by
  induction ts generalizing acc with
  | nil =>
    cases h
    exact ⟨[], (List.append_nil _).symm, .nil⟩
  | cons t ts ih =>
    rw [List.foldlM_cons, Option.bind_eq_bind, Option.bind_eq_some_iff] at h
    obtain ⟨acc', hput, h⟩ := h
    obtain ⟨b, hb, rfl⟩ := Option.map_eq_some_iff.mp hput
    obtain ⟨fs, rfl, hfs⟩ := ih h
    exact ⟨inodeFile m t.1 b :: fs, List.append_assoc _ _ _, .cons ⟨b, hb, rfl⟩ hfs⟩

/-- **The entries of a listing are the files that it returns**, where their names fit. -/
theorem ext2ListInto_files {files : List FsFile} {bytes : Mem} (hfind : ext2FindInodeByPath e m path = some (some p))
    (hdir : inodeIsDir m p = true) (hlist : listItems e m (dirItems e m p) [] = some files) :
    ∃ c, ext2ListInto e m path bytes = some (some c) ∧ c.count = files.length ∧ ∀ i f, files[i]? = some f →
      (List.range 32).map (fun k => c.bytes (BitVec.ofNat 64 (fsFileSize * i + k))) = f.name.bytes := by
  obtain ⟨root, hroot, -⟩ := names_of_find hfind
  rw [listItems_taken (noDivision_of_root hroot)] at hlist
  obtain ⟨fs, rfl, hfs⟩ := listFiles_taken hlist
  have hlength := hfs.length_eq
  have hroom : NamesInCache (takenEntries e m (dirItems e m p)) := by
    intro i t ht
    obtain ⟨hi, rfl⟩ := List.getElem?_eq_some_iff.mp ht
    obtain ⟨b, hb, -⟩ := hfs.get hi (hlength ▸ hi)
    have hlen := (ext2ListName_some hb).1
    have hcount := takenEntries_length (e := e) (m := m) (dirItems e m p)
    have hfile : fsFileSize * i = 64 * i := rfl
    have hmax : fsMaxFiles = 32 := rfl
    have hend : fsFileSize * fsMaxFiles = 2048 := rfl
    simp only [List.get_eq_getElem] at hlen
    omega
  obtain ⟨-, c, hrun, hholds⟩ := (@listTaken_holds m _ bytes (takenEntries_length _)).resolve_right fun h => h.1 hroom
  refine ⟨c, ?_, hholds.count.trans hlength, fun i f hf => ?_⟩
  · rw [ext2ListInto_taken hfind hdir, hrun]
    rfl
  · obtain ⟨hi, rfl⟩ := List.getElem?_eq_some_iff.mp hf
    obtain ⟨b, hb, hfile⟩ := hfs.get (hlength ▸ hi) hi
    rw [List.get_eq_getElem, List.get_eq_getElem] at hfile
    rw [hfile]
    refine Eq.trans ?_ (ext2ListName_some hb).2.symm
    exact List.map_congr_left fun k hk =>
      hholds.name i _ (List.getElem?_eq_getElem (hlength ▸ hi)) k (List.mem_range.mp hk)

/-- The small image, with two files in its root directory. -/
theorem ext2List_sound_diskFs : ∃ c, ext2ListInto diskFs.ext2 diskFs.mem slash (fun _ => 0xFF#8) = some (some c) ∧
    ListingSound c (takenEntries diskFs.ext2 diskFs.mem (dirItems diskFs.ext2 diskFs.mem diskRoot)) := by
  refine (ext2List_sound_iff diskFs.ext2 diskFs.mem slash diskRoot _ diskFs_root.1 diskFs_root.2).mpr ?_
  have htaken : takenEntries diskFs.ext2 diskFs.mem (dirItems diskFs.ext2 diskFs.mem diskRoot) =
      [(.pool 6400#64, [0x66#8]), (.pool 6528#64, [0x65#8])] := by decide +kernel
  rw [htaken]
  rintro (_ | _ | i) t ht
  · cases ht
    decide
  · cases ht
    decide
  · cases ht

/-- A name of 126 characters does not end in its array. -/
theorem imageFs_not_sound : ¬∃ c, ext2ListInto imageFs.ext2 imageMemory slash (fun _ => 0#8) = some (some c) ∧
    ListingSound c (takenEntries imageFs.ext2 imageMemory (dirItems imageFs.ext2 imageMemory (.addr 68736#64))) := by
  rintro ⟨c, hrun, hs⟩
  have hfind : ext2FindInodeByPath imageFs.ext2 imageMemory slash = some (some (.addr 68736#64)) := by decide +kernel
  have hfirst : (takenEntries imageFs.ext2 imageMemory (dirItems imageFs.ext2 imageMemory (.addr 68736#64)))[0]? =
      some (.addr 68736#64, longName) := by decide +kernel
  obtain ⟨hends, -⟩ := (ext2ListInto_holds hfind imageFs_inodes.2.1 hrun).sound_iff.mp hs 0 _ hfirst
  exact absurd hends (by decide +kernel)

end PpoOS
