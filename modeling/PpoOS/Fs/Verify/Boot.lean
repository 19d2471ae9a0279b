import Mathlib.Data.List.Nodup
import PpoOS.Fs.Verify.Archive
import PpoOS.Fs.Verify.Independent

/-!
# From the boot archive to open files

`fs_init` copies the entries of the archive to the pool, in order.  `Imported` says
which files the table holds after some of them.  **`boot_archive_faithful`**: every
entry can be opened by its name, and reads back its data.
-/

namespace PpoOS

open ByteMem FaultState FsM

variable {m : Memory} {s t : FsState} {name : CString} {data : List U8} {src : RamFile}
  {entries : List (CString × List U8)}

/-! ## A file with its contents -/

/-- The file has the name and the data of an entry of the archive. -/
structure FsFile.Stores (m : Memory) (used : U64) (name : CString) (data : List U8) (f : FsFile) : Prop where
  name : f.name.text = some (name.take 31)
  plain : f.isDir = false
  fsType : f.fsType = .initramfs
  size : f.size.toNat = data.length
  /-- The data lies in the used part of the pool. -/
  buffer : ∃ off, f.data = .pool off ∧ off.toNat + data.length ≤ used.toNat ∧
    ∀ i, i < data.length → some (m.pool (off + BitVec.ofNat 64 i)) = data[i]?

/-- A change behind the used part of the pool does not show in the file. -/
theorem FsFile.Stores.mono {m' : Memory} {used used' : U64} {f : FsFile}
    (h : f.Stores m used name data) (hle : used.toNat ≤ used'.toNat)
    (hmem : ∀ a : U64, a.toNat < used.toNat → m'.pool a = m.pool a) : f.Stores m' used' name data := by
  obtain ⟨off, hdata, hend, hbytes⟩ := h.buffer
  have hused := used.isLt
  refine { h with buffer := ⟨off, hdata, by omega, fun i hi => ?_⟩ }
  have haddr := toNat_add_ofNat (a := off) (n := i) (by omega)
  rw [hmem _ (by omega)]
  exact hbytes i hi

/-- A read gives the part of the data that was asked for. -/
theorem FsFile.Stores.read {f : FsFile} (h : f.Stores s.mem s.memUsed name data) (offset len : U64) :
    s.readBytes f offset len = some ((data.drop offset.toNat).take len.toNat) := by
  have hfs : f.fsType ≠ .ext2 := by rw [h.fsType]; decide
  have hsize := h.size
  rw [FsState.readBytes]
  by_cases hge : offset ≥ f.size
  · have hdrop : data.drop offset.toNat = [] := List.drop_eq_nil_of_le (by rw [← hsize]; exact hge)
    rw [if_pos hge, hdrop, List.take_nil]
  obtain ⟨off, hoff, hend, hbytes⟩ := h.buffer
  have hlt : offset.toNat < data.length := by rw [← hsize]; exact Nat.lt_of_not_le hge
  have hused := s.memUsed.isLt
  rw [if_neg hge, if_neg hfs, hoff, if_neg (pool_ne_null off)]
  rw [toCopy_toNat (by omega), hsize]
  congr 1
  apply List.ext_getElem?
  intro i
  rw [Memory.bytes, List.getElem?_map, List.getElem?_take, List.getElem?_drop]
  by_cases hi : i < min len.toNat (data.length - offset.toNat)
  · have haddr : off + offset + BitVec.ofNat 64 i = off + BitVec.ofNat 64 (offset.toNat + i) := by
      rw [BitVec.ofNat_add, BitVec.ofNat_toNat, BitVec.setWidth_eq, BitVec.add_assoc]
    rw [List.getElem?_range hi, Option.map_some, if_pos (by omega), ← hbytes _ (by omega), ← haddr]
    rfl
  · rw [List.getElem?_eq_none (by rw [List.length_range]; omega), Option.map_none]
    by_cases hlen : i < len.toNat
    · rw [if_pos hlen, List.getElem?_eq_none (by omega)]
    · rw [if_neg hlen]

/-! ## The import -/

/-- What the file system holds after some entries of the archive in `m` were imported. -/
structure Imported (m : Memory) (s : FsState) (entries : List (CString × List U8)) : Prop where
  active : s.fs.activeFs ≠ .ext2
  count : s.fs.fileCount = entries.length
  used : s.memUsed.toNat = (entries.map fun e => e.2.length).sum
  /-- The archive is not touched. -/
  other : s.mem.other = m.other
  files : List.Forall₂ (fun f e => FsFile.Stores s.mem s.memUsed e.1 e.2 f) s.fs.liveFiles entries

/-- One more entry. -/
theorem Imported.step (h : Imported m s entries) (hr : src.ReadsAs m name data)
    (hi : s.fs.fileCount < fsMaxFiles)
    (hroom : (entries.map fun e => e.2.length).sum + data.length ≤ poolSize.toNat) :
    Imported m (s.imported hi name src) (entries ++ [(name, data)]) := by
  have hpool : poolSize.toNat = 65536 := rfl
  have hused := h.used
  have hsum := toNat_add_of_lt (a := s.memUsed) (b := src.size) (by rw [hr.size]; omega)
  have hlive : (s.imported hi name src).fs.liveFiles = s.fs.liveFiles ++ [importedFile name src s.memUsed] :=
    liveFiles_set_next s.fs _ hi
  have hkeep : ∀ a : U64, a.toNat < s.memUsed.toNat →
      (s.imported hi name src).mem.pool a = s.mem.pool a :=
    fun a ha => pool_blit_outside (by rw [hr.size]; omega) (Or.inl ha)
  constructor
  · exact h.active
  · change s.fs.fileCount + 1 = _
    rw [h.count, List.length_append, List.length_singleton]
  · change (s.memUsed + src.size).toNat = _
    rw [hsum, hused, hr.size]
    simp
  · exact h.other
  · rw [hlive]
    refine List.rel_append ?_ (.cons ?_ .nil)
    · refine h.files.imp fun f e hf => hf.mono ?_ hkeep
      change s.memUsed.toNat ≤ (s.memUsed + src.size).toNat
      omega
    · refine ⟨Buf.text_ofText (take_length_lt (n := 32) name (by decide)), rfl, rfl, hr.size, s.memUsed, rfl, ?_, ?_⟩
      · change _ ≤ (s.memUsed + src.size).toNat
        rw [hsum, hr.size]
      · -- the new bytes are those of the archive
        intro i hlt
        have hi' : i < data.length := hlt
        have hin : i < src.size.toNat := by rw [hr.size]; exact hi'
        have hd : (s.memUsed + BitVec.ofNat 64 i - s.memUsed).toNat = i := by
          rw [BitVec.add_comm, BitVec.add_sub_cancel, BitVec.toNat_ofNat]
          exact Nat.mod_eq_of_lt (by omega)
        have hwritten : (s.imported hi name src).mem.pool (s.memUsed + BitVec.ofNat 64 i) =
            s.mem.other (src.data + BitVec.ofNat 64 i) := by
          change ByteMem.blit s.mem.pool s.memUsed src.size.toNat
            (fun i => s.mem.load ((Ptr.addr src.data).add (BitVec.ofNat 64 i)))
            (s.memUsed + BitVec.ofNat 64 i) = _
          rw [ByteMem.blit_inside (by rw [hd]; exact hin), hd]
          rfl
        have hsrc := hr.data i hi'
        rw [Nat.zero_add, ← h.other] at hsrc
        rw [hwritten, hsrc]

theorem cstrAt_congr {m' : Memory} (h : m'.other = m.other) (a : U64) (fuel : Nat) :
    cstrAt m' a fuel = cstrAt m a fuel := by
  induction fuel generalizing a with
  | zero => rfl
  | succ fuel ih =>
    have hc : m'.other a = m.other a := by rw [h]
    rw [cstrAt, cstrAt, ih]
    by_cases h0 : m.other a = 0#8
    · rw [dif_pos h0, dif_pos (hc.trans h0)]
    · have h0' : m'.other a ≠ 0#8 := fun h' => h0 (hc.symm.trans h')
      rw [dif_neg h0, dif_neg h0']
      congr 2

/-- The whole archive is imported where the tables and the pool have the room. -/
theorem Imported.run {srcs : List RamFile} {more : List (CString × List U8)} (h : Imported m s entries)
    (hsrcs : List.Forall₂ (fun r e => RamFile.ReadsAs m r e.1 e.2) srcs more)
    (hnames : ∀ e ∈ more, e.1.chars.getLast? ≠ some 0x2F#8)
    (hcount : (entries ++ more).length ≤ fsMaxFiles)
    (hroom : ((entries ++ more).map fun e => e.2.length).sum ≤ poolSize.toNat) :
    ∃ t, (fsImport srcs).run s = some ((), t) ∧ Imported m t (entries ++ more) := by
  induction hsrcs generalizing s entries with
  | nil => exact ⟨s, rfl, by rw [List.append_nil]; exact h⟩
  | @cons src e srcs more hr hrest ih =>
    have hassoc : entries ++ e :: more = (entries ++ [e]) ++ more := by
      rw [List.append_assoc, List.singleton_append]
    rw [hassoc] at hcount hroom ⊢
    have hi : s.fs.fileCount < fsMaxFiles := by
      rw [List.length_append, List.length_append, List.length_singleton] at hcount
      rw [h.count]
      omega
    have hfit : (entries.map fun e => e.2.length).sum + e.2.length ≤ poolSize.toNat := by
      simp only [List.map_append, List.sum_append, List.map_singleton, List.sum_singleton] at hroom
      omega
    have hnoRoom : ¬s.memUsed + src.size > poolSize := by
      have hpool : poolSize.toNat = 65536 := rfl
      have hused := h.used
      rw [room_iff, toNat_add_of_lt (by rw [hr.size]; omega), hr.size]
      omega
    obtain ⟨t, ht, himported⟩ := ih (h.step hr hi hfit) (fun e' he' => hnames e' (List.mem_cons_of_mem _ he'))
      hcount hroom
    refine ⟨t, ?_, himported⟩
    rw [fsImport, run_get_bind, if_neg (Nat.not_le.mpr hi), cstrAt_congr h.other, hr.name,
      run_ofOption_bind, Option.bind_some, if_neg (hnames e List.mem_cons_self)]
    have hsmall : src.size.toNat ≤ copyLimit := by
      have hpool : poolSize.toNat = 65536 := rfl
      have hlimit : copyLimit = 2 ^ 47 := rfl
      rw [hr.size]
      omega
    have himport := importFile_run hi src e.1
    rw [if_neg hnoRoom, if_pos hsmall] at himport
    rw [run_bind_eq himport, if_pos rfl]
    exact ht

/-! ## Images in the archive -/

/-- The data is what `ext2_detect` takes for an image. -/
def IsExt2Image (data : List U8) : Prop :=
  2048 ≤ data.length ∧ data[1081]? = some 0xEF#8 ∧ data[1080]? = some 0x53#8

instance (data : List U8) : Decidable (IsExt2Image data) :=
  inferInstanceAs (Decidable (2048 ≤ data.length ∧ data[1081]? = some 0xEF#8 ∧ data[1080]? = some 0x53#8))

theorem ext2Detect_stores {used : U64} {f : FsFile} (h : f.Stores m used name data)
    (hnot : ¬IsExt2Image data) : ext2Detect m f.data f.size = false := by
  obtain ⟨off, hoff, hend, hbytes⟩ := h.buffer
  rw [ext2Detect, hoff]
  by_cases hsmall : f.size < 1024#64 + superblockSize
  · rw [if_pos (Or.inr hsmall)]
  · have hlen : 2048 ≤ data.length := by
      rw [← h.size]
      exact Nat.le_of_not_lt hsmall
    rw [if_neg (not_or.mpr ⟨pool_ne_null off, hsmall⟩), decide_eq_false_iff_not]
    intro hmagic
    have hload : m.load16 (((Ptr.pool off).add 1024#64).add 56#64) =
        m.pool (off + BitVec.ofNat 64 1081) ++ m.pool (off + BitVec.ofNat 64 1080) := by
      simp only [Memory.load16, Ptr.add, Memory.load, BitVec.add_assoc]
      rfl
    rw [hload] at hmagic
    have hhigh := congrArg (BitVec.extractLsb' 8 8) hmagic
    have hlow := congrArg (BitVec.extractLsb' 0 8) hmagic
    rw [BitVec.extractLsb'_append_eq_left] at hhigh
    rw [BitVec.extractLsb'_append_eq_right] at hlow
    refine hnot ⟨hlen, ?_, ?_⟩
    · rw [← hbytes 1081 (by omega), hhigh]
      rfl
    · rw [← hbytes 1080 (by omega), hlow]
      rfl

/-- No image is mounted. -/
theorem fsMountImages_none {files : List FsFile} {entries : List (CString × List U8)}
    (h : List.Forall₂ (fun f e => FsFile.Stores s.mem s.memUsed e.1 e.2 f) files entries)
    (hlen : ∀ e ∈ entries, e.1.length ≤ 31)
    (hnot : ∀ e ∈ entries, e.1 = ext2ImgName ∨ e.1 = diskImgName → ¬IsExt2Image e.2) :
    (fsMountImages files).run s = some ((), s) := by
  induction h with
  | nil => rfl
  | @cons f e files entries hf hrest ih =>
    have hname := hf.name
    rw [CString.take_of_length_le (hlen e List.mem_cons_self)] at hname
    have hskip : ((strcmp e.1 ext2ImgName = 0 || strcmp e.1 diskImgName = 0) &&
        ext2Detect s.mem f.data f.size) = false := by
      by_cases himg : e.1 = ext2ImgName ∨ e.1 = diskImgName
      · rw [ext2Detect_stores hf (hnot e List.mem_cons_self himg), Bool.and_false]
      · rw [not_or] at himg
        simp [himg.1, himg.2]
    rw [fsMountImages, hname, run_ofOption_bind, Option.bind_some, run_get_bind, hskip,
      if_neg Bool.false_ne_true]
    exact ih (fun e' he' => hlen e' (List.mem_cons_of_mem _ he'))
      (fun e' he' => hnot e' (List.mem_cons_of_mem _ he'))

/-! ## Names -/

/-- The characters behind all leading `./`. -/
def stripDots : List U8 → List U8
  | a :: b :: l => if a = 0x2E#8 ∧ b = 0x2F#8 then stripDots l else a :: b :: l
  | l => l

theorem stripDots_stripDot (name : CString) : stripDots (stripDot name).chars = stripDots name.chars := by
  rw [stripDot]
  by_cases hdot : strncmp name dotSlash 2 = 0
  · rw [if_pos hdot]
    obtain ⟨l, hl⟩ := strncmp_dotSlash.mp hdot
    have hchars : name.chars = 0x2E#8 :: 0x2F#8 :: l := hl.symm
    rw [CString.chars_drop, hchars, stripDots, if_pos ⟨rfl, rfl⟩]
    rfl
  · rw [if_neg hdot]

/-- A stored name answers only to names that are the same behind all leading `./`. -/
theorem stripDots_of_answers {entry name : CString} (hlen : name.length ≤ 31) (h : Answers entry name) :
    stripDots entry.chars = stripDots name.chars := by
  have hshort : (stripDot name).take 31 = stripDot name := by
    apply CString.take_of_length_le
    unfold stripDot
    split
    · rw [CString.length, CString.chars_drop, List.length_drop]
      exact Nat.le_trans (Nat.sub_le _ _) hlen
    · exact hlen
  rw [Answers, hshort] at h
  rcases h with h | h | h
  · rw [← stripDots_stripDot entry, h, stripDots_stripDot]
  · rw [h, stripDots_stripDot]
  · rw [h]

/-- A name that no earlier file answers to is found. -/
theorem Imported.lookup (h : Imported m s entries) (hlen : ∀ e ∈ entries, 1 ≤ e.1.length ∧ e.1.length ≤ 31)
    (hdistinct : (entries.map fun e => stripDots e.1.chars).Nodup) {i : Nat} (hi : i < entries.length) :
    fsLookup s.fs entries[i].1 = some i := by
  have hbounds := hlen _ (List.getElem_mem hi)
  have htext : ∀ j (hj : j < entries.length), ∃ f, s.fs.liveFiles[j]? = some f ∧
      f.name.text = some entries[j].1 := by
    intro j hj
    have hj' : j < s.fs.liveFiles.length := by rw [h.files.length_eq]; exact hj
    have hf := (h.files.get hj' hj).name
    rw [List.get_eq_getElem, List.get_eq_getElem,
      CString.take_of_length_le (hlen _ (List.getElem_mem hj)).2] at hf
    exact ⟨_, List.getElem?_eq_getElem hj', hf⟩
  have hi' : i < s.fs.liveFiles.length := by rw [h.files.length_eq]; exact hi
  rw [fsLookup, if_neg (Nat.ne_of_gt hbounds.1), List.findIdx?_eq_some_iff_getElem]
  refine ⟨hi', ?_, fun j hji hj => ?_⟩
  · obtain ⟨f, hf, hname⟩ := htext i hi
    obtain ⟨_, rfl⟩ := List.getElem?_eq_some_iff.mp hf
    rw [FsFile.answers, hname]
    exact decide_eq_true (Or.inr (Or.inr rfl))
  · obtain ⟨f, hf, hname⟩ := htext j (Nat.lt_trans hji hi)
    obtain ⟨_, rfl⟩ := List.getElem?_eq_some_iff.mp hf
    rw [FsFile.answers, hname, decide_eq_true_iff] at hj
    have hsame := stripDots_of_answers hbounds.2 hj
    have hpair := List.nodup_iff_getElem?_ne_getElem?.mp hdistinct j i hji (by rw [List.length_map]; exact hi)
    rw [List.getElem?_map, List.getElem?_map, List.getElem?_eq_getElem hi,
      List.getElem?_eq_getElem (Nat.lt_trans hji hi)] at hpair
    exact hpair (congrArg some hsame)

/-! ## The boot -/

/-- **A boot archive is imported faithfully**: after `initramfs_init` and the first `fs_init`, every
entry is opened by its name, has the size of its data, and reads return the parts of the data that are
asked for. -/
theorem boot_archive_faithful (s : FsState) (base : U64) (entries : List (CString × List U8))
    (archive rest : List U8) (encoded : NewcArchive entries archive) (aligned : base.toNat % 4 = 0)
    (fits : base.toNat + (archive ++ rest).length < 2 ^ 64)
    (loaded : s.mem.bytes (.addr base) (archive ++ rest).length = archive ++ rest)
    (first : s.memUsed = 0#64) (count : entries.length ≤ 16)
    (names : ∀ e ∈ entries, e.1 ≠ trailerName ∧ e.1.chars.getLast? ≠ some 0x2F#8)
    (lengths : ∀ e ∈ entries, 1 ≤ e.1.length ∧ e.1.length ≤ 31)
    (images : ∀ e ∈ entries, e.1 = ext2ImgName ∨ e.1 = diskImgName → ¬IsExt2Image e.2)
    (distinct : (entries.map fun e => stripDots e.1.chars).Nodup)
    (sizes : (entries.map fun e => e.2.length).sum ≤ 65536) :
    ∃ t, (do
        initramfsInit base (BitVec.ofNat 64 (archive ++ rest).length)
        fsInit : FsM Unit).run s = some ((), t) ∧
      ∀ e ∈ entries, ∃ file f, (fsOpen e.1).run t = some (some file, t) ∧ t.file? file = some f ∧
        f.size.toNat = e.2.length ∧ ∀ offset len : U64,
          (fsRead file offset len).run t = some ((e.2.drop offset.toNat).take len.toNat, t) := by
  have hm := (Memory.holds_append.mp (Memory.holds_of_bytes loaded)).1
  have hstop := toNat_add_ofNat fits
  generalize hend : base + BitVec.ofNat 64 (archive ++ rest).length = stop at hstop
  have hscan := initramfsScan_archive encoded (fun e he => (names e he).1) aligned hm
    (by rw [hstop, List.length_append]; omega) 16
  rw [List.take_of_length_le count] at hscan
  -- the state in which the import starts
  generalize hs₀ : ({ s with ramfs := initramfsScan s.mem stop 16 base, fs := rootMount } : FsState) = s₀
  have hstart : Imported s.mem s₀ [] := by
    rw [← hs₀]
    exact ⟨nofun, rfl, by rw [first]; rfl, rfl, .nil⟩
  have hramfs : s₀.ramfs = initramfsScan s.mem stop 16 base := by rw [← hs₀]
  obtain ⟨t, ht, himported⟩ := hstart.run hscan (fun e he => (names e he).2)
    (Nat.le_trans count (by decide)) sizes
  rw [List.nil_append] at himported
  have hmount := fsMountImages_none himported.files (fun e he => (lengths e he).2) images
  have hinit : (do
      initramfsInit base (BitVec.ofNat 64 (archive ++ rest).length)
      fsInit : FsM Unit).run s = some ((), t) := by
    have hload : (initramfsInit base (BitVec.ofNat 64 (archive ++ rest).length)).run s =
        some ((), { s with ramfs := initramfsScan s.mem stop 16 base }) := by rw [← hend]; rfl
    rw [run_bind_eq hload, fsInit_run, hs₀, run_get_bind, hramfs, run_bind_eq ht, run_get_bind]
    exact hmount
  refine ⟨t, hinit, fun e he => ?_⟩
  obtain ⟨i, hi, rfl⟩ := List.getElem_of_mem he
  have hlook := himported.lookup lengths distinct hi
  have hi' : i < t.fs.liveFiles.length := by rw [himported.files.length_eq]; exact hi
  have hf := himported.files.get hi' hi
  have hcount : i < t.fs.fileCount := by rw [himported.count]; exact hi
  have hlive : ∀ f ∈ t.fs.liveFiles, f.name.text.isSome = true := by
    intro f hf
    obtain ⟨j, hj, rfl⟩ := List.getElem_of_mem hf
    have hstores := (himported.files.get hj (by rw [← himported.files.length_eq]; exact hj)).name
    rw [List.get_eq_getElem] at hstores
    rw [hstores]
    rfl
  rw [List.get_eq_getElem, List.get_eq_getElem] at hf
  have hfile : t.file? (.slot i) = some t.fs.liveFiles[i] := by
    rw [← liveFiles_get hcount, List.getElem?_eq_getElem hi']
  refine ⟨.slot i, t.fs.liveFiles[i], ?_, hfile, hf.size, fun offset len => ?_⟩
  · rw [fsOpen_run himported.active hlive, hlook]
    rfl
  · rw [fsRead_run, hfile, Option.bind_some, hf.read]
    rfl

/-- An archive with three files is booted. -/
theorem boot_archive_faithful_threeFiles :
    ∃ t, (do
        initramfsInit 4096#64 (BitVec.ofNat 64 (archiveBytes threeFiles ++ [0x55#8, 0x66#8]).length)
        fsInit : FsM Unit).run { FsState.zero with mem := Memory.loaded 4096#64 (archiveBytes threeFiles ++ [0x55#8, 0x66#8]) } =
          some ((), t) ∧
      ∀ e ∈ threeFiles, ∃ file f, (fsOpen e.1).run t = some (some file, t) ∧ t.file? file = some f ∧
        f.size.toNat = e.2.length ∧ ∀ offset len : U64,
          (fsRead file offset len).run t = some ((e.2.drop offset.toNat).take len.toNat, t) :=
  boot_archive_faithful { FsState.zero with mem := Memory.loaded 4096#64 (archiveBytes threeFiles ++ [0x55#8, 0x66#8]) }
    4096#64 threeFiles (archiveBytes threeFiles) [0x55#8, 0x66#8] (archiveBytes_newc (by decide)) (by decide)
    (by decide +kernel) (Memory.loaded_bytes (by decide +kernel)) rfl (by decide) (by decide)
    (by decide) (by decide) (by decide) (by decide)

end PpoOS
