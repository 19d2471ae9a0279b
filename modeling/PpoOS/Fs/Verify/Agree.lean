import PpoOS.Fs.Verify.Walk
import PpoOS.Fs.Verify.Runs

/-!
# Listing and opening

A listing shows the table, or the records of the working directory; `fs_open` takes
the first file of the table that answers to a name, or walks from the root of the
image.  The two agree as long as no entry is added whose name is empty or opens an
other kind of file (`OpensAs`), and the working directory of an image shows only
names of its root that fit into an entry (`SharesRoot`).

**`list_opens`**: in every run of calls that keep to this, a listing comes back and
every entry of it can be opened by its name, as a file of the same size and kind.
-/

namespace PpoOS

open FaultState FsM Transition

variable {s t : FsState} {f : FsFile} {files : List FsFile} {name path c : CString}

/-- The listing and the calls that open its entries. -/
structure ListOpens (s : FsState) : Prop where
  /-- Only an image on which no inode can be looked up without a division by zero is not listed. -/
  returns : (fsList.run s).isSome = true ∨
    s.fs.activeFs = .ext2 ∧ ext2ReadInode s.ext2 s.mem 2#32 = none
  /-- Every entry can be opened by its name, as a file of the same size and kind. -/
  opens : ∀ files t, fsList.run s = some (files, t) → ∀ f ∈ files, ∃ name file u g, f.name.text = some name ∧
    (fsOpen name).run t = some (some file, u) ∧ u.file? file = some g ∧ g.size = f.size ∧ g.isDir = f.isDir

/-! ## The table -/

/-- The name is not empty, and the first of the files that answers to it, if one does, has the size
and the kind. -/
def OpensAs (files : List FsFile) (name : CString) (size : U64) (isDir : Bool) : Prop :=
  name.length ≠ 0 ∧ ∀ f, files.find? (fun f => f.answers name) = some f → f.size = size ∧ f.isDir = isDir

/-- Every file is opened by its name, or one of the same size and kind is. -/
def Openable (files : List FsFile) : Prop :=
  ∀ f ∈ files, ∃ name, f.name.text = some name ∧ OpensAs files name f.size f.isDir

theorem answers_self (h : f.name.text = some name) : f.answers name = true := by
  rw [FsFile.answers, h]
  exact decide_eq_true (Or.inr (Or.inr rfl))

/-- One of the files answers to the name of a file. -/
theorem find?_own (hf : f ∈ files) (h : f.name.text = some name) :
    ∃ g, files.find? (fun g => g.answers name) = some g := by
  apply Option.isSome_iff_exists.mp
  rw [List.find?_isSome]
  exact ⟨f, hf, answers_self h⟩

/-- An entry at the end does not change what the others open. -/
theorem Openable.push (h : Openable files) (hname : f.name.text = some name)
    (hopens : OpensAs files name f.size f.isDir) : Openable (files ++ [f]) := by
  intro g hg
  rcases List.mem_append.mp hg with hg | hg
  · obtain ⟨n, hn, hlen, hfirst⟩ := h g hg
    obtain ⟨g', hg'⟩ := find?_own hg hn
    refine ⟨n, hn, hlen, fun k hk => hfirst k ?_⟩
    rw [List.find?_append, hg', Option.some_or] at hk
    rw [hg', hk]
  · obtain rfl := List.mem_singleton.mp hg
    refine ⟨name, hname, hopens.1, fun k hk => ?_⟩
    rw [List.find?_append] at hk
    cases hfind : files.find? fun g => g.answers name with
    | some k' =>
      rw [hfind, Option.some_or] at hk
      exact hopens.2 k (hfind.trans hk)
    | none =>
      rw [hfind, Option.none_or, List.find?_cons, answers_self hname] at hk
      cases hk
      exact ⟨rfl, rfl⟩

theorem Openable.names (h : Openable s.fs.liveFiles) : ∀ f ∈ s.fs.liveFiles, f.name.text.isSome = true := by
  intro f hf
  obtain ⟨name, hname, -⟩ := h f hf
  rw [hname]
  rfl

/-- On the in-memory file system, the table is what a listing shows. -/
theorem Openable.listOpens (h : Openable s.fs.liveFiles) (hfs : s.fs.activeFs ≠ .ext2)
    (hcount : s.fs.fileCount ≤ fsMaxFiles) : ListOpens s := by
  have hrun : fsList.run s = some (s.fs.liveFiles, s) := by
    rw [fsList, run_get_bind, if_neg hfs]
    rfl
  refine ⟨Or.inl (by rw [hrun]; rfl), fun files t hlist f hf => ?_⟩
  rw [hrun] at hlist
  cases hlist
  obtain ⟨name, hname, hlen, hfirst⟩ := h f hf
  obtain ⟨g, hg⟩ := find?_own hf hname
  have hfind := hg
  rw [List.find?_eq_bind_findIdx?_getElem?, Option.bind_eq_some_iff] at hfind
  obtain ⟨i, hi, hget⟩ := hfind
  refine ⟨name, .slot i, s, g, hname, ?_, ?_, hfirst g hg⟩
  · rw [fsOpen_run hfs h.names, fsLookup, if_neg hlen, hi]
    rfl
  · obtain ⟨hlt, -⟩ := List.getElem?_eq_some_iff.mp hget
    rw [liveFiles_length hcount] at hlt
    rw [← liveFiles_get hlt, hget]

/-- The in-memory file system, with a table in which every file can be opened. -/
structure TableOpens (s : FsState) : Prop where
  active : s.fs.activeFs ≠ .ext2
  count : s.fs.fileCount ≤ fsMaxFiles
  files : Openable s.fs.liveFiles

/-- A new entry at the count. -/
theorem TableOpens.push (h : TableOpens s) (hi : s.fs.fileCount < fsMaxFiles) (hname : f.name.text = some name)
    (hopens : OpensAs s.fs.liveFiles name f.size f.isDir) :
    TableOpens (s.fileSlot s.fs.fileCount hi f (s.fs.fileCount + 1)) where
  active := h.active
  count := hi
  files := by
    have hlive : (s.fileSlot s.fs.fileCount hi f (s.fs.fileCount + 1)).fs.liveFiles = s.fs.liveFiles ++ [f] :=
      liveFiles_set_next s.fs f hi
    rw [hlive]
    exact h.files.push hname hopens

/-- A write behind the table. -/
theorem TableOpens.writeFree (h : TableOpens s) (hi : s.fs.fileCount < fsMaxFiles) :
    TableOpens (s.fileSlot s.fs.fileCount hi f s.fs.fileCount) where
  active := h.active
  count := h.count
  files := by
    have hlive : (s.fileSlot s.fs.fileCount hi f s.fs.fileCount).fs.liveFiles = s.fs.liveFiles :=
      liveFiles_set_free s.fs f hi (Nat.le_refl _)
    rw [hlive]
    exact h.files

/-- Only the table counts. -/
theorem TableOpens.congr (h : TableOpens s) (hactive : t.fs.activeFs = s.fs.activeFs)
    (hfiles : t.fs.files = s.fs.files) (hcount : t.fs.fileCount = s.fs.fileCount) : TableOpens t := by
  have hlive : t.fs.liveFiles = s.fs.liveFiles := by rw [FsMount.liveFiles, FsMount.liveFiles, hfiles, hcount]
  exact ⟨hactive ▸ h.active, hcount ▸ h.count, hlive ▸ h.files⟩

/-! ## Calls on the table -/

/-- `fs_create_file` adds an entry. -/
def FsState.AddsFile (s : FsState) (name : CString) : Prop :=
  s.fs.activeFs ≠ .ext2 ∧ fsLookup s.fs name = none ∧ s.fs.fileCount < fsMaxFiles ∧
    ¬s.memUsed + 256#64 > poolSize

/-- `fs_create_dir` adds an entry. -/
def FsState.AddsDir (s : FsState) (name : CString) : Prop :=
  s.fs.activeFs ≠ .ext2 ∧ fsDirExists name s.fs.liveDirs ≠ some true ∧ s.fs.dirCount < fsMaxDirs ∧
    (∃ p path, fsDirPath s.fs.currentDir p name = some (some path)) ∧ s.fs.fileCount < fsMaxFiles

theorem TableOpens.createFile (h : TableOpens s) {r : Option FileRef} (hrun : (fsCreateFile name).run s = some (r, t))
    (hopens : s.AddsFile name → OpensAs s.fs.liveFiles (name.take 31) 0#64 false) : TableOpens t := by
  cases fsCreateFile_outcome hrun with
  | existing found =>
    rw [fsOpen_run h.active h.files.names] at found
    obtain ⟨-, rfl⟩ := Prod.mk.inj (Option.some.inj found)
    exact h
  | refused => exact h
  | noMemory _ _ hi => exact h.writeFree hi
  | created absent fs hi room =>
    have hlookup : fsLookup s.fs name = none := by
      rw [fsOpen_run h.active h.files.names] at absent
      cases hlookup : fsLookup s.fs name with
      | none => rfl
      | some i => rw [hlookup] at absent; cases absent
    have hpush := h.push (f := newFile name s.memUsed) hi (text_take name) (hopens ⟨fs, hlookup, hi, room⟩)
    exact hpush.congr rfl rfl rfl

theorem TableOpens.createDir (h : TableOpens s) {b : Bool} (hrun : (fsCreateDir name).run s = some (b, t))
    (hopens : s.AddsDir name → OpensAs s.fs.liveFiles (name.take 31) 0#64 true) : TableOpens t := by
  by_cases hexists : fsDirExists name s.fs.liveDirs = some true
  · rw [fsCreateDir, run_get_bind, if_neg h.active, run_ofOption_bind, hexists] at hrun
    cases hrun
    exact h
  cases fsCreateDir_outcome hrun with
  | existing => exact h
  | refused => exact h
  | tooLong _ hi => exact h.congr rfl rfl rfl
  | @created fs hi p path fits =>
    rw [FsState.listDir]
    split
    · rename_i hcount
      have hadds : s.AddsDir name := ⟨fs, hexists, hi, ⟨p, path, fits⟩, hcount⟩
      have hdir : TableOpens (s.dirSlot s.fs.dirCount hi ⟨Buf.ofText 32 (name.take 31), path⟩ (s.fs.dirCount + 1)) :=
        h.congr rfl rfl rfl
      exact hdir.push hcount (f := dirFile name) (text_take name) (hopens hadds)
    · exact h.congr rfl rfl rfl

/-! ## The boot archive -/

/-- Each entry of the archive that `fs_init` adds to the table opens as what it is. -/
def ImportOpens : List RamFile → FsState → Prop
  | [], _ => True
  | src :: rest, s => s.fs.fileCount < fsMaxFiles → ∀ name, cstrAt s.mem src.name (2 ^ 64) = some name →
    if name.chars.getLast? = some 0x2F#8 then
      ∀ b dir, importDirName name = some b → b.text = some dir →
        (s.AddsDir dir → OpensAs s.fs.liveFiles (dir.take 31) 0#64 true) ∧
          ∀ r t, (fsCreateDir dir).run s = some (r, t) → ImportOpens rest t
    else
      (¬s.memUsed + src.size > poolSize → OpensAs s.fs.liveFiles (name.take 31) src.size false) ∧
        ∀ t, (importFile src name).run s = some (true, t) → ImportOpens rest t

theorem TableOpens.import {srcs : List RamFile} (h : TableOpens s) (hopens : ImportOpens srcs s)
    (hrun : (fsImport srcs).run s = some ((), t)) : TableOpens t := by
  induction srcs generalizing s with
  | nil =>
    cases hrun
    exact h
  | cons src rest ih =>
    cases fsImport_outcome hrun with
    | full _ same =>
      rw [same]
      exact h
    | @dir hi name dir b r u hname hslash hcut htext create next =>
      have hentry := hopens hi name hname
      rw [if_pos hslash] at hentry
      obtain ⟨hadd, hrest⟩ := hentry b dir hcut htext
      exact ih (h.createDir create hadd) (hrest r u create) next
    | @file hi name u hname hslash copied next =>
      have hentry := hopens hi name hname
      rw [if_neg hslash] at hentry
      obtain ⟨hadd, hrest⟩ := hentry
      have himported := copied
      obtain ⟨hroom, -, rfl⟩ := (importFile_outcome hi copied).resolve_left fun h => by cases h.2.1
      have hpush := h.push (f := importedFile name src s.memUsed) hi (text_take name) (hadd hroom)
      have hnext : TableOpens (s.imported hi name src) := hpush.congr rfl rfl rfl
      exact ih hnext (hrest _ himported) next
    | noMemory hi _ _ failed =>
      obtain ⟨-, -, rfl⟩ := (importFile_outcome hi failed).resolve_right fun h => by cases h.2.1
      exact h.writeFree hi

/-! ## The records of an image -/

/-- Every record that a listing of the directory shows has a plain name of at most 31 characters, and
the first record of the root directory with that name leads to an inode of the same size and kind. -/
def SharesRoot (e : Ext2) (m : Memory) (p : Ptr) : Prop :=
  ∃ root, ext2ReadInode e m 2#32 = some (some root) ∧ inodeIsDir m root = true ∧ DirInside e m root ∧
    ∀ d ∈ shownItems (dirItems e m p), ∀ inode, ext2ReadInode e m d.inode = some (some inode) →
      d.name.length ≤ 31 ∧ ∀ f, itemFile e m d = some f → ∃ name i q,
        f.name.text = some name ∧ name.length ≠ 0 ∧ 0x2F#8 ∉ name.chars ∧
        (dirItems e m root).find? (fun i => i.name = name.chars) = some i ∧
        ext2ReadInode e m i.inode = some (some q) ∧
        (inodeFileSize m q).setWidth 64 = f.size ∧ inodeIsDir m q = f.isDir

section

variable {e : Ext2} {m : Memory} {p : Ptr}

/-- A plain name leads to the first record of the root directory with the name. -/
theorem ext2FindInodeByPath_name {root : Ptr} (hroot : ext2ReadInode e m 2#32 = some (some root))
    (hdir : inodeIsDir m root = true) (hin : DirInside e m root) (hne : name.length ≠ 0)
    (hslash : 0x2F#8 ∉ name.chars) (hlen : name.length ≤ 127) : ext2FindInodeByPath e m name =
      match (dirItems e m root).find? fun i => i.name = name.chars with
      | none => some none
      | some i => ext2ReadInode e m i.inode := by
  have hnil : name.chars ≠ [] := fun h => hne (congrArg List.length h)
  have hcomponents : pathComponents name.chars = [name.chars] := Path.components_single hslash hnil
  rw [ext2FindInodeByPath_eq hne, hroot, CString.take_of_length_le hlen]
  dsimp only
  rw [hcomponents, ext2Resolve, Path.walk_single, ext2Lookup, if_neg (by simp [hdir]), ext2ScanDir_eq name.nonzero hin]
  cases (dirItems e m root).find? fun i => i.name = name.chars <;> rfl

/-- Where the names of the records fit, a listing of them comes back. -/
theorem listItems_total (hdef : NoDivision e m) {ds : List DirItem} {acc : List FsFile}
    (hname : ∀ d ∈ shownItems ds, ∀ inode, ext2ReadInode e m d.inode = some (some inode) → d.name.length ≤ 31) :
    ∃ files, listItems e m ds acc = some files := by
  induction ds generalizing acc with
  | nil => exact ⟨acc, rfl⟩
  | cons d ds ih =>
    have hrest : ∀ d' ∈ shownItems ds, d' ∈ shownItems (d :: ds) := fun d' hd' =>
      List.mem_filter.mpr ⟨List.mem_cons_of_mem _ (List.mem_of_mem_filter hd'), (List.mem_filter.mp hd').2⟩
    have ih := fun acc => @ih acc fun d' hd' => hname d' (hrest d' hd')
    rw [listItems]
    by_cases hroom : acc.length < fsMaxFiles
    · rw [if_pos hroom]
      by_cases hdot : isDotName d.name = true
      · rw [if_pos hdot]
        exact ih acc
      · rw [if_neg hdot]
        obtain ⟨o, hread⟩ := hdef d.inode
        rw [hread]
        cases o with
        | none => exact ih acc
        | some inode =>
          have hlen := hname d (List.mem_filter.mpr ⟨List.mem_cons_self, by simp [hdot]⟩) inode hread
          obtain ⟨b, hb⟩ := ext2ListName_isSome hlen
          dsimp only
          rw [hb, Option.bind_some]
          exact ih _
    · rw [if_neg hroom]
      exact ⟨acc, rfl⟩

/-- A listing shows entries of items. -/
theorem listItems_mem {ds : List DirItem} {acc : List FsFile} (h : listItems e m ds acc = some files)
    (hf : f ∈ files) : f ∈ acc ∨ ∃ d ∈ shownItems ds, itemFile e m d = some f := by
  induction ds generalizing acc with
  | nil =>
    cases h
    exact Or.inl hf
  | cons d ds ih =>
    have hmore : ∀ {d' : DirItem}, d' ∈ shownItems ds → d' ∈ shownItems (d :: ds) := fun hd' =>
      List.mem_filter.mpr ⟨List.mem_cons_of_mem _ (List.mem_of_mem_filter hd'), (List.mem_filter.mp hd').2⟩
    have hskip : listItems e m ds acc = some files → f ∈ acc ∨ ∃ d' ∈ shownItems (d :: ds), itemFile e m d' = some f := by
      intro h
      rcases ih h with hacc | ⟨d', hd', hfile⟩
      · exact Or.inl hacc
      · exact Or.inr ⟨d', hmore hd', hfile⟩
    rw [listItems] at h
    by_cases hroom : acc.length < fsMaxFiles
    · rw [if_pos hroom] at h
      by_cases hdot : isDotName d.name = true
      · rw [if_pos hdot] at h
        exact hskip h
      · rw [if_neg hdot] at h
        cases hread : ext2ReadInode e m d.inode with
        | none => rw [hread] at h; cases h
        | some o =>
          rw [hread] at h
          cases o with
          | none => exact hskip h
          | some inode =>
            obtain ⟨b, hb, h⟩ := Option.bind_eq_some_iff.mp h
            rcases ih h with hacc | ⟨d', hd', hfile⟩
            · rcases List.mem_append.mp hacc with hacc | hacc
              · exact Or.inl hacc
              · obtain rfl := List.mem_singleton.mp hacc
                refine Or.inr ⟨d, List.mem_filter.mpr ⟨List.mem_cons_self, by simp [hdot]⟩, ?_⟩
                rw [itemFile, hread]
                exact congrArg (Option.map (inodeFile m inode)) hb
            · exact Or.inr ⟨d', hmore hd', hfile⟩
    · rw [if_neg hroom] at h
      cases h
      exact Or.inl hf

end

/-- A mounted image, whose root directory and working directory show names of the root. -/
structure ImageOpens (s : FsState) : Prop where
  inImage : InImage s
  root : ∀ p, ext2ReadInode s.ext2 s.mem 2#32 = some (some p) → inodeIsDir s.mem p = true →
    SharesRoot s.ext2 s.mem p
  cwd : ∀ c p, s.fs.currentDir.text = some c → ext2FindInodeByPath s.ext2 s.mem c = some (some p) →
    inodeIsDir s.mem p = true → SharesRoot s.ext2 s.mem p

/-- Another working directory, which shows names of the root. -/
theorem ImageOpens.congr (h : ImageOpens s) (hin : InImage t) (hmem : t.mem = s.mem) (d : Buf fsMaxPath)
    (files : List FsFile) (g : FsFile) (hext : t.ext2 = s.ext2.withTables d files g)
    (hcwd : ∀ c p, t.fs.currentDir.text = some c → ext2FindInodeByPath s.ext2 s.mem c = some (some p) →
      inodeIsDir s.mem p = true → SharesRoot s.ext2 s.mem p) : ImageOpens t where
  inImage := hin
  root := by
    rw [hext, hmem]
    exact h.root
  cwd := by
    rw [hext, hmem]
    intro c p hc hfind hdir
    rw [withTables_find] at hfind
    exact hcwd c p hc hfind hdir

/-- Where the root can be looked up, the working directory is listed. -/
theorem ImageOpens.lists (h : ImageOpens s) (hroot : ext2ReadInode s.ext2 s.mem 2#32 ≠ none) :
    (fsList.run s).isSome = true := by
  obtain ⟨hfs, c, hc, hhead⟩ := h.inImage
  have hne : c.length ≠ 0 := by
    intro hzero
    rw [CString.length_eq_zero.mp hzero] at hhead
    cases hhead
  rw [fsList, run_get_bind, if_pos hfs, run_ofOption_bind, hc, Option.bind_some, ext2List_run,
    ext2FindInodeByPath_eq hne]
  cases hread : ext2ReadInode s.ext2 s.mem 2#32 with
  | none => exact absurd hread hroot
  | some o =>
    cases o with
    | none => rfl
    | some root =>
      have hdef := noDivision_of_root hread
      have hfind := ext2FindInodeByPath_eq (e := s.ext2) (m := s.mem) hne
      rw [hread] at hfind
      dsimp only at hfind ⊢
      rw [ext2Resolve_eq hdef] at hfind ⊢
      rw [Option.bind_some]
      cases hdir : (pathComponents (c.take 127).chars).foldl
          (fun current n => current.bind fun p => dirLookup s.ext2 s.mem p n) (some root) with
      | none => rfl
      | some dir =>
        dsimp only
        by_cases hisDir : inodeIsDir s.mem dir = true
        · rw [hdir] at hfind
          obtain ⟨_, -, -, -, hshared⟩ := h.cwd c dir hc hfind hisDir
          have hnames := fun d hd inode hinode => (hshared d hd inode hinode).1
          have htotal : ∃ files, listItems s.ext2 s.mem _ [] = some files := listItems_total hdef hnames
          obtain ⟨files, hlist⟩ := htotal
          rw [if_pos hisDir, hlist]
          rfl
        · rw [if_neg hisDir]
          rfl

/-- On an image, the working directory is what a listing shows. -/
theorem ImageOpens.listOpens (h : ImageOpens s) : ListOpens s := by
  refine ⟨?_, fun files t hlist f hf => ?_⟩
  · by_cases hroot : ext2ReadInode s.ext2 s.mem 2#32 = none
    · exact Or.inr ⟨h.inImage.active, hroot⟩
    · exact Or.inl (h.lists hroot)
  obtain ⟨hfs, c, hc, -⟩ := h.inImage
  rw [fsList, run_get_bind, if_pos hfs, run_ofOption_bind, hc, Option.bind_some, ext2List_run,
    Option.bind_eq_some_iff] at hlist
  obtain ⟨o, hfind, hlist⟩ := hlist
  cases o with
  | none =>
    cases hlist
    cases hf
  | some dir =>
    dsimp only at hlist
    by_cases hdir : inodeIsDir s.mem dir = true
    · rw [if_pos hdir, Option.map_eq_some_iff] at hlist
      obtain ⟨listed, hitems, hlist⟩ := hlist
      cases hlist
      obtain ⟨root, hroot, hrootDir, hin, hshared⟩ := h.cwd c dir hc hfind hdir
      obtain ⟨d, hd, hfile⟩ := (listItems_mem hitems hf).resolve_left (by simp)
      obtain ⟨inode, -, hinode, -, -⟩ := itemFile_some hfile
      obtain ⟨name, i, q, hname, hlen, hslash, hi, hq, hsize, hkind⟩ := (hshared d hd inode hinode).2 f hfile
      have hshort := Buf.length_lt_of_text hname
      have hopen := ext2FindInodeByPath_name hroot hrootDir hin hlen hslash (by omega)
      rw [hi] at hopen
      -- the state in which the name is opened
      generalize ht : ({ s with ext2 := s.ext2.withTables s.ext2.currentDir files s.ext2.opened } : FsState) = t
      have hfind : ext2FindInodeByPath t.ext2 t.mem name = some (some q) := by
        rw [← ht, withTables_find, hopen]
        exact hq
      have hfound : (fsOpen name).run t = some (some .opened, t.openedAt name q) := by
        rw [fsOpen_ext2 (by rw [← ht]; exact hfs), ext2Open_run hlen, hfind]
        rfl
      have hmem : t.mem = s.mem := by rw [← ht]
      refine ⟨name, .opened, t.openedAt name q, inodeFile t.mem q _, hname, ?_, rfl, ?_, ?_⟩
      · rw [← hfound, ← ht]
        rfl
      · rw [hmem]
        exact hsize
      · rw [hmem]
        exact hkind
    · rw [if_neg hdir] at hlist
      cases hlist
      cases hf

/-! ## Calls on an image -/

theorem ext2FindInodeByPath_slash {e : Ext2} {m : Memory} {p : Ptr}
    (h : ext2FindInodeByPath e m slash = some (some p)) : ext2ReadInode e m 2#32 = some (some p) := by
  obtain ⟨root, hroot, hwalk⟩ := (ext2FindInodeByPath_some (by decide)).mp h
  have hnil : pathComponents (slash.take 127).chars = [] := rfl
  rw [hnil] at hwalk
  cases hwalk
  exact hroot

theorem ImageOpens.createFile (h : ImageOpens s) {r : Option FileRef}
    (hrun : (fsCreateFile name).run s = some (r, t)) : ImageOpens t := by
  have hfs := h.inImage.active
  cases fsCreateFile_outcome hrun with
  | existing found =>
    rw [fsOpen_ext2 hfs] at found
    by_cases hlen : name.length = 0
    · rw [ext2Open, if_pos hlen] at found
      cases found
    · rw [ext2Open_run hlen, Option.map_eq_some_iff] at found
      obtain ⟨o, -, hpair⟩ := found
      cases o with
      | none => cases hpair
      | some p =>
        cases hpair
        exact h.congr ⟨hfs, h.inImage.cwd⟩ rfl s.ext2.currentDir s.ext2.fileCache _ rfl h.cwd
  | refused => exact h
  | noMemory _ fs => exact absurd hfs fs
  | created _ fs => exact absurd hfs fs

theorem ImageOpens.createDir (h : ImageOpens s) {b : Bool} (hrun : (fsCreateDir name).run s = some (b, t)) :
    ImageOpens t := by
  have hfs := h.inImage.active
  cases fsCreateDir_outcome hrun with
  | existing fs => exact absurd hfs fs
  | refused => exact h
  | tooLong fs => exact absurd hfs fs
  | created fs => exact absurd hfs fs

theorem ImageOpens.changeDir (h : ImageOpens s) {b : Bool} (hrun : (fsChangeDir path).run s = some (b, t))
    (hshares : ∀ c p, s.fs.currentDir.text = some c → s.target c path = some (some p) →
      inodeIsDir s.mem p = true → SharesRoot s.ext2 s.mem p) : ImageOpens t := by
  have hstep : DirStep s path t := ⟨b, hrun⟩
  have hin := h.inImage.step hstep
  obtain ⟨hfs, c, hc, hhead⟩ := h.inImage
  cases hstep.outcome hfs hc hhead with
  | refused => exact h
  | root _ hd =>
    refine h.congr hin rfl s.ext2.currentDir s.ext2.fileCache s.ext2.opened rfl ?_
    intro c' p hc' hfind hdir
    obtain rfl : slash = c' := Option.some.inj (hd.symm.trans hc')
    exact h.root p (ext2FindInodeByPath_slash hfind) hdir
  | @moved _ p htarget hdir =>
    refine h.congr hin rfl _ s.ext2.fileCache s.ext2.opened rfl ?_
    intro c' p' hc' hfind hdir'
    rw [movedTo_text (length_take_le _)] at hc'
    obtain rfl := Option.some.inj hc'
    exact hshares c p' hc hfind hdir'

theorem TableOpens.changeDir (h : TableOpens s) {b : Bool} (hrun : (fsChangeDir path).run s = some (b, t)) :
    TableOpens t := by
  cases fsChangeDir_outcome hrun with
  | refused => exact h
  | root => exact h.congr rfl rfl rfl
  | ext2 fs => exact absurd fs h.active
  | dir => exact h.congr rfl rfl rfl

/-! ## Starting -/

theorem fsImport_currentDir {srcs : List RamFile} (hrun : (fsImport srcs).run s = some ((), t)) :
    t.fs.currentDir = s.fs.currentDir := by
  refine fsImport_invariant (I := fun u => u.fs.currentDir = s.fs.currentDir) (fun hcur hcreate => ?_)
    (fun _ _ hcur hi himport => ?_) rfl hrun
  · rw [← hcur]
    cases fsCreateDir_outcome hcreate with
    | existing => rfl
    | refused => rfl
    | tooLong => rfl
    | created =>
      rw [FsState.listDir]
      split <;> rfl
  · rw [← hcur]
    rcases importFile_outcome hi himport with ⟨-, -, rfl⟩ | ⟨-, -, rfl⟩ <;> rfl

theorem fsMountImages_currentDir {files : List FsFile} (hrun : (fsMountImages files).run s = some ((), t)) :
    t.fs.currentDir = s.fs.currentDir := by
  rcases fsMountImages_outcome hrun with ⟨f, -, hmount⟩ | rfl
  · exact (fsMountExt2_mounted hmount).2.1
  · rfl

/-- After `fs_init`, whatever was there before. -/
theorem fsInit_opens (hrun : fsInit.run s = some ((), t)) (hopens : ImportOpens s.ramfs { s with fs := rootMount })
    (hroot : t.fs.activeFs = .ext2 → ∀ p, ext2ReadInode t.ext2 t.mem 2#32 = some (some p) →
      inodeIsDir t.mem p = true → SharesRoot t.ext2 t.mem p) : TableOpens t ∨ ImageOpens t := by
  rw [fsInit_run, run_get_bind, run_bind_iff] at hrun
  obtain ⟨_, s₁, himport, hrun⟩ := hrun
  rw [run_get_bind] at hrun
  have hempty : TableOpens { s with fs := rootMount } := ⟨nofun, Nat.zero_le _, fun f hf => by cases hf⟩
  have htable := hempty.import hopens himport
  have hcwd : s₁.fs.currentDir = Buf.ofText fsMaxPath slash := fsImport_currentDir himport
  have htext : (Buf.ofText fsMaxPath slash).text = some slash := Buf.text_ofText (by decide)
  rcases fsMountImages_run hrun with hext2 | rfl
  · have hdir : t.fs.currentDir.text = some slash := by rw [fsMountImages_currentDir hrun, hcwd, htext]
    refine Or.inr ⟨⟨hext2, slash, hdir, rfl⟩, hroot hext2, fun c p hc hfind => ?_⟩
    obtain rfl : slash = c := Option.some.inj (hdir.symm.trans hc)
    exact hroot hext2 p (ext2FindInodeByPath_slash hfind)
  · exact Or.inl htable

/-! ## Runs -/

/-- A call that changes what is listed. -/
inductive TreeOp where
  | init
  | changeDir (path : CString)
  | createFile (name : CString)
  | createDir (name : CString)

def TreeOp.run : TreeOp → FsM Unit
  | .init => fsInit
  | .changeDir path => do let _ ← fsChangeDir path
  | .createFile name => do let _ ← fsCreateFile name
  | .createDir name => do let _ ← fsCreateDir name

/-- An entry that the call adds to the table opens as what it is, and a directory of an image that the
call makes the working directory shows names of the root. -/
def TreeOp.Opens (s : FsState) : TreeOp → Prop
  | .init => ImportOpens s.ramfs { s with fs := rootMount } ∧
    ∀ t, fsInit.run s = some ((), t) → t.fs.activeFs = .ext2 →
      ∀ p, ext2ReadInode t.ext2 t.mem 2#32 = some (some p) → inodeIsDir t.mem p = true →
        SharesRoot t.ext2 t.mem p
  | .changeDir path => s.fs.activeFs = .ext2 → ∀ c p, s.fs.currentDir.text = some c →
    s.target c path = some (some p) → inodeIsDir s.mem p = true → SharesRoot s.ext2 s.mem p
  | .createFile name => s.AddsFile name → OpensAs s.fs.liveFiles (name.take 31) 0#64 false
  | .createDir name => s.AddsDir name → OpensAs s.fs.liveFiles (name.take 31) 0#64 true

def TreeStep (s : FsState) (op : TreeOp) (t : FsState) : Prop := op.run.run s = some ((), t)

/-- A step whose call keeps to the condition. -/
def ListStep (s : FsState) (op : TreeOp) (t : FsState) : Prop := op.Opens s ∧ TreeStep s op t

theorem ListStep.opens {op : TreeOp} (h : TableOpens s ∨ ImageOpens s) (hstep : ListStep s op t) :
    TableOpens t ∨ ImageOpens t := by
  obtain ⟨hopens, hrun⟩ := hstep
  cases op with
  | init => exact fsInit_opens hrun hopens.1 (hopens.2 t hrun)
  | changeDir path =>
    obtain ⟨b, hcall⟩ := run_discard_iff.mp hrun
    rcases h with h | h
    · exact Or.inl (h.changeDir hcall)
    · exact Or.inr (h.changeDir hcall (hopens h.inImage.active))
  | createFile name =>
    obtain ⟨r, hcall⟩ := run_discard_iff.mp hrun
    rcases h with h | h
    · exact Or.inl (h.createFile hcall hopens)
    · exact Or.inr (h.createFile hcall)
  | createDir name =>
    obtain ⟨b, hcall⟩ := run_discard_iff.mp hrun
    rcases h with h | h
    · exact Or.inl (h.createDir hcall hopens)
    · exact Or.inr (h.createDir hcall)

/-- **Listing and opening agree** in every state that calls that keep to the condition lead to from the
empty tables before the boot. -/
theorem list_opens (s₀ s : FsState) (ops : List TreeOp) (start : s₀.fs = FsMount.zero)
    (run : Run ListStep s₀ ops s) : ListOpens s := by
  have hstart : TableOpens s₀ := by
    refine ⟨?_, ?_, ?_⟩
    · rw [start]
      nofun
    · rw [start]
      exact Nat.zero_le _
    · rw [start]
      intro f hf
      cases hf
  have hinv := run.invariant (I := fun s => TableOpens s ∨ ImageOpens s)
    (fun _ _ _ h hstep => ListStep.opens h hstep) (Or.inl hstart)
  rcases hinv with h | h
  · exact h.files.listOpens h.active h.count
  · exact h.listOpens

/-- A directory, made after the boot without an archive. -/
theorem list_opens_emptyFs : ∃ s : FsState, s.fs.fileCount = 1 ∧ ListOpens s := by
  have hinit : ListStep FsState.zero .init emptyFs := by
    refine ⟨⟨trivial, fun t hrun hext2 => ?_⟩, rfl⟩
    have hsame : fsInit.run FsState.zero = some ((), emptyFs) := rfl
    rw [hsame] at hrun
    cases hrun
    cases hext2
  have hdir : ListStep emptyFs (.createDir (CString.ofChars ['d'])) _ :=
    ⟨fun _ => ⟨by decide, fun f hf => by cases hf⟩, rfl⟩
  exact ⟨_, rfl, list_opens FsState.zero _ _ rfl (Run.snoc (Run.snoc (.nil _) hinit) hdir)⟩

/-! ## Names that are listed twice -/

def dName : CString := CString.ofChars ['d']

theorem twiceFs_run : ((do
    fsInit
    let _ ← fsCreateFile dName
    let _ ← fsCreateDir dName : FsM Unit).run FsState.zero).isSome = true := by decide +kernel

/-- A file `d` and then a directory `d` were made. -/
def twiceFs : FsState := (((do
    fsInit
    let _ ← fsCreateFile dName
    let _ ← fsCreateDir dName : FsM Unit).run FsState.zero).get twiceFs_run).2

/-- The directory is listed, and its name opens the file. -/
theorem twiceFs_not_listOpens : (∃ ops, Run TreeStep FsState.zero ops twiceFs) ∧ ¬ListOpens twiceFs := by
  refine ⟨?_, fun h => ?_⟩
  · have hrun := eq_some_get twiceFs_run (Subsingleton.elim _ ())
    rw [run_bind_iff] at hrun
    obtain ⟨_, s₁, hinit, hrun⟩ := hrun
    rw [run_bind_iff] at hrun
    obtain ⟨r, s₂, hcreate, hdir⟩ := hrun
    have hfile : TreeStep s₁ (.createFile dName) s₂ := by
      rw [TreeStep, TreeOp.run, run_bind_eq hcreate]
      rfl
    have hstart : TreeStep FsState.zero .init s₁ := hinit
    have hlast : TreeStep s₂ (.createDir dName) twiceFs := hdir
    exact ⟨_, Run.snoc (Run.snoc (Run.snoc (.nil _) hstart) hfile) hlast⟩
  · have hlist : fsList.run twiceFs = some (twiceFs.fs.liveFiles, twiceFs) := by
      rw [fsList, run_get_bind, if_neg (by decide +kernel)]
      rfl
    have hentries : twiceFs.fs.liveFiles.map (fun f => (f.name.text, f.isDir)) =
        [(some dName, false), (some dName, true)] := by decide +kernel
    have hfirst : (((fsOpen dName).run twiceFs).bind fun r => r.1.bind fun file =>
        (r.2.file? file).map FsFile.isDir) = some false := by decide +kernel
    have hmem : (some dName, true) ∈ twiceFs.fs.liveFiles.map fun f => (f.name.text, f.isDir) := by
      rw [hentries]
      decide
    obtain ⟨f, hf, hpair⟩ := List.mem_map.mp hmem
    obtain ⟨hname, hdir⟩ := Prod.mk.inj hpair
    obtain ⟨name, file, u, g, htext, hopen, hfile, -, hkind⟩ := h.opens _ _ hlist f hf
    obtain rfl : dName = name := Option.some.inj (hname.symm.trans htext)
    rw [hopen, Option.bind_some, Option.bind_some, hfile, Option.map_some, hkind, hdir] at hfirst
    cases hfirst

end PpoOS
