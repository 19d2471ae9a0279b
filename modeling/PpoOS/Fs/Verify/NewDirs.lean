import Mathlib.Data.List.Find
import PpoOS.Fs.Verify.Creates

/-!
# Making a directory and going there

`fs_create_dir` looks for the bare name among all directories and stores the first 31
characters of it, with a path that it builds from the working directory.
**`createDir_navigates_iff`**: `fs_change_dir` then leads to that path exactly where
the first directory of that name, if there is one, has it, and a new name is not cut.
-/

namespace PpoOS

open FaultState FsM Transition

variable {s t : FsState} {d : FsDir} {name c : CString}

/-- A directory that was made is where `fs_change_dir` leads to, and is not made twice. -/
def DirAgrees (s : FsState) (name : CString) : Prop :=
  ∀ t, (fsCreateDir name).run s = some (true, t) →
    (∃ u, (fsChangeDir name).run t = some (true, u) ∧
      ∀ c, s.fs.currentDir.text = some c → u.fs.currentDir.text = some (joinDir c name)) ∧
    ∃ b u, (fsCreateDir name).run t = some (b, u) ∧ u.fs.dirCount = t.fs.dirCount

/-- The first directory with the name. -/
def FsMount.dirNamed (fs : FsMount) (name : CString) : Option FsDir :=
  fs.liveDirs.find? fun d => d.name.text = some name

/-- When the two calls agree. -/
inductive DirFits (s : FsState) (name : CString) : Prop
  /-- The first directory with the name is the one that is asked for. -/
  | existing {d : FsDir} (found : s.fs.dirNamed name = some d)
      (here : ∀ c, s.fs.currentDir.text = some c → d.path.text = some (joinDir c name))
  | new (absent : s.fs.dirNamed name = none) (short : name.length ≤ 31)
  /-- No directory is made: the table is full, or the path is too long. -/
  | refused (absent : s.fs.dirNamed name = none)
      (full : fsMaxDirs ≤ s.fs.dirCount ∨
        ∀ c, s.fs.currentDir.text = some c → fsMaxPath ≤ (joinDir c name).length)

section Runs

variable (h : s.fs.Named)
include h

theorem dirExists_run : fsDirExists name s.fs.liveDirs = some (s.fs.dirNamed name).isSome := by
  rw [fsDirExists_eq fun d hd => (h.liveDirs d hd).1, FsMount.dirNamed]
  refine congrArg some (Bool.eq_iff_iff.mpr ?_)
  rw [List.any_eq_true, List.find?_isSome]

/-- The directory exists already. -/
theorem createDir_existing (hfound : s.fs.dirNamed name = some d) :
    (fsCreateDir name).run s = some (true, s) := by
  rw [fsCreateDir, run_get_bind, if_neg h.notExt2, run_ofOption_bind, dirExists_run h, hfound,
    Option.bind_some]
  rfl

variable (hne : name.length ≠ 0) (hslash : 0x2F#8 ∉ name.chars)
include hne hslash

theorem changeDir_eq : (fsChangeDir name).run s = (do
    match s.fs.dirNamed name with
    | none => return false
    | some dir =>
      let dirPath ← ofOption dir.path.text
      let d ← ofOption (strcpy s.fs.currentDir dirPath)
      modifyFs fun fs => { fs with currentDir := d }
      return true : FsM Bool).run s := by
  have hroot : ¬strcmp name slash = 0 := by
    rw [strcmp_eq_zero]
    rintro rfl
    exact hslash (by decide)
  -- a name without a slash is not the path of a directory
  have hfind : s.fs.liveDirs.find? (fun d => d.answers name) = s.fs.dirNamed name := by
    refine List.find?_congr fun d hd => ?_
    have hpath : d.path.text ≠ some name := by
      intro hp
      have habs := h.absolute d hd name hp
      exact hslash (List.mem_of_mem_head? habs)
    rw [FsDir.answers, decide_eq_false hpath, Bool.or_false]
  rw [fsChangeDir, if_neg hne, run_get_bind, if_neg hroot, if_neg h.notExt2, run_ofOption_bind,
    fsFindDir_eq h.liveDirs, hfind]
  exact Option.bind_some _ _

theorem changeDir_absent (habsent : s.fs.dirNamed name = none) :
    (fsChangeDir name).run s = some (false, s) := by
  rw [changeDir_eq h hne hslash, habsent]
  rfl

theorem changeDir_found (hfound : s.fs.dirNamed name = some d) : ∃ u,
    (fsChangeDir name).run s = some (true, u) ∧ u.fs.currentDir.text = d.path.text := by
  obtain ⟨p, hp⟩ := Option.isSome_iff_exists.mp (h.liveDirs d (List.mem_of_find?_eq_some hfound)).2
  obtain ⟨q, hq⟩ := Option.isSome_iff_exists.mp
    ((@strcpy_isSome_iff _ s.fs.currentDir p).mpr (Buf.length_lt_of_text hp))
  rw [changeDir_eq h hne hslash, hfound]
  dsimp only
  rw [run_ofOption_bind, hp, Option.bind_some, run_ofOption_bind, hq, Option.bind_some, run_modifyFs_bind]
  exact ⟨_, rfl, strcpy_text hq⟩

/-- A directory that exists. -/
theorem dirAgrees_existing (hfound : s.fs.dirNamed name = some d) :
    DirAgrees s name ↔ ∀ c, s.fs.currentDir.text = some c → d.path.text = some (joinDir c name) := by
  have hrun := createDir_existing h hfound
  obtain ⟨u, hchange, hcwd⟩ := changeDir_found h hne hslash hfound
  constructor
  · intro hagrees c hc
    obtain ⟨⟨u', hu', hpath⟩, -⟩ := hagrees s hrun
    rw [hchange, Option.some.injEq, Prod.mk.injEq] at hu'
    rw [← hcwd, hu'.2]
    exact hpath c hc
  · intro hhere t hcall
    rw [hrun, Option.some.injEq, Prod.mk.injEq] at hcall
    obtain ⟨-, rfl⟩ := hcall
    exact ⟨⟨u, hchange, fun c hc => hcwd.trans (hhere c hc)⟩, true, s, hrun, rfl⟩

end Runs

/-! ## A new directory -/

theorem listDir_dirs (s : FsState) (name : CString) :
    (s.listDir name).fs.liveDirs = s.fs.liveDirs ∧ (s.listDir name).fs.dirCount = s.fs.dirCount ∧
      (s.listDir name).fs.currentDir = s.fs.currentDir := by
  unfold FsState.listDir
  split <;> exact ⟨rfl, rfl, rfl⟩

/-- What the calls find after a directory was added. -/
theorem dirNamed_push (habsent : s.fs.dirNamed name = none) {p : Buf fsMaxPath}
    (hlive : t.fs.liveDirs = s.fs.liveDirs ++ [⟨Buf.ofText 32 (name.take 31), p⟩]) :
    t.fs.dirNamed name =
      if name.length ≤ 31 then some ⟨Buf.ofText 32 (name.take 31), p⟩ else none := by
  unfold FsMount.dirNamed at *
  rw [hlive, List.find?_append, habsent, Option.none_or, List.find?_cons, text_take]
  by_cases hshort : name.length ≤ 31
  · rw [if_pos hshort, take_eq_self_iff.mpr hshort, decide_eq_true rfl]
  · have hne : ¬some (name.take 31) = some name := fun h => hshort (take_eq_self_iff.mp (Option.some.inj h))
    rw [if_neg hshort, decide_eq_false hne]
    rfl

/-- How a call ends that finds no directory of the name. -/
theorem createDir_absent (h : s.fs.Named) (habsent : s.fs.dirNamed name = none)
    (hc : s.fs.currentDir.text = some c) {b : Bool} (hrun : (fsCreateDir name).run s = some (b, t)) :
    (b = false ∧ (fsMaxDirs ≤ s.fs.dirCount ∨ fsMaxPath ≤ (joinDir c name).length)) ∨
      (b = true ∧ s.fs.dirCount < fsMaxDirs ∧ (joinDir c name).length < fsMaxPath ∧
        t.fs.currentDir = s.fs.currentDir ∧ ∃ p, p.text = some (joinDir c name) ∧
          t.fs.liveDirs = s.fs.liveDirs ++ [⟨Buf.ofText 32 (name.take 31), p⟩]) := by
  have hpath : ∀ p, _ := fun p => fsDirPath_eq name (p := p) hc
  cases fsCreateDir_outcome hrun with
  | existing _ found =>
    rw [dirExists_run h, habsent] at found
    cases found
  | refused full =>
    rcases full with hext2 | hfull
    · exact absurd hext2 h.notExt2
    · exact Or.inl ⟨rfl, Or.inl hfull⟩
  | tooLong _ _ d _ _ long =>
    refine Or.inl ⟨rfl, Or.inr (Nat.le_of_not_lt fun hlt => ?_)⟩
    have hfits := hpath d.path
    rw [if_pos hlt, long] at hfits
    obtain ⟨_, hq, -⟩ := hfits
    cases hq
  | @created _ hi p path fits =>
    have hfits := hpath p
    by_cases hlt : (joinDir c name).length < fsMaxPath
    · rw [if_pos hlt, fits] at hfits
      obtain ⟨q, hq, ht⟩ := hfits
      obtain rfl : path = q := by simpa using hq
      obtain ⟨hlive, -, hcur⟩ := listDir_dirs
        (s.dirSlot s.fs.dirCount hi ⟨Buf.ofText 32 (name.take 31), path⟩ (s.fs.dirCount + 1)) name
      exact Or.inr ⟨rfl, hi, hlt, hcur, path, ht, hlive.trans (liveDirs_set_next s.fs _ hi)⟩
    · rw [if_neg hlt, fits] at hfits
      cases hfits

/-- **Making a directory and going there agree** exactly where the first directory of that name is the
one asked for, or the name is new and short. -/
theorem createDir_navigates_iff (s : FsState) (name : CString) (h : FsReached s) (hne : name.length ≠ 0)
    (hslash : 0x2F#8 ∉ name.chars) : DirAgrees s name ↔ DirFits s name := by
  have hnamed := h.named
  obtain ⟨c, hc, -⟩ := hnamed.cwd
  cases hfound : s.fs.dirNamed name with
  | some d =>
    rw [dirAgrees_existing hnamed hne hslash hfound]
    refine ⟨.existing hfound, fun hfits => ?_⟩
    cases hfits with
    | existing found here =>
      rw [hfound, Option.some.injEq] at found
      rw [found]
      exact here
    | new absent => exact absurd (hfound.symm.trans absent) (Option.some_ne_none d)
    | refused absent => exact absurd (hfound.symm.trans absent) (Option.some_ne_none d)
  | none =>
    obtain ⟨⟨b, t⟩, hrun⟩ := Option.isSome_iff_exists.mp
      (fsCreateDir_ends hnamed.notExt2 hnamed.liveDirs hc name)
    rcases createDir_absent hnamed hfound hc hrun with ⟨rfl, hfull⟩ | ⟨rfl, hi, hlen, hcur, p, hp, hlive⟩
    · refine ⟨fun _ => .refused hfound (hfull.imp id fun hlong c' hc' => ?_), fun _ t' hrun' => ?_⟩
      · rw [hc, Option.some.injEq] at hc'
        rwa [← hc']
      · rw [hrun, Option.some.injEq, Prod.mk.injEq] at hrun'
        cases hrun'.1
    · have hnext := dirNamed_push hfound hlive
      have hnamed' := hnamed.createDir hrun
      constructor
      · intro hagrees
        refine .new hfound (Nat.le_of_not_lt fun hlong => ?_)
        rw [if_neg (Nat.not_le.mpr hlong)] at hnext
        obtain ⟨⟨u, hchange, -⟩, -⟩ := hagrees t hrun
        rw [changeDir_absent hnamed' hne hslash hnext] at hchange
        cases hchange
      · intro hfits t' hrun'
        rw [hrun, Option.some.injEq, Prod.mk.injEq] at hrun'
        obtain ⟨-, rfl⟩ := hrun'
        have hshort : name.length ≤ 31 := by
          cases hfits with
          | existing found => exact absurd (hfound.symm.trans found).symm (Option.some_ne_none _)
          | new _ short => exact short
          | refused _ full =>
            rcases full with hfull | hlong
            · exact absurd hi (Nat.not_lt.mpr hfull)
            · exact absurd hlen (Nat.not_lt.mpr (hlong c hc))
        rw [if_pos hshort] at hnext
        obtain ⟨u, hchange, hcwd⟩ := changeDir_found hnamed' hne hslash hnext
        refine ⟨⟨u, hchange, fun c' hc' => ?_⟩, true, t, createDir_existing hnamed' hnext, rfl⟩
        rw [hc, Option.some.injEq] at hc'
        rw [hcwd, ← hc']
        exact hp

theorem createDir_navigates_emptyFs : DirAgrees emptyFs fileA ↔ DirFits emptyFs fileA :=
  createDir_navigates_iff emptyFs fileA emptyFs_reached (by decide) (by decide)

/-! ## A directory of the same name elsewhere -/

/-- The state that a call leads to. -/
def FsOp.after (op : FsOp) (s : FsState) : FsState := ((op.run.run s).map Prod.snd).getD s

theorem FsReached.after {op : FsOp} (h : FsReached s) (hrun : (op.run.run s).isSome = true) :
    FsReached (op.after s) := by
  obtain ⟨s₁, ops, hstart, run⟩ := h
  obtain ⟨⟨_, t⟩, ht⟩ := Option.isSome_iff_exists.mp hrun
  refine ⟨s₁, _, hstart, run.snoc (l := op) ?_⟩
  rw [FsAnyStep, FsOp.after, ht]
  rfl

/-- `a` is made in `/`, and then `b`, and the working directory is `b`. -/
def inDirB : FsState :=
  (FsOp.changeDir fileB).after ((FsOp.createDir fileB).after ((FsOp.createDir fileA).after emptyFs))

theorem inDirB_not_agrees : FsReached inDirB ∧ fileA.length ≠ 0 ∧ 0x2F#8 ∉ fileA.chars ∧
    ¬DirAgrees inDirB fileA := by
  have hreached : FsReached inDirB := ((emptyFs_reached.after rfl).after rfl).after rfl
  refine ⟨hreached, by decide, by decide, ?_⟩
  have hfound : inDirB.fs.dirNamed fileA =
      some ⟨Buf.ofText 32 fileA, Buf.ofText fsMaxPath (slash ++ fileA)⟩ := by decide +kernel
  rw [dirAgrees_existing hreached.named (by decide) (by decide) hfound]
  intro hhere
  exact absurd (hhere (slash ++ fileB) (by decide +kernel)) (by decide +kernel)

end PpoOS
