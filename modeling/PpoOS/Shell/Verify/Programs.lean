import PpoOS.Shell.Shell
import PpoOS.Str.Token
import PpoOS.Fs.Verify.Archive
import PpoOS.Fs.Verify.Runs

/-!
# Running an installed program

`try_exec_elf_command` opens `dir/cmd` for the directories of `PATH`, in order.
**`tryExecElfCommand_run`**: it finds the first of these names that a file of the
table answers to.  The archive's names are relative, so none of the names that the
default `PATH` leads to is answered by a program below `bin/`
(**`installed_never_found`**).
-/

namespace PpoOS

open FaultState FsM

variable {s : FsState} {env : EnvTable} {cmd c tok paths entry name : CString}

/-! ## Tokens -/

theorem strtokR_rest_lt {delim l token rest : List U8} (h : strtokR delim l = some (token, rest)) :
    rest.length < l.length := by
  have hdrop : (l.drop (strspn delim l)).length ≤ l.length := by simp
  unfold strtokR at h
  cases hl : l.drop (strspn delim l) with
  | nil => simp [hl] at h
  | cons a t =>
    rw [hl] at hdrop
    cases hi : strpbrk delim (a :: t) with
    | none =>
      simp only [hl, hi, Option.some.injEq, Prod.mk.injEq] at h
      simp only [← h.2, List.length_nil]
      simp only [List.length_cons] at hdrop
      omega
    | some i =>
      simp only [hl, hi, Option.some.injEq, Prod.mk.injEq] at h
      simp only [← h.2, List.length_drop]
      simp only [List.length_cons] at hdrop ⊢
      omega

/-! ## The names that are tried -/

/-- The directory with a slash behind it. -/
def dirPrefix (tok : CString) : CString :=
  if (tok.take 255).length ≠ 0 ∧ (tok.take 255).chars.getLast? ≠ some 0x2F#8 then
    tok.take 255 ++ slash.take (256 - (tok.take 255).length - 1)
  else tok.take 255

/-- `cmd` in the directory `tok`. -/
def searchPath (tok cmd : CString) : CString :=
  dirPrefix tok ++ cmd.take (256 - (dirPrefix tok).length - 1)

/-- Joining within the bound of the array goes through. -/
theorem strncat_rest {n : Nat} {b : Buf n} (h : b.text = some c) (src : CString) :
    ∃ d, strncat b src (n - c.length - 1) = some d ∧ d.text = some (c ++ src.take (n - c.length - 1)) := by
  have hlt := Buf.length_lt_of_text h
  exact strncat_some h src (by omega)

theorem pathBuffer_eq (tok cmd : CString) : pathBuffer tok cmd = some (searchPath tok cmd) := by
  have htext : (Buf.ofText 256 (tok.take 255)).text = some (tok.take 255) :=
    Buf.text_ofText (take_length_lt (n := 256) tok (Nat.succ_pos _))
  have hcmd : ∀ {b : Buf 256}, b.text = some (dirPrefix tok) → (do
      let path ← strncat b cmd (256 - (← b.text).length - 1)
      path.text) = some (searchPath tok cmd) := by
    intro b hb
    obtain ⟨d, hd, hname⟩ := strncat_rest hb cmd
    rw [hb, Option.bind_eq_bind, Option.bind_some, hd, Option.bind_eq_bind, Option.bind_some, hname, searchPath]
  rw [pathBuffer, strncpyCut_eq (n := 256) _ _ (Nat.succ_pos _), Option.bind_eq_bind, Option.bind_some,
    Nat.add_one_sub_one, htext, Option.bind_eq_bind, Option.bind_some]
  by_cases hslash : (tok.take 255).length ≠ 0 ∧ (tok.take 255).chars.getLast? ≠ some 0x2F#8
  · obtain ⟨b, hb, hdir⟩ := strncat_rest htext slash
    rw [if_pos hslash, hb, Option.bind_some]
    exact hcmd (by rw [hdir, dirPrefix, if_pos hslash])
  · rw [if_neg hslash]
    exact hcmd (by rw [htext, dirPrefix, if_neg hslash])

/-! ## The search -/

/-- What the search finds in the directory `dir`. -/
def FsState.program (s : FsState) (cmd : CString) (dir : List U8) : Option (CString × FileRef) :=
  (fsLookup s.fs (searchPath (cstringOf dir) cmd)).map fun i => (searchPath (cstringOf dir) cmd, .slot i)

theorem tryExecLoop_run (h : s.Inv) {fuel : Nat} {rest : List U8} (hfuel : rest.length < fuel) :
    (tryExecLoop cmd fuel rest).run s =
      some ((strtokTokens [0x3A#8] fuel rest).findSome? (s.program cmd), s) := by
  induction fuel generalizing rest with
  | zero => omega
  | succ fuel ih =>
    rw [tryExecLoop, strtokTokens]
    cases htok : strtokR [0x3A#8] rest with
    | none => rfl
    | some t =>
      obtain ⟨tok, rest'⟩ := t
      have hlt := strtokR_rest_lt htok
      simp only [run_ofOption_bind, pathBuffer_eq, Option.bind_some, List.findSome?_cons, FsState.program]
      have hopen : (fsOpen (searchPath (cstringOf tok) cmd)).run s =
          some ((fsLookup s.fs (searchPath (cstringOf tok) cmd)).map .slot, s) :=
        fsOpen_run (by rw [h.active]; decide) h.liveNames
      rw [run_bind_eq hopen]
      cases fsLookup s.fs (searchPath (cstringOf tok) cmd) with
      | some i => rfl
      | none => exact ih (by omega)

/-- The directories of `PATH`. -/
def searchDirs (paths : CString) : List (List U8) :=
  strtokTokens [0x3A#8] ((paths.take 255).length + 1) (paths.take 255).chars

/-- **`try_exec_elf_command`** finds the first name that a file of the table answers to. -/
theorem tryExecElfCommand_run (h : s.Inv) (hpaths : shellPaths env = some paths) :
    (tryExecElfCommand env cmd).run s = some ((searchDirs paths).findSome? (s.program cmd), s) := by
  have htext : (Buf.ofText 256 (paths.take 255)).text = some (paths.take 255) :=
    Buf.text_ofText (take_length_lt (n := 256) paths (Nat.succ_pos _))
  rw [tryExecElfCommand, run_ofOption_bind, hpaths, Option.bind_some, strncpyCut_eq (n := 256) _ _ (Nat.succ_pos _),
    run_ofOption_bind, Option.bind_some, run_ofOption_bind, htext, Option.bind_some]
  exact tryExecLoop_run h (Nat.lt_succ_self _)

/-! ## Programs of the boot archive -/

/-- `"bin/"` -/
def binSlash : CString := CString.ofChars ['b', 'i', 'n', '/']

/-- The entry is the program `c` of `bin/`, as `find . | cpio` names it or without the `./`. -/
def Installed (c entry : CString) : Prop := entry = dotSlash ++ binSlash ++ c ∨ entry = binSlash ++ c

theorem stripDot_of_prefix {t : CString} : stripDot (dotSlash ++ t) = t := by
  have hdot : strncmp (dotSlash ++ t) dotSlash 2 = 0 := strncmp_dotSlash.mpr ⟨t.chars, rfl⟩
  rw [stripDot, if_pos hdot]
  rfl

theorem stripDot_of_head (h : name.chars.head? ≠ some 0x2E#8) : stripDot name = name := by
  have hdot : strncmp name dotSlash 2 ≠ 0 := by
    intro hcmp
    obtain ⟨l, hl⟩ := strncmp_dotSlash.mp hcmp
    apply h
    rw [← hl]
    rfl
  rw [stripDot, if_neg hdot]

/-- Behind a leading `./`, an installed program has a relative name with a slash in it. -/
theorem Installed.relative (h : Installed c entry) : stripDot entry = binSlash ++ c := by
  rcases h with rfl | rfl
  · exact stripDot_of_prefix (t := binSlash ++ c)
  · exact stripDot_of_head (by decide : some 0x62#8 ≠ some 0x2E#8)

theorem Installed.slash_mem (h : Installed c entry) : 0x2F#8 ∈ entry.chars := by
  rcases h with rfl | rfl
  · exact List.mem_append_left _ (by decide)
  · exact List.mem_append_left _ (by decide)

theorem Installed.head_ne (h : Installed c entry) : entry.chars.head? ≠ some 0x2F#8 := by
  rcases h with rfl | rfl
  · exact (by decide : some 0x2E#8 ≠ some 0x2F#8)
  · exact (by decide : some 0x62#8 ≠ some 0x2F#8)

/-- It does not answer to an absolute name. -/
theorem Installed.not_answers_absolute (h : Installed c entry) (habs : name.chars.head? = some 0x2F#8) :
    ¬Answers entry name := by
  have hstrip : stripDot name = name := stripDot_of_head (by rw [habs]; decide)
  have htake : (name.take 31).chars.head? = some 0x2F#8 := by
    rw [CString.chars_take, List.head?_take, if_neg (by decide), habs]
  rw [Answers, h.relative, hstrip]
  rintro (heq | heq | heq)
  · rw [← heq] at htake
    exact absurd htake (by decide : some 0x62#8 ≠ some 0x2F#8)
  · rw [← heq] at htake
    exact h.head_ne htake
  · rw [← heq] at habs
    exact h.head_ne habs

/-- It does not answer to a name in the directory `.`. -/
theorem Installed.not_answers_dot (h : Installed c entry) (hc : 0x2F#8 ∉ c.chars) :
    ¬Answers entry (dotSlash ++ c) := by
  have hcut : 0x2F#8 ∉ (c.take 31).chars := fun hm => hc (List.mem_of_mem_take hm)
  rw [Answers, h.relative, stripDot_of_prefix]
  rintro (heq | heq | heq)
  · apply hcut
    rw [← heq]
    exact List.mem_append_left _ (by decide)
  · apply hcut
    rw [← heq]
    exact h.slash_mem
  · -- the lengths differ
    have hlen := congrArg CString.length heq
    have hbin : binSlash.length = 4 := rfl
    have hdot : dotSlash.length = 2 := rfl
    rcases h with rfl | rfl
    · simp only [CString.length_append] at hlen
      omega
    · simp only [CString.length_append] at hlen
      omega

/-! ## The default `PATH` -/

/-- The three names that are tried. -/
theorem searchDirs_default : (searchDirs defaultPath).map cstringOf =
    [CString.ofChars ['/', 'b', 'i', 'n'], CString.ofChars ['/', 'u', 's', 'r', '/', 'b', 'i', 'n'],
      CString.ofChars ['.']] := by decide +kernel

theorem searchPath_fits (hdir : (dirPrefix tok).length + c.length ≤ 255) :
    searchPath tok c = dirPrefix tok ++ c := by
  rw [searchPath, CString.take_of_length_le (by omega)]

theorem Installed.not_answers (h : Installed c entry) (hc : 0x2F#8 ∉ c.chars) (hlen : c.length ≤ 24)
    {dir : List U8} (hdir : dir ∈ searchDirs defaultPath) : ¬Answers entry (searchPath (cstringOf dir) c) := by
  have hmem : cstringOf dir ∈ (searchDirs defaultPath).map cstringOf := List.mem_map_of_mem hdir
  rw [searchDirs_default] at hmem
  simp only [List.mem_cons, List.not_mem_nil, or_false] at hmem
  rcases hmem with hdir | hdir | hdir
  · rw [hdir, searchPath_fits (Nat.le_trans (Nat.add_le_add_left hlen _) (by decide))]
    exact h.not_answers_absolute rfl
  · rw [hdir, searchPath_fits (Nat.le_trans (Nat.add_le_add_left hlen _) (by decide))]
    exact h.not_answers_absolute rfl
  · rw [hdir, searchPath_fits (Nat.le_trans (Nat.add_le_add_left hlen _) (by decide))]
    exact h.not_answers_dot hc

/-- **No installed program is found**: under the default `PATH` the search ends, and not with the
entry of the archive that is the program. -/
theorem installed_never_found (s : FsState) (env : EnvTable) (c entry : CString) (i : Nat) (f : FsFile)
    (started : FsStarted s) (paths : shellPaths env = some defaultPath)
    (noSlash : 0x2F#8 ∉ c.chars) (length : c.length ≤ 24)
    (live : s.fs.liveFiles[i]? = some f) (named : f.name.text = some entry) (installed : Installed c entry) :
    ∃ r, (tryExecElfCommand env c).run s = some (r, s) ∧ ∀ path, r ≠ some (path, .slot i) := by
  refine ⟨_, tryExecElfCommand_run started.inv paths, fun path hfound => ?_⟩
  obtain ⟨dir, hdir, hprogram⟩ := List.exists_of_findSome?_eq_some hfound
  rw [FsState.program, Option.map_eq_some_iff] at hprogram
  obtain ⟨j, hlookup, hpair⟩ := hprogram
  obtain rfl : j = i := by
    injection hpair with _ hslot
    injection hslot
  obtain ⟨g, hg, hanswers⟩ := fsLookup_some hlookup
  obtain rfl : f = g := Option.some.inj (live.symm.trans hg)
  rw [FsFile.answers, named] at hanswers
  exact installed.not_answers noSlash length hdir (of_decide_eq_true hanswers)

/-! ## A booted program -/

/-- The shell's variables before the first command. -/
def noEnv : EnvTable := Vector.replicate shellMaxEnvVars EnvVar.zero

/-- `PATH` has its default value, set or not. -/
theorem noEnv_default : shellPaths noEnv = some defaultPath ∧
    (initDefaultEnv noEnv (CString.ofChars ['u', 's', 'e', 'r'])).bind shellPaths = some defaultPath := by
  decide +kernel

def helloCmd : CString := CString.ofChars ['h', 'e', 'l', 'l', 'o']

/-- An archive with the program `./bin/hello`, of one byte. -/
def helloArchive : List U8 := archiveBytes [(dotSlash ++ binSlash ++ helloCmd, [0x7F#8])]

/-- The archive in memory and parsed. -/
def helloParsed : FsState :=
  { FsState.zero with
    mem := Memory.loaded 4096#64 helloArchive
    ramfs := initramfsScan (Memory.loaded 4096#64 helloArchive) (4096#64 + BitVec.ofNat 64 helloArchive.length)
      16 4096#64 }

/-- The boot imports the program, and the command is not found. -/
theorem helloBoot_checked : (fsInit.run helloParsed).any (fun r => decide (r.2.fs.activeFs ≠ .ext2 ∧
    r.2.fs.liveFiles.map (fun f => f.name.text) = [some (dotSlash ++ binSlash ++ helloCmd)] ∧
      ((tryExecElfCommand noEnv helloCmd).run r.2).map Prod.fst = some none)) = true := by decide +kernel

theorem helloBoot_isSome : (fsInit.run helloParsed).isSome = true := isSome_of_any helloBoot_checked

/-- The file system after the boot. -/
def helloFs : FsState := ((fsInit.run helloParsed).get helloBoot_isSome).2

theorem helloFs_booted : helloFs.fs.activeFs ≠ .ext2 ∧
    helloFs.fs.liveFiles.map (fun f => f.name.text) = [some (dotSlash ++ binSlash ++ helloCmd)] ∧
      ((tryExecElfCommand noEnv helloCmd).run helloFs).map Prod.fst = some none := by
  rw [helloFs]
  exact get_of_any helloBoot_checked helloBoot_isSome

theorem helloFs_started : FsStarted helloFs := by
  refine @FsStarted.init helloParsed _ (by decide) (.inr ⟨4096#64, BitVec.ofNat 64 helloArchive.length,
    { FsState.zero with mem := Memory.loaded 4096#64 helloArchive }, rfl⟩) ?_ helloFs_booted.1
  rw [helloFs]
  exact eq_some_get helloBoot_isSome (Subsingleton.elim _ _)

theorem installed_never_found_hello :
    ∃ r, (tryExecElfCommand noEnv helloCmd).run helloFs = some (r, helloFs) ∧
      ∀ path, r ≠ some (path, .slot 0) := by
  have hlive := congrArg (·[0]?) helloFs_booted.2.1
  simp only [List.getElem?_map, List.getElem?_cons_zero, Option.map_eq_some_iff] at hlive
  obtain ⟨f, hf, hname⟩ := hlive
  exact installed_never_found helloFs noEnv helloCmd _ 0 f helloFs_started noEnv_default.1 (by decide)
    (by decide) hf hname (Or.inl rfl)

/-- The program `./bin/hello` was imported, and the command `hello` is not found. -/
theorem hello_not_found : FsStarted helloFs ∧ shellPaths noEnv = some defaultPath ∧
    helloFs.fs.liveFiles.map (fun f => f.name.text) = [some (dotSlash ++ binSlash ++ helloCmd)] ∧
    ((tryExecElfCommand noEnv helloCmd).run helloFs).map Prod.fst = some none :=
  ⟨helloFs_started, noEnv_default.1, helloFs_booted.2⟩

end PpoOS
