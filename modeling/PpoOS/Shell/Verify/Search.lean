import PpoOS.Shell.Verify.Env
import PpoOS.Shell.Verify.Programs

/-!
# The elements of `PATH`

A variable has at most 127 characters, so that the array of `try_exec_elf_command` does not cut `PATH`
off, and `strtok` gives each of its non-empty elements once (`tryExecElfCommand_dirs`).
-/

namespace PpoOS

variable {env : EnvTable} {cmd paths : CString} {s : FsState}

/-- `":"` -/
def colon : CString := CString.ofChars [':']

theorem shellPaths_length (h : shellPaths env = some paths) : paths.length < shellMaxEnvValue := by
  rw [shellPaths, Option.bind_eq_bind, Option.bind_eq_some_iff] at h
  obtain ⟨value, hvalue, hpaths⟩ := h
  obtain rfl : value.getD defaultPath = paths := Option.some.inj hpaths
  cases value with
  | none => exact (by decide : defaultPath.length < shellMaxEnvValue)
  | some v =>
    rw [getEnvVar, Option.bind_eq_bind, Option.bind_eq_some_iff] at hvalue
    obtain ⟨found, -, hfound⟩ := hvalue
    cases found with
    | none => cases hfound
    | some i =>
      obtain ⟨var, -, hvar⟩ := Option.bind_eq_some_iff.mp hfound
      obtain ⟨text, htext, hv⟩ := Option.bind_eq_some_iff.mp hvar
      obtain rfl : text = v := Option.some.inj (Option.some.inj hv)
      exact Buf.length_lt_of_text htext

/-- The search tries the non-empty elements of `PATH`, in their order. -/
theorem tryExecElfCommand_dirs (h : s.Inv) (hpaths : shellPaths env = some paths) :
    (tryExecElfCommand env cmd).run s =
      some ((List.runs (isDelim colon.chars) paths.chars).findSome? (s.program cmd), s) := by
  have hlen := shellPaths_length hpaths
  have hwhole : paths.take 255 = paths := CString.take_of_length_le (by unfold shellMaxEnvValue at hlen; omega)
  have hdirs : searchDirs paths = List.runs (isDelim colon.chars) paths.chars := by
    rw [searchDirs, hwhole]
    exact strtokTokens_eq (Nat.lt_succ_self paths.length)
  rw [tryExecElfCommand_run h hpaths, hdirs]

/-- **Tokenizing splits a string**, and the search for a program visits the elements of `PATH`. -/
theorem strtokR_splits {n : Nat} (delim : CString) (b : Buf n) (p : Nat) (str : CString) (save : Nat)
    (h : strAt b p = some str) :
    (∃ tokens b' save', (∀ fuel > str.length, strtokRun delim fuel (some p) save b = some (tokens, b', save')) ∧
      StrtokSplits delim str p b tokens b' save') ∧
    ∀ (s : FsState) (env : EnvTable) (cmd paths : CString), FsStarted s → shellPaths env = some paths →
      (tryExecElfCommand env cmd).run s =
        some ((List.runs (isDelim colon.chars) paths.chars).findSome? (s.program cmd), s) :=
  ⟨strtokR_run delim h rfl, fun _ _ _ _ started hpaths => tryExecElfCommand_dirs started.inv hpaths⟩

theorem strtokR_splits_default :
    (∃ tokens b' save', (∀ fuel > defaultPath.length,
        strtokRun colon fuel (some 0) 0 (Buf.ofText 256 defaultPath) = some (tokens, b', save')) ∧
      StrtokSplits colon defaultPath 0 (Buf.ofText 256 defaultPath) tokens b' save') ∧
    ∀ (s : FsState) (env : EnvTable) (cmd paths : CString), FsStarted s → shellPaths env = some paths →
      (tryExecElfCommand env cmd).run s =
        some ((List.runs (isDelim colon.chars) paths.chars).findSome? (s.program cmd), s) :=
  strtokR_splits colon (Buf.ofText 256 defaultPath) 0 defaultPath 0 (Buf.text_ofText (by decide))

end PpoOS
