import PpoOS.Fs.Fs

/-!
# The shell (`shell.c`)

The environment variables of the shell and the search for a command that is not
built in.  What the shell prints is left out.
-/

namespace PpoOS

open FsM

/-! ## Environment variables -/

def shellMaxEnvVars : Nat := 32
def shellMaxEnvName : Nat := 32
def shellMaxEnvValue : Nat := 128

/-- `struct env_var` -/
structure EnvVar where
  name : Buf shellMaxEnvName
  value : Buf shellMaxEnvValue
deriving DecidableEq

def EnvVar.zero : EnvVar := ⟨Buf.zero shellMaxEnvName, Buf.zero shellMaxEnvValue⟩

/-- `env_vars` -/
abbrev EnvTable := Vector EnvVar shellMaxEnvVars

/-- `env_vars[i].name[0] && !strcmp(env_vars[i].name, name)` -/
def EnvVar.isNamed (v : EnvVar) (name : CString) : Option Bool := do
  let own ← v.name.text
  return own.length ≠ 0 && strcmp own name = 0

/-- The first variable with the name; `i` is the index of the first one of the list. -/
def findEnvVar (name : CString) : List EnvVar → Nat → Option (Option Nat)
  | [], _ => some none
  | v :: vars, i => do
    if ← v.isNamed name then return some i
    else findEnvVar name vars (i + 1)

/-- `get_env_var` -/
def getEnvVar (env : EnvTable) (name : CString) : Option (Option CString) := do
  match ← findEnvVar name env.toList 0 with
  | none => return none
  | some i => return some (← (← env[i]?).value.text)

/-- The first variable whose name is empty. -/
def freeEnvVar : List EnvVar → Nat → Option (Option Nat)
  | [], _ => some none
  | v :: vars, i => do
    if (← v.name.text).length = 0 then return some i
    else freeEnvVar vars (i + 1)

/-- `set_env_var` -/
def setEnvVar (env : EnvTable) (name value : CString) : Option (Bool × EnvTable) := do
  match ← findEnvVar name env.toList 0 with
  | some i =>
    let v ← env[i]?
    return (true, env.setIfInBounds i { v with value := ← strncpyCut v.value value })
  | none =>
    match ← freeEnvVar env.toList 0 with
    | some i =>
      let v ← env[i]?
      let v := { v with name := ← strncpyCut v.name name }
      return (true, env.setIfInBounds i { v with value := ← strncpyCut v.value value })
    | none => return (false, env)

/-- `unset_env_var` at one variable. -/
def EnvVar.unset (name : CString) (v : EnvVar) : Option EnvVar := do
  if ← v.isNamed name then return ⟨← v.name.write 0 0#8, ← v.value.write 0 0#8⟩
  else return v

/-- `unset_env_var` -/
def unsetEnvVar (env : EnvTable) (name : CString) : Option EnvTable := env.mapM (EnvVar.unset name)

/-- `"PATH"` -/
def pathVar : CString := CString.ofChars ['P', 'A', 'T', 'H']

/-- `"/bin:/usr/bin:."` -/
def defaultPath : CString :=
  CString.ofChars ['/', 'b', 'i', 'n', ':', '/', 'u', 's', 'r', '/', 'b', 'i', 'n', ':', '.']

/-- `init_default_env`, where `current_user` is `user`. -/
def initDefaultEnv (env : EnvTable) (user : CString) : Option EnvTable := do
  let (_, env) ← setEnvVar env pathVar defaultPath
  let (_, env) ← setEnvVar env (CString.ofChars ['U', 'S', 'E', 'R']) user
  return env

/-! ## Comparing -/

/-- `str_ends_with`; a pointer may be NULL. -/
def strEndsWith (str suffix : Option CString) : Bool :=
  match str, suffix with
  | some str, some suffix =>
    if suffix.length > str.length then false
    else strcmp (str.drop (str.length - suffix.length)) suffix = 0
  | _, _ => false

/-! ## Running a program -/

/-- `paths` -/
def shellPaths (env : EnvTable) : Option CString := do return (← getEnvVar env pathVar).getD defaultPath

/-- `path_buffer` for the directory `tok` -/
def pathBuffer (tok cmd : CString) : Option CString := do
  let path ← strncpyCut (Buf.zero 256) tok
  let s ← path.text
  let path ←
    if s.length ≠ 0 ∧ s.chars.getLast? ≠ some 0x2F#8 then strncat path slash (256 - s.length - 1)
    else some path
  let path ← strncat path cmd (256 - (← path.text).length - 1)
  path.text

/-- A part of a string, as a string. -/
def cstringOf (l : List U8) : CString := ⟨l.filter (· ≠ 0#8), by simp⟩

/-- `while (tok)`, with `rest` still to be cut into directories. -/
def tryExecLoop (cmd : CString) : Nat → List U8 → FsM (Option (CString × FileRef))
  | 0, _ => failure
  | fuel + 1, rest =>
    match strtokR [0x3A#8] rest with
    | none => return none
    | some (tok, rest) => do
      let path ← ofOption (pathBuffer (cstringOf tok) cmd)
      match ← fsOpen path with
      | some file => return some (path, file)
      | none => tryExecLoop cmd fuel rest

/-- `try_exec_elf_command`: the file that `fs_open` finds and the path that `exec_elf` is called with,
where it returns `true`. -/
def tryExecElfCommand (env : EnvTable) (cmd : CString) : FsM (Option (CString × FileRef)) := do
  let paths ← ofOption (shellPaths env)
  let pathsCopy ← ofOption (strncpyCut (Buf.zero 256) paths)
  let s ← ofOption pathsCopy.text
  tryExecLoop cmd (s.length + 1) s.chars

end PpoOS
