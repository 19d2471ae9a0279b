import PpoOS.Shell.Shell

/-!
# Reading a command line (`shell_run` of `shell.c`)

The line editor and the loop that cuts the line into arguments.  The arrays are static, so
`argv` and `arg_bufs` hold whatever an earlier command left in them; an access outside of an
array has no result.  What is echoed on the screen is left out.
-/

namespace PpoOS

def shellBufsz : Nat := 256
def shellMaxArgs : Nat := 8
def shellMaxArgLen : Nat := 64

/-- `v[i] = x` -/
def storeAt {α : Type} {n : Nat} (v : Vector α n) (i : Nat) (x : α) : Option (Vector α n) :=
  if h : i < n then some (v.set i x) else none

/-! ## The line editor -/

/-- `buffer` and `buf_idx` -/
structure LineEdit where
  buffer : Buf shellBufsz
  bufIdx : Nat

/-- `while (buf_idx < SHELL_BUFSZ - 1)`, and the keys that are left when the line is complete; without more keys
the shell waits in `keyboard_read_char`. -/
def editLine (keys : List U8) (s : LineEdit) : Option (LineEdit × Option (List U8)) :=
  if s.bufIdx < shellBufsz - 1 then
    match keys with
    | [] => some (s, none)
    | c :: keys =>
      if c = 0#8 then editLine keys s
      else if c = 0x0A#8 ∨ c = 0x0D#8 then some (s, some keys)
      else if c = 0x08#8 ∨ c = 0x7F#8 then
        if s.bufIdx > 0 then
          (s.buffer.write (s.bufIdx - 1) 0#8).bind fun buffer => editLine keys ⟨buffer, s.bufIdx - 1⟩
        else editLine keys s
      else if (0x20#8).sle c && c.slt 0x7F#8 then
        (s.buffer.write s.bufIdx c).bind fun buffer => editLine keys ⟨buffer, s.bufIdx + 1⟩
      else editLine keys s
  else some (s, some keys)

/-! ## Cutting the line into arguments -/

/-- The variables of the loop; an entry of `argv` is null or leads to a row of `arg_bufs`. -/
structure SplitState where
  argc : Nat
  argv : Vector (Option Nat) shellMaxArgs
  argBufs : Vector (Buf shellMaxArgLen) shellMaxArgs
  argIdx : Nat
  inQuotes : Bool

/-- `if (arg_bufs[argc][0] == '$')` -/
def expandRow (env : EnvTable) (row : Buf shellMaxArgLen) : Option (Buf shellMaxArgLen) := do
  if (← row.bytes[0]?) = 0x24#8 then
    match ← getEnvVar env (← CString.read (row.bytes.drop 1)) with
    | some val => (← strncpy row val (shellMaxArgLen - 1)).write (shellMaxArgLen - 1) 0#8
    | none => row.write (shellMaxArgLen - 1) 0#8
  else return row

/-- An argument is complete. -/
def endArg (env : EnvTable) (s : SplitState) : Option SplitState := do
  let row ← expandRow env (← (← s.argBufs[s.argc]?).write s.argIdx 0#8)
  return { s with
    argBufs := ← storeAt s.argBufs s.argc row
    argv := ← storeAt s.argv s.argc (some s.argc)
    argc := s.argc + 1
    argIdx := 0 }

/-- The body of the loop, where `buffer[i]` is `c`. -/
def splitChar (env : EnvTable) (c : U8) (s : SplitState) : Option SplitState :=
  if c = 0x22#8 then some { s with inQuotes := !s.inQuotes }
  else if (c = 0x20#8 ∨ c = 0x09#8 ∨ c = 0#8) ∧ s.inQuotes = false then
    if s.argIdx > 0 ∨ c = 0#8 then endArg env s else some s
  else if s.argIdx < shellMaxArgLen - 1 then do
    let row ← (← s.argBufs[s.argc]?).write s.argIdx c
    return { s with argBufs := ← storeAt s.argBufs s.argc row, argIdx := s.argIdx + 1 }
  else some s

/-- `for (size_t i = 0; i <= buf_idx && argc < SHELL_MAX_ARGS; i++)`, with `left` values of `i` to come. -/
def splitLoop (env : EnvTable) (buffer : Buf shellBufsz) : Nat → Nat → SplitState → Option SplitState
  | 0, _, s => some s
  | left + 1, i, s => do
    if s.argc < shellMaxArgs then splitLoop env buffer left (i + 1) (← splitChar env (← buffer.bytes[i]?) s)
    else return s

/-- The parse loop for the line in `buffer`. -/
def splitLine (env : EnvTable) (argv : Vector (Option Nat) shellMaxArgs)
    (argBufs : Vector (Buf shellMaxArgLen) shellMaxArgs) (line : LineEdit) : Option SplitState :=
  splitLoop env line.buffer (line.bufIdx + 1) 0 ⟨0, argv, argBufs, 0, false⟩

/-- One command of `shell_run` up to `shell_exec`: `argc`, the two arrays and the keys that are left, or nothing
while the shell waits for a key. -/
def readCommand (env : EnvTable) (argv : Vector (Option Nat) shellMaxArgs)
    (argBufs : Vector (Buf shellMaxArgLen) shellMaxArgs) (keys : List U8) : Option (Option (SplitState × List U8)) := do
  match ← editLine keys ⟨Buf.zero shellBufsz, 0⟩ with
  | (_, none) => return none
  | (line, some keys) =>
    let line := { line with buffer := ← line.buffer.write line.bufIdx 0#8 }
    let s ← splitLine env argv argBufs line
    return some ({ s with argv := ← storeAt s.argv s.argc none }, keys)

end PpoOS
