import PpoOS.Flanterm.Grid
import PpoOS.Flanterm.Init

/-!
# Runs of the terminal

What the kernel does with its terminal once it has one: it writes bytes, flushes, and may have everything drawn
anew.
-/

namespace PpoOS

inductive TerminalOp where
  | write (bytes : List U8)
  | flush
  | fullRefresh
deriving DecidableEq

/-- `flanterm_write`, `flanterm_flush` and `flanterm_full_refresh` -/
def fbOp (op : TerminalOp) (p : FlantermContext × FbContext) : Option (FlantermContext × FbContext) :=
  match op with
  | .write bytes => ((fbBackend.flantermWrite bytes).run p).map Prod.snd
  | .flush => ((flantermFlush fbBackend).run p).map Prod.snd
  | .fullRefresh => (flantermFbFullRefresh p.1 p.2).map fun s => (p.1, s)

/-- The same on a table, where only the bytes matter -/
def gridOp (op : TerminalOp) (p : FlantermContext × Grid) : Option (FlantermContext × Grid) :=
  match op with
  | .write bytes => ((gridBackend.flantermWrite bytes).run p).map Prod.snd
  | .flush | .fullRefresh => some p

def fbSession (ops : List TerminalOp) (p : FlantermContext × FbContext) : Option (FlantermContext × FbContext) :=
  ops.foldlM (fun p op => fbOp op p) p

def gridSession (ops : List TerminalOp) (p : FlantermContext × Grid) : Option (FlantermContext × Grid) :=
  ops.foldlM (fun p op => gridOp op p) p

/-- What is written -/
def TerminalOp.bytes (op : TerminalOp) : List U8 :=
  match op with
  | .write bytes => bytes
  | .flush | .fullRefresh => []

/-- The bytes of all calls of `flanterm_write`, one after the other -/
def writtenBytes (ops : List TerminalOp) : List U8 := ops.flatMap TerminalOp.bytes

/-- The table of a new terminal -/
def initialGrid (a : FbArgs) : Grid where
  colours := a.colours
  pen := initialPen a.colours
  cells := fun _ => ⟨0x20#8, a.colours.defaultFg, noColour⟩

section Terminal

variable (sizes : FbSizes) (maxEscValues : Nat) (builtinFont : Nat → U8)

/-- A terminal is set up, if it can be, and used. -/
def terminalSession (a : FbArgs) (pixels : Nat) (framebuffer : Nat → U32) (pool : BumpPool) (ops : List TerminalOp) :
    Option (Option (FlantermContext × FbContext)) := do
  let (terminal, _) ← flantermFbInit sizes maxEscValues builtinFont a pixels framebuffer pool
  terminal.mapM (fbSession ops)

/-- Terminals for several framebuffers, one after the other -/
def fbInits (framebuffers : List (FbArgs × Nat × (Nat → U32))) :
    StateT BumpPool Option (List (Option (FlantermContext × FbContext))) :=
  framebuffers.mapM fun (a, pixels, framebuffer) =>
    flantermFbInit sizes maxEscValues builtinFont a pixels framebuffer

end Terminal

end PpoOS
