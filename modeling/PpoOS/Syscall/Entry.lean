import PpoOS.Syscall.Fork

/-!
# Entering the kernel (`syscall_entry.asm`) and the context of a fork (`syscall.c`)

The registers of a program on their way into the `fork_context` of `sys_fork`: the
processor's `syscall` instruction, `syscall_asm_entry` up to its call of the
handler, and the reads of `sys_fork`.  What the assembly exports are labels; the
handler is compiled against them as variables.
-/

namespace PpoOS

open ByteMem

/-- The registers and the memory. -/
structure Cpu where
  rax : U64
  rbx : U64
  rcx : U64
  rdx : U64
  rsi : U64
  rdi : U64
  rbp : U64
  rsp : U64
  r8 : U64
  r9 : U64
  r10 : U64
  r11 : U64
  r12 : U64
  r13 : U64
  r14 : U64
  r15 : U64
  /-- The address of the next instruction. -/
  rip : U64
  rflags : U64
  mem : Mem

namespace Cpu

/-- `mov [addr], v` -/
def movTo (c : Cpu) (addr v : U64) : Cpu := { c with mem := store64 c.mem addr v }

/-- `push v` -/
def push (c : Cpu) (v : U64) : Cpu := { c with rsp := c.rsp - 8#64, mem := store64 c.mem (c.rsp - 8#64) v }

/-- The `syscall` instruction: the jump to the entry and the mask on the flags make no difference to what is
saved. -/
def syscallInstr (c : Cpu) : Cpu := { c with rcx := c.rip, r11 := c.rflags }

end Cpu

/-! ## `syscall_entry.asm` -/

/-- Where the linker puts the `.bss` section of the entry: a stack of 8192 bytes and three words. -/
structure EntryLabels where
  syscallStackBottom : U64
  fits : syscallStackBottom.toNat + 8192 + 24 ≤ 2 ^ 64

namespace EntryLabels

def syscallStackTop (l : EntryLabels) : U64 := l.syscallStackBottom + 8192#64

/-- Nothing is reserved between the two labels. -/
def userRspStorage (l : EntryLabels) : U64 := l.syscallStackTop

def userRipStorage (l : EntryLabels) : U64 := l.userRspStorage + 8#64

def userRflagsStorage (l : EntryLabels) : U64 := l.userRipStorage + 8#64

end EntryLabels

/-- `syscall_asm_entry`, up to the call of `syscall`. -/
def syscallAsmEntry (l : EntryLabels) (c : Cpu) : Cpu :=
  let c := c.movTo l.userRspStorage c.rsp
  let c := { c with rsp := l.syscallStackTop }
  let c := c.movTo l.userRipStorage c.rcx
  let c := c.movTo l.userRflagsStorage c.r11
  let c := c.push c.rbp
  let c := c.push c.rbx
  let c := c.push c.r12
  let c := c.push c.r13
  let c := c.push c.r14
  let c := c.push c.r15
  let c := { c with r9 := c.r8 }
  let c := { c with r8 := c.r10 }
  let c := { c with rcx := c.rdx }
  let c := { c with rdx := c.rsi }
  let c := { c with rsi := c.rdi }
  { c with rdi := c.rax }

/-! ## `sys_fork` -/

structure ForkContext where
  r15 : U64
  r14 : U64
  r13 : U64
  r12 : U64
  rbx : U64
  rbp : U64
  rip : U64
  rsp : U64
  rflags : U64
deriving DecidableEq

/-- `stack_ptr - i` -/
def stackSlot (stackPtr : U64) (i : Nat) : U64 := stackPtr - BitVec.ofNat 64 (8 * i)

/-- The context that is read with the pointer `stack_ptr`. -/
def forkContextAt (l : EntryLabels) (mem : Mem) (stackPtr : U64) : ForkContext where
  rsp := load64 mem l.userRspStorage
  rip := load64 mem l.userRipStorage
  rflags := load64 mem l.userRflagsStorage
  r15 := load64 mem (stackSlot stackPtr 1)
  r14 := load64 mem (stackSlot stackPtr 2)
  r13 := load64 mem (stackSlot stackPtr 3)
  r12 := load64 mem (stackSlot stackPtr 4)
  rbx := load64 mem (stackSlot stackPtr 5)
  rbp := load64 mem (stackSlot stackPtr 6)

/-- `(uint64_t*)syscall_stack_top`: the value of a variable at the label. -/
def forkStackPtr (l : EntryLabels) (mem : Mem) : U64 := load64 mem l.syscallStackTop

/-- The context that `sys_fork` saves. -/
def forkContext (l : EntryLabels) (mem : Mem) : ForkContext := forkContextAt l mem (forkStackPtr l mem)

end PpoOS
