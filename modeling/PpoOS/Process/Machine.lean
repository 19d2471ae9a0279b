import PpoOS.Syscall.Fork
import PpoOS.Mm.Bitmap
import PpoOS.Lib.Transition

/-!
# The machine

The kernel calls that make and take down processes, in any order, and the
programs' own writes between them.  `exec_elf` is two steps, before and after
its program runs, so programs may start others, and a fork may happen while they
run.  The parent of a fork is the address space that the control register names,
whichever that is.
-/

namespace PpoOS

/-- The kernel, and the programs whose `exec_elf` has not come back. -/
structure Machine where
  kernel : Kernel
  running : List UserEntry

inductive Event where
  | exec (file : Option ElfFile)
  /-- A program has come back. -/
  | exit (u : UserEntry)
  | fork
  /-- The processor switches to another address space. -/
  | switch (pml4 : U64)
  /-- A program in address space `r` writes a byte. -/
  | store (r : Nat) (va : U64) (b : U8)

/-- One step.  A program writes where its page tables let it. -/
inductive MachineStep : Machine → Event → Machine → Prop
  | exec {m : Machine} {file : Option ElfFile} {o : Option UserEntry} {k : Kernel}
      (h : (execElf file).run m.kernel = some (o, k)) :
      MachineStep m (.exec file) ⟨k, o.toList ++ m.running⟩
  | exit {m : Machine} {u : UserEntry} {k : Kernel} (hu : u ∈ m.running)
      (h : (execCleanup u).run m.kernel = some ((), k)) :
      MachineStep m (.exit u) ⟨k, m.running.erase u⟩
  | fork {m : Machine} {pid : U64} {k : Kernel} (h : sysFork.run m.kernel = some (pid, k)) :
      MachineStep m .fork ⟨k, m.running⟩
  | switch {m : Machine} (pml4 : U64) :
      MachineStep m (.switch pml4) ⟨{ m.kernel with cr3 := pml4 }, m.running⟩
  | store {m : Machine} {r : Nat} {va e : U64} (b : U8) (hr : r ∈ m.kernel.spaces)
      (ht : userTranslate m.kernel.mem r va = some e) (hw : entryWritable e = true) :
      MachineStep m (.store r va b)
        ⟨m.kernel.setMem (ByteMem.blit m.kernel.mem (byteAddr e va) 1 fun _ => b), m.running⟩

end PpoOS
