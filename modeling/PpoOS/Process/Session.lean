import PpoOS.Process.Machine
import PpoOS.Syscall.Verify.Table

/-!
# A session of the shell

Programs that the shell starts one after the other.  `exec_elf` opens a file, loads
it and enters user mode; the program calls the kernel and works on its own, and ends
by `sys_exit` or by a fault that `isr_handler` takes back to the shell.  What the
shell does otherwise does not touch the descriptor table.
-/

namespace PpoOS

open SysM

/-- The system, and the program that runs. -/
structure Session where
  sys : SysState
  running : Option UserEntry

/-- The system after `syscall_init`, in the shell. -/
def Session.boot (s : SysState) : Session := ⟨syscallInit s, none⟩

inductive ProgramEnd where
  | exit (code : U64)
  | fault

inductive SessionEvent where
  /-- A program enters user mode, and the descriptor table as it finds it. -/
  | enter (filename : CString) (fdTable : Vector FileDescriptor maxFds)
  | call (num arg1 arg2 arg3 result : U64)
  | program
  | finish (e : ProgramEnd)
  | shell

/-- The bytes of an open file, as `exec_elf` reads them. -/
structure FileBytes (fs : FsState) (file : FileRef) (f : ElfFile) : Prop where
  size : (fs.file? file).map FsFile.size = some f.size
  data : ∀ i, (fs.file? file).map (fun d => fs.mem.load (d.data.add i)) = some (f.data i)

/-- The user fault part of `isr_handler`: the address space of the kernel, and the shell. -/
def isrUserFault (k : Kernel) : Option Kernel :=
  if k.gKernelPml4 = 0#64 then none else some { k with cr3 := k.gKernelPml4 }

/-- One step.  `syscall_asm_entry` goes back to the program after `sys_exit` as after any other call; `exit`
is the clean-up that `exec_elf` has for a program that came back. -/
inductive SessionStep : Session → SessionEvent → Session → Prop
  | enter {s : SysState} {filename : CString} {file : FileRef} {fs : FsState} {f : ElfFile} {u : UserEntry}
      {k : Kernel} {other : ByteMem.Mem} {mapped : U64 → Bool}
      (hopen : (fsOpen filename).run s.fs = some (some file, fs)) (hfile : FileBytes fs file f)
      (hexec : (execElf (some f)).run s.kernel = some (some u, k))
      (hkernel : ∀ a, a ≥ kernelVmaBase → other a = fs.mem.other a) :
      SessionStep ⟨s, none⟩ (.enter filename s.fdTable)
        ⟨{ s with fs := { fs with mem := { fs.mem with other := other } }, kernel := k, mapped := mapped }, some u⟩
  | call {s t : SysState} {u : UserEntry} {num arg1 arg2 arg3 r : U64}
      (h : (syscall num arg1 arg2 arg3).run s = some (r, t)) :
      SessionStep ⟨s, some u⟩ (.call num arg1 arg2 arg3 r) ⟨t, some u⟩
  | program {s t : SysState} {u : UserEntry} (h : SysStep s .program t) :
      SessionStep ⟨s, some u⟩ .program ⟨t, some u⟩
  | exit {s t : SysState} {u : UserEntry} {code arg2 arg3 r : U64} {k : Kernel}
      (h : (syscall 0#64 code arg2 arg3).run s = some (r, t)) (hcleanup : (execCleanup u).run t.kernel = some ((), k)) :
      SessionStep ⟨s, some u⟩ (.finish (.exit code)) ⟨{ t with kernel := k }, none⟩
  | fault {s : SysState} {u : UserEntry} {k : Kernel} (h : isrUserFault s.kernel = some k) :
      SessionStep ⟨s, some u⟩ (.finish .fault) ⟨{ s with kernel := k }, none⟩
  | shell {s t : SysState} (fdTable : t.fdTable = s.fdTable) : SessionStep ⟨s, none⟩ .shell ⟨t, none⟩

end PpoOS
