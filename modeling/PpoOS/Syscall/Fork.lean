import PpoOS.Exec.Exec

/-!
# Forking a process (`sys_fork` in `syscall.c`)

The register context that `sys_fork` saves is not used by the code after it;
`Entry.lean` has it.
-/

namespace PpoOS

/-- `user_end`, exclusive. -/
def forkUserEnd : Nat := 0x80000000

/-- The flags of a child page: only the stack pages are writable. -/
def forkFlags (vaddr : U64) : U64 :=
  ptePresent ||| pteUser |||
    (if vaddr ≥ userStackBottomVaddr ∧ vaddr ≤ userStackTopVaddr then pteWritable else 0#64)

/-- The body of the copy loop. -/
def forkCopyPage (parentPml4 childPml4 vaddr : U64) : Kern Bool := do
  let parentPhys ← vmmGetPhysicalAddress parentPml4 vaddr
  if parentPhys = 0#64 then return true
  let childPhys ← pmmAlloc
  if childPhys = 0#64 then return false
  memcpy (physToVirt childPhys) (physToVirt parentPhys) 4096
  if ← vmmMapPage childPml4 vaddr childPhys (forkFlags vaddr) then return true
  else
    pmmFree childPhys
    return false

/-- `for (vaddr = 0; vaddr < user_end; vaddr += PAGE_SIZE)` -/
def forkVaddrs : List U64 := (List.range (forkUserEnd / 4096)).map fun i => BitVec.ofNat 64 i * pageSize

/-- `sys_fork`: the child's process number, or -1. -/
def sysFork : Kern U64 := do
  let parentPml4 ← vmmGetCurrentAddressSpace
  if parentPml4 = 0#64 then return -1#64
  let childPml4 ← vmmCreateAddressSpace
  if childPml4 = 0#64 then return -1#64
  if ← forkVaddrs.allM fun vaddr => forkCopyPage parentPml4 childPml4 vaddr then
    let k ← get
    set { k with nextPid := k.nextPid + 1#64 }
    return k.nextPid
  else return -1#64

end PpoOS
