import PpoOS.Mm.Vmm
import PpoOS.Exec.Elf

/-!
# Loading a program (`exec.c`)

`execElf` runs `exec_elf` up to its jump to user mode; `execCleanup` is what it
does when the program has come back.  Between the two the program runs.  A
function that gives up returns `false` or nothing, and the state it leaves
behind is the state the C code leaves behind.
-/

namespace PpoOS

/-- `USER_STACK_TOP_VADDR`: the highest stack page. -/
def userStackTopVaddr : U64 := 0x80000000#64 - pageSize

def userStackPages : Nat := 8

/-- `USER_STACK_BOTTOM_VADDR` -/
def userStackBottomVaddr : U64 :=
  userStackTopVaddr - (BitVec.ofNat 64 userStackPages - 1#64) * pageSize

/-- `for (vaddr = USER_STACK_BOTTOM_VADDR; vaddr <= USER_STACK_TOP_VADDR; vaddr += PAGE_SIZE)` -/
def stackVaddrs : List U64 :=
  (List.range userStackPages).map fun i => userStackBottomVaddr + BitVec.ofNat 64 i * pageSize

/-! ## Segments -/

/-- The page flags of a segment. -/
def segmentFlags (ph : Phdr) : U64 :=
  ptePresent ||| pteUser ||| (if ph.p_flags &&& pfW ≠ 0#32 then pteWritable else 0#64) |||
    (if ph.p_flags &&& pfX = 0#32 then pteNx else 0#64)

/-- What is copied into a page: from where in the page, from where in the file, and how much. -/
structure CopyRange where
  offsetInPage : U64
  fileOffset : U64
  bytesToCopy : U64

/-- `copy_start_vaddr` -/
def copyStart (ph : Phdr) (pageVaddr : U64) : U64 :=
  if pageVaddr > ph.p_vaddr then pageVaddr else ph.p_vaddr

/-- `copy_end_vaddr` -/
def copyEnd (ph : Phdr) (pageVaddr : U64) : U64 :=
  if pageVaddr + pageSize < ph.p_vaddr + ph.p_memsz then pageVaddr + pageSize
  else ph.p_vaddr + ph.p_memsz

/-- `bytes_to_copy`, cut off at the end of the segment's bytes in the file. -/
def clipToFile (ph : Phdr) (fileOffset bytes : U64) : U64 :=
  let segmentEndInFile := ph.p_offset + ph.p_filesz
  if fileOffset + bytes > segmentEndInFile then
    if fileOffset ≥ segmentEndInFile then 0#64 else segmentEndInFile - fileOffset
  else bytes

/-- The copy range of a page of a segment, where the page and the segment overlap.  All of it is
64-bit arithmetic on values from the file, and wraps. -/
def copyRange (ph : Phdr) (pageVaddr : U64) : Option CopyRange :=
  let start := copyStart ph pageVaddr
  let stop := copyEnd ph pageVaddr
  let fileOffset := ph.p_offset + (start - ph.p_vaddr)
  if start < stop then
    some
      { offsetInPage := start - pageVaddr
        fileOffset := fileOffset
        bytesToCopy := clipToFile ph fileOffset (stop - start) }
  else none

/-- `memcpy(frame + offset, elf_data + file_offset, bytes)` -/
def execCopy (f : ElfFile) (virtFrameDest : U64) (c : CopyRange) : Kern Unit := do
  if c.bytesToCopy > 0#64 then
    logReads c.fileOffset c.bytesToCopy.toNat
    writeBytes (virtFrameDest + c.offsetInPage) c.bytesToCopy.toNat
      fun i => f.data (c.fileOffset + BitVec.ofNat 64 i)

/-- The body of the page loop, for the program header at `off`: a fresh frame, mapped at the page,
zeroed and filled. -/
def execLoadPage (f : ElfFile) (pml4 off offset : U64) : Kern Bool := do
  let p_vaddr ← readU64 f (off + 16#64)
  let pageVaddr := (p_vaddr + offset) &&& pageMask
  let physFrame ← pmmAlloc
  if physFrame = 0#64 then return false
  if ← vmmMapPage pml4 pageVaddr physFrame (segmentFlags (f.phdr off)) then
    let virtFrameDest := physToVirt physFrame
    memset virtFrameDest 0#8 4096
    logReads (off + 8#64) 8
    match copyRange (f.phdr off) pageVaddr with
    | some c => execCopy f virtFrameDest c
    | none => pure ()
    return true
  else
    pmmFree physFrame
    return false

/-- `for (offset = 0; offset < ph->p_memsz; offset += PAGE_SIZE)`, for at most `fuel` iterations.
The offset wraps for sizes within a page of 2⁶⁴, and only a failing allocation ends the loop then. -/
def execLoadPages (f : ElfFile) (pml4 off : U64) : Nat → U64 → Kern Bool
  | 0, _ => failure
  | fuel + 1, offset => do
    let p_memsz ← readU64 f (off + 40#64)
    if offset < p_memsz then
      if ← execLoadPage f pml4 off offset then execLoadPages f pml4 off fuel (offset + pageSize)
      else return false
    else return true

/-- The program header at `off`: segments that are not loadable or empty are skipped.  Every
iteration of the page loop takes a frame, so there are at most as many as frames. -/
def execLoadSegment (f : ElfFile) (pml4 off : U64) : Kern Bool := do
  if (← readU32 f off) ≠ ptLoad then return true
  logSegment off
  -- the page count computed here in the source is not used
  if (f.phdr off).p_memsz = 0#64 then return true
  execLoadPages f pml4 off ((← get).pmm.maxBits + 1) 0#64

/-- `&phdrs[i]` for each program header. -/
def phdrOffsets (phoff : U64) (phnum : Nat) : List U64 :=
  (List.range phnum).map fun i => phoff + BitVec.ofNat 64 i * phdrSize

/-- The loop over the program headers. -/
def execLoadSegments (f : ElfFile) (pml4 phoff : U64) (phnum : Nat) : Kern Bool :=
  (phdrOffsets phoff phnum).allM fun off => execLoadSegment f pml4 off

/-! ## The stack -/

/-- The body of the stack loop: a fresh frame, mapped; its contents stay as they are. -/
def execMapStackPage (pml4 vaddr : U64) : Kern Bool := do
  let physFrame ← pmmAlloc
  if physFrame = 0#64 then return false
  if ← vmmMapPage pml4 vaddr physFrame (ptePresent ||| pteUser ||| pteWritable) then return true
  else
    pmmFree physFrame
    return false

def execMapStack (pml4 : U64) : Kern Bool := stackVaddrs.allM fun vaddr => execMapStackPage pml4 vaddr

/-! ## The whole call -/

/-- What `jmp_usermode` is called with, and what the clean-up needs. -/
structure UserEntry where
  rip : U64
  rsp : U64
  userPml4 : U64
  kernelPml4 : U64
deriving DecidableEq

/-- From the new address space on: the program header table, the segments and the stack. -/
def execSetup (f : ElfFile) (pml4 : U64) : Kern Bool := do
  let phoff ← readU64 f 32#64
  let phnum ← readU16 f 56#64
  if f.size < phoff + phnum.setWidth 64 * phdrSize then return false
  if ← execLoadSegments f pml4 phoff phnum.toNat then execMapStack pml4
  else return false

/-- `exec_elf` up to the jump to user mode; nothing where it returns without it. -/
def execElf (file : Option ElfFile) : Kern (Option UserEntry) := do
  let some f := file | return none
  if f.size < elfHeaderSize then return none
  if ← elfHeaderOk f then
    let entryPoint ← readU64 f 24#64
    let pml4 ← vmmCreateAddressSpace
    if pml4 = 0#64 then return none
    if ← execSetup f pml4 then
      let kernelPml4 ← vmmGetCurrentAddressSpace
      vmmSwitchAddressSpace pml4
      return some
        { rip := entryPoint
          rsp := userStackTopVaddr + pageSize - 8#64
          userPml4 := pml4
          kernelPml4 := kernelPml4 }
    else return none
  else return none

/-- The body of the clean-up loop. -/
def execFreeStackPage (pml4 vaddr : U64) : Kern Unit := do
  let physAddr ← vmmGetPhysicalAddress pml4 vaddr
  if physAddr ≠ 0#64 then
    pmmFree physAddr
    vmmUnmapPage pml4 vaddr

/-- What `exec_elf` does after the program has come back. -/
def execCleanup (u : UserEntry) : Kern Unit := do
  vmmSwitchAddressSpace u.kernelPml4
  stackVaddrs.forM fun vaddr => execFreeStackPage u.userPml4 vaddr

end PpoOS
