import PpoOS.Mm.Kernel

/-!
# Address spaces and page tables (`vmm.c`, second half)

Every function walks four levels of tables through the direct map.  The three
upper levels of a walk do the same thing at their own entry, so each walk is
written with one step function: `vmmNextTable` allocates a missing table,
`vmmPresentTable` gives up on it.
-/

namespace PpoOS

/-- Read CR3 and store its table address as the kernel's own. -/
def vmmInit : Kern Unit := modify fun k => { k with gKernelPml4 := k.cr3 &&& pageMask }

/-- The body of the copy loop: `if (kernel->entries[i] & PTE_PRESENT) user->entries[i] = ...` -/
def vmmCopyKernelEntry (kernelPml4Virt userPml4Virt : U64) (i : Nat) : Kern Unit := do
  let e ← readEntry (entryPtr kernelPml4Virt (BitVec.ofNat 64 i))
  if e &&& ptePresent ≠ 0#64 then
    writeEntry (entryPtr userPml4Virt (BitVec.ofNat 64 i)) e

/-- `vmm_create_address_space`: the physical address of the new PML4, or 0. -/
def vmmCreateAddressSpace : Kern U64 := do
  let k ← get
  -- without a kernel PML4 the code stops in `for(;;);`
  if k.gKernelPml4 = 0#64 then failure
  else
    let userPml4Phys ← pmmAlloc
    if userPml4Phys = 0#64 then return 0#64
    memset (physToVirt userPml4Phys) 0#8 4096
    (List.range' 256 256).forM
      (vmmCopyKernelEntry (physToVirt k.gKernelPml4) (physToVirt userPml4Phys))
    modify fun k => { k with spaces := frameOf userPml4Phys :: k.spaces }
    return userPml4Phys

/-- One upper level of `vmm_map_page`: the table `*entry` refers to, allocated, zeroed and linked
where it is missing; nothing when out of memory. -/
def vmmNextTable (entry : U64) : Kern (Option U64) := do
  let e ← readEntry entry
  if e &&& ptePresent = 0#64 then
    let phys ← pmmAlloc
    if phys = 0#64 then return none
    memset (physToVirt phys) 0#8 4096
    writeEntry entry (tableEntryOf phys)
    return some (physToVirt phys)
  else
    return some (physToVirt (e &&& pageMask))

/-- `vmm_map_page` -/
def vmmMapPage (pml4 virtAddr physAddr flags : U64) : Kern Bool := do
  let pml4Virt := physToVirt pml4
  let some pdptVirt ← vmmNextTable (entryPtr pml4Virt (pml4Index virtAddr)) | return false
  let some pdVirt ← vmmNextTable (entryPtr pdptVirt (pdptIndex virtAddr)) | return false
  let some ptVirt ← vmmNextTable (entryPtr pdVirt (pdIndex virtAddr)) | return false
  let pte := entryPtr ptVirt (ptIndex virtAddr)
  -- a present entry is overwritten after a warning
  let _ ← readEntry pte
  writeEntry pte (physAddr ||| flags)
  return true

/-- One upper level of a walk that allocates nothing. -/
def vmmPresentTable (entry : U64) : Kern (Option U64) := do
  let e ← readEntry entry
  if e &&& ptePresent = 0#64 then return none
  else return some (physToVirt (e &&& pageMask))

/-- The pointer to the leaf entry of `virtAddr`, where its three upper tables are present. -/
def vmmFindPte (pml4 virtAddr : U64) : Kern (Option U64) := do
  let pml4Virt := physToVirt pml4
  let some pdptVirt ← vmmPresentTable (entryPtr pml4Virt (pml4Index virtAddr)) | return none
  let some pdVirt ← vmmPresentTable (entryPtr pdptVirt (pdptIndex virtAddr)) | return none
  let some ptVirt ← vmmPresentTable (entryPtr pdVirt (pdIndex virtAddr)) | return none
  return some (entryPtr ptVirt (ptIndex virtAddr))

/-- `vmm_unmap_page` -/
def vmmUnmapPage (pml4 virtAddr : U64) : Kern Unit := do
  let some pte ← vmmFindPte pml4 virtAddr | return
  let e ← readEntry pte
  if e &&& ptePresent = 0#64 then return
  writeEntry pte 0#64

/-- `vmm_get_physical_address`: 0 where the address is not mapped. -/
def vmmGetPhysicalAddress (pml4 virtAddr : U64) : Kern U64 := do
  let some pte ← vmmFindPte pml4 virtAddr | return 0#64
  let e ← readEntry pte
  if e &&& ptePresent = 0#64 then return 0#64
  return (e &&& pageMask) ||| (virtAddr &&& ~~~pageMask)

def vmmSwitchAddressSpace (pml4 : U64) : Kern Unit := modify fun k => { k with cr3 := pml4 }

def vmmGetCurrentAddressSpace : Kern U64 := do
  return (← get).cr3 &&& pageMask

end PpoOS
