import PpoOS.Fs.Initramfs

/-!
# The headers of the boot archive (`initramfs.c`)

The loop of `initramfs_init` by its iterations, and the same loop with checked reads:
a read at or behind the end of the archive has no result.
-/

namespace PpoOS

/-! ## One header -/

/-- `namesize` of the header at `p`. -/
def headerNamesize (m : Memory) (p : U64) : U32 := hex2u32 (m.bytes (.addr (p + 94#64)) 8)

/-- `filesize` -/
def headerFilesize (m : Memory) (p : U64) : U32 := hex2u32 (m.bytes (.addr (p + 54#64)) 8)

/-- `filedata_start_aligned` -/
def headerData (m : Memory) (p : U64) : U64 := align4 (p + 110#64 + (headerNamesize m p).setWidth 64)

/-- `next_header_start_aligned` -/
def headerNext (m : Memory) (p : U64) : U64 :=
  align4 (headerData m p + (headerFilesize m p).setWidth 64)

/-- What is stored for the header. -/
def headerFile (m : Memory) (p : U64) : RamFile :=
  ⟨p + 110#64, headerData m p, (headerFilesize m p).setWidth 64⟩

/-! ## The loop -/

/-- The variables of the loop. -/
structure ScanState where
  p : U64
  files : List RamFile

/-- One iteration; nothing where the loop ends. -/
def initramfsStep (m : Memory) (stop : U64) (c : ScanState) : Option ScanState :=
  if c.p + 110#64 < stop ∧ c.files.length < 16 then
    if memEq m c.p cpioNewcMagic then
      if headerNamesize m c.p > 0#32 ∧ strEq m (c.p + 110#64) trailerName = true then none
      else if headerNext m c.p > stop then none
      else some ⟨headerNext m c.p, c.files ++ [headerFile m c.p]⟩
    else none
  else none

namespace Checked

/-- The `n` bytes from `p` on lie in front of the end of the archive. -/
def before (stop p : U64) (n : Nat) : Option Unit := if p.toNat + n ≤ stop.toNat then some () else none

/-- How many bytes of `s` `strcmp` looks at. -/
def strcmpReads : List U8 → List U8 → Nat
  | a :: s, b :: t => if a ≠ 0#8 ∧ b ≠ 0#8 ∧ a = b then strcmpReads s t + 1 else 1
  | _, _ => 1

/-- `namesize > 0 && strcmp(name, "TRAILER!!!") == 0` -/
def isTrailer (m : Memory) (stop : U64) (namesize : U32) (name : U64) : Option Bool :=
  let trailer := trailerName.chars ++ [0#8]
  if namesize > 0#32 then do
    before stop name (strcmpReads (m.bytes (.addr name) trailer.length) trailer)
    return strEq m name trailerName
  else some false

/-- The loop of `initramfs_init`, while `room` of the 16 entries are free. -/
def initramfsScan (m : Memory) (stop : U64) : Nat → U64 → Option (List RamFile)
  | 0, _ => some []
  | room + 1, p =>
    if p + 110#64 < stop then do
      before stop p cpioNewcMagic.length
      if memEq m p cpioNewcMagic then
        before stop (p + 94#64) 8
        before stop (p + 54#64) 8
        if ← isTrailer m stop (headerNamesize m p) (p + 110#64) then return []
        else if headerNext m p > stop then return []
        else
          let files ← initramfsScan m stop room (headerNext m p)
          return headerFile m p :: files
      else return []
    else some []

end Checked

end PpoOS
