import PpoOS.Mm.Verify.PmmRuns
import PpoOS.Mm.Verify.Spaces
import PpoOS.Syscall.Fork
import PpoOS.Exec.Verify.Atomic
import PpoOS.Exec.Verify.Header
import PpoOS.Exec.Verify.Outcome
import PpoOS.Exec.Verify.PageJob
import PpoOS.Exec.Verify.Coverage
import PpoOS.Exec.Verify.Frames
import PpoOS.Exec.Verify.Overlap
import PpoOS.Process.Machine
import PpoOS.Process.Verify.Isolation
import PpoOS.Process.Verify.KernelHalf
import PpoOS.Process.Verify.FileReads
import PpoOS.Process.Verify.Leaks
import PpoOS.Process.Verify.Duplicate
import PpoOS.Process.Verify.Forks
import PpoOS.Fs.Verify.Boot
import PpoOS.Fs.Verify.ChangeDir
import PpoOS.Fs.Verify.Handles
import PpoOS.Fs.Verify.Agree
import PpoOS.Fs.Verify.Hostile
import PpoOS.Syscall.Verify.Reads
import PpoOS.Shell.Verify.Programs
import PpoOS.Mm.Verify.Scan
import PpoOS.Mm.Verify.Init
import PpoOS.Exec.Verify.Iterations
import PpoOS.Exec.Verify.Content
import PpoOS.Process.Verify.Descriptors
import PpoOS.Syscall.Verify.Footprint
import PpoOS.Shell.Verify.Env
import PpoOS.Device.Verify.Keyboard
import PpoOS.Device.Verify.Mouse
import PpoOS.Gui.Verify.Bounds
import PpoOS.Gui.Verify.Clicks
import PpoOS.Fs.Verify.Sums
import PpoOS.Fs.Verify.NewDirs
import PpoOS.Fs.Verify.Headers
import PpoOS.Fs.Verify.FlatRead
import PpoOS.Fs.Verify.Unused
import PpoOS.Fs.Verify.Sparse
import PpoOS.Syscall.Verify.OpenPath
import PpoOS.Syscall.Verify.Entry
import PpoOS.Shell.Verify.CommandLine
import PpoOS.Libc.Verify.Printed
import PpoOS.Gui.Verify.Window
import PpoOS.Str.Move
import PpoOS.Boot.Gdt
import PpoOS.Boot.Modules
import PpoOS.Shell.Verify.Search
import PpoOS.Str.Uitoa
import PpoOS.Exec.Verify.ElfInfo
import PpoOS.Flanterm.Verify.Screen
