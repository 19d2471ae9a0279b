import PpoOS.Fs.Initramfs
import PpoOS.Fs.Ext2

/-!
# The file system (`fs.c`)

The calls of `fs.c` on the state of the file system.  A name or a path is a
string and not NULL, and so is a file that is written or read.  Messages on the
serial line are left out.
-/

namespace PpoOS

open FsM

/-! ## The pool -/

/-- `sizeof(mem_pool)` -/
def poolSize : U64 := 65536#64

/-- `fs_alloc` -/
def fsAlloc (size : U64) : FsM Ptr := do
  let s ← get
  if s.memUsed + size > poolSize then return Ptr.null
  set { s with memUsed := s.memUsed + size }
  return .pool s.memUsed

/-! ## Opening -/

/-- `"./"` -/
def dotSlash : CString := CString.ofChars ['.', '/']

/-- `processed_name` -/
def processName (name : CString) : Option (Buf 32) :=
  strncpyCut (Buf.zero 32) (if strncmp name dotSlash 2 = 0 then name.drop 2 else name)

/-- `processed_entry` -/
def processEntry (name : CString) : Option (Buf 32) := do
  let entry ← strncpyCut (Buf.zero 32) name
  let s ← entry.text
  if strncmp s dotSlash 2 = 0 then
    if s.length ≥ 2 then
      let entry ← memmoveFront entry 2 (s.length - 1)
      entry.write (s.length - 2) 0#8
    else return entry
  else return entry

/-- The three comparisons of `fs_open`. -/
def fsMatches (name processedName : CString) (f : FsFile) : Option Bool := do
  let entryName ← f.name.text
  let processedEntry ← (← processEntry entryName).text
  return strcmp processedEntry processedName = 0 || strcmp entryName processedName = 0 ||
    strcmp entryName name = 0

/-- The loop of `fs_open`; `i` is the index of the first file of the list. -/
def fsOpenScan (name processedName : CString) : List FsFile → Nat → Option (Option Nat)
  | [], _ => some none
  | f :: files, i => do
    if ← fsMatches name processedName f then return some i
    else fsOpenScan name processedName files (i + 1)

/-- `fs_open` -/
def fsOpen (name : CString) : FsM (Option FileRef) := do
  if name.length = 0 then return none
  let s ← get
  if s.fs.activeFs = .ext2 then ext2Open name
  else
    let processed ← ofOption (processName name)
    let processedName ← ofOption processed.text
    let found ← ofOption (fsOpenScan name processedName s.fs.liveFiles 0)
    return found.map .slot

/-! ## Reading and listing -/

/-- `fs_read`: the bytes read. -/
def fsRead (file : FileRef) (offset len : U64) : FsM (List U8) := do
  let f ← getFile file
  if offset ≥ f.size then return []
  let s ← get
  if f.fsType = .ext2 then ofOption (ext2Read s.ext2 s.mem f offset len)
  else if f.data = Ptr.null then return []
  else
    let toCopy := if f.size - offset > len then len else f.size - offset
    return s.mem.bytes (f.data.add offset) toCopy.toNat

/-- `fs_list`: the entries listed. -/
def fsList : FsM (List FsFile) := do
  let s ← get
  if s.fs.activeFs = .ext2 then
    let dir ← ofOption s.fs.currentDir.text
    ext2List dir
  else return s.fs.liveFiles

/-! ## Creating and writing -/

/-- `fs_create_file` -/
def fsCreateFile (name : CString) : FsM (Option FileRef) := do
  match ← fsOpen name with
  | some existing => return some existing
  | none =>
    let s ← get
    if s.fs.activeFs = .ext2 then return none
    if s.fs.fileCount ≥ fsMaxFiles then return none
    let i := s.fs.fileCount
    let f ← getFile (.slot i)
    modifyFs fun fs => { fs with fileCount := i + 1 }
    let fileName ← ofOption (strncpyCut f.name name)
    let data ← fsAlloc 256#64
    let f := { f with name := fileName, capacity := 256#64, data := data }
    putFile (.slot i) f
    if data = Ptr.null then
      modifyFs fun fs => { fs with fileCount := i }
      return none
    putFile (.slot i) { f with size := 0#64, isDir := false, mode := 0o644#16, fsType := .initramfs }
    FsM.memset data 0#8 1#64
    return some (.slot i)

/-- The part of `fs_write` that makes room for `newSize` bytes. -/
def fsGrow (file : FileRef) (newSize : U64) : FsM Bool := do
  let f ← getFile file
  if newSize > f.capacity then
    let newCapacity := newSize * 2#64
    let newData ← fsAlloc newCapacity
    if newData = Ptr.null then return false
    FsM.memset newData 0#8 newCapacity
    FsM.memcpy newData f.data f.size
    putFile file { f with data := newData, capacity := newCapacity }
    return true
  else return true

/-- The part of `fs_write` that fills the file. -/
def fsFill (file : FileRef) (offset : U64) (buf : Nat → U8) (len : U64) : FsM Unit := do
  let f ← getFile file
  if offset > f.size then FsM.memset (f.data.add f.size) 0#8 (offset - f.size)
  memcpyIn (f.data.add offset) buf len
  if offset + len > f.size then
    putFile file { f with size := offset + len }
    FsM.memset (f.data.add (offset + len)) 0#8 1#64

/-- `fs_write` -/
def fsWrite (file : FileRef) (offset : U64) (buf : Nat → U8) (len : U64) : FsM U64 := do
  let f ← getFile file
  if f.fsType = .ext2 then return 0#64
  if f.data = Ptr.null then return 0#64
  if ← fsGrow file (offset + len) then
    fsFill file offset buf len
    return len
  else return 0#64

/-- `dir->path` of a directory made in `currentDir`; nothing where it is too long. -/
def fsDirPath (currentDir : Buf fsMaxPath) (path : Buf fsMaxPath) (name : CString) :
    Option (Option (Buf fsMaxPath)) := do
  let current ← currentDir.text
  if strcmp current slash = 0 then
    if 1 + name.length + 1 > fsMaxPath then return none
    let p ← strcpy path slash
    let p ← strcat p name
    return some (← p.write (fsMaxPath - 1) 0#8)
  else
    if current.length + 1 + name.length + 1 > fsMaxPath then return none
    let p ← strcpy path current
    let p ← strcat p slash
    let p ← strcat p name
    return some (← p.write (fsMaxPath - 1) 0#8)

/-- Whether one of the directories has the name. -/
def fsDirExists (name : CString) : List FsDir → Option Bool
  | [] => some false
  | d :: dirs => do
    if strcmp (← d.name.text) name = 0 then return true
    else fsDirExists name dirs

/-- The entry that makes a directory show up in listings. -/
def fsListDir (name : CString) : FsM Unit := do
  let s ← get
  if s.fs.fileCount < fsMaxFiles then
    let fileName ← ofOption (strncpyCut (Buf.zero 32) name)
    putFile (.slot s.fs.fileCount) { FsFile.zero with name := fileName, isDir := true }
    modifyFs fun fs => { fs with fileCount := s.fs.fileCount + 1 }

/-- `fs_create_dir` -/
def fsCreateDir (name : CString) : FsM Bool := do
  let s ← get
  if s.fs.activeFs = .ext2 then return false
  if ← ofOption (fsDirExists name s.fs.liveDirs) then return true
  if s.fs.dirCount ≥ fsMaxDirs then return false
  let i := s.fs.dirCount
  let d ← ofOption s.fs.dirs[i]?
  modifyFs fun fs => { fs with dirCount := i + 1 }
  let dirName ← ofOption (strncpyCut d.name name)
  match ← ofOption (fsDirPath s.fs.currentDir d.path name) with
  | none =>
    putDir i { d with name := dirName }
    modifyFs fun fs => { fs with dirCount := i }
    return false
  | some path =>
    putDir i { name := dirName, path := path }
    fsListDir name
    return true

/-- `fs_chmod` -/
def fsChmod (name : CString) (mode : U16) : FsM Bool := do
  match ← fsOpen name with
  | none => return false
  | some file =>
    let f ← getFile file
    putFile file { f with mode := mode }
    return true

/-! ## The working directory -/

/-- `abs_path` -/
def fsAbsPath (currentDir : Buf fsMaxPath) (path : CString) : Option (Buf fsMaxPath) := do
  if path.chars.head? = some 0x2F#8 then strncpyCut (Buf.zero fsMaxPath) path
  else
    let absPath ← strncpyCut (Buf.zero fsMaxPath) (← currentDir.text)
    let s ← absPath.text
    let len := BitVec.ofNat 64 s.length
    if s.length = 0 ∨ s.chars.getLast? ≠ some 0x2F#8 then
      let absPath ← strncat absPath slash (128#64 - len - 1#64).toNat
      strncat absPath path (128#64 - (len + 1#64) - 1#64).toNat
    else strncat absPath path (128#64 - len - 1#64).toNat

/-- The directory that `path` names, by its name or its path. -/
def fsFindDir (path : CString) : List FsDir → Option (Option FsDir)
  | [] => some none
  | d :: dirs => do
    if strcmp (← d.name.text) path = 0 || strcmp (← d.path.text) path = 0 then return some d
    else fsFindDir path dirs

/-- `fs_change_dir` -/
def fsChangeDir (path : CString) : FsM Bool := do
  if path.length = 0 then return false
  let s ← get
  if strcmp path slash = 0 then
    let d ← ofOption (strcpy s.fs.currentDir slash)
    modifyFs fun fs => { fs with currentDir := d }
    return true
  else if s.fs.activeFs = .ext2 then
    let absPath ← ofOption (fsAbsPath s.fs.currentDir path)
    let abs ← ofOption absPath.text
    if ← ext2ChangeDir abs then
      let d ← ofOption (strncpyCut s.fs.currentDir abs)
      modifyFs fun fs => { fs with currentDir := d }
      return true
    else return false
  else
    match ← ofOption (fsFindDir path s.fs.liveDirs) with
    | none => return false
    | some dir =>
      let dirPath ← ofOption dir.path.text
      let d ← ofOption (strcpy s.fs.currentDir dirPath)
      modifyFs fun fs => { fs with currentDir := d }
      return true

/-! ## Mounting -/

/-- `fs_mount_ext2` -/
def fsMountExt2 (data : Ptr) (size : U64) : FsM Bool := do
  if ← ext2Init data size then
    modifyFs fun fs => { fs with activeFs := .ext2 }
    return true
  else return false

def ext2ImgName : CString := CString.ofChars ['e', 'x', 't', '2', '.', 'i', 'm', 'g']
def diskImgName : CString := CString.ofChars ['d', 'i', 's', 'k', '.', 'i', 'm', 'g']

/-- The loop of `fs_init` that looks for an ext2 image. -/
def fsMountImages : List FsFile → FsM Unit
  | [] => return ()
  | f :: files => do
    let name ← ofOption f.name.text
    let s ← get
    if (strcmp name ext2ImgName = 0 || strcmp name diskImgName = 0) &&
        ext2Detect s.mem f.data f.size then
      if ← fsMountExt2 f.data f.size then return ()
      else fsMountImages files
    else fsMountImages files

/-- `dir_name` of an entry of the archive whose name ends with a slash. -/
def importDirName (name : CString) : Option (Buf 32) := do
  let nameLen := if name.length - 1 ≥ 32 then 31 else name.length
  let b ← (Buf.zero 32).put 0 (name.chars.take (nameLen - 1))
  b.write (nameLen - 1) 0#8

/-- One regular file of the archive; `false` where the pool is full. -/
def importFile (src : RamFile) (name : CString) : FsM Bool := do
  let i := (← get).fs.fileCount
  let f ← getFile (.slot i)
  modifyFs fun fs => { fs with fileCount := i + 1 }
  let fileName ← ofOption (strncpyCut f.name name)
  let data ← fsAlloc src.size
  let f := { f with name := fileName, capacity := src.size, data := data }
  putFile (.slot i) f
  if data = Ptr.null then
    modifyFs fun fs => { fs with fileCount := i }
    return false
  FsM.memcpy data (.addr src.data) src.size
  putFile (.slot i)
    { f with size := src.size, isDir := false, mode := 0o644#16, fsType := .initramfs }
  return true

/-- The loop of `fs_init` over the files of the archive. -/
def fsImport : List RamFile → FsM Unit
  | [] => return ()
  | src :: rest => do
    let s ← get
    if s.fs.fileCount ≥ fsMaxFiles then return ()
    let name ← ofOption (cstrAt s.mem src.name (2 ^ 64))
    if name.chars.getLast? = some 0x2F#8 then
      let dirName ← ofOption (importDirName name)
      let _ ← fsCreateDir (← ofOption dirName.text)
      fsImport rest
    else if ← importFile src name then fsImport rest
    else return ()

/-- `fs_init` -/
def fsInit : FsM Unit := do
  modifyFs fun _ => FsMount.zero
  let currentDir ← ofOption (strcpy (Buf.zero fsMaxPath) slash)
  let rootName ← ofOption (strcpy (Buf.zero 32) slash)
  let rootPath ← ofOption (strcpy (Buf.zero fsMaxPath) slash)
  modifyFs fun fs => { fs with currentDir := currentDir, dirCount := 1 }
  putDir 0 ⟨rootName, rootPath⟩
  fsImport (← get).ramfs
  fsMountImages (← get).fs.liveFiles

end PpoOS
