import Nachos.Lib.Run
import Nachos.Filesys.Disk

/-!
# Directories, the file system and its clients

The free map and the directory are files whose headers lie in the sectors 0 and 1. Each operation
reads copies of them from the disk, and writes back what it has changed.

A client calls the operations one at a time. It keeps the handles that `Open` gives; one whose file
is removed is not used again, and none is after a restart.
-/

namespace Nachos.Filesys

open Lib Threads Userprog Mips

/-! ### The free map on the disk -/

/-- `numWords`. -/
def numWords (b : BitMap) : ℤ := divRoundUp b.numBits bitsInWord

/-- `BitMap::FetchFrom`. -/
def fetchMap (b : BitMap) (disk : Disk) (fresh : Memory) (file : OpenFile) :
    Except Fault BitMap := do
  let data ← file.readAt disk fresh (numWords b * 4) 0
  return { b with map := wordsOf (copyAt (bytesOf b.map) 0 data.length (data.getD · 0)) }

/-- `BitMap::WriteBack`. -/
def writeMap (b : BitMap) (disk : Disk) (fresh : ℕ → Memory) (file : OpenFile) :
    Except Fault Disk := do
  return (← file.writeAt disk fresh (bytesOf b.map) (numWords b * 4) 0).2

/-! ### Directories -/

/-- `FileNameMaxLen`. -/
abbrev fileNameMaxLen : ℕ := 9

/-- `NumDirEntries`. -/
abbrev numDirEntries : ℕ := 10

/-- `sizeof(DirectoryEntry)`: `inUse` at 0, `sector` at 4, `name` at 8. -/
abbrev entrySize : ℕ := 20

/-- A string in memory. -/
def cString (name : List Byte) : Memory := fun i => name.getD i 0

/-- `!strncmp(a, b, i + n)`, where the first `i` characters are equal and none of them ends the
strings. -/
def sameName (a b : Memory) : ℕ → ℕ → Bool
  | 0, _ => true
  | n + 1, i => a i == b i && (a i == 0 || sameName a b n (i + 1))

/-- What `strncpy` writes: after the end of the string, zeros. -/
def strncpy (source : Memory) : Memory := fun j =>
  if (List.range (j + 1)).any (source · == 0) then 0 else source j

/-- `class Directory`, with `NumDirEntries` entries: the bytes of the table. -/
structure Directory where
  table : Memory

namespace Directory

/-- `Directory::Directory`. -/
def new (fresh : Memory) : Directory :=
  ⟨fun j => if j % entrySize = 0 then 0 else fresh j⟩

variable (d : Directory)

/-- `table[i].inUse`. -/
def inUse (i : ℕ) : Bool := d.table (entrySize * i) != 0

/-- `table[i].sector`. -/
def sector (i : ℕ) : ℤ := (Machine.readLong d.table (entrySize * i + 4)).toInt

/-- `table[i].name`. -/
def name (i : ℕ) : Memory := fun j => d.table (entrySize * i + 8 + j)

/-- `table[i].inUse = inUse`. -/
def setInUse (i : ℕ) (inUse : Bool) : Directory :=
  ⟨Function.update d.table (entrySize * i) (if inUse then 1 else 0)⟩

/-- `table[i].sector = sector`. -/
def setSector (i : ℕ) (sector : ℤ) : Directory :=
  ⟨Machine.storeBytes d.table (entrySize * i + 4) 4 (BitVec.ofInt 32 sector)⟩

/-- `strncpy(table[i].name, name, FileNameMaxLen)`. -/
def setName (i : ℕ) (name : Memory) : Directory :=
  ⟨copyAt d.table (entrySize * i + 8) fileNameMaxLen (strncpy name)⟩

/-- `tableSize * sizeof(DirectoryEntry)`. -/
abbrev size : ℕ := numDirEntries * entrySize

/-- `Directory::FetchFrom`. -/
def fetchFrom (disk : Disk) (fresh : Memory) (file : OpenFile) : Except Fault Directory := do
  let data ← file.readAt disk fresh size 0
  return ⟨copyAt d.table 0 data.length (data.getD · 0)⟩

/-- `Directory::WriteBack`. -/
def writeBack (disk : Disk) (fresh : ℕ → Memory) (file : OpenFile) : Except Fault Disk := do
  return (← file.writeAt disk fresh d.table size 0).2

/-- The loop of `FindIndex`, over `n` entries from `i` on. -/
def findFrom (name : Memory) : ℕ → ℕ → Option ℕ
  | 0, _ => none
  | n + 1, i =>
    if d.inUse i && sameName (d.name i) name fileNameMaxLen 0 then some i
    else findFrom name n (i + 1)

/-- `Directory::FindIndex`; `-1` is `none`. -/
def findIndex (name : Memory) : Option ℕ := d.findFrom name numDirEntries 0

/-- `Directory::Find`. -/
def find (name : Memory) : ℤ :=
  match d.findIndex name with
  | some i => d.sector i
  | none => -1

/-- The loop of `Add`: the first entry that is not in use. -/
def freeFrom : ℕ → ℕ → Option ℕ
  | 0, _ => none
  | n + 1, i => if d.inUse i then freeFrom n (i + 1) else some i

/-- `Directory::Add`. -/
def add (name : Memory) (newSector : ℤ) : Bool × Directory :=
  match d.findIndex name with
  | some _ => (false, d)
  | none =>
    match d.freeFrom numDirEntries 0 with
    | none => (false, d)
    | some i => (true, ((d.setInUse i true).setName i name).setSector i newSector)

/-- `Directory::Remove`. -/
def remove (name : Memory) : Bool × Directory :=
  match d.findIndex name with
  | none => (false, d)
  | some i => (true, d.setInUse i false)

end Directory

/-! ### The file system -/

/-- `FreeMapSector`, `DirectorySector`. -/
abbrev freeMapSector : ℕ := 0
abbrev directorySector : ℕ := 1

/-- `FreeMapFileSize`. -/
abbrev freeMapFileSize : ℕ := numSectors / 8

/-- `DirectoryFileSize`. -/
abbrev directoryFileSize : ℕ := entrySize * numDirEntries

/-- The disk, and `class FileSystem`. -/
structure FileSystem where
  disk : Disk
  freeMapFile : OpenFile
  directoryFile : OpenFile

namespace FileSystem

/-- `FileSystem::FileSystem(FALSE)`. -/
def mount (disk : Disk) : Except Fault FileSystem := do
  return ⟨disk, ← OpenFile.new disk freeMapSector, ← OpenFile.new disk directorySector⟩

/-- `FileSystem::FileSystem(TRUE)`. -/
def format (disk : Disk) (fresh : ℕ → Memory) : Except Fault FileSystem := do
  let freeMap ← (BitMap.new numSectors).mark freeMapSector
  let freeMap ← freeMap.mark directorySector
  let map ← (FileHeader.ofMemory (fresh 0)).allocate freeMap freeMapFileSize
  if !map.1 then throw .assertion
  let dir ← (FileHeader.ofMemory (fresh 1)).allocate map.2.2 directoryFileSize
  if !dir.1 then throw .assertion
  let disk ← map.2.1.writeBack disk freeMapSector
  let disk ← dir.2.1.writeBack disk directorySector
  let fs ← mount disk
  let disk ← writeMap dir.2.2 disk (fun i => fresh (3 + i)) fs.freeMapFile
  let disk ← (Directory.new (fresh 2)).writeBack disk (fun i => fresh (6 + i)) fs.directoryFile
  return { fs with disk := disk }

variable (fs : FileSystem)

/-- A copy of the directory. -/
def fetchDirectory (fresh buf : Memory) : Except Fault Directory :=
  (Directory.new fresh).fetchFrom fs.disk buf fs.directoryFile

/-- A copy of the free map. -/
def fetchFreeMap (buf : Memory) : Except Fault BitMap :=
  fetchMap (BitMap.new numSectors) fs.disk buf fs.freeMapFile

variable (fresh : ℕ → Memory)

/-- `FileSystem::Create`. -/
def create (name : Memory) (initialSize : ℤ) : Except Fault (Bool × FileSystem) := do
  let directory ← fs.fetchDirectory (fresh 0) (fresh 1)
  if directory.find name ≠ -1 then
    return (false, fs)
  let freeMap ← fs.fetchFreeMap (fresh 2)
  let sector := freeMap.find.1
  if sector = -1 then
    return (false, fs)
  let added := directory.add name sector
  if !added.1 then
    return (false, fs)
  let hdr ← (FileHeader.ofMemory (fresh 3)).allocate freeMap.find.2 initialSize
  if !hdr.1 then
    return (false, fs)
  let disk ← hdr.2.1.writeBack fs.disk sector
  let disk ← added.2.writeBack disk (fun i => fresh (4 + i)) fs.directoryFile
  let disk ← writeMap hdr.2.2 disk (fun i => fresh (7 + i)) fs.freeMapFile
  return (true, { fs with disk := disk })

/-- `FileSystem::Open`: the sector of the header, and the open file. -/
def openFile (name : Memory) : Except Fault (Option (ℤ × OpenFile)) := do
  let directory ← fs.fetchDirectory (fresh 0) (fresh 1)
  let sector := directory.find name
  if sector ≥ 0 then
    return some (sector, ← OpenFile.new fs.disk sector)
  else return none

/-- `FileSystem::Remove`: the sector of the header that is freed, if any. -/
def remove (name : Memory) : Except Fault (Option ℤ × FileSystem) := do
  let directory ← fs.fetchDirectory (fresh 0) (fresh 1)
  let sector := directory.find name
  if sector = -1 then
    return (none, fs)
  let fileHdr ← FileHeader.fetchFrom fs.disk sector
  let freeMap ← fs.fetchFreeMap (fresh 2)
  let freeMap ← fileHdr.deallocate freeMap
  let freeMap ← freeMap.clear sector
  let disk ← writeMap freeMap fs.disk (fun i => fresh (3 + i)) fs.freeMapFile
  let disk ← (directory.remove name).2.writeBack disk (fun i => fresh (6 + i)) fs.directoryFile
  return (some sector, { fs with disk := disk })

end FileSystem

/-! ### Clients -/

/-- A handle of a client: the open file, and the sector of its header. -/
structure Handle where
  file : OpenFile
  sector : ℤ

/-- The file system and the handles that may be used. -/
structure System extends FileSystem where
  handles : ℕ → Option Handle

/-- The operations; `h` is the place where the client keeps a handle. -/
inductive Op where
  | create (name : List Byte) (initialSize : Word)
  | openFile (h : ℕ) (name : List Byte)
  | seek (h : ℕ) (position : Word)
  | read (h : ℕ) (numBytes : Word)
  | write (h : ℕ) (source : Memory) (numBytes : Word)
  | readAt (h : ℕ) (numBytes position : Word)
  | writeAt (h : ℕ) (source : Memory) (numBytes position : Word)
  | length (h : ℕ)
  | remove (name : List Byte)
  | restart

/-- What an operation returns. -/
inductive Result where
  | unit
  | success (b : Bool)
  | bytes (data : List Byte)
  | count (n : ℤ)
  deriving DecidableEq

/-- What is chosen in a step: the operation, and what new memory holds. -/
structure Choice where
  op : Op
  fresh : ℕ → Memory

namespace System

variable (s : System)

def setHandle (h : ℕ) (v : Option Handle) : System :=
  { s with handles := Function.update s.handles h v }

/-- The handle with another state of its file. -/
def setFile (h : ℕ) (handle : Handle) (file : OpenFile) : System :=
  s.setHandle h (some { handle with file := file })

def setDisk (disk : Disk) : System := { s with disk := disk }

/-- The handles of the file with this header are not used again. -/
def dropHandles (sector : ℤ) : System :=
  { s with handles := fun h =>
      match s.handles h with
      | none => none
      | some handle => if handle.sector = sector then none else some handle }

section Handles

variable {s} {h h' : ℕ} {v : Option Handle} {handle : Handle} {file : OpenFile} {sector : ℤ}

lemma handles_setHandle_self : (s.setHandle h v).handles h = v := Function.update_self ..

lemma handles_setHandle_of_ne (hne : h' ≠ h) : (s.setHandle h v).handles h' = s.handles h' :=
  Function.update_of_ne hne ..

lemma handles_dropHandles : (s.dropHandles sector).handles h = some handle ↔
    s.handles h = some handle ∧ handle.sector ≠ sector := by
  show (match s.handles h with
    | none => none
    | some handle => if handle.sector = sector then none else some handle) = some handle ↔ _
  cases s.handles h with
  | none => simp
  | some v =>
    dsimp only
    by_cases hv : v.sector = sector
    · rw [if_pos hv]
      exact iff_of_false (fun h => nomatch h) fun ⟨h, hne⟩ => hne (Option.some.inj h ▸ hv)
    · rw [if_neg hv]
      exact ⟨fun h => ⟨h, Option.some.inj h ▸ hv⟩, And.left⟩

end Handles

/-- The handle; there is nothing else to be used. -/
def handle (h : ℕ) : Except Fault Handle :=
  match s.handles h with
  | none => .error .disabled
  | some handle => .ok handle

/-- One operation. -/
def exec (fresh : ℕ → Memory) : Op → Except Fault (Result × System)
  | .create name initialSize => do
    let r ← s.toFileSystem.create fresh (cString name) initialSize.toInt
    return (.success r.1, { s with toFileSystem := r.2 })
  | .openFile h name => do
    match ← s.toFileSystem.openFile fresh (cString name) with
    | none => return (.success false, s.setHandle h none)
    | some (sector, file) => return (.success true, s.setHandle h (some ⟨file, sector⟩))
  | .seek h position => do
    let handle ← s.handle h
    return (.unit, s.setFile h handle (handle.file.seek position.toInt))
  | .read h numBytes => do
    let handle ← s.handle h
    let r ← handle.file.read s.disk (fresh 0) numBytes.toInt
    return (.bytes r.1, s.setFile h handle r.2)
  | .write h source numBytes => do
    let handle ← s.handle h
    let r ← handle.file.write s.disk fresh source numBytes.toInt
    return (.count r.1, (s.setDisk r.2.1).setFile h handle r.2.2)
  | .readAt h numBytes position => do
    let handle ← s.handle h
    let r ← handle.file.readAt s.disk (fresh 0) numBytes.toInt position.toInt
    return (.bytes r, s)
  | .writeAt h source numBytes position => do
    let handle ← s.handle h
    let r ← handle.file.writeAt s.disk fresh source numBytes.toInt position.toInt
    return (.count r.1, s.setDisk r.2)
  | .length h => do
    let handle ← s.handle h
    return (.count handle.file.length, s)
  | .remove name => do
    let r ← s.toFileSystem.remove fresh (cString name)
    let s := { s with toFileSystem := r.2 }
    match r.1 with
    | none => return (.success false, s)
    | some sector => return (.success true, s.dropHandles sector)
  | .restart => do
    let fs ← FileSystem.mount s.disk
    return (.unit, ⟨fs, fun _ => none⟩)

end System

/-- One step; what it shows are the operation and the result. -/
def step (c : Choice) (s : System) : Except Fault (List (Op × Result) × System) := do
  let r ← s.exec c.fresh c.op
  return ([(c.op, r.1)], r.2)

/-- The steps of the system. -/
abbrev Step : System → List (Op × Result) → System → Prop := StepOf step

/-- A disk is formatted, and there are no handles. -/
def boot (disk : Disk) (fresh : ℕ → Memory) : Except Fault System := do
  return ⟨← FileSystem.format disk fresh, fun _ => none⟩

end Nachos.Filesys
