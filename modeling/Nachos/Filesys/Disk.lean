import Nachos.Lib.Blocks
import Nachos.Mips.Memory
import Nachos.Userprog.BitMap

/-!
# Sectors, file headers and open files

The disk holds `NumSectors` sectors of `SectorSize` bytes. A file has a header, in a sector of its
own, with the numbers of its data sectors; an open file keeps the header in memory. A transfer
reads or writes whole sectors, through a buffer.

An `int` is an integer, and a sum that may leave the 32 bits is taken modulo them. Memory that
`new` gives holds anything: where the code does not fill it, its content is a parameter, and where
an operation has several such objects, a parameter for each.
-/

namespace Nachos.Filesys

open Lib Threads Userprog Mips

/-- `SectorSize`. -/
abbrev sectorSize : ℕ := 128

/-- `NumSectors`. -/
abbrev numSectors : ℕ := 1024

/-- The bytes of an object, from its first one. -/
abbrev Memory := ℕ → Byte

/-- The sectors. -/
abbrev Disk := ℕ → Memory

/-- The result of `int` arithmetic. -/
def int (x : ℤ) : ℤ := x.bmod (2 ^ 32)

/-- `SynchDisk::ReadSector`. -/
def readSector (disk : Disk) (sectorNumber : ℤ) : Except Fault Memory :=
  if 0 ≤ sectorNumber ∧ sectorNumber < numSectors then .ok (disk sectorNumber.toNat)
  else .error .assertion

/-- `SynchDisk::WriteSector`. -/
def writeSector (disk : Disk) (sectorNumber : ℤ) (data : Memory) : Except Fault Disk :=
  if 0 ≤ sectorNumber ∧ sectorNumber < numSectors then
    .ok (Function.update disk sectorNumber.toNat
      (copyAt (disk sectorNumber.toNat) 0 sectorSize data))
  else .error .assertion

/-! ### Words in memory -/

/-- The bytes of an array of words. -/
def bytesOf (w : ℕ → Word) : Memory := fun j => (w (j / 4)).extractLsb' (8 * (j % 4)) 8

/-- The words in memory. -/
def wordsOf (m : Memory) : ℕ → Word := fun i => Machine.readLong m (4 * i)

/-- `divRoundUp`. -/
def divRoundUp (n s : ℤ) : ℤ := n.tdiv s + if n.tmod s > 0 then 1 else 0

/-- `NumDirect`. -/
abbrev numDirect : ℕ := 30

/-- `MaxFileSize`. -/
abbrev maxFileSize : ℕ := numDirect * sectorSize

/-- `class FileHeader`. -/
structure FileHeader where
  numBytes : Word
  numSectors : Word
  dataSectors : ℕ → Word

namespace FileHeader

/-- The object as an array of words. -/
def word (hdr : FileHeader) : ℕ → Word
  | 0 => hdr.numBytes
  | 1 => hdr.numSectors
  | i + 2 => hdr.dataSectors i

def ofMemory (m : Memory) : FileHeader :=
  ⟨wordsOf m 0, wordsOf m 1, fun i => wordsOf m (i + 2)⟩

/-- `FileHeader::FetchFrom`. -/
def fetchFrom (disk : Disk) (sector : ℤ) : Except Fault FileHeader := do
  return ofMemory (← readSector disk sector)

variable (hdr : FileHeader)

/-- `FileHeader::WriteBack`. -/
def writeBack (disk : Disk) (sector : ℤ) : Except Fault Disk :=
  writeSector disk sector (bytesOf hdr.word)

/-- `dataSectors[i]`, for an index in the object: before the array lie `numBytes` and
`numSectors`. -/
def dataSector (i : ℤ) : Except Fault ℤ :=
  if -2 ≤ i ∧ i < numDirect then .ok (hdr.word (i + 2).toNat).toInt else .error .memory

/-- `FileHeader::ByteToSector`. -/
def byteToSector (offset : ℤ) : Except Fault ℤ := hdr.dataSector (offset.tdiv sectorSize)

/-- `FileHeader::FileLength`. -/
def fileLength : ℤ := hdr.numBytes.toInt

/-- The loop of `Allocate`: `n` sectors from index `i` on. -/
def allocateSectors : ℕ → ℕ → FileHeader → BitMap → Except Fault (FileHeader × BitMap)
  | 0, _, hdr, freeMap => .ok (hdr, freeMap)
  | n + 1, i, hdr, freeMap =>
    if i < numDirect then
      allocateSectors n (i + 1)
        { hdr with dataSectors :=
          Function.update hdr.dataSectors i (BitVec.ofInt 32 freeMap.find.1) } freeMap.find.2
    else .error .memory

/-- `FileHeader::Allocate`. -/
def allocate (freeMap : BitMap) (fileSize : ℤ) : Except Fault (Bool × FileHeader × BitMap) :=
  let sectors := divRoundUp fileSize sectorSize
  let hdr := { hdr with
    numBytes := BitVec.ofInt 32 fileSize, numSectors := BitVec.ofInt 32 sectors }
  if freeMap.numClear < sectors then .ok (false, hdr, freeMap)
  else do
    let new ← allocateSectors sectors.toNat 0 hdr freeMap
    return (true, new)

/-- The loop of `Deallocate`: `n` sectors from index `i` on. -/
def deallocateSectors : ℕ → ℕ → BitMap → Except Fault BitMap
  | 0, _, freeMap => .ok freeMap
  | n + 1, i, freeMap => do
    let sector ← hdr.dataSector i
    if ← freeMap.test sector then deallocateSectors n (i + 1) (← freeMap.clear sector)
    else throw .assertion

/-- `FileHeader::Deallocate`. -/
def deallocate (freeMap : BitMap) : Except Fault BitMap :=
  hdr.deallocateSectors hdr.numSectors.toInt.toNat 0 freeMap

end FileHeader

/-! ### Open files -/

/-- `class OpenFile`. -/
structure OpenFile where
  hdr : FileHeader
  seekPosition : ℤ

namespace OpenFile

/-- `OpenFile::OpenFile`. -/
def new (disk : Disk) (sector : ℤ) : Except Fault OpenFile := do
  return ⟨← FileHeader.fetchFrom disk sector, 0⟩

/-- The loop over the sectors from `firstSector + i` on, `n` of them, that reads them into the
buffer. -/
def readSectors (disk : Disk) (hdr : FileHeader) (firstSector : ℤ) :
    ℕ → ℕ → Memory → Except Fault Memory
  | 0, _, buf => .ok buf
  | n + 1, i, buf => do
    let sector ← hdr.byteToSector ((firstSector + i) * sectorSize)
    let data ← readSector disk sector
    readSectors disk hdr firstSector n (i + 1) (copyAt buf (i * sectorSize) sectorSize data)

/-- The loop that writes them back. -/
def writeSectors (hdr : FileHeader) (firstSector : ℤ) (buf : Memory) :
    ℕ → ℕ → Disk → Except Fault Disk
  | 0, _, disk => .ok disk
  | n + 1, i, disk => do
    let sector ← hdr.byteToSector ((firstSector + i) * sectorSize)
    let disk ← writeSector disk sector fun j => buf (i * sectorSize + j)
    writeSectors hdr firstSector buf n (i + 1) disk

variable (f : OpenFile)

/-- The number of bytes that are transferred, after the check of the request. -/
def clip (numBytes position : ℤ) : ℤ :=
  if int (position + numBytes) > f.hdr.fileLength then int (f.hdr.fileLength - position)
  else numBytes

/-- `firstSector`, `lastSector`. -/
def firstSector (position : ℤ) : ℤ := position.tdiv sectorSize

def lastSector (numBytes position : ℤ) : ℤ :=
  (int (position + numBytes - 1)).tdiv sectorSize

/-- The range of the buffer is inside it. -/
def InBuffer (start numBytes size : ℤ) : Prop := 0 ≤ start ∧ start + numBytes ≤ size

instance (start numBytes size : ℤ) : Decidable (InBuffer start numBytes size) :=
  inferInstanceAs (Decidable (_ ∧ _))

/-- `OpenFile::ReadAt`: the bytes that are copied to `into`; the result is their number. `new char`
of a negative size ends the run. -/
def readAt (disk : Disk) (fresh : Memory) (numBytes position : ℤ) : Except Fault (List Byte) :=
  if numBytes ≤ 0 ∨ position ≥ f.hdr.fileLength then .ok []
  else
    let numBytes := f.clip numBytes position
    let first := firstSector position
    let sectors := 1 + lastSector numBytes position - first
    let start := position - first * sectorSize
    if sectors < 0 then .error .memory
    else do
      let buf ← readSectors disk f.hdr first sectors.toNat 0 fresh
      if InBuffer start numBytes (sectors * sectorSize) then
        return slice buf start.toNat numBytes.toNat
      else throw .memory

/-- A sector of the file is read to the cell `a` of the buffer and on. -/
def readInto (disk : Disk) (fresh buf : Memory) (a position : ℤ) : Except Fault Memory := do
  let data ← f.readAt disk fresh sectorSize position
  return copyAt buf a.toNat data.length (data.getD · 0)

/-- The buffer of `WriteAt`, with the first and the last sector read in if they are to be partially
modified. -/
def partialSectors (disk : Disk) (fresh : ℕ → Memory) (first last : ℤ)
    (firstAligned lastAligned : Bool) : Except Fault Memory := do
  let buf ← (if firstAligned then .ok (fresh 0)
    else f.readInto disk (fresh 1) (fresh 0) 0 (first * sectorSize) : Except Fault Memory)
  if !lastAligned && (first != last || firstAligned) then
    f.readInto disk (fresh 2) buf ((last - first) * sectorSize) (last * sectorSize)
  else pure buf

/-- `OpenFile::WriteAt`: the number of bytes written, and the disk. -/
def writeAt (disk : Disk) (fresh : ℕ → Memory) (source : Memory) (numBytes position : ℤ) :
    Except Fault (ℤ × Disk) :=
  if numBytes ≤ 0 ∨ position ≥ f.hdr.fileLength then .ok (0, disk)
  else
    let numBytes := f.clip numBytes position
    let first := firstSector position
    let last := lastSector numBytes position
    let sectors := 1 + last - first
    let start := position - first * sectorSize
    if sectors < 0 then .error .memory
    else do
      let buf ← f.partialSectors disk fresh first last (position = first * sectorSize)
        (int (position + numBytes) = (last + 1) * sectorSize)
      if InBuffer start numBytes (sectors * sectorSize) then
        let buf := copyAt buf start.toNat numBytes.toNat source
        return (numBytes, ← writeSectors f.hdr first buf sectors.toNat 0 disk)
      else throw .memory

/-- `OpenFile::Seek`. -/
def seek (position : ℤ) : OpenFile := { f with seekPosition := position }

/-- `OpenFile::Read`. -/
def read (disk : Disk) (fresh : Memory) (numBytes : ℤ) : Except Fault (List Byte × OpenFile) := do
  let result ← f.readAt disk fresh numBytes f.seekPosition
  return (result, f.seek (int (f.seekPosition + result.length)))

/-- `OpenFile::Write`. -/
def write (disk : Disk) (fresh : ℕ → Memory) (source : Memory) (numBytes : ℤ) :
    Except Fault (ℤ × Disk × OpenFile) := do
  let result ← f.writeAt disk fresh source numBytes f.seekPosition
  return (result.1, result.2, f.seek (int (f.seekPosition + result.1)))

/-- `OpenFile::Length`. -/
def length : ℤ := f.hdr.fileLength

end OpenFile

end Nachos.Filesys
