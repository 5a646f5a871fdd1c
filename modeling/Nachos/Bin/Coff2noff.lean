import Nachos.Userprog.Loader

/-!
# From COFF to NOFF

`main` of `coff2noff.c`, which runs on the host (`gcc -m32`, little-endian, so that `ShortToHost`
and `WordToHost` change nothing). It folds the sections of a COFF file one by one into the three
segments of a NOFF header and appends the bytes of the initialised ones to the NOFF file.
-/

namespace Nachos.Bin

open Userprog Mips

/-- The exits with an error; the NOFF file is removed. -/
inductive Failure where
  /-- "File is too short" -/
  | tooShort
  /-- "File is not a MIPSEL COFF file" -/
  | notMipsel
  /-- "File is not a OMAGIC file" -/
  | notOmagic
  /-- "Can't handle both data and rdata" -/
  | dataAndRdata
  /-- "Can't handle both bss and sbss" -/
  | bssAndSbss
  /-- "Unknown segment type: %s" -/
  | unknownSegment
  /-- `malloc` and `read` with a negative size. -/
  | negativeSize
  deriving DecidableEq

/-- `struct scnhdr`, as far as it is used. -/
structure Scnhdr where
  /-- Eight characters. -/
  sName : List Byte
  sPaddr : Word
  sSize : Word
  sScnptr : Word

/-- A string of the host, without the zero at its end. -/
def cstring (s : List Char) : List Byte := s.map fun c => BitVec.ofNat 8 c.toNat

def text : List Byte := cstring ['.', 't', 'e', 'x', 't']
def data : List Byte := cstring ['.', 'd', 'a', 't', 'a']
def rdata : List Byte := cstring ['.', 'r', 'd', 'a', 't', 'a']
def bss : List Byte := cstring ['.', 'b', 's', 's']
def sbss : List Byte := cstring ['.', 's', 'b', 's', 's']

namespace Scnhdr

/-- What `strcmp` compares: the name up to the first zero. -/
def name (s : Scnhdr) : List Byte := s.sName.takeWhile (· ≠ 0)

def isText (s : Scnhdr) : Bool := s.name = text
def isData (s : Scnhdr) : Bool := s.name = data ∨ s.name = rdata
def isBss (s : Scnhdr) : Bool := s.name = bss ∨ s.name = sbss

end Scnhdr

/-! ### Files -/

def MIPSELMAGIC : BitVec 16 := 0x0162
def OMAGIC : BitVec 16 := 0x0107

/-- `sizeof(struct filehdr)`, `sizeof(struct aouthdr)`, `sizeof(struct scnhdr)` and
`sizeof(NoffHeader)`. -/
abbrev filehdrSize : ℕ := 20
abbrev aouthdrSize : ℕ := 56
abbrev scnhdrSize : ℕ := 40
abbrev noffHeaderSize : ℕ := 40

/-- `Read` at a position. -/
def read (file : List Byte) (position nBytes : ℕ) : Except Failure (List Byte) :=
  if position + nBytes ≤ file.length then .ok ((file.drop position).take nBytes)
  else .error .tooShort

/-- `lseek(fd, offset, 0)`, which refuses a negative offset. -/
def lseek (position : ℕ) (offset : Word) : ℕ :=
  if offset.toInt < 0 then position else offset.toNat

/-- The bytes of a buffer, as memory. -/
def buffer (bytes : List Byte) : ℕ → Byte := fun i => bytes.getD i 0

/-- `sections[i]`. -/
def scnhdr (bytes : List Byte) (i : ℕ) : Scnhdr :=
  let long := fun offset => Machine.readLong (buffer bytes) (scnhdrSize * i + offset)
  { sName := (bytes.drop (scnhdrSize * i)).take 8, sPaddr := long 8, sSize := long 16,
    sScnptr := long 20 }

/-- The bytes of an `int`, as they are written. -/
def wordBytes (w : Word) : List Byte :=
  [w.extractLsb' 0 8, w.extractLsb' 8 8, w.extractLsb' 16 8, w.extractLsb' 24 8]

def segmentBytes (segment : Segment) : List Byte :=
  wordBytes segment.virtualAddr ++ wordBytes segment.inFileAddr ++ wordBytes segment.size

/-- The bytes of the header, as they are written. -/
def headerBytes (noffH : NoffHeader) : List Byte :=
  wordBytes noffH.noffMagic ++ segmentBytes noffH.code ++ segmentBytes noffH.initData ++
    segmentBytes noffH.uninitData

/-! ### The conversion -/

/-- `noffH`, `inNoffFile`, the position of `fdIn`, and what has been written to `fdOut` after the
place of the header. -/
structure State where
  noffH : NoffHeader
  inNoffFile : Word
  position : ℕ
  body : List Byte

/-- The copy of an initialised section, and the segment that is recorded for it. -/
def copySection (file : List Byte) (s : Scnhdr) (st : State) : Except Failure (Segment × State) :=
  let position := lseek st.position s.sScnptr
  if s.sSize.toInt < 0 then .error .negativeSize
  else match read file position s.sSize.toNat with
    | .error f => .error f
    | .ok bytes =>
      .ok (⟨s.sPaddr, st.inNoffFile, s.sSize⟩,
        { st with
          inNoffFile := st.inNoffFile + s.sSize
          position := position + s.sSize.toNat
          body := st.body ++ bytes })

/-- One round of the loop over the sections. -/
def loadSection (file : List Byte) (s : Scnhdr) (st : State) : Except Failure State :=
  if s.sSize = 0 then .ok st
  else if s.isText then
    match copySection file s st with
    | .error f => .error f
    | .ok (code, st) => .ok { st with noffH := { st.noffH with code } }
  else if s.isData then
    if st.noffH.initData.size ≠ 0 then .error .dataAndRdata
    else match copySection file s st with
      | .error f => .error f
      | .ok (initData, st) => .ok { st with noffH := { st.noffH with initData } }
  else if s.isBss then
    let uninitData := st.noffH.uninitData
    if uninitData.size ≠ 0 then
      if s.sPaddr = uninitData.virtualAddr + uninitData.size then .error .bssAndSbss
      else .ok { st with noffH := { st.noffH with
        uninitData := { uninitData with size := uninitData.size + s.sSize } } }
    else .ok { st with noffH := { st.noffH with
      uninitData := { uninitData with virtualAddr := s.sPaddr, size := s.sSize } } }
  else .error .unknownSegment

/-- The loop over the sections. -/
def loadSections (file : List Byte) : List Scnhdr → State → Except Failure State
  | [], st => .ok st
  | s :: rest, st =>
    match loadSection file s st with
    | .error f => .error f
    | .ok st => loadSections file rest st

/-- The header before the loop. What is not set is what the `stack` held. -/
def NoffHeader.init (stack : NoffHeader) : NoffHeader where
  noffMagic := NOFFMAGIC
  code := { stack.code with size := 0 }
  initData := { stack.initData with size := 0 }
  uninitData := { stack.uninitData with size := 0 }

/-- `main`: the NOFF file that is written. -/
def main (stack : NoffHeader) (file : List Byte) : Except Failure (List Byte) := do
  let fileh ← read file 0 filehdrSize
  if Machine.readShort (buffer fileh) 0 ≠ MIPSELMAGIC then .error .notMipsel
  else do
    let systemh ← read file filehdrSize aouthdrSize
    if Machine.readShort (buffer systemh) 0 ≠ OMAGIC then .error .notOmagic
    else do
      let numsections := (Machine.readShort (buffer fileh) 2).toNat
      let bytes ← read file (filehdrSize + aouthdrSize) (numsections * scnhdrSize)
      let st ← loadSections file ((List.range numsections).map (scnhdr bytes))
        { noffH := NoffHeader.init stack
          inNoffFile := BitVec.ofNat 32 noffHeaderSize
          position := filehdrSize + aouthdrSize + numsections * scnhdrSize
          body := [] }
      .ok (headerBytes st.noffH ++ st.body)

end Nachos.Bin
