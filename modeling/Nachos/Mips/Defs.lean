import Mathlib.Logic.Function.Basic
import Mathlib.Tactic.Common

/-!
# The simulated machine: registers, memory and the page table

The state of `class Machine` (`machine.h`) and the routines that the instruction simulator calls
on it: `ReadMem` and `WriteMem` with `Translate` under them, `DelayedLoad`, `RaiseException`.

The array `registers[NumTotalRegs]` of `unsigned int` is the record `Registers`; the register
number held in `LoadReg` only ever is the `rt` field of an instruction or `0`, so it is a five-bit
number. The page table is the linear one (no `USE_TLB`): `tlb` is `NULL`.

A routine stops early when it traps to the kernel (`Stop.exception`, with the machine as
`ExceptionHandler` finds it) or when an `ASSERT` fails.
-/

namespace Nachos.Mips

/-- A 32-bit machine word. -/
abbrev Word := BitVec 32

/-- A byte of main memory. -/
abbrev Byte := BitVec 8

/-- The number of a general purpose register. -/
abbrev RegNum := BitVec 5

/-- `SectorSize`, `PageSize`. -/
abbrev pageSize : ℕ := 128

abbrev numPhysPages : ℕ := 64

abbrev memorySize : ℕ := numPhysPages * pageSize

/-- `enum ExceptionType`. -/
inductive ExceptionType where
  | syscallException | pageFaultException | readOnlyException | busErrorException
  | addressErrorException | overflowException | illegalInstrException
  deriving DecidableEq

/-- `class TranslationEntry`. -/
structure TranslationEntry where
  virtualPage : Word
  physicalPage : Word
  valid : Bool
  readOnly : Bool
  use : Bool
  dirty : Bool
  deriving DecidableEq

/-- `registers[NumTotalRegs]`: the general registers, `HiReg`, `LoReg`, `PCReg`, `NextPCReg`,
`PrevPCReg`, `LoadReg`, `LoadValueReg` and `BadVAddrReg`. -/
structure Registers where
  gpr : RegNum → Word
  hi : Word
  lo : Word
  pc : Word
  nextPC : Word
  prevPC : Word
  loadReg : RegNum
  loadValue : Word
  badVAddr : Word

/-- `class Machine`. -/
structure Machine where
  registers : Registers
  mainMemory : ℕ → Byte
  /-- `NULL`, or the entries of the table; its length is `pageTableSize`. -/
  pageTable : Option (List TranslationEntry)

/-- Why a routine does not run to its end. -/
inductive Stop where
  /-- `ExceptionHandler(which)` is entered with this machine. -/
  | exception (which : ExceptionType) (m : Machine)
  /-- An `ASSERT` failed. -/
  | assertion

/-- `ASSERT(condition)`. -/
def assert (c : Bool) : Except Stop Unit := if c then pure () else throw .assertion

namespace Registers

/-- `registers[n] = v`, for a general register. -/
def write (r : Registers) (n : RegNum) (v : Word) : Registers :=
  { r with gpr := Function.update r.gpr n v }

/-- `Machine::DelayedLoad`. -/
def delayedLoad (r : Registers) (nextReg : RegNum) (nextValue : Word) : Registers :=
  { r with
    gpr := Function.update (Function.update r.gpr r.loadReg r.loadValue) 0 0
    loadReg := nextReg
    loadValue := nextValue }

/-- The advance of the program counters at the end of `OneInstruction`. -/
def advance (r : Registers) (pcAfter : Word) : Registers :=
  { r with prevPC := r.pc, pc := r.nextPC, nextPC := pcAfter }

end Registers

namespace Machine

/-- The machine with other registers. -/
def withRegs (m : Machine) (r : Registers) : Machine := { m with registers := r }

/-- `Machine::RaiseException`, up to the call of `ExceptionHandler`. -/
def raiseException {α : Type} (m : Machine) (which : ExceptionType) (badVAddr : Word) :
    Except Stop α :=
  throw (.exception which
    (m.withRegs ({ m.registers with badVAddr := badVAddr }.delayedLoad 0 0)))

/-- What `Translate` returns: an exception code, or `*physAddr` and the table with the bits set. -/
inductive Translation where
  | fault (which : ExceptionType)
  | ok (physAddr : ℕ) (table : List TranslationEntry)

/-- `Machine::Translate`. -/
def translate (m : Machine) (virtAddr : Word) (size : ℕ) (writing : Bool) :
    Except Stop Translation := do
  if size = 4 ∧ virtAddr &&& 3 ≠ 0 ∨ size = 2 ∧ virtAddr &&& 1 ≠ 0 then
    return .fault .addressErrorException
  -- with `tlb == NULL` the first ASSERT holds and the second asks for a page table
  let some pageTable := m.pageTable | throw .assertion
  let vpn := virtAddr.toNat / pageSize
  let offset := virtAddr.toNat % pageSize
  match pageTable[vpn]? with
  | none => return .fault .addressErrorException
  | some entry =>
    if !entry.valid then
      return .fault .pageFaultException
    if entry.readOnly && writing then
      return .fault .readOnlyException
    let pageFrame := entry.physicalPage.toNat
    if pageFrame ≥ numPhysPages then
      return .fault .busErrorException
    let physAddr := pageFrame * pageSize + offset
    assert (physAddr + size ≤ memorySize)
    return .ok physAddr
      (pageTable.set vpn { entry with use := true, dirty := entry.dirty || writing })

/-- The two bytes at `a`, little-endian. -/
def readShort (mem : ℕ → Byte) (a : ℕ) : BitVec 16 := mem (a + 1) ++ mem a

/-- The four bytes at `a`, little-endian. -/
def readLong (mem : ℕ → Byte) (a : ℕ) : Word := mem (a + 3) ++ mem (a + 2) ++ mem (a + 1) ++ mem a

/-- `Machine::ReadMem`; the bits `Translate` set in the page table stay set. -/
def readMem (m : Machine) (addr : Word) (size : ℕ) : Except Stop (Word × Machine) := do
  match ← m.translate addr size false with
  | .fault which => m.raiseException which addr
  | .ok physicalAddress table =>
    let m := { m with pageTable := some table }
    match size with
    | 1 => return ((m.mainMemory physicalAddress).signExtend 32, m)
    | 2 => return ((readShort m.mainMemory physicalAddress).setWidth 32, m)
    | 4 => return (readLong m.mainMemory physicalAddress, m)
    | _ => throw .assertion

/-- The memory with the `n` low bytes of `value` stored at `a`, little-endian. -/
def storeBytes (mem : ℕ → Byte) (a n : ℕ) (value : Word) : ℕ → Byte := fun i =>
  if a ≤ i ∧ i < a + n then value.extractLsb' (8 * (i - a)) 8 else mem i

/-- `Machine::WriteMem`. -/
def writeMem (m : Machine) (addr : Word) (size : ℕ) (value : Word) : Except Stop Machine := do
  match ← m.translate addr size true with
  | .fault which => m.raiseException which addr
  | .ok physicalAddress table =>
    assert (size = 1 || size = 2 || size = 4)
    return { m with
      pageTable := some table
      mainMemory := storeBytes m.mainMemory physicalAddress size value }

end Machine

/-! ### What the register updates change -/

namespace Registers

variable (r : Registers)

@[simp] lemma write_same (n : RegNum) (v : Word) : (r.write n v).gpr n = v := by
  simp [write]

lemma write_of_ne {d n : RegNum} (v : Word) (h : d ≠ n) : (r.write n v).gpr d = r.gpr d :=
  Function.update_of_ne h _ _

@[simp] lemma write_hi (n : RegNum) (v : Word) : (r.write n v).hi = r.hi := rfl
@[simp] lemma write_lo (n : RegNum) (v : Word) : (r.write n v).lo = r.lo := rfl
@[simp] lemma write_pc (n : RegNum) (v : Word) : (r.write n v).pc = r.pc := rfl
@[simp] lemma write_nextPC (n : RegNum) (v : Word) : (r.write n v).nextPC = r.nextPC := rfl
@[simp] lemma write_loadReg (n : RegNum) (v : Word) : (r.write n v).loadReg = r.loadReg := rfl

@[simp] lemma delayedLoad_hi (n : RegNum) (v : Word) : (r.delayedLoad n v).hi = r.hi := rfl
@[simp] lemma delayedLoad_lo (n : RegNum) (v : Word) : (r.delayedLoad n v).lo = r.lo := rfl
@[simp] lemma delayedLoad_pc (n : RegNum) (v : Word) : (r.delayedLoad n v).pc = r.pc := rfl
@[simp] lemma delayedLoad_nextPC (n : RegNum) (v : Word) :
    (r.delayedLoad n v).nextPC = r.nextPC := rfl

/-- A register other than `r0` and the one a load is pending for keeps its value. -/
lemma delayedLoad_gpr {d : RegNum} (n : RegNum) (v : Word) (h0 : d ≠ 0) (hl : r.loadReg ≠ d) :
    (r.delayedLoad n v).gpr d = r.gpr d := by
  show Function.update (Function.update r.gpr r.loadReg r.loadValue) 0 0 d = r.gpr d
  rw [Function.update_of_ne h0, Function.update_of_ne (Ne.symm hl)]

@[simp] lemma delayedLoad_zero (n : RegNum) (v : Word) : (r.delayedLoad n v).gpr 0 = 0 := by
  simp [delayedLoad]

@[simp] lemma advance_gpr (w : Word) : (r.advance w).gpr = r.gpr := rfl
@[simp] lemma advance_hi (w : Word) : (r.advance w).hi = r.hi := rfl
@[simp] lemma advance_lo (w : Word) : (r.advance w).lo = r.lo := rfl
@[simp] lemma advance_pc (w : Word) : (r.advance w).pc = r.nextPC := rfl
@[simp] lemma advance_nextPC (w : Word) : (r.advance w).nextPC = w := rfl

end Registers

end Nachos.Mips
