import Nachos.Mips.Decode

/-!
# One instruction

`Machine::OneInstruction` and `Mult`. The body is cut in three: the fetch, the `switch` on the
operation (`execute`), and the end that all cases share, which applies the pending load and
advances the program counters.
-/

namespace Nachos.Mips

open OpCode

/-- `SIGN_BIT`. -/
def signBit : Word := 0x80000000

/-- `IndexToAddr(x)`. -/
def indexToAddr (x : Word) : Word := x <<< 2

/-- `R31`. -/
def r31 : RegNum := 31

/-! ### Multiplication -/

/-- The locals of `Mult` in its loop. -/
structure MultState where
  a : Word
  bLo : Word
  bHi : Word
  lo : Word
  hi : Word

namespace MultState

/-- `lo += bLo`, with the carry, and `hi += bHi`. -/
def addShifted (s : MultState) : MultState :=
  let lo := s.lo + s.bLo
  let hi := if lo < s.bLo then s.hi + 1 else s.hi
  { s with lo := lo, hi := hi + s.bHi }

/-- The shifts at the end of an iteration; `a` is an `int`. -/
def shift (s : MultState) : MultState :=
  { s with
    bHi := if s.bLo &&& 0x80000000 ≠ 0 then s.bHi <<< 1 ||| 1 else s.bHi <<< 1
    bLo := s.bLo <<< 1
    a := s.a.sshiftRight 1 }

/-- At most `n` iterations of the loop. -/
def loop : ℕ → MultState → MultState
  | 0, s => s
  | n + 1, s =>
    if s.a &&& 1 ≠ 0 then
      if s.a &&& 0xfffffffe = 0 then s.addShifted else loop n s.addShifted.shift
    else loop n s.shift

end MultState

/-- `Mult`: the words it leaves in `*hiPtr` and `*loPtr`. -/
def mult (a b : Word) (signedArith : Bool) : Word × Word :=
  if a = 0 ∨ b = 0 then (0, 0)
  else
    let negative := signedArith && (a.msb != b.msb)
    let a := if signedArith && a.msb then -a else a
    let b := if signedArith && b.msb then -b else b
    let s := MultState.loop 32 ⟨a, b, 0, 0, 0⟩
    if negative then
      let lo := ~~~s.lo + 1
      (if lo = 0 then ~~~s.hi + 1 else ~~~s.hi, lo)
    else (s.hi, s.lo)

/-! ### The cases of the switch -/

/-- The machine and the locals of `OneInstruction` when the `switch` is left. -/
structure Outcome where
  m : Machine
  pcAfter : Word
  nextLoadReg : RegNum
  nextLoadValue : Word

namespace Machine

/-- A case that only assigns registers. -/
def done (m : Machine) (r : Registers) : Outcome :=
  ⟨m.withRegs r, m.registers.nextPC + 4, 0, 0⟩

/-- A case that assigns registers and `pcAfter`. -/
def jump (m : Machine) (r : Registers) (pcAfter : Word) : Outcome :=
  ⟨m.withRegs r, pcAfter, 0, 0⟩

/-- A case that leaves a delayed load. -/
def load (m : Machine) (reg : RegNum) (value : Word) : Outcome :=
  ⟨m, m.registers.nextPC + 4, reg, value⟩

/-- A branch: `pcAfter` is assigned when the condition holds. -/
def branch (m : Machine) (r : Registers) (taken : Bool) (extra : Word) : Outcome :=
  m.jump r (if taken then r.nextPC + indexToAddr extra else r.nextPC + 4)

/-- `nextLoadValue` before the merge of `LWL` and `LWR`. -/
def loadBase (m : Machine) (rt : RegNum) : Word :=
  if m.registers.loadReg = rt then m.registers.loadValue else m.registers.gpr rt

end Machine

/-- The inner `switch` of `OP_LWL`. -/
def mergeLwl (tmp old value : Word) : Word :=
  match (tmp &&& 3).toNat with
  | 0 => value
  | 1 => (old &&& 0xff) ||| (value <<< 8)
  | 2 => (old &&& 0xffff) ||| (value <<< 16)
  | _ => (old &&& 0xffffff) ||| (value <<< 24)

/-- The inner `switch` of `OP_LWR`; `value` is an `int`. -/
def mergeLwr (tmp old value : Word) : Word :=
  match (tmp &&& 3).toNat with
  | 0 => (old &&& 0xffffff00) ||| (value.sshiftRight 24 &&& 0xff)
  | 1 => (old &&& 0xffff0000) ||| (value.sshiftRight 16 &&& 0xffff)
  | 2 => (old &&& 0xff000000) ||| (value.sshiftRight 8 &&& 0xffffff)
  | _ => value

/-- The inner `switch` of `OP_SWL`. -/
def mergeSwl (tmp rt value : Word) : Word :=
  match (tmp &&& 3).toNat with
  | 0 => rt
  | 1 => (value &&& 0xff000000) ||| (rt >>> 8 &&& 0xffffff)
  | 2 => (value &&& 0xffff0000) ||| (rt >>> 16 &&& 0xffff)
  | _ => (value &&& 0xffffff00) ||| (rt >>> 24 &&& 0xff)

/-- The inner `switch` of `OP_SWR`. -/
def mergeSwr (tmp rt value : Word) : Word :=
  match (tmp &&& 3).toNat with
  | 0 => (value &&& 0xffffff) ||| (rt <<< 24)
  | 1 => (value &&& 0xffff) ||| (rt <<< 16)
  | 2 => (value &&& 0xff) ||| (rt <<< 8)
  | _ => rt

/-- The `switch` of `OneInstruction`. The registers are `unsigned int`, and so is
`instr->extra`; only `sum`, `diff`, `tmp` and `value` are signed. -/
def execute (m : Machine) (instr : Instruction) : Except Stop Outcome :=
  let r := m.registers
  let rs := r.gpr instr.rs
  let rt := r.gpr instr.rt
  let extra := instr.extra
  match instr.opCode with
  | opAdd =>
    let sum := rs + rt
    if (rs ^^^ rt) &&& signBit = 0 ∧ (rs ^^^ sum) &&& signBit ≠ 0 then
      m.raiseException .overflowException 0
    else pure (m.done (r.write instr.rd sum))
  | opAddi =>
    let sum := rs + extra
    if (rs ^^^ extra) &&& signBit = 0 ∧ (extra ^^^ sum) &&& signBit ≠ 0 then
      m.raiseException .overflowException 0
    else pure (m.done (r.write instr.rt sum))
  | opAddiu => pure (m.done (r.write instr.rt (rs + extra)))
  | opAddu => pure (m.done (r.write instr.rd (rs + rt)))
  | opAnd => pure (m.done (r.write instr.rd (rs &&& rt)))
  | opAndi => pure (m.done (r.write instr.rt (rs &&& (extra &&& 0xffff))))
  | opBeq => pure (m.branch r (rs == rt) extra)
  | opBgezal =>
    let r := r.write r31 (r.nextPC + 4)
    pure (m.branch r (r.gpr instr.rs &&& signBit == 0) extra)
  | opBgez => pure (m.branch r (rs &&& signBit == 0) extra)
  | opBgtz => pure (m.branch r (0 < rs) extra)
  | opBlez => pure (m.branch r (rs ≤ 0) extra)
  | opBltzal =>
    let r := r.write r31 (r.nextPC + 4)
    pure (m.branch r (r.gpr instr.rs &&& signBit != 0) extra)
  | opBltz => pure (m.branch r (rs &&& signBit != 0) extra)
  | opBne => pure (m.branch r (rs != rt) extra)
  | opDiv =>
    if rt = 0 then pure (m.done { r with lo := 0, hi := 0 })
    else pure (m.done { r with lo := rs / rt, hi := rs % rt })
  | opDivu =>
    if rt = 0 then pure (m.done { r with lo := 0, hi := 0 })
    else pure (m.done { r with lo := rs / rt, hi := rs % rt })
  | opJal =>
    pure (m.jump (r.write r31 (r.nextPC + 4))
      (((r.nextPC + 4) &&& 0xf0000000) ||| indexToAddr extra))
  | opJ => pure (m.jump r (((r.nextPC + 4) &&& 0xf0000000) ||| indexToAddr extra))
  | opJalr =>
    let r := r.write instr.rd (r.nextPC + 4)
    pure (m.jump r (r.gpr instr.rs))
  | opJr => pure (m.jump r rs)
  | opLb => do
    let (value, m) ← m.readMem (rs + extra) 1
    pure (m.load instr.rt (if value &&& 0x80 ≠ 0 then value ||| 0xffffff00 else value &&& 0xff))
  | opLbu => do
    let (value, m) ← m.readMem (rs + extra) 1
    pure (m.load instr.rt (value &&& 0xff))
  | opLh =>
    let tmp := rs + extra
    if tmp &&& 1 ≠ 0 then m.raiseException .addressErrorException tmp
    else do
      let (value, m) ← m.readMem tmp 2
      pure (m.load instr.rt
        (if value &&& 0x8000 ≠ 0 then value ||| 0xffff0000 else value &&& 0xffff))
  | opLhu =>
    let tmp := rs + extra
    if tmp &&& 1 ≠ 0 then m.raiseException .addressErrorException tmp
    else do
      let (value, m) ← m.readMem tmp 2
      pure (m.load instr.rt (value &&& 0xffff))
  | opLui => pure (m.done (r.write instr.rt (extra <<< 16)))
  | opLw =>
    let tmp := rs + extra
    if tmp &&& 3 ≠ 0 then m.raiseException .addressErrorException tmp
    else do
      let (value, m) ← m.readMem tmp 4
      pure (m.load instr.rt value)
  | opLwl => do
    let tmp := rs + extra
    assert (tmp &&& 3 == 0)
    let (value, m) ← m.readMem tmp 4
    pure (m.load instr.rt (mergeLwl tmp (m.loadBase instr.rt) value))
  | opLwr => do
    let tmp := rs + extra
    assert (tmp &&& 3 == 0)
    let (value, m) ← m.readMem tmp 4
    pure (m.load instr.rt (mergeLwr tmp (m.loadBase instr.rt) value))
  | opMfhi => pure (m.done (r.write instr.rd r.hi))
  | opMflo => pure (m.done (r.write instr.rd r.lo))
  | opMthi => pure (m.done { r with hi := rs })
  | opMtlo => pure (m.done { r with lo := rs })
  | opMult =>
    let p := mult rs rt true
    pure (m.done { r with hi := p.1, lo := p.2 })
  | opMultu =>
    let p := mult rs rt false
    pure (m.done { r with hi := p.1, lo := p.2 })
  | opNor => pure (m.done (r.write instr.rd (~~~(rs ||| rt))))
  -- the source names `rs` twice
  | opOr => pure (m.done (r.write instr.rd (rs ||| rs)))
  | opOri => pure (m.done (r.write instr.rt (rs ||| (extra &&& 0xffff))))
  | opSb => do
    let m ← m.writeMem (rs + extra) 1 rt
    pure (m.done m.registers)
  | opSh => do
    let m ← m.writeMem (rs + extra) 2 rt
    pure (m.done m.registers)
  | opSll => pure (m.done (r.write instr.rd (rt <<< extra.toNat)))
  | opSllv => pure (m.done (r.write instr.rd (rt <<< (rs &&& 0x1f).toNat)))
  | opSlt => pure (m.done (r.write instr.rd (if rs < rt then 1 else 0)))
  | opSlti => pure (m.done (r.write instr.rt (if rs < extra then 1 else 0)))
  | opSltiu => pure (m.done (r.write instr.rt (if rs < extra then 1 else 0)))
  | opSltu => pure (m.done (r.write instr.rd (if rs < rt then 1 else 0)))
  -- an unsigned register is shifted with zeros, the `int` `tmp` with its sign
  | opSra => pure (m.done (r.write instr.rd (rt >>> extra.toNat)))
  | opSrav => pure (m.done (r.write instr.rd (rt >>> (rs &&& 0x1f).toNat)))
  | opSrl => pure (m.done (r.write instr.rd (rt.sshiftRight extra.toNat)))
  | opSrlv => pure (m.done (r.write instr.rd (rt.sshiftRight (rs &&& 0x1f).toNat)))
  | opSub =>
    let diff := rs - rt
    if (rs ^^^ rt) &&& signBit ≠ 0 ∧ (rs ^^^ diff) &&& signBit ≠ 0 then
      m.raiseException .overflowException 0
    else pure (m.done (r.write instr.rd diff))
  | opSubu => pure (m.done (r.write instr.rd (rs - rt)))
  | opSw => do
    let m ← m.writeMem (rs + extra) 4 rt
    pure (m.done m.registers)
  | opSwl => do
    let tmp := rs + extra
    assert (tmp &&& 3 == 0)
    let (value, m) ← m.readMem (tmp &&& ~~~3) 4
    let m ← m.writeMem (tmp &&& ~~~3) 4 (mergeSwl tmp rt value)
    pure (m.done m.registers)
  | opSwr => do
    let tmp := rs + extra
    assert (tmp &&& 3 == 0)
    let (value, m) ← m.readMem (tmp &&& ~~~3) 4
    let m ← m.writeMem (tmp &&& ~~~3) 4 (mergeSwr tmp rt value)
    pure (m.done m.registers)
  | opSyscall => m.raiseException .syscallException 0
  | opXor => pure (m.done (r.write instr.rd (rs ^^^ rt)))
  | opXori => pure (m.done (r.write instr.rt (rs ^^^ (extra &&& 0xffff))))
  | opRes => m.raiseException .illegalInstrException 0
  | opUnimp => m.raiseException .illegalInstrException 0
  | opRfe => throw .assertion
  | special => throw .assertion
  | bcond => throw .assertion

namespace Machine

/-- The end of `OneInstruction`. -/
def finish (o : Outcome) : Machine :=
  o.m.withRegs ((o.m.registers.delayedLoad o.nextLoadReg o.nextLoadValue).advance o.pcAfter)

/-- `Machine::OneInstruction`. -/
def oneInstruction (m : Machine) : Except Stop Machine := do
  let (raw, m) ← m.readMem m.registers.pc 4
  let o ← execute m (.decode raw)
  return finish o

/-! ### The fetch -/

/-- A successful read leaves the registers alone. -/
lemma readMem_registers {m m' : Machine} {addr : Word} {size : ℕ} {v : Word}
    (h : m.readMem addr size = .ok (v, m')) : m'.registers = m.registers := by
  unfold readMem at h
  cases ht : m.translate addr size false with
  | error e => rw [ht] at h; cases h
  | ok t =>
    rw [ht] at h
    cases t with
    | fault which => cases h
    | ok physicalAddress table =>
      -- the only field a read changes is the page table
      simp only [bind, Except.bind] at h
      split at h <;> cases h <;> rfl

/-- With the word fetched, what is left is the `switch` and the end. -/
lemma oneInstruction_of_fetch {m m₁ : Machine} {w : Word}
    (fetch : m.readMem m.registers.pc 4 = .ok (w, m₁)) :
    m.oneInstruction = (execute m₁ (.decode w)).map finish := by
  rw [oneInstruction, fetch]
  show (execute m₁ (.decode w) >>= fun o => pure (finish o)) = _
  cases execute m₁ (.decode w) <;> rfl

section Finish

variable (m : Machine) (r : Registers) (w : Word)

@[simp] lemma finish_jump_pc : (finish (m.jump r w)).registers.pc = r.nextPC := rfl
@[simp] lemma finish_jump_nextPC : (finish (m.jump r w)).registers.nextPC = w := rfl

@[simp] lemma finish_done_hi : (finish (m.done r)).registers.hi = r.hi := rfl
@[simp] lemma finish_done_lo : (finish (m.done r)).registers.lo = r.lo := rfl

/-- The destination keeps what the case assigned to it, unless a load is pending for it. -/
lemma finish_done_gpr {d : RegNum} (h0 : d ≠ 0) (hl : r.loadReg ≠ d) :
    (finish (m.done r)).registers.gpr d = r.gpr d :=
  r.delayedLoad_gpr 0 0 h0 hl

lemma finish_jump_gpr {d : RegNum} (h0 : d ≠ 0) (hl : r.loadReg ≠ d) :
    (finish (m.jump r w)).registers.gpr d = r.gpr d :=
  r.delayedLoad_gpr 0 0 h0 hl

end Finish

/-- The machine at the start of a program whose first word is `w`, with one page mapped. -/
def boot (gpr : RegNum → Word) (w : Word) : Machine where
  registers := ⟨gpr, 0, 0, 0, 4, 0, 0, 0, 0⟩
  mainMemory := storeBytes (fun _ => 0) 0 4 w
  pageTable := some [⟨0, 0, true, false, false, false⟩]

end Machine

end Nachos.Mips
