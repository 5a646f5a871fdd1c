import Nachos.Mips.Defs

/-!
# What the architecture defines

The MIPS-I arithmetic and control transfer instructions as the architecture has them: their
encodings and their results. Nothing here is read from the simulator; its tables and its `switch`
are compared with these definitions in the modules that follow.
-/

namespace Nachos.Mips.Arch

/-! ### The fields of an instruction word -/

def opField (w : Word) : BitVec 6 := w.extractLsb' 26 6
def rs (w : Word) : RegNum := w.extractLsb' 21 5
def rt (w : Word) : RegNum := w.extractLsb' 16 5
def rd (w : Word) : RegNum := w.extractLsb' 11 5
def shamt (w : Word) : BitVec 5 := w.extractLsb' 6 5
def funct (w : Word) : BitVec 6 := w.extractLsb' 0 6
def imm (w : Word) : BitVec 16 := w.extractLsb' 0 16
def target (w : Word) : BitVec 26 := w.extractLsb' 0 26

/-- Where a word says which instruction it is: in the opcode field, in the function field of
opcode 0, or in the `rt` field of opcode 1. -/
inductive Code where
  | op (c : BitVec 6)
  | special (c : BitVec 6)
  | regimm (c : BitVec 5)

/-- The word has the code. -/
def Code.Encodes : Code → Word → Prop
  | .op c, w => opField w = c
  | .special c, w => opField w = 0 ∧ funct w = c
  | .regimm c, w => opField w = 1 ∧ rt w = c

instance (c : Code) (w : Word) : Decidable (c.Encodes w) := by
  cases c <;> unfold Code.Encodes <;> infer_instance

/-! ### Arithmetic -/

/-- The arithmetic, logical, shift, comparison and division instructions. -/
inductive Arith where
  | add | addi | addiu | addu | sub | subu
  | and | andi | or | ori | xor | xori | nor | lui
  | sll | sllv | srl | srlv | sra | srav
  | slt | slti | sltu | sltiu | div | divu
  deriving DecidableEq

/-- What an arithmetic instruction does. -/
inductive Result where
  | value (v : Word)
  | hiLo (hi lo : Word)
  | overflow
  deriving DecidableEq

namespace Arith

def code : Arith → Code
  | add => .special 0x20 | addu => .special 0x21 | sub => .special 0x22 | subu => .special 0x23
  | and => .special 0x24 | or => .special 0x25 | xor => .special 0x26 | nor => .special 0x27
  | slt => .special 0x2a | sltu => .special 0x2b
  | sll => .special 0x00 | srl => .special 0x02 | sra => .special 0x03
  | sllv => .special 0x04 | srlv => .special 0x06 | srav => .special 0x07
  | div => .special 0x1a | divu => .special 0x1b
  | addi => .op 0x08 | addiu => .op 0x09 | slti => .op 0x0a | sltiu => .op 0x0b
  | andi => .op 0x0c | ori => .op 0x0d | xori => .op 0x0e | lui => .op 0x0f

/-- The immediate forms write `rt`, the others `rd`. -/
def dest (i : Arith) (w : Word) : RegNum :=
  match i.code with
  | .op _ => rt w
  | _ => rd w

/-- **The result of an arithmetic instruction** on the registers `a` (`rs`) and `b` (`rt`), the
16-bit immediate and the shift amount. -/
def result (i : Arith) (a b : Word) (imm : BitVec 16) (shamt : BitVec 5) : Result :=
  let simm : Word := imm.signExtend 32
  let zimm : Word := imm.setWidth 32
  let sa := (a.extractLsb' 0 5).toNat
  match i with
  | add => if a.saddOverflow b then .overflow else .value (a + b)
  | addi => if a.saddOverflow simm then .overflow else .value (a + simm)
  | sub => if a.ssubOverflow b then .overflow else .value (a - b)
  | addiu => .value (a + simm)
  | addu => .value (a + b)
  | subu => .value (a - b)
  | and => .value (a &&& b)
  | andi => .value (a &&& zimm)
  | or => .value (a ||| b)
  | ori => .value (a ||| zimm)
  | xor => .value (a ^^^ b)
  | xori => .value (a ^^^ zimm)
  | nor => .value (~~~(a ||| b))
  | lui => .value (imm ++ 0#16)
  | sll => .value (b <<< shamt.toNat)
  | sllv => .value (b <<< sa)
  | srl => .value (b >>> shamt.toNat)
  | srlv => .value (b >>> sa)
  | sra => .value (b.sshiftRight shamt.toNat)
  | srav => .value (b.sshiftRight sa)
  | slt => .value (if a.slt b then 1 else 0)
  | slti => .value (if a.slt simm then 1 else 0)
  | sltu => .value (if a.ult b then 1 else 0)
  | sltiu => .value (if a.ult simm then 1 else 0)
  | div => .hiLo (a.srem b) (a.sdiv b)
  | divu => .hiLo (a.umod b) (a.udiv b)

end Arith

/-! ### Control transfer -/

/-- The branches and jumps. -/
inductive Transfer where
  | beq | bne | blez | bgtz | bltz | bgez | bltzal | bgezal | j | jal | jr | jalr
  deriving DecidableEq

namespace Transfer

def code : Transfer → Code
  | j => .op 0x02 | jal => .op 0x03 | beq => .op 0x04 | bne => .op 0x05
  | blez => .op 0x06 | bgtz => .op 0x07
  | jr => .special 0x08 | jalr => .special 0x09
  | bltz => .regimm 0x00 | bgez => .regimm 0x01 | bltzal => .regimm 0x10 | bgezal => .regimm 0x11

/-- The condition, on the registers read as signed integers. -/
def taken (i : Transfer) (a b : Word) : Prop :=
  match i with
  | beq => a = b
  | bne => a ≠ b
  | blez => a.toInt ≤ 0
  | bgtz => 0 < a.toInt
  | bltz | bltzal => a.toInt < 0
  | bgez | bgezal => 0 ≤ a.toInt
  | j | jal | jr | jalr => True

instance (i : Transfer) (a b : Word) : Decidable (i.taken a b) := by
  cases i <;> unfold taken <;> infer_instance

/-- The target, for the register `a` (`rs`) and the address of the delay slot. -/
def target (i : Transfer) (w a delaySlot : Word) : Word :=
  match i with
  | j | jal => delaySlot.extractLsb' 28 4 ++ Arch.target w ++ 0#2
  | jr | jalr => a
  | _ => delaySlot + ((imm w).signExtend 32 <<< 2)

/-- The link register. -/
def link (i : Transfer) (w : Word) : Option RegNum :=
  match i with
  | bltzal | bgezal | jal => some 31
  | jalr => some (rd w)
  | _ => none

/-- Where execution goes after the delay slot. -/
def next (i : Transfer) (w a b delaySlot : Word) : Word :=
  if i.taken a b then i.target w a delaySlot else delaySlot + 4

end Transfer

end Nachos.Mips.Arch
