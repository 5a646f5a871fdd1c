import Nachos.Mips.Defs

/-!
# Decoding an instruction

`Instruction::Decode` with the tables of `mipssim.h` that it reads.
-/

namespace Nachos.Mips

/-- The `OP_` codes of `mipssim.h`, with `SPECIAL` and `BCOND` of the first table. -/
inductive OpCode where
  | opAdd | opAddi | opAddiu | opAddu | opAnd | opAndi
  | opBeq | opBgez | opBgezal | opBgtz | opBlez | opBltz | opBltzal | opBne
  | opDiv | opDivu | opJ | opJal | opJalr | opJr
  | opLb | opLbu | opLh | opLhu | opLui | opLw | opLwl | opLwr
  | opMfhi | opMflo | opMthi | opMtlo | opMult | opMultu | opNor | opOr | opOri | opRfe
  | opSb | opSh | opSll | opSllv | opSlt | opSlti | opSltiu | opSltu
  | opSra | opSrav | opSrl | opSrlv | opSub | opSubu | opSw | opSwl | opSwr
  | opXor | opXori | opSyscall | opUnimp | opRes
  | special | bcond
  deriving DecidableEq

/-- `IFMT`, `JFMT`, `RFMT`. -/
inductive Format where
  | ifmt | jfmt | rfmt
  deriving DecidableEq

open OpCode Format

/-- `opTable`, indexed by bits 31:26. -/
def opTable : List (OpCode × Format) := [
  (special, rfmt), (bcond, ifmt), (opJ, jfmt), (opJal, jfmt),
  (opBeq, ifmt), (opBne, ifmt), (opBlez, ifmt), (opBgtz, ifmt),
  (opAddi, ifmt), (opAddiu, ifmt), (opSlti, ifmt), (opSltiu, ifmt),
  (opAndi, ifmt), (opOri, ifmt), (opXori, ifmt), (opLui, ifmt),
  (opUnimp, ifmt), (opUnimp, ifmt), (opUnimp, ifmt), (opUnimp, ifmt),
  (opRes, ifmt), (opRes, ifmt), (opRes, ifmt), (opRes, ifmt),
  (opRes, ifmt), (opRes, ifmt), (opRes, ifmt), (opRes, ifmt),
  (opRes, ifmt), (opRes, ifmt), (opRes, ifmt), (opRes, ifmt),
  (opLb, ifmt), (opLh, ifmt), (opLwl, ifmt), (opLw, ifmt),
  (opLbu, ifmt), (opLhu, ifmt), (opLwr, ifmt), (opRes, ifmt),
  (opSb, ifmt), (opSh, ifmt), (opSwl, ifmt), (opSw, ifmt),
  (opRes, ifmt), (opRes, ifmt), (opSwr, ifmt), (opRes, ifmt),
  (opUnimp, ifmt), (opUnimp, ifmt), (opUnimp, ifmt), (opUnimp, ifmt),
  (opRes, ifmt), (opRes, ifmt), (opRes, ifmt), (opRes, ifmt),
  (opUnimp, ifmt), (opUnimp, ifmt), (opUnimp, ifmt), (opUnimp, ifmt),
  (opRes, ifmt), (opRes, ifmt), (opRes, ifmt), (opRes, ifmt)]

/-- `specialTable`, indexed by the `funct` field. -/
def specialTable : List OpCode := [
  opSll, opRes, opSrl, opSra, opSllv, opRes, opSrlv, opSrav,
  opJr, opJalr, opRes, opRes, opSyscall, opUnimp, opRes, opRes,
  opMfhi, opMthi, opMflo, opMtlo, opRes, opRes, opRes, opRes,
  opMult, opMultu, opDiv, opDivu, opRes, opRes, opRes, opRes,
  opAdd, opAddu, opSub, opSubu, opAnd, opOr, opXor, opNor,
  opRes, opRes, opSlt, opSltu, opRes, opRes, opRes, opRes,
  opRes, opRes, opRes, opRes, opRes, opRes, opRes, opRes,
  opRes, opRes, opRes, opRes, opRes, opRes, opRes, opRes]

/-- `class Instruction`, after `Decode`. -/
structure Instruction where
  value : Word
  opCode : OpCode
  rs : RegNum
  rt : RegNum
  rd : RegNum
  extra : Word

/-- Both tables have 64 entries and are indexed by six bits. -/
def opInfo (i : BitVec 6) : OpCode × Format := opTable.getD i.toNat (opRes, ifmt)

def specialOp (i : BitVec 6) : OpCode := specialTable.getD i.toNat opRes

/-- `Instruction::Decode`. -/
def Instruction.decode (value : Word) : Instruction :=
  let opPtr := opInfo (value.extractLsb' 26 6)
  { value := value
    rs := value.extractLsb' 21 5
    rt := value.extractLsb' 16 5
    rd := value.extractLsb' 11 5
    extra := match opPtr.2 with
      | ifmt => (value.extractLsb' 0 16).signExtend 32
      | rfmt => (value.extractLsb' 6 5).setWidth 32
      | jfmt => (value.extractLsb' 0 26).setWidth 32
    opCode := match opPtr.1 with
      | special => specialOp (value.extractLsb' 0 6)
      | bcond =>
        -- `value & 0x1f0000`
        match (value.extractLsb' 16 5).toNat with
        | 0 => opBltz
        | 1 => opBgez
        | 16 => opBltzal
        | 17 => opBgezal
        | _ => opUnimp
      | op => op }

/-! ### The fields of a decoded instruction -/

namespace Instruction

variable (w : Word)

@[simp] lemma decode_rs : (decode w).rs = w.extractLsb' 21 5 := rfl
@[simp] lemma decode_rt : (decode w).rt = w.extractLsb' 16 5 := rfl
@[simp] lemma decode_rd : (decode w).rd = w.extractLsb' 11 5 := rfl

lemma decode_opCode_of_op {op : OpCode} {fmt : Format}
    (h : opInfo (w.extractLsb' 26 6) = (op, fmt)) (hs : op ≠ special) (hb : op ≠ bcond) :
    (decode w).opCode = op := by
  simp only [decode, h]

lemma decode_opCode_of_special (h : opInfo (w.extractLsb' 26 6) = (special, rfmt)) :
    (decode w).opCode = specialOp (w.extractLsb' 0 6) := by
  simp only [decode, h]

lemma decode_opCode_of_bcond (h : opInfo (w.extractLsb' 26 6) = (bcond, ifmt)) :
    (decode w).opCode = match (w.extractLsb' 16 5).toNat with
      | 0 => opBltz
      | 1 => opBgez
      | 16 => opBltzal
      | 17 => opBgezal
      | _ => opUnimp := by
  simp only [decode, h]

lemma decode_extra_ifmt {op : OpCode} (h : opInfo (w.extractLsb' 26 6) = (op, ifmt)) :
    (decode w).extra = (w.extractLsb' 0 16).signExtend 32 := by
  simp only [decode, h]

lemma decode_extra_rfmt {op : OpCode} (h : opInfo (w.extractLsb' 26 6) = (op, rfmt)) :
    (decode w).extra = (w.extractLsb' 6 5).setWidth 32 := by
  simp only [decode, h]

lemma decode_extra_jfmt {op : OpCode} (h : opInfo (w.extractLsb' 26 6) = (op, jfmt)) :
    (decode w).extra = (w.extractLsb' 0 26).setWidth 32 := by
  simp only [decode, h]

end Instruction

end Nachos.Mips
