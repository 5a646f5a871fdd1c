import Nachos.Lib.Signed
import Nachos.Mips.Arch
import Nachos.Mips.Step

/-!
# The arithmetic instructions against the architecture

The registers are an array of `unsigned int`, so C gives every comparison, shift and division on
them its unsigned form, whatever the instruction asks for. The values the `switch` computes are
collected in `Arith.computed`; they are delivered to the destination register, or to `HI` and
`LO`, by `OneInstruction`. What remains is a comparison of words, instruction by instruction.
-/

namespace Nachos.Mips

open OpCode Format Arch

/-! ### Decoding -/

namespace Arch.Arith

/-- The operation of the simulator for an instruction. -/
def opCode : Arith → OpCode
  | add => opAdd | addi => opAddi | addiu => opAddiu | addu => opAddu | sub => opSub
  | subu => opSubu | and => opAnd | andi => opAndi | or => opOr | ori => opOri | xor => opXor
  | xori => opXori | nor => opNor | lui => opLui | sll => opSll | sllv => opSllv | srl => opSrl
  | srlv => opSrlv | sra => opSra | srav => opSrav | slt => opSlt | slti => opSlti
  | sltu => opSltu | sltiu => opSltiu | div => opDiv | divu => opDivu

/-- What `Decode` leaves in `extra`. -/
def extra (i : Arith) (imm : BitVec 16) (shamt : BitVec 5) : Word :=
  match i.code with
  | .op _ => imm.signExtend 32
  | _ => shamt.setWidth 32

/-- The simulator's tables agree with the architecture's encodings. -/
lemma decode_opCode (i : Arith) {w : Word} (enc : i.code.Encodes w) :
    (Instruction.decode w).opCode = i.opCode := by
  cases i
  case addi | addiu | slti | sltiu | andi | ori | xori | lui =>
    have h : w.extractLsb' 26 6 = _ := enc
    exact Instruction.decode_opCode_of_op w (by rw [h]; rfl) (by decide) (by decide)
  all_goals
    obtain ⟨h, hf⟩ := enc
    rw [opField] at h
    rw [funct] at hf
    rw [Instruction.decode_opCode_of_special w (by rw [h]; rfl), hf]
    rfl

lemma decode_extra (i : Arith) {w : Word} (enc : i.code.Encodes w) :
    (Instruction.decode w).extra = i.extra (imm w) (shamt w) := by
  cases i
  case addi | addiu | slti | sltiu | andi | ori | xori | lui =>
    have h : w.extractLsb' 26 6 = _ := enc
    exact Instruction.decode_extra_ifmt w (by rw [h]; rfl)
  all_goals
    obtain ⟨h, hf⟩ := enc
    rw [opField] at h
    exact Instruction.decode_extra_rfmt w (by rw [h]; rfl)

/-! ### What the cases of the switch compute -/

/-- What the `switch` computes from the registers `rs` and `rt` and from `extra`, for a divisor
that is not zero. -/
def computed (i : Arith) (rs rt extra : Word) : Result :=
  match i with
  | add =>
    if (rs ^^^ rt) &&& signBit = 0 ∧ (rs ^^^ (rs + rt)) &&& signBit ≠ 0 then .overflow
    else .value (rs + rt)
  | addi =>
    if (rs ^^^ extra) &&& signBit = 0 ∧ (extra ^^^ (rs + extra)) &&& signBit ≠ 0 then .overflow
    else .value (rs + extra)
  | sub =>
    if (rs ^^^ rt) &&& signBit ≠ 0 ∧ (rs ^^^ (rs - rt)) &&& signBit ≠ 0 then .overflow
    else .value (rs - rt)
  | addiu => .value (rs + extra)
  | addu => .value (rs + rt)
  | subu => .value (rs - rt)
  | and => .value (rs &&& rt)
  | andi => .value (rs &&& (extra &&& 0xffff))
  | or => .value (rs ||| rs)
  | ori => .value (rs ||| (extra &&& 0xffff))
  | xor => .value (rs ^^^ rt)
  | xori => .value (rs ^^^ (extra &&& 0xffff))
  | nor => .value (~~~(rs ||| rt))
  | lui => .value (extra <<< 16)
  | sll => .value (rt <<< extra.toNat)
  | sllv => .value (rt <<< (rs &&& 0x1f).toNat)
  | srl => .value (rt.sshiftRight extra.toNat)
  | srlv => .value (rt.sshiftRight (rs &&& 0x1f).toNat)
  | sra => .value (rt >>> extra.toNat)
  | srav => .value (rt >>> (rs &&& 0x1f).toNat)
  | slt | sltu => .value (if rs < rt then 1 else 0)
  | slti | sltiu => .value (if rs < extra then 1 else 0)
  | div | divu => .hiLo (rs % rt) (rs / rt)

/-- The division instructions, whose results go to `HI` and `LO`. -/
def isDiv : Arith → Bool
  | div | divu => true
  | _ => false

end Arch.Arith

/-- Results for `HI` and `LO`. -/
def Arch.Result.isHiLo : Result → Bool
  | .hiLo .. => true
  | _ => false

/-- What a case of the `switch` does with a computed result. -/
def Machine.deliver (m : Machine) (d : RegNum) : Result → Except Stop Outcome
  | .value v => pure (m.done (m.registers.write d v))
  | .hiLo hi lo => pure (m.done { m.registers with lo := lo, hi := hi })
  | .overflow => m.raiseException .overflowException 0

namespace Machine

variable (m : Machine) (d : RegNum)

lemma deliver_value (v : Word) :
    (m.deliver d (.value v)).map finish = .ok (finish (m.done (m.registers.write d v))) := rfl

lemma deliver_hiLo (hi lo : Word) :
    (m.deliver d (.hiLo hi lo)).map finish =
      .ok (finish (m.done { m.registers with lo := lo, hi := hi })) := rfl

lemma deliver_overflow :
    ∃ m', (m.deliver d .overflow).map finish = .error (.exception .overflowException m') :=
  ⟨_, rfl⟩

end Machine

/-- The `switch`, on the arithmetic instructions. -/
lemma execute_arith (i : Arith) {w : Word} (enc : i.code.Encodes w) (m : Machine)
    (hdiv : i.isDiv → m.registers.gpr (Arch.rt w) ≠ 0) :
    execute m (.decode w) = m.deliver (i.dest w)
      (i.computed (m.registers.gpr (Arch.rs w)) (m.registers.gpr (Arch.rt w))
        (i.extra (imm w) (shamt w))) := by
  have hop := i.decode_opCode enc
  rw [← i.decode_extra enc]
  cases i
  case add | addi | sub =>
    simp only [execute, hop, Arith.opCode, Arith.computed]
    rw [apply_ite (m.deliver _)]
    rfl
  case div | divu =>
    have h0 : m.registers.gpr ((Instruction.decode w).rt) ≠ 0 := hdiv rfl
    simp only [execute, hop, Arith.opCode, if_neg h0]
    rfl
  all_goals
    simp only [execute, hop, Arith.opCode]
    rfl

/-! ### Delivery -/

namespace Arch.Arith

/-- The result reaches the destination, or `HI` and `LO`, or the overflow exception is raised,
when the machine executes the instruction. -/
def Delivers (i : Arith) (w : Word) (m : Machine) (res : Result) : Prop :=
  match res with
  | .value v => ∃ m', m.oneInstruction = .ok m' ∧ m'.registers.gpr (i.dest w) = v
  | .hiLo hi lo => ∃ m', m.oneInstruction = .ok m' ∧ m'.registers.hi = hi ∧ m'.registers.lo = lo
  | .overflow => ∃ m', m.oneInstruction = .error (.exception .overflowException m')

/-- The word `w` is about to be executed in `m`: it is fetched and encodes `i`; `r0` is zero; the
destination is not `r0` and no load is pending for it; a divisor is not zero. -/
structure Ready (i : Arith) (w : Word) (m : Machine) : Prop where
  fetch : ∃ m₁, m.readMem m.registers.pc 4 = .ok (w, m₁)
  encodes : i.code.Encodes w
  zero : m.registers.gpr 0 = 0
  dest_ne : i.isDiv = false → i.dest w ≠ 0
  not_pending : i.isDiv = false → m.registers.loadReg ≠ i.dest w
  divisor_ne : i.isDiv = true → m.registers.gpr (Arch.rt w) ≠ 0

/-- What the simulator computes for the word `w` in `m`. -/
def computedIn (i : Arith) (w : Word) (m : Machine) : Result :=
  i.computed (m.registers.gpr (Arch.rs w)) (m.registers.gpr (Arch.rt w))
    (i.extra (imm w) (shamt w))

/-- What the architecture defines for the word `w` in `m`. -/
def resultIn (i : Arith) (w : Word) (m : Machine) : Result :=
  i.result (m.registers.gpr (Arch.rs w)) (m.registers.gpr (Arch.rt w)) (imm w) (shamt w)

lemma isHiLo_computedIn (i : Arith) (w : Word) (m : Machine) :
    (i.computedIn w m).isHiLo = i.isDiv := by
  unfold computedIn
  cases i
  case add | addi | sub => rw [computed, apply_ite Result.isHiLo]; exact ite_self _
  all_goals rfl

lemma isHiLo_resultIn (i : Arith) (w : Word) (m : Machine) :
    (i.resultIn w m).isHiLo = i.isDiv := by
  unfold resultIn
  cases i
  case add | addi | sub => rw [result, apply_ite Result.isHiLo]; exact ite_self _
  all_goals rfl

/-- `OneInstruction` delivers what the `switch` computed. -/
lemma delivers_iff {i : Arith} {w : Word} {m : Machine} (h : i.Ready w m) {res : Result}
    (hres : res.isHiLo = i.isDiv) : i.Delivers w m res ↔ i.computedIn w m = res := by
  obtain ⟨m₁, fetch⟩ := h.fetch
  have hr := Machine.readMem_registers fetch
  have hstep : m.oneInstruction = (m₁.deliver (i.dest w) (i.computedIn w m)).map Machine.finish := by
    rw [Machine.oneInstruction_of_fetch fetch, execute_arith i h.encodes m₁ (by
      rw [hr]; exact h.divisor_ne), hr]
    rfl
  have hcomp := isHiLo_computedIn i w m
  unfold Delivers
  rw [hstep]
  cases hc : i.computedIn w m with
  | overflow =>
    obtain ⟨m', hm'⟩ := m₁.deliver_overflow (i.dest w)
    rw [hm']
    cases res <;> simp
  | hiLo hi lo =>
    rw [hc] at hcomp
    rw [Machine.deliver_hiLo]
    cases res with
    | hiLo hi' lo' => simp
    | value v' => rw [← hcomp] at hres; cases hres
    | overflow => simp
  | value v =>
    rw [hc] at hcomp
    have hd : (Machine.finish (m₁.done (m₁.registers.write (i.dest w) v))).registers.gpr
        (i.dest w) = v := by
      rw [Machine.finish_done_gpr _ _ (h.dest_ne hcomp.symm) (by
        rw [Registers.write_loadReg, hr]; exact h.not_pending hcomp.symm), Registers.write_same]
    rw [Machine.deliver_value]
    cases res with
    | hiLo hi' lo' => rw [← hcomp] at hres; cases hres
    | value v' => simp [hd]
    | overflow => simp

end Arch.Arith

/-! ### The words compared -/

section Words

variable (a b : Word)

/-- The overflow test of `OP_ADD` on three words. -/
lemma add_overflow_test (c : Word) (hc : c.msb = b.msb ∨ c.msb = a.msb) :
    (a ^^^ b) &&& signBit = 0 ∧ (c ^^^ (a + b)) &&& signBit ≠ 0 ↔ a.saddOverflow b = true := by
  have hs : signBit = BitVec.intMin 32 := rfl
  have h0 : (0 : Word) = 0#32 := rfl
  rw [hs, h0, Lib.and_intMin_eq_zero (by decide), Ne, Lib.and_intMin_eq_zero (by decide),
    BitVec.msb_xor, BitVec.msb_xor, BitVec.saddOverflow_eq]
  revert hc
  generalize a.msb = x, b.msb = y, c.msb = u, (a + b).msb = z
  revert x y u z
  decide

/-- The overflow test of `OP_SUB`. -/
lemma sub_overflow_test :
    (a ^^^ b) &&& signBit ≠ 0 ∧ (a ^^^ (a - b)) &&& signBit ≠ 0 ↔ a.ssubOverflow b = true := by
  have hs : signBit = BitVec.intMin 32 := rfl
  have h0 : (0 : Word) = 0#32 := rfl
  rw [hs, h0, Ne, Lib.and_intMin_eq_zero (by decide), Ne, Lib.and_intMin_eq_zero (by decide),
    BitVec.msb_xor, BitVec.msb_xor, BitVec.ssubOverflow_eq]
  generalize a.msb = x, b.msb = y, (a - b).msb = z
  revert x y z
  decide

/-- `instr->extra & 0xffff` is the zero-extended immediate. -/
lemma signExtend_and_ffff (imm : BitVec 16) :
    imm.signExtend 32 &&& (0xffff : Word) = imm.setWidth 32 := by
  have hmask : (0xffff : Word) = (BitVec.allOnes 16).setWidth 32 := by decide
  rw [hmask]
  ext i hi
  simp only [BitVec.getElem_and, BitVec.getElem_signExtend, BitVec.getElem_setWidth,
    BitVec.getLsbD_allOnes]
  by_cases h : i < 16
  · simp [h]
  · simp [h, BitVec.getLsbD_of_ge imm i (by omega)]

/-- `instr->extra << 16` is the immediate in the upper half. -/
lemma signExtend_shiftLeft_16 (imm : BitVec 16) :
    imm.signExtend 32 <<< 16 = imm ++ 0#16 := by
  ext i hi
  rw [BitVec.getElem_shiftLeft, BitVec.getElem_append]
  by_cases h : i < 16
  · simp [h]
  · have h' : i - 16 < 16 := by omega
    simp [h, h', BitVec.getElem_signExtend]

/-- The variable shift amounts. -/
lemma toNat_and_1f : (a &&& (0x1f : Word)).toNat = (a.extractLsb' 0 5).toNat := by
  rw [BitVec.toNat_and, BitVec.extractLsb'_toNat, Nat.shiftRight_zero]
  exact Nat.and_two_pow_sub_one_eq_mod a.toNat 5

/-- The fixed shift amounts. -/
lemma toNat_shamt (shamt : BitVec 5) : (shamt.setWidth 32 : Word).toNat = shamt.toNat := by
  rw [BitVec.toNat_setWidth, Nat.mod_eq_of_lt]
  have := shamt.isLt
  omega

lemma msb_signExtend_imm (imm : BitVec 16) : (imm.signExtend 32).msb = imm.msb := by
  rw [BitVec.msb_signExtend]
  simp

/-- `1` or `0` for an unsigned comparison, against the architecture's signed one. -/
lemma set_eq_iff : ((if a < b then 1 else 0 : Word) = if a.slt b then 1 else 0) ↔
    a.msb = b.msb := by
  rw [← Lib.slt_eq_ult_iff]
  have hlt : a < b ↔ a.ult b = true := BitVec.ult_iff_lt.symm
  rw [if_congr hlt rfl rfl]
  cases a.ult b <;> cases a.slt b <;> decide

lemma set_ult : (if a < b then 1 else 0 : Word) = if a.ult b then 1 else 0 :=
  if_congr BitVec.ult_iff_lt.symm rfl rfl

/-- A shift by five bits of an amount, logical against arithmetic. -/
lemma shift_eq_iff (sh : BitVec 5) :
    b >>> sh.toNat = b.sshiftRight sh.toNat ↔ b.msb = false ∨ sh = 0 := by
  rw [eq_comm, Lib.sshiftRight_eq_ushiftRight_iff b (by have := sh.isLt; omega),
    ← BitVec.toNat_inj]
  rfl

/-- `rs | rs` against `rs | rt`. -/
lemma or_self_eq_iff : a ||| a = a ||| b ↔ b &&& ~~~a = 0 := by
  rw [BitVec.or_self]
  constructor
  · intro h
    rw [h]
    ext i hi
    simp
    tauto
  · intro h
    ext i hi
    have hb := congrArg (fun v => v[i]) h
    simp only [BitVec.getElem_and, BitVec.getElem_not] at hb
    rw [BitVec.getElem_or]
    cases ha : a[i] <;> simp_all

end Words

/-! ### The results compared -/

namespace Arch.Arith

/-- **When the simulator's result is the architecture's**, on the registers `a` (`rs`) and `b`
(`rt`), the immediate and the shift amount. -/
def AgreesOn (i : Arith) (a b : Word) (imm : BitVec 16) (shamt : BitVec 5) : Prop :=
  match i with
  | or => b &&& ~~~a = 0
  | slt => a.msb = b.msb
  | slti => a.msb = imm.msb
  | srl | sra => b.msb = false ∨ shamt = 0
  | srlv | srav => b.msb = false ∨ a.extractLsb' 0 5 = 0
  | div =>
    (a.msb = false ∧ (b.msb = false ∨ a < -b)) ∨ (a.msb = true ∧ (b = 1 ∨ a = b))
  | _ => True

variable {a b : Word} {imm : BitVec 16} {shamt : BitVec 5}

/-- The comparison of the two results, instruction by instruction. -/
lemma computed_eq_result_iff (i : Arith) (hdiv : i.isDiv = true → b ≠ 0) :
    i.computed a b (i.extra imm shamt) = i.result a b imm shamt ↔ i.AgreesOn a b imm shamt := by
  cases i with
  | add => exact iff_of_true (if_congr (add_overflow_test a b a (.inr rfl)) rfl rfl) trivial
  | addi =>
    exact iff_of_true (if_congr (add_overflow_test a (imm.signExtend 32) _ (.inl rfl)) rfl rfl)
      trivial
  | sub => exact iff_of_true (if_congr (sub_overflow_test a b) rfl rfl) trivial
  | addiu | addu | subu | and | xor | nor | divu => exact iff_of_true rfl trivial
  | andi | ori | xori =>
    simp only [computed, result, AgreesOn, extra, code, signExtend_and_ffff]
  | lui => simp only [computed, result, AgreesOn, extra, code, signExtend_shiftLeft_16]
  | or => simp only [computed, result, AgreesOn, Result.value.injEq, or_self_eq_iff]
  | sll => simp only [computed, result, AgreesOn, extra, code, toNat_shamt]
  | sllv => simp only [computed, result, AgreesOn, toNat_and_1f]
  | srl =>
    simp only [computed, result, AgreesOn, extra, code, toNat_shamt, Result.value.injEq]
    rw [eq_comm, shift_eq_iff]
  | sra =>
    simp only [computed, result, AgreesOn, extra, code, toNat_shamt, Result.value.injEq]
    rw [shift_eq_iff]
  | srlv =>
    simp only [computed, result, AgreesOn, toNat_and_1f, Result.value.injEq]
    rw [eq_comm, shift_eq_iff]
  | srav =>
    simp only [computed, result, AgreesOn, toNat_and_1f, Result.value.injEq]
    rw [shift_eq_iff]
  | slt => simp only [computed, result, AgreesOn, Result.value.injEq, set_eq_iff]
  | slti =>
    have hset := set_eq_iff a (imm.signExtend 32)
    rw [msb_signExtend_imm] at hset
    exact (iff_of_eq (Result.value.injEq _ _)).trans hset
  | sltu => exact iff_of_true (congrArg Result.value (set_ult a b)) trivial
  | sltiu => exact iff_of_true (congrArg Result.value (set_ult a (imm.signExtend 32))) trivial
  | div =>
    have h1 : (b = 1#32 ∧ b.msb = false ∨ a = b) ↔ (b = 1 ∨ a = b) := by
      refine or_congr_left ⟨fun h => h.1, fun h => ⟨h, ?_⟩⟩
      rw [h]
      decide
    simp only [computed, result, AgreesOn, Result.hiLo.injEq]
    rw [← h1, ← Lib.sdiv_srem_eq_iff (hdiv rfl), and_comm, eq_comm (a := a / b),
      eq_comm (a := a % b)]

/-- `slt $3, $1, $2` with `-1` in `$1` and `1` in `$2`. -/
def sltMachine : Machine :=
  Machine.boot (fun n => if n = 1 then 0xffffffff else if n = 2 then 1 else 0) 0x0022182a

lemma ready_sltMachine : slt.Ready 0x0022182a sltMachine where
  fetch := ⟨_, rfl⟩
  encodes := by decide
  zero := rfl
  dest_ne := fun _ => by decide
  not_pending := fun _ => by decide
  divisor_ne := fun h => by cases h

/-- **The arithmetic instructions**: executed by the simulator, an instruction leaves what the
architecture defines, overflow exceptions included, exactly on the operands where the signed and
the unsigned reading of the registers do not matter (and, for `or`, where the second operand has
no bit of its own). -/
theorem delivers_result_iff (i : Arith) (w : Word) (m : Machine) (h : i.Ready w m) :
    i.Delivers w m (i.resultIn w m) ↔
      i.AgreesOn (m.registers.gpr (Arch.rs w)) (m.registers.gpr (Arch.rt w)) (Arch.imm w)
        (Arch.shamt w) := by
  rw [delivers_iff h (isHiLo_resultIn i w m)]
  exact i.computed_eq_result_iff h.divisor_ne

theorem delivers_result_iff_slt :
    slt.Delivers 0x0022182a sltMachine (.value 1) ↔ (0xffffffff : Word).msb = (1 : Word).msb :=
  delivers_result_iff slt 0x0022182a sltMachine ready_sltMachine

/-- `-1 < 1` comes out as `0`. -/
theorem not_delivers_slt :
    ¬ ∀ (i : Arith) (w : Word) (m : Machine), i.Ready w m → i.Delivers w m (i.resultIn w m) := by
  intro h
  have hd := h slt 0x0022182a sltMachine ready_sltMachine
  rw [delivers_iff ready_sltMachine (isHiLo_resultIn _ _ _)] at hd
  exact absurd hd (by decide)

end Arch.Arith

end Nachos.Mips
