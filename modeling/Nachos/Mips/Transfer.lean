import Nachos.Lib.Signed
import Nachos.Mips.Arch
import Nachos.Mips.Step

/-!
# The branches and jumps against the architecture

`PCReg` takes the old `NextPCReg`, the address of the delay slot, and `NextPCReg` takes `pcAfter`.
The cases of the `switch` differ in `pcAfter` and in the link register only.
-/

namespace Nachos.Mips

open OpCode Format Arch

namespace Arch.Transfer

/-! ### Decoding -/

/-- The operation of the simulator for an instruction. -/
def opCode : Transfer → OpCode
  | beq => opBeq | bne => opBne | blez => opBlez | bgtz => opBgtz | bltz => opBltz
  | bgez => opBgez | bltzal => opBltzal | bgezal => opBgezal | j => opJ | jal => opJal
  | jr => opJr | jalr => opJalr

/-- What `Decode` leaves in `extra`. -/
def extra (i : Transfer) (w : Word) : Word :=
  match i with
  | j | jal => (Arch.target w).setWidth 32
  | jr | jalr => (shamt w).setWidth 32
  | _ => (imm w).signExtend 32

/-- The simulator's tables agree with the architecture's encodings. -/
lemma decode_opCode (i : Transfer) {w : Word} (enc : i.code.Encodes w) :
    (Instruction.decode w).opCode = i.opCode := by
  cases i
  case jr | jalr =>
    obtain ⟨h, hf⟩ := enc
    rw [opField] at h
    rw [funct] at hf
    rw [Instruction.decode_opCode_of_special w (by rw [h]; rfl), hf]
    rfl
  case bltz | bgez | bltzal | bgezal =>
    obtain ⟨h, hr⟩ := enc
    rw [opField] at h
    rw [Arch.rt] at hr
    rw [Instruction.decode_opCode_of_bcond w (by rw [h]; rfl), hr]
    rfl
  all_goals
    have h : w.extractLsb' 26 6 = _ := enc
    exact Instruction.decode_opCode_of_op w (by rw [h]; rfl) (by decide) (by decide)

lemma decode_extra (i : Transfer) {w : Word} (enc : i.code.Encodes w) :
    (Instruction.decode w).extra = i.extra w := by
  cases i
  case jr | jalr =>
    obtain ⟨h, hf⟩ := enc
    rw [opField] at h
    exact Instruction.decode_extra_rfmt w (by rw [h]; rfl)
  case bltz | bgez | bltzal | bgezal =>
    obtain ⟨h, hr⟩ := enc
    rw [opField] at h
    exact Instruction.decode_extra_ifmt w (by rw [h]; rfl)
  case j | jal =>
    have h : w.extractLsb' 26 6 = _ := enc
    exact Instruction.decode_extra_jfmt w (by rw [h]; rfl)
  all_goals
    have h : w.extractLsb' 26 6 = _ := enc
    exact Instruction.decode_extra_ifmt w (by rw [h]; rfl)

/-! ### What the cases of the switch compute -/

/-- The test of a branch in the `switch`, on `unsigned int` registers. -/
def computedTaken (i : Transfer) (rs rt : Word) : Bool :=
  match i with
  | beq => rs == rt
  | bne => rs != rt
  | blez => rs ≤ 0
  | bgtz => 0 < rs
  | bltz | bltzal => rs &&& signBit != 0
  | bgez | bgezal => rs &&& signBit == 0
  | j | jal | jr | jalr => true

/-- `pcAfter` at the end of the `switch`. -/
def computedNext (i : Transfer) (rs rt nextPC extra : Word) : Word :=
  match i with
  | j | jal => ((nextPC + 4) &&& 0xf0000000) ||| indexToAddr extra
  | jr | jalr => rs
  | _ => if i.computedTaken rs rt then nextPC + indexToAddr extra else nextPC + 4

/-- The registers at the end of the `switch`. -/
def linked (i : Transfer) (w : Word) (r : Registers) : Registers :=
  match i.link w with
  | some d => r.write d (r.nextPC + 4)
  | none => r

/-- The instructions that read `rs`. -/
def readsRs : Transfer → Bool
  | j | jal => false
  | _ => true

/-- The word `w` is about to be executed in `m`: it is fetched and encodes `i`; the link register
is not `r0`, it is not the register tested or jumped through, and no load is pending for it. -/
structure Ready (i : Transfer) (w : Word) (m : Machine) : Prop where
  fetch : ∃ m₁, m.readMem m.registers.pc 4 = .ok (w, m₁)
  encodes : i.code.Encodes w
  link_ne : ∀ d ∈ i.link w, d ≠ 0
  link_ne_rs : ∀ d ∈ i.link w, i.readsRs = true → d ≠ Arch.rs w
  not_pending : ∀ d ∈ i.link w, m.registers.loadReg ≠ d

/-- The `switch`, on the control transfer instructions. -/
lemma execute_transfer (i : Transfer) {w : Word} (enc : i.code.Encodes w) (m : Machine)
    (hrs : ∀ d ∈ i.link w, i.readsRs = true → d ≠ Arch.rs w) :
    execute m (.decode w) = pure (m.jump (i.linked w m.registers)
      (i.computedNext (m.registers.gpr (Arch.rs w)) (m.registers.gpr (Arch.rt w))
        m.registers.nextPC (i.extra w))) := by
  have hop := i.decode_opCode enc
  rw [← i.decode_extra enc]
  cases i
  case bltzal | bgezal | jalr =>
    -- `rs` is read after the link register is written
    have hne := hrs _ rfl rfl
    have hr : (m.registers.write _ (m.registers.nextPC + 4)).gpr (Arch.rs w) =
      m.registers.gpr (Arch.rs w) := Registers.write_of_ne _ _ (Ne.symm hne)
    simp only [execute, hop, opCode, computedNext, computedTaken]
    rw [← hr]
    rfl
  all_goals
    simp only [execute, hop, opCode]
    rfl

/-! ### Delivery -/

/-- After the instruction the machine is at the delay slot, then goes where the architecture
says, and the link register holds the address after the delay slot. -/
def Reaches (i : Transfer) (w : Word) (m : Machine) : Prop :=
  ∃ m', m.oneInstruction = .ok m' ∧
    m'.registers.pc = m.registers.nextPC ∧
    m'.registers.nextPC = i.next w (m.registers.gpr (Arch.rs w)) (m.registers.gpr (Arch.rt w))
      m.registers.nextPC ∧
    ∀ d ∈ i.link w, m'.registers.gpr d = m.registers.nextPC + 4

lemma linked_nextPC (i : Transfer) (w : Word) (r : Registers) :
    (i.linked w r).nextPC = r.nextPC := by
  unfold linked
  cases i.link w <;> rfl

lemma linked_loadReg (i : Transfer) (w : Word) (r : Registers) :
    (i.linked w r).loadReg = r.loadReg := by
  unfold linked
  cases i.link w <;> rfl

lemma linked_gpr (i : Transfer) {w : Word} (r : Registers) {d : RegNum} (hd : d ∈ i.link w) :
    (i.linked w r).gpr d = r.nextPC + 4 := by
  unfold linked
  rw [Option.mem_def.1 hd]
  exact Registers.write_same ..

/-- The program counters and the link register are as the `switch` left them. -/
lemma reaches_iff {i : Transfer} {w : Word} {m : Machine} (h : i.Ready w m) :
    i.Reaches w m ↔
      i.computedNext (m.registers.gpr (Arch.rs w)) (m.registers.gpr (Arch.rt w))
        m.registers.nextPC (i.extra w) =
      i.next w (m.registers.gpr (Arch.rs w)) (m.registers.gpr (Arch.rt w))
        m.registers.nextPC := by
  obtain ⟨m₁, fetch⟩ := h.fetch
  have hr := Machine.readMem_registers fetch
  have hstep : m.oneInstruction = .ok (Machine.finish (m₁.jump (i.linked w m.registers)
      (i.computedNext (m.registers.gpr (Arch.rs w)) (m.registers.gpr (Arch.rt w))
        m.registers.nextPC (i.extra w)))) := by
    rw [Machine.oneInstruction_of_fetch fetch, execute_transfer i h.encodes m₁ h.link_ne_rs, hr]
    rfl
  constructor
  · rintro ⟨m', hm', -, hn, -⟩
    rw [hstep] at hm'
    cases hm'
    exact hn
  · intro hn
    refine ⟨_, hstep, ?_, hn, fun d hd => ?_⟩
    · rw [Machine.finish_jump_pc, linked_nextPC]
    · rw [Machine.finish_jump_gpr _ _ _ (h.link_ne d hd) (by
        rw [linked_loadReg]; exact h.not_pending d hd), linked_gpr i _ hd]

end Arch.Transfer

/-! ### The words compared -/

section Words

variable (a : Word)

/-- The test of the sign bit. -/
lemma and_signBit_eq_zero : a &&& signBit = 0 ↔ 0 ≤ a.toInt := by
  rw [show signBit = BitVec.intMin 32 from rfl, show (0 : Word) = 0#32 from rfl,
    Lib.and_intMin_eq_zero (by decide), BitVec.msb_eq_toInt]
  simp

/-- The unsigned tests `> 0` and `<= 0` leave out the sign. -/
lemma zero_lt_toInt_iff : 0 < a.toInt ↔ 0 < a ∧ a.msb = false := by
  have h := Lib.zero_slt_iff a
  rw [BitVec.slt_iff_toInt_lt, BitVec.toInt_zero] at h
  rw [h, BitVec.lt_def, ← BitVec.toNat_inj.ne]
  simp [Nat.pos_iff_ne_zero]

/-- The word of a jump: the region of an address and the target field. -/
lemma jump_word (t : BitVec 26) :
    (a &&& (0xf0000000 : Word)) ||| (t.setWidth 32 <<< 2) = a.extractLsb' 28 4 ++ t ++ 0#2 := by
  have hmask : (0xf0000000 : Word) = (BitVec.allOnes 4).setWidth 32 <<< 28 := by decide
  rw [hmask]
  apply BitVec.eq_of_getLsbD_eq
  intro i hi
  rw [BitVec.getLsbD_or, BitVec.getLsbD_and, BitVec.getLsbD_shiftLeft, BitVec.getLsbD_shiftLeft,
    BitVec.getLsbD_setWidth, BitVec.getLsbD_setWidth, BitVec.getLsbD_allOnes,
    show (a.extractLsb' 28 4 ++ t ++ 0#2 : Word).getLsbD i = if i < 2 then (0#2).getLsbD i else
      if i - 2 < 26 then t.getLsbD (i - 2) else (a.extractLsb' 28 4).getLsbD (i - 2 - 26) by
      exact (BitVec.getLsbD_append (x := a.extractLsb' 28 4 ++ t)).trans (by
        rw [BitVec.getLsbD_append]), BitVec.getLsbD_extractLsb']
  rcases (by omega : i < 2 ∨ (2 ≤ i ∧ i < 28) ∨ 28 ≤ i) with h | ⟨h1, h2⟩ | h
  · simp [h, show i < 28 by omega]
  · simp [hi, h2, show ¬ i < 2 by omega, show i - 2 < 26 by omega, show i - 2 < 32 by omega]
  · have ht : t.getLsbD (i - 2) = false := BitVec.getLsbD_of_ge _ _ (by omega)
    simp [hi, ht, show ¬ i < 28 by omega, show ¬ i < 2 by omega, show ¬ i - 2 < 26 by omega,
      show i - 28 < 4 by omega, show i - 28 < 32 by omega,
      show i - 2 - 26 = i - 28 by omega,
      show 28 + (i - 28) = i by omega]

/-- A branch by one word goes to the same place, taken or not. -/
lemma signExtend_shiftLeft_2_eq_four (v : BitVec 16) :
    (v.signExtend 32 <<< 2 : Word) = 4 ↔ v = 1 := by
  constructor
  · intro h
    rw [show (4 : Word) = (1 : BitVec 16).setWidth 32 <<< 2 by decide] at h
    apply BitVec.eq_of_getLsbD_eq
    intro i hi
    have hb := congrArg (fun x => x.getLsbD (i + 2)) h
    simpa only [BitVec.getLsbD_shiftLeft, BitVec.getLsbD_signExtend, BitVec.getLsbD_setWidth,
      show i + 2 < 32 by omega, show i < 32 by omega, show ¬ i + 2 < 2 by omega, hi, if_true,
      decide_true, decide_false, Bool.not_false, Bool.true_and, Nat.add_sub_cancel] using hb
  · rintro rfl
    decide
end Words

namespace Arch.Transfer

/-- **When the simulator goes where the architecture says**, on the register `a` (`rs`) and the
address of the delay slot. -/
def AgreesOn (i : Transfer) (w a delaySlot : Word) : Prop :=
  match i with
  | blez | bgtz => a.msb = false ∨ imm w = 1
  | j | jal => (delaySlot + 4).extractLsb' 28 4 = delaySlot.extractLsb' 28 4
  | _ => True

lemma next_of_taken {i : Transfer} {w a b d : Word} (h : i.taken a b) :
    i.next w a b d = i.target w a d :=
  if_pos h

/-- A branch whose test is the architecture's condition. -/
lemma computedNext_of_taken {i : Transfer} {w a b d : Word}
    (hi : ∀ c, i.computedNext a b d c = if i.computedTaken a b then d + indexToAddr c else d + 4)
    (ht : i.target w a d = d + ((imm w).signExtend 32 <<< 2))
    (hx : i.extra w = (imm w).signExtend 32)
    (h : i.computedTaken a b = true ↔ i.taken a b) :
    i.computedNext a b d (i.extra w) = i.next w a b d := by
  rw [hi, next, ht, hx]
  exact if_congr h rfl rfl

/-- The two tests of the sign with zero. On a negative register `<= 0` is not taken and `> 0` is;
the two ways then differ unless the branch is by one word. -/
lemma sign_test_iff {a d : Word} (v : BitVec 16) (p q : Prop) [Decidable p] [Decidable q]
    (hpos : a.msb = false → (p ↔ q)) (hneg : a.msb = true → (p ↔ ¬ q)) :
    ((if p then d + (v.signExtend 32 <<< 2) else d + 4) =
      if q then d + (v.signExtend 32 <<< 2) else d + 4) ↔ a.msb = false ∨ v = 1 := by
  cases hm : a.msb with
  | false => simp [hpos hm]
  | true =>
    rw [← signExtend_shiftLeft_2_eq_four]
    have hpq := hneg hm
    by_cases hq : q
    · have hp : ¬ p := fun h => hpq.1 h hq
      simp only [if_neg hp, if_pos hq, BitVec.add_right_inj, Bool.true_eq_false, false_or]
      exact eq_comm
    · have hp : p := hpq.2 hq
      simp only [if_pos hp, if_neg hq, BitVec.add_right_inj, Bool.true_eq_false, false_or]

lemma computedNext_eq_next_iff (i : Transfer) (w a b d : Word) :
    i.computedNext a b d (i.extra w) = i.next w a b d ↔ i.AgreesOn w a d := by
  have hlt : a.toInt < 0 ↔ a &&& signBit ≠ 0 := by
    rw [Ne, and_signBit_eq_zero, Int.not_le]
  cases i with
  | beq | bne =>
    exact iff_of_true (computedNext_of_taken (fun _ => rfl) rfl rfl (by
      simp [computedTaken, taken])) trivial
  | bltz | bltzal =>
    exact iff_of_true (computedNext_of_taken (fun _ => rfl) rfl rfl (by
      simp only [computedTaken, taken, bne_iff_ne, hlt])) trivial
  | bgez | bgezal =>
    exact iff_of_true (computedNext_of_taken (fun _ => rfl) rfl rfl (by
      simp only [computedTaken, taken, beq_iff_eq, and_signBit_eq_zero])) trivial
  | jr | jalr => exact iff_of_true (if_pos trivial).symm trivial
  | j | jal =>
    rw [next_of_taken (by trivial)]
    simp only [computedNext, extra, indexToAddr, AgreesOn, target]
    rw [jump_word, BitVec.append_left_inj, BitVec.append_left_inj]
  | blez =>
    refine sign_test_iff (imm w) (decide (a ≤ 0) = true) (a.toInt ≤ 0) (fun hm => ?_) fun hm => ?_
    · rw [decide_eq_true_iff, ← Int.not_lt, zero_lt_toInt_iff, ← BitVec.not_lt]
      simp [hm]
    · rw [decide_eq_true_iff, ← Int.not_lt, zero_lt_toInt_iff, ← BitVec.not_lt]
      simp [hm]
  | bgtz =>
    refine sign_test_iff (imm w) (decide (0 < a) = true) (0 < a.toInt) (fun hm => ?_) fun hm => ?_
    · rw [decide_eq_true_iff, zero_lt_toInt_iff]
      simp [hm]
    · rw [decide_eq_true_iff, zero_lt_toInt_iff]
      simp [hm]

/-- `bgtz $1, 4` with `-1` in `$1`. -/
def bgtzMachine : Machine :=
  Machine.boot (fun n => if n = 1 then 0xffffffff else 0) 0x1c200004

lemma ready_bgtzMachine : bgtz.Ready 0x1c200004 bgtzMachine where
  fetch := ⟨_, rfl⟩
  encodes := by decide
  link_ne := fun d hd => by cases hd
  link_ne_rs := fun d hd => by cases hd
  not_pending := fun d hd => by cases hd

/-- **The branches and jumps**: a branch on the sign goes wrong exactly on negative registers
(where the unsigned `<= 0` is false and `> 0` true), unless both ways lead to the same place; a
jump goes wrong exactly when the instruction after the delay slot is in another region of
256 megabytes than the delay slot. The other forms always go where the architecture says. -/
theorem reaches_iff_agreesOn (i : Transfer) (w : Word) (m : Machine) (h : i.Ready w m) :
    i.Reaches w m ↔ i.AgreesOn w (m.registers.gpr (Arch.rs w)) m.registers.nextPC := by
  rw [reaches_iff h]
  exact i.computedNext_eq_next_iff w _ _ _

theorem reaches_iff_agreesOn_bgtz :
    bgtz.Reaches 0x1c200004 bgtzMachine ↔
      (0xffffffff : Word).msb = false ∨ imm 0x1c200004 = 1 :=
  reaches_iff_agreesOn bgtz 0x1c200004 bgtzMachine ready_bgtzMachine

/-- `bgtz` branches on `-1`. -/
theorem not_reaches_bgtz :
    ¬ ∀ (i : Transfer) (w : Word) (m : Machine), i.Ready w m → i.Reaches w m := by
  intro h
  have hr := h bgtz 0x1c200004 bgtzMachine ready_bgtzMachine
  rw [reaches_iff ready_bgtzMachine] at hr
  exact absurd hr (by decide)

end Arch.Transfer

end Nachos.Mips
