import Nachos.Lib.Except
import Nachos.Mips.Step

/-!
# Interrupts and context switches between the instructions of a user program

`Machine::Run` calls `Interrupt::OneTick` after every instruction. An interrupt that is due there
forces the pending load (`DelayedLoad(0, 0)`), and a context switch saves the registers, runs other
threads and restores them. Two runs of one program can differ in where this happens: then a load
that is still pending in one of them has been applied in the other. Two machines that come to the
same when the pending load is applied (`Settles`) stay so, as long as no instruction touches the
register that the instruction before it loads.
-/

namespace Nachos.Mips

open OpCode Lib

/-! ### What happens at an instruction boundary -/

/-- What `OneTick` does to a user program. -/
inductive Act where
  /-- `CheckIfDue` calls the handler of an interrupt. -/
  | interrupt
  /-- `Scheduler::Run` leaves the thread and comes back to it; the other threads use the machine
  with registers and a page table of their own. -/
  | contextSwitch (registers : Registers) (pageTable : Option (List TranslationEntry))

/-- `DelayedLoad(0, 0)`. -/
def Registers.flush (r : Registers) : Registers := r.delayedLoad 0 0

namespace Machine

/-- The machine with the pending load applied. -/
def flushed (m : Machine) : Machine := m.withRegs m.registers.flush

/-- `Thread::SaveUserState`: the `userRegisters` of the thread. -/
def saveUserState (m : Machine) : Registers := m.registers

/-- `Thread::RestoreUserState`. -/
def restoreUserState (m : Machine) (userRegisters : Registers) : Machine := m.withRegs userRegisters

/-- `AddrSpace::RestoreState`, for the space with this table. -/
def restoreState (m : Machine) (pageTable : Option (List TranslationEntry)) : Machine :=
  { m with pageTable := pageTable }

/-- One act. `AddrSpace::SaveState` does nothing: `machine->pageTable` is the array of the space. -/
def act (m : Machine) : Act → Machine
  | .interrupt => m.flushed
  | .contextSwitch registers pageTable =>
    let userRegisters := m.saveUserState
    let others := (m.withRegs registers).restoreState pageTable
    (others.restoreUserState userRegisters).restoreState m.pageTable

/-- The acts at one boundary, in order. -/
def boundary (acts : List Act) (m : Machine) : Machine := acts.foldl act m

/-- `Machine::Run`, one instruction for each list of acts: the instructions executed and the machine
after the last boundary. -/
def runUser : List (List Act) → Machine → Except Stop (List Instruction × Machine)
  | [], m => .ok ([], m)
  | acts :: rest, m => do
    let (raw, _) ← m.readMem m.registers.pc 4
    let m ← m.oneInstruction
    let (trace, m) ← runUser rest (m.boundary acts)
    return (.decode raw :: trace, m)

end Machine

/-! ### The registers that an instruction touches -/

namespace Instruction

/-- The register of the delayed load that the instruction leaves. -/
def loads (i : Instruction) : Option RegNum :=
  match i.opCode with
  | opLb | opLbu | opLh | opLhu | opLw | opLwl | opLwr => some i.rt
  | _ => none

/-- The registers that the instruction reads; the register into which `LWL` and `LWR` merge is not
among them. -/
def reads (i : Instruction) : List RegNum :=
  match i.opCode with
  | opAdd | opAddu | opAnd | opBeq | opBne | opDiv | opDivu | opMult | opMultu | opNor
  | opSb | opSh | opSllv | opSlt | opSltu | opSrav | opSrlv | opSub | opSubu
  | opSw | opSwl | opSwr | opXor => [i.rs, i.rt]
  -- the source names `rs` twice in `OP_OR`
  | opAddi | opAddiu | opAndi | opBgez | opBgezal | opBgtz | opBlez | opBltz | opBltzal
  | opJalr | opJr | opLb | opLbu | opLh | opLhu | opLw | opLwl | opLwr | opMthi | opMtlo
  | opOr | opOri | opSlti | opSltiu | opXori => [i.rs]
  | opSll | opSra | opSrl => [i.rt]
  | _ => []

/-- The registers that the instruction assigns, apart from a load's. -/
def writes (i : Instruction) : List RegNum :=
  match i.opCode with
  | opAdd | opAddu | opAnd | opJalr | opMfhi | opMflo | opNor | opOr | opSll | opSllv
  | opSlt | opSltu | opSra | opSrav | opSrl | opSrlv | opSub | opSubu | opXor => [i.rd]
  | opAddi | opAddiu | opAndi | opLui | opOri | opSlti | opSltiu | opXori => [i.rt]
  | opBgezal | opBltzal | opJal => [r31]
  | _ => []

/-- The second instruction leaves alone what the first one loads. -/
def NoHazard (i j : Instruction) : Prop :=
  ∀ d, i.loads = some d → d ∉ j.reads ∧ d ∉ j.writes

end Instruction

/-- No instruction touches the register that the one before it loads. -/
def HazardFree (trace : List Instruction) : Prop := trace.IsChain Instruction.NoHazard

/-! ### Applying the pending load -/

namespace Registers

variable (r : Registers)

/-- No load is pending for `n`. A load of `r0` is dropped. -/
def Clear (n : RegNum) : Prop := r.loadReg = 0 ∨ r.loadReg ≠ n

@[simp] lemma flush_hi : r.flush.hi = r.hi := rfl
@[simp] lemma flush_lo : r.flush.lo = r.lo := rfl
@[simp] lemma flush_pc : r.flush.pc = r.pc := rfl
@[simp] lemma flush_nextPC : r.flush.nextPC = r.nextPC := rfl
@[simp] lemma flush_loadReg : r.flush.loadReg = 0 := rfl
@[simp] lemma flush_gpr_zero : r.flush.gpr 0 = 0 := r.delayedLoad_zero 0 0

lemma flush_gpr_apply (d : RegNum) :
    r.flush.gpr d = if d = 0 then 0 else if d = r.loadReg then r.loadValue else r.gpr d := by
  simp only [flush, delayedLoad, Function.update_apply]

/-- `DelayedLoad(0, 0)` twice is once. -/
@[simp] lemma flush_flush : r.flush.flush = r.flush := by
  have hgpr : r.flush.flush.gpr = r.flush.gpr := by
    funext d
    rw [r.flush.flush_gpr_apply]
    split
    next h => rw [h, flush_gpr_zero]
    next h => rw [flush_loadReg, if_neg h]
  exact congrArg (fun g => ({ r.flush with gpr := g } : Registers)) hgpr

/-- The value of a register does not wait for a load of another one. -/
lemma flush_gpr (h0 : r.gpr 0 = 0) {n : RegNum} (h : r.Clear n) : r.flush.gpr n = r.gpr n := by
  by_cases hn : n = 0
  · rw [hn, flush_gpr_zero, h0]
  · refine r.delayedLoad_gpr 0 0 hn ?_
    obtain h | h := h
    · exact fun e => hn (e.symm.trans h)
    · exact h

/-- An assignment of another register commutes with the load. -/
lemma flush_write {n : RegNum} (h : r.Clear n) (v : Word) :
    (r.flush.write n v).flush = (r.write n v).flush := by
  have hgpr : (r.flush.write n v).flush.gpr = (r.write n v).flush.gpr := by
    funext d
    rw [flush_gpr_apply, flush_gpr_apply]
    by_cases hd : d = 0
    · rw [if_pos hd, if_pos hd]
    · have hw : (r.flush.write n v).loadReg = 0 := rfl
      rw [if_neg hd, if_neg hd, hw, if_neg hd]
      by_cases hn : d = n
      · subst hn
        rw [write_same, write_loadReg, write_same, if_neg]
        obtain h | h := h
        · rwa [h]
        · exact h.symm
      · rw [write_of_ne _ _ hn, write_of_ne _ _ hn, flush_gpr_apply, if_neg hd]
        rfl
  exact congrArg (fun g => ({ r.flush with gpr := g } : Registers)) hgpr

/-- The end of an instruction reads the registers with the pending load applied. -/
lemma delayedLoad_flush (n : RegNum) (v : Word) : r.flush.delayedLoad n v = r.delayedLoad n v := by
  have hgpr : r.flush.flush.gpr = r.flush.gpr := by rw [flush_flush]
  exact congrArg (fun g => ({ r with gpr := g, loadReg := n, loadValue := v } : Registers)) hgpr

end Registers

namespace Machine

/-- The two machines come to the same when the pending load is applied. -/
def Settles (m m' : Machine) : Prop := m.flushed = m'.flushed

variable (m : Machine)

@[simp] lemma flushed_registers : m.flushed.registers = m.registers.flush := rfl
@[simp] lemma flushed_mainMemory : m.flushed.mainMemory = m.mainMemory := rfl
@[simp] lemma flushed_pageTable : m.flushed.pageTable = m.pageTable := rfl

@[simp] lemma flushed_flushed : m.flushed.flushed = m.flushed := by
  show m.withRegs m.registers.flush.flush = _
  rw [m.registers.flush_flush]
  rfl

lemma Settles.field {m m' : Machine} (h : m.Settles m') {α : Type} (f : Machine → α) :
    f m.flushed = f m'.flushed := congrArg f h

/-- `RaiseException` applies the pending load itself. -/
lemma raiseException_flushed {α : Type} (which : ExceptionType) (w : Word) :
    m.flushed.raiseException (α := α) which w = m.raiseException which w := by
  have h : ({ m.registers.flush with badVAddr := w } : Registers).delayedLoad 0 0 =
      ({ m.registers with badVAddr := w } : Registers).delayedLoad 0 0 :=
    ({ m.registers with badVAddr := w } : Registers).delayedLoad_flush 0 0
  unfold raiseException
  rw [flushed_registers, h]
  rfl

lemma readMem_flushed (addr : Word) (size : ℕ) :
    m.flushed.readMem addr size = (m.readMem addr size).map fun p => (p.1, p.2.flushed) := by
  have ht : m.flushed.translate addr size false = m.translate addr size false := rfl
  unfold readMem
  rw [ht]
  cases m.translate addr size false with
  | error e => rfl
  | ok t =>
    cases t with
    | fault which => exact m.raiseException_flushed which addr
    | ok physicalAddress table =>
      dsimp only [bind, Except.bind]
      split <;> rfl

lemma writeMem_flushed (addr : Word) (size : ℕ) (value : Word) :
    m.flushed.writeMem addr size value = (m.writeMem addr size value).map flushed := by
  have ht : m.flushed.translate addr size true = m.translate addr size true := rfl
  unfold writeMem
  rw [ht]
  cases m.translate addr size true with
  | error e => rfl
  | ok t =>
    cases t with
    | fault which => exact m.raiseException_flushed which addr
    | ok physicalAddress table =>
      dsimp only [bind, Except.bind]
      cases assert (size = 1 || size = 2 || size = 4) <;> rfl

/-- `LWL` and `LWR` merge into the value that the pending load brings. -/
lemma loadBase_flushed {rt : RegNum} (h : rt ≠ 0) : m.flushed.loadBase rt = m.loadBase rt := by
  unfold loadBase
  rw [flushed_registers, Registers.flush_loadReg, if_neg (Ne.symm h), Registers.flush_gpr_apply,
    if_neg h]
  by_cases hl : rt = m.registers.loadReg
  · rw [if_pos hl, if_pos hl.symm]
  · rw [if_neg hl, if_neg (Ne.symm hl)]

end Machine

/-! ### One instruction -/

/-- Two ways out of the `switch` that come to the same. -/
structure Outcome.Settles (o o' : Outcome) : Prop where
  m : o.m.Settles o'.m
  pcAfter : o.pcAfter = o'.pcAfter
  nextLoadReg : o.nextLoadReg = o'.nextLoadReg
  nextLoadValue : o.nextLoadReg ≠ 0 → o.nextLoadValue = o'.nextLoadValue

/-- Two executions of a `switch` that come to the same. -/
abbrev SameCase : Except Stop Outcome → Except Stop Outcome → Prop := Alike Outcome.Settles

namespace Machine

/-- What comes to the same after the `switch` does so after the instruction. -/
lemma finish_settles {o o' : Outcome} (h : o.Settles o') : (finish o).Settles (finish o') := by
  have hm : o.m.flushed = o'.m.flushed := h.m
  have key : ∀ (r : Registers) (n : RegNum) (v v' : Word), (n ≠ 0 → v = v') →
      (r.flush.delayedLoad n v).flush = (r.flush.delayedLoad n v').flush := by
    intro r n v v' hv
    by_cases hn : n = 0
    · -- the value is dropped with the load of `r0`
      subst hn
      have hgpr : (r.flush.delayedLoad 0 v).flush.gpr = (r.flush.delayedLoad 0 v').flush.gpr := by
        funext d
        rw [Registers.flush_gpr_apply, Registers.flush_gpr_apply]
        by_cases hd : d = 0
        · rw [if_pos hd, if_pos hd]
        · rw [if_neg hd, if_neg hd]
          show (if d = 0 then v else _) = if d = 0 then v' else _
          rw [if_neg hd, if_neg hd]
          rfl
      exact congrArg (fun g => ({ r.flush with gpr := g } : Registers)) hgpr
    · rw [hv hn]
  have hregs : o.m.registers.flush = o'.m.registers.flush := congrArg Machine.registers hm
  have hdelayed : (o.m.registers.delayedLoad o.nextLoadReg o.nextLoadValue).flush =
      (o'.m.registers.delayedLoad o'.nextLoadReg o'.nextLoadValue).flush := by
    rw [← o.m.registers.delayedLoad_flush, ← o'.m.registers.delayedLoad_flush, hregs,
      ← h.nextLoadReg]
    exact key _ _ _ _ h.nextLoadValue
  show o.m.flushed.withRegs
      ((o.m.registers.delayedLoad o.nextLoadReg o.nextLoadValue).flush.advance o.pcAfter) =
    o'.m.flushed.withRegs
      ((o'.m.registers.delayedLoad o'.nextLoadReg o'.nextLoadValue).flush.advance o'.pcAfter)
  rw [hm, hdelayed, h.pcAfter]

section Cases

variable (m : Machine)

lemma alike_raise (which : ExceptionType) (w : Word) :
    SameCase (m.flushed.raiseException which w) (m.raiseException which w) := by
  rw [raiseException_flushed]
  exact .error _

/-- A case that assigns `pcAfter`, with registers that come to the same. -/
lemma alike_jump {r r' : Registers} (w : Word) (h : r'.flush = r.flush) :
    SameCase (pure (m.flushed.jump r' w)) (pure (m.jump r w)) :=
  .ok ⟨congrArg m.withRegs h, rfl, rfl, fun _ => rfl⟩

/-- A case that assigns a register. -/
lemma alike_write {n : RegNum} (h : m.registers.Clear n) (v : Word) :
    SameCase (pure (m.flushed.done (m.registers.flush.write n v)))
      (pure (m.done (m.registers.write n v))) :=
  m.alike_jump _ (m.registers.flush_write h v)

/-- A case that only assigns `HiReg` and `LoReg`. -/
lemma alike_hiLo (hi lo : Word) :
    SameCase (pure (m.flushed.done { m.registers.flush with hi := hi, lo := lo }))
      (pure (m.done { m.registers with hi := hi, lo := lo })) :=
  m.alike_jump _ (congrArg (fun r => ({ r with hi := hi, lo := lo } : Registers))
    m.registers.flush_flush)

/-- A case that leaves a delayed load. -/
lemma alike_load (addr : Word) (size : ℕ) (rt : RegNum) (f : Machine → Word → Word)
    (hf : ∀ v m₁, rt ≠ 0 → f m₁.flushed v = f m₁ v) :
    SameCase
      (m.flushed.readMem addr size >>= fun p => pure (p.2.load rt (f p.2 p.1)))
      (m.readMem addr size >>= fun p => pure (p.2.load rt (f p.2 p.1))) := by
  rw [readMem_flushed]
  refine Alike.bind fun p => .ok ⟨p.2.flushed_flushed, rfl, rfl, fun h => ?_⟩
  exact hf p.1 p.2 h

/-- A case that stores. -/
lemma alike_store (addr : Word) (size : ℕ) (v : Word) :
    SameCase
      (m.flushed.writeMem addr size v >>= fun m => pure (m.done m.registers))
      (m.writeMem addr size v >>= fun m => pure (m.done m.registers)) := by
  rw [writeMem_flushed]
  exact Alike.bind fun m₁ => m₁.alike_jump _ m₁.registers.flush_flush

/-- `SWL` and `SWR`: a word is read, merged and stored. -/
lemma alike_storeMerged (addr : Word) (f : Word → Word) :
    SameCase
      (m.flushed.readMem addr 4 >>= fun p =>
        p.2.writeMem addr 4 (f p.1) >>= fun m => pure (m.done m.registers))
      (m.readMem addr 4 >>= fun p =>
        p.2.writeMem addr 4 (f p.1) >>= fun m => pure (m.done m.registers)) := by
  rw [readMem_flushed]
  exact Alike.bind fun p => p.2.alike_store addr 4 (f p.1)

end Cases

/-- A register is read after the link register has been assigned. -/
lemma gpr_link {r r' : Registers} {n : RegNum} (d : RegNum) (v : Word) (h : r'.gpr n = r.gpr n) :
    (r'.write d v).gpr n = (r.write d v).gpr n := by
  simp only [Registers.write, Function.update_apply, h]

/-- **The `switch` does not see whether the pending load has been applied**, as long as the
instruction does not touch its register. -/
theorem execute_flushed (m : Machine) (i : Instruction) (h0 : m.registers.gpr 0 = 0)
    (hr : ∀ d ∈ i.reads, m.registers.Clear d) (hw : ∀ d ∈ i.writes, m.registers.Clear d) :
    SameCase (execute m.flushed i) (execute m i) := by
  have hgpr : ∀ d ∈ i.reads, m.registers.flush.gpr d = m.registers.gpr d :=
    fun d hd => m.registers.flush_gpr h0 (hr d hd)
  cases hop : i.opCode <;>
    simp only [Instruction.reads, Instruction.writes, hop, List.forall_mem_cons,
      List.not_mem_nil, false_imp_iff, implies_true, and_true] at hr hw hgpr <;>
    simp only [execute, hop, flushed_registers, hgpr, Registers.flush_nextPC, Registers.flush_hi,
      Registers.flush_lo]
  case opAdd | opAddi | opSub =>
    split
    · exact m.alike_raise _ _
    · exact m.alike_write hw _
  case opAddiu | opAddu | opAnd | opAndi | opLui | opMfhi | opMflo | opNor | opOr | opOri
      | opSll | opSllv | opSlt | opSlti | opSltiu | opSltu | opSra | opSrav | opSrl | opSrlv
      | opSubu | opXor | opXori => exact m.alike_write hw _
  case opBeq | opBgez | opBgtz | opBlez | opBltz | opBne | opJ | opJr =>
    exact m.alike_jump _ m.registers.flush_flush
  case opJal => exact m.alike_jump _ (m.registers.flush_write hw _)
  -- the link register is assigned before `rs` is read
  case opBgezal | opBltzal =>
    rw [gpr_link r31 _ hgpr]
    exact m.alike_jump _ (m.registers.flush_write hw _)
  case opJalr =>
    rw [gpr_link i.rd _ hgpr]
    exact m.alike_jump _ (m.registers.flush_write hw _)
  case opDiv | opDivu =>
    split
    · exact m.alike_hiLo _ _
    · exact m.alike_hiLo _ _
  case opMthi | opMtlo | opMult | opMultu => exact m.alike_hiLo _ _
  case opLb =>
    exact m.alike_load _ _ _
      (fun _ v => if v &&& 0x80 ≠ 0 then v ||| 0xffffff00 else v &&& 0xff) fun _ _ _ => rfl
  case opLbu => exact m.alike_load _ _ _ (fun _ v => v &&& 0xff) fun _ _ _ => rfl
  case opLh =>
    split
    · exact m.alike_raise _ _
    · exact m.alike_load _ _ _
        (fun _ v => if v &&& 0x8000 ≠ 0 then v ||| 0xffff0000 else v &&& 0xffff) fun _ _ _ => rfl
  case opLhu =>
    split
    · exact m.alike_raise _ _
    · exact m.alike_load _ _ _ (fun _ v => v &&& 0xffff) fun _ _ _ => rfl
  case opLw =>
    split
    · exact m.alike_raise _ _
    · exact m.alike_load _ _ _ (fun _ v => v) fun _ _ _ => rfl
  case opLwl =>
    refine Alike.bind_same fun _ => m.alike_load _ _ _
      (fun m₁ v => mergeLwl (m.registers.gpr i.rs + i.extra) (m₁.loadBase i.rt) v) ?_
    intro v m₁ hrt
    rw [loadBase_flushed m₁ hrt]
  case opLwr =>
    refine Alike.bind_same fun _ => m.alike_load _ _ _
      (fun m₁ v => mergeLwr (m.registers.gpr i.rs + i.extra) (m₁.loadBase i.rt) v) ?_
    intro v m₁ hrt
    rw [loadBase_flushed m₁ hrt]
  case opSb | opSh | opSw => exact m.alike_store _ _ _
  case opSwl => exact Alike.bind_same fun _ => m.alike_storeMerged _ _
  case opSwr => exact Alike.bind_same fun _ => m.alike_storeMerged _ _
  case opSyscall | opRes | opUnimp => exact m.alike_raise _ _
  case opRfe | special | bcond => exact .error _

/-- The load that an instruction leaves is the one of its operation. -/
lemma execute_nextLoadReg {m : Machine} {i : Instruction} {o : Outcome} (h : execute m i = .ok o) :
    o.nextLoadReg = 0 ∨ i.loads = some o.nextLoadReg := by
  cases hop : i.opCode <;> simp only [execute, hop, Instruction.loads] at h ⊢
  case opLb | opLbu =>
    obtain ⟨p, -, h⟩ := bind_eq_ok h
    cases h
    exact .inr rfl
  case opLh | opLhu | opLw =>
    split at h
    · cases h
    · obtain ⟨p, -, h⟩ := bind_eq_ok h
      cases h
      exact .inr rfl
  case opLwl | opLwr =>
    obtain ⟨-, -, h⟩ := bind_eq_ok h
    obtain ⟨p, -, h⟩ := bind_eq_ok h
    cases h
    exact .inr rfl
  case opAdd | opAddi | opSub | opDiv | opDivu =>
    split at h <;> cases h
    all_goals exact .inl rfl
  case opSb | opSh | opSw =>
    obtain ⟨m, -, h⟩ := bind_eq_ok h
    cases h
    exact .inl rfl
  case opSwl | opSwr =>
    obtain ⟨-, -, h⟩ := bind_eq_ok h
    obtain ⟨p, -, h⟩ := bind_eq_ok h
    obtain ⟨m, -, h⟩ := bind_eq_ok h
    cases h
    exact .inl rfl
  all_goals
    cases h
    try exact .inl rfl

/-- What holds after an instruction `i`: `r0` is zero, and a load is pending only where `i` is a
load. -/
structure After (i : Instruction) (m : Machine) : Prop where
  zero : m.registers.gpr 0 = 0
  pending : m.registers.loadReg = 0 ∨ i.loads = some m.registers.loadReg

lemma After.clear {i j : Instruction} {m : Machine} (h : m.After i) (hij : i.NoHazard j) {d : RegNum}
    (hd : d ∈ j.reads ∨ d ∈ j.writes) : m.registers.Clear d := by
  obtain hl | hl := h.pending
  · exact .inl hl
  · refine .inr fun e => ?_
    have hfree := hij _ hl
    rw [e] at hfree
    exact hd.elim hfree.1 hfree.2

/-- The instruction that is executed, and the machine after it. -/
lemma oneInstruction_eq_ok {m m' : Machine} (h : m.oneInstruction = .ok m') :
    ∃ w m₁ o, m.readMem m.registers.pc 4 = .ok (w, m₁) ∧ execute m₁ (.decode w) = .ok o ∧
      m' = finish o ∧ m'.After (.decode w) := by
  obtain ⟨⟨w, m₁⟩, hfetch, h⟩ := bind_eq_ok h
  obtain ⟨o, ho, h⟩ := bind_eq_ok h
  cases h
  exact ⟨w, m₁, o, hfetch, ho, rfl,
    o.m.registers.delayedLoad_zero o.nextLoadReg o.nextLoadValue, execute_nextLoadReg ho⟩

/-- **One instruction, with the pending load applied or not.** -/
lemma oneInstruction_flushed {m m₁ : Machine} {w : Word} (h0 : m.registers.gpr 0 = 0)
    (hfetch : m.readMem m.registers.pc 4 = .ok (w, m₁))
    (hclear : ∀ d, d ∈ (Instruction.decode w).reads ∨ d ∈ (Instruction.decode w).writes →
      m.registers.Clear d) :
    Alike Settles m.flushed.oneInstruction m.oneInstruction := by
  have hregs : m₁.registers = m.registers := readMem_registers hfetch
  have hfetch' : m.flushed.readMem m.flushed.registers.pc 4 = .ok (w, m₁.flushed) := by
    show m.flushed.readMem m.registers.pc 4 = _
    rw [readMem_flushed, hfetch]
    rfl
  rw [oneInstruction_of_fetch hfetch, oneInstruction_of_fetch hfetch']
  refine Alike.map (execute_flushed m₁ _ (by rw [hregs, h0]) ?_ ?_) fun _ _ => finish_settles
  · intro d hd
    rw [hregs]
    exact hclear d (.inl hd)
  · intro d hd
    rw [hregs]
    exact hclear d (.inr hd)

/-! ### The boundaries -/

/-- A context switch gives the thread back what it had. -/
lemma act_eq (m : Machine) (a : Act) : m.act a = m ∨ m.act a = m.flushed := by
  cases a with
  | interrupt => exact .inr rfl
  | contextSwitch registers pageTable => exact .inl rfl

lemma boundary_eq (acts : List Act) (m : Machine) :
    m.boundary acts = m ∨ m.boundary acts = m.flushed := by
  induction acts generalizing m with
  | nil => exact .inl rfl
  | cons a acts ih =>
    have hcons : m.boundary (a :: acts) = (m.act a).boundary acts := rfl
    rw [hcons]
    obtain ha | ha := m.act_eq a
    · rw [ha]
      exact ih m
    · rw [ha]
      have h := ih m.flushed
      rw [flushed_flushed, or_self] at h
      exact .inr h

lemma After.boundary {i : Instruction} {m : Machine} (h : m.After i) (acts : List Act) :
    (m.boundary acts).After i := by
  obtain hb | hb := boundary_eq acts m
  · rwa [hb]
  · rw [hb]
    exact ⟨m.registers.flush_gpr_zero, .inl rfl⟩

lemma Settles.boundary {m m' : Machine} (h : m.Settles m') (as bs : List Act) :
    (m.boundary as).Settles (m'.boundary bs) := by
  have key : ∀ (acts : List Act) (n : Machine), (n.boundary acts).flushed = n.flushed := by
    intro acts n
    obtain hb | hb := boundary_eq acts n
    · rw [hb]
    · rw [hb, flushed_flushed]
  show (m.boundary as).flushed = (m'.boundary bs).flushed
  rw [key, key]
  exact h

/-- **One instruction of two runs**: the same word is executed, and what came to the same before it
does so after it. -/
lemma Settles.oneInstruction {i : Instruction} {m m' m₁ mr : Machine} {w : Word}
    (h : m.Settles m') (ha : m.After i) (ha' : m'.After i)
    (hfetch : m.readMem m.registers.pc 4 = .ok (w, mr)) (hij : i.NoHazard (.decode w))
    (hm : m.oneInstruction = .ok m₁) :
    ∃ mr' m₁', m'.readMem m'.registers.pc 4 = .ok (w, mr') ∧ m'.oneInstruction = .ok m₁' ∧
      m₁.Settles m₁' := by
  have hpc : m.registers.pc = m'.registers.pc := h.field (·.registers.pc)
  -- the other run fetches the same word
  have hfetch' : ∃ mr', m'.readMem m'.registers.pc 4 = .ok (w, mr') := by
    have hread : (m.flushed.readMem m'.registers.pc 4).map Prod.fst = .ok w := by
      rw [readMem_flushed, ← hpc, hfetch]
      rfl
    rw [show m.flushed = m'.flushed from h, readMem_flushed] at hread
    cases hr : m'.readMem m'.registers.pc 4 with
    | error e => rw [hr] at hread; cases hread
    | ok p =>
      rw [hr] at hread
      cases hread
      exact ⟨p.2, rfl⟩
  obtain ⟨mr', hfetch'⟩ := hfetch'
  have hl := oneInstruction_flushed ha.zero hfetch fun d => ha.clear hij
  have hr := oneInstruction_flushed ha'.zero hfetch' fun d => ha'.clear hij
  rw [show m.flushed = m'.flushed from h, hm] at hl
  -- both runs are compared with the one from the machine with the load applied
  generalize m'.flushed.oneInstruction = x at hl hr
  cases hl with
  | @ok n _ hn =>
    obtain ⟨m₁', hm', hn'⟩ := hr.of_ok rfl
    exact ⟨mr', m₁', hfetch', hm', hn.symm.trans hn'⟩

/-! ### Two runs -/

lemma runUser_cons {acts : List Act} {rest : List (List Act)} {m m' : Machine}
    {trace : List Instruction} (h : runUser (acts :: rest) m = .ok (trace, m')) :
    ∃ w mr m₁ trace', m.readMem m.registers.pc 4 = .ok (w, mr) ∧ m.oneInstruction = .ok m₁ ∧
      runUser rest (m₁.boundary acts) = .ok (trace', m') ∧ trace = .decode w :: trace' := by
  obtain ⟨⟨w, mr⟩, hfetch, h⟩ := bind_eq_ok h
  obtain ⟨m₁, hm, h⟩ := bind_eq_ok h
  obtain ⟨⟨trace', m₂⟩, hrun, h⟩ := bind_eq_ok h
  cases h
  exact ⟨w, mr, m₁, trace', hfetch, hm, hrun, rfl⟩

lemma runUser_of_step {acts : List Act} {rest : List (List Act)} {m mr m₁ m' : Machine} {w : Word}
    {trace : List Instruction} (hfetch : m.readMem m.registers.pc 4 = .ok (w, mr))
    (hm : m.oneInstruction = .ok m₁) (hrun : runUser rest (m₁.boundary acts) = .ok (trace, m')) :
    runUser (acts :: rest) m = .ok (.decode w :: trace, m') := by
  rw [runUser, hfetch]
  show (m.oneInstruction >>= _) = _
  rw [hm]
  show (runUser rest (m₁.boundary acts) >>= _) = _
  rw [hrun]
  rfl

/-- The rest of two runs, after an instruction `i`. -/
theorem runUser_settles {as bs : List (List Act)} (hlen : as.length = bs.length) {i : Instruction}
    {m m' m₁ : Machine} {trace : List Instruction} (h : m.Settles m') (ha : m.After i)
    (ha' : m'.After i) (hrun : runUser as m = .ok (trace, m₁)) (hfree : HazardFree (i :: trace)) :
    ∃ m₁', runUser bs m' = .ok (trace, m₁') ∧ m₁.Settles m₁' := by
  induction as generalizing bs i m m' trace with
  | nil =>
    obtain rfl := List.length_eq_zero_iff.mp hlen.symm
    cases hrun
    exact ⟨m', rfl, h⟩
  | cons acts as ih =>
    obtain - | ⟨acts', bs⟩ := bs
    · cases hlen
    obtain ⟨w, mr, n, trace, hfetch, hn, hrest, rfl⟩ := runUser_cons hrun
    obtain ⟨hij, hfree⟩ := List.isChain_cons_cons.mp hfree
    obtain ⟨mr', n', hfetch', hn', hs⟩ := h.oneInstruction ha ha' hfetch hij hn
    have hafter : ∀ {m n mr : Machine}, m.readMem m.registers.pc 4 = .ok (w, mr) →
        m.oneInstruction = .ok n → n.After (.decode w) := by
      intro m n mr hfetch hn
      obtain ⟨w', _, _, hw', -, -, hafter⟩ := oneInstruction_eq_ok hn
      rw [hfetch] at hw'
      cases hw'
      exact hafter
    obtain ⟨m₁', hrest', hs'⟩ := ih (Nat.succ.inj hlen) (hs.boundary acts acts')
      ((hafter hfetch hn).boundary acts) ((hafter hfetch' hn').boundary acts') hrest hfree
    exact ⟨m₁', runUser_of_step hfetch' hn' hrest', hs'⟩

/-- What a user program can see of a machine. -/
structure SameUserState (m m' : Machine) : Prop where
  pc : m.registers.pc = m'.registers.pc
  nextPC : m.registers.nextPC = m'.registers.nextPC
  hi : m.registers.hi = m'.registers.hi
  lo : m.registers.lo = m'.registers.lo
  mainMemory : m.mainMemory = m'.mainMemory
  gpr : m.registers.flush.gpr = m'.registers.flush.gpr

lemma Settles.sameUserState {m m' : Machine} (h : m.Settles m') : m.SameUserState m' where
  pc := h.field (·.registers.pc)
  nextPC := h.field (·.registers.nextPC)
  hi := h.field (·.registers.hi)
  lo := h.field (·.registers.lo)
  mainMemory := h.field (·.mainMemory)
  gpr := h.field (·.registers.gpr)

/-- **Interrupts and context switches are invisible to a user program** whose instructions leave
alone what the one before them loads: with any other acts at the boundaries it executes the same
instructions, without a fault, and comes to the same state. -/
theorem boundaries_invisible {as bs : List (List Act)} (hlen : as.length = bs.length)
    {m m₁ : Machine} {trace : List Instruction} (hrun : runUser as m = .ok (trace, m₁))
    (hfree : HazardFree trace) :
    ∃ m₁', runUser bs m = .ok (trace, m₁') ∧ m₁.SameUserState m₁' := by
  obtain - | ⟨acts, as⟩ := as
  · obtain rfl := List.length_eq_zero_iff.mp hlen.symm
    cases hrun
    exact ⟨m, rfl, rfl, rfl, rfl, rfl, rfl, rfl⟩
  obtain - | ⟨acts', bs⟩ := bs
  · cases hlen
  -- the first instruction starts from one and the same machine
  obtain ⟨w, mr, n, trace, hfetch, hn, hrest, rfl⟩ := runUser_cons hrun
  obtain ⟨w', _, _, hw', -, -, hafter⟩ := oneInstruction_eq_ok hn
  rw [hfetch] at hw'
  cases hw'
  have hs : n.Settles n := rfl
  obtain ⟨m₁', hrest', hs'⟩ := runUser_settles (Nat.succ.inj hlen) (hs.boundary acts acts')
    (hafter.boundary acts) (hafter.boundary acts') hrest hfree
  exact ⟨m₁', runUser_of_step hfetch hn hrest', hs'.sameUserState⟩

/-- A program of two instructions, `lw $2,0($0)` and `addiu $3,$0,5`. -/
def loadThenAdd : Machine :=
  let m := boot (fun _ => 0) 0x8c020000
  { m with mainMemory := storeBytes m.mainMemory 4 4 0x24030005 }

/-- An interrupt that comes while the load is pending. -/
theorem boundaries_invisible_lw : ∃ m m',
    runUser [[], []] loadThenAdd = .ok ([.decode 0x8c020000, .decode 0x24030005], m) ∧
    runUser [[.interrupt], []] loadThenAdd = .ok ([.decode 0x8c020000, .decode 0x24030005], m') ∧
    m.SameUserState m' := by
  have hfree : HazardFree [.decode 0x8c020000, .decode 0x24030005] := by
    refine List.isChain_cons_cons.mpr ⟨?_, .singleton _⟩
    intro d hd
    cases hd
    decide
  obtain ⟨m, hm⟩ : ∃ m,
      runUser [[], []] loadThenAdd = .ok ([.decode 0x8c020000, .decode 0x24030005], m) := ⟨_, rfl⟩
  obtain ⟨m', hm', h⟩ := boundaries_invisible (show [[], []].length = [[Act.interrupt], []].length from rfl) hm hfree
  exact ⟨m, m', hm, hm', h⟩

end Machine

end Nachos.Mips
