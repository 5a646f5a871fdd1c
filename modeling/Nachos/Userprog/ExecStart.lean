import Nachos.Userprog.Exec

/-!
# Where an executed program starts

After an Exec that succeeds the registers are those of `InitRegisters`. The branch of
`ExceptionHandler` then increments the program counter, as it does for the system calls that
return to their caller, and `machine->Run` starts the program at its second instruction.
-/

namespace Nachos.Userprog

open Lib (bind_eq_ok)
open Threads Mips

/-- The Exec of a process succeeds with this image. -/
structure Succeeds (k : Surroundings) (p : Process) (space : AddrSpace) (image : Image) : Prop where
  run : ∃ executable p', k.openFile (fileName k space p) = some executable ∧
    space.delete k p = .ok p' ∧
    (Constructor.withPCB space.pcb).run executable
      ⟨p'.mm, p'.machine.mainMemory, k.stack, k.beyondNew⟩ = .ok (some image)

/-- **The process goes on in the new program**, at `pc`: the stack pointer is below the end of the
space, the other registers are zero, the memory is the image, and the process is the same one. -/
structure Started (pc nextPC : Word) (space : AddrSpace) (image : Image) (p' : Process) : Prop where
  pc : p'.machine.registers.pc = pc
  nextPC : p'.machine.registers.nextPC = nextPC
  stackPointer : p'.machine.registers.gpr 29 = BitVec.ofNat 32 (image.numPages * pageSize) - 16
  gpr : ∀ n ≠ 29, p'.machine.registers.gpr n = 0
  hi : p'.machine.registers.hi = 0
  lo : p'.machine.registers.lo = 0
  prevPC : p'.machine.registers.prevPC = 0
  loadReg : p'.machine.registers.loadReg = 0
  loadValue : p'.machine.registers.loadValue = 0
  badVAddr : p'.machine.registers.badVAddr = 0
  pageTable : p'.machine.pageTable = some image.pageTable
  mainMemory : p'.machine.mainMemory = image.mainMemory
  mm : p'.mm = image.mm
  pid : p'.space = some ⟨space.pcb, image.pageTable⟩

section Exec

variable {k : Surroundings} {p : Process} {space : AddrSpace} {image : Image}

/-- A constructor keeps the PCB it is given. -/
lemma pcb_of_run {executable : OpenFile} {env : Environment} {pcb : ℕ}
    (h : (Constructor.withPCB pcb).run executable env = .ok (some image)) : image.pcb = pcb := by
  unfold Constructor.run construct at h
  dsimp only at h
  split at h
  · cases h
  split at h
  · cases h
  obtain ⟨pcb', hpcb, h⟩ := bind_eq_ok h
  obtain ⟨code, -, h⟩ := bind_eq_ok h
  obtain ⟨initData, -, h⟩ := bind_eq_ok h
  cases hpcb
  cases h
  rfl

/-- An Exec that succeeds. -/
lemma execSyscall_of_succeeds (hspace : p.space = some space) (h : Succeeds k p space image) :
    execSyscall k p = .ok
      ⟨⟨incrementPC (initRegisters image.numPages), image.mainMemory, some image.pageTable⟩,
        some ⟨space.pcb, image.pageTable⟩, image.mm⟩ := by
  obtain ⟨executable, p₁, hopen, hdelete, hrun⟩ := h.run
  have hexec : doExec k (fileName k space p) p = .ok (BitVec.ofNat 32 space.pcb,
      ⟨⟨initRegisters image.numPages, image.mainMemory, some image.pageTable⟩,
        some ⟨space.pcb, image.pageTable⟩, image.mm⟩) := by
    unfold doExec
    rw [hopen, hspace]
    dsimp only [bind, Except.bind]
    rw [hdelete]
    dsimp only
    rw [hrun, ← pcb_of_run hrun]
  unfold execSyscall
  rw [hspace]
  dsimp only [bind, Except.bind]
  rw [hexec]
  rfl

/-- **An Exec that succeeds starts the program at address 4.** -/
theorem started_of_succeeds (hspace : p.space = some space) (h : Succeeds k p space image) :
    ∃ p', execSyscall k p = .ok p' ∧ Started 4 8 space image p' := by
  refine ⟨_, execSyscall_of_succeeds hspace h, ?_⟩
  have hgpr : ∀ n, (incrementPC (initRegisters image.numPages)).gpr n =
      if n = 29 then BitVec.ofNat 32 (image.numPages * pageSize) - 16 else 0 :=
    fun n => Function.update_apply (fun _ => 0) 29 _ n
  exact
    { pc := rfl
      nextPC := rfl
      stackPointer := hgpr 29
      gpr := fun n hn => (hgpr n).trans (if_neg hn)
      hi := rfl
      lo := rfl
      prevPC := rfl
      loadReg := rfl
      loadValue := rfl
      badVAddr := rfl
      pageTable := rfl
      mainMemory := rfl
      mm := rfl
      pid := rfl }

/-- **No Exec starts its program at the beginning.** -/
theorem not_started_at_zero (hspace : p.space = some space) (h : Succeeds k p space image) :
    ¬ ∃ p', execSyscall k p = .ok p' ∧ Started 0 4 space image p' := by
  rintro ⟨p', hp', hstarted⟩
  obtain ⟨p'', hp'', hlate⟩ := started_of_succeeds hspace h
  rw [hp'] at hp''
  cases hp''
  have hne : (0 : Word) ≠ 4 := by decide
  exact hne (hstarted.pc.symm.trans hlate.pc)

end Exec

/-! ### A small program -/

/-- One file under every name, no other threads. -/
def oneFile : Surroundings := { bare with openFile := fun _ => some (smallFile 0) }

/-- The space of the caller. -/
def callerSpace : AddrSpace :=
  ⟨0, [⟨0, 5, true, false, false, false⟩, ⟨1, 3, true, false, false, false⟩]⟩

/-- The Exec of a process with two pages. -/
lemma succeeds_oneFile : ∃ image, Succeeds oneFile caller callerSpace image := by
  have hrun : ((callerSpace.delete oneFile caller).toOption.bind fun p' =>
      ((Constructor.withPCB 0).run (smallFile 0)
        ⟨p'.mm, p'.machine.mainMemory, oneFile.stack, oneFile.beyondNew⟩).toOption.join.map
          fun _ => true) = some true := by decide +kernel
  cases hdelete : callerSpace.delete oneFile caller with
  | error e =>
    rw [hdelete] at hrun
    cases hrun
  | ok p' =>
    rw [hdelete] at hrun
    obtain ⟨image, himage, -⟩ := exists_image hrun
    exact ⟨image, ⟨smallFile 0, p', rfl, hdelete, himage⟩⟩

theorem not_started_at_zero_oneFile : ∃ image,
    ¬ ∃ p', execSyscall oneFile caller = .ok p' ∧ Started 0 4 callerSpace image p' := by
  obtain ⟨image, h⟩ := succeeds_oneFile
  exact ⟨image, not_started_at_zero rfl h⟩

/-- Its Exec goes on at address 4. -/
theorem oneFile_starts_late : ¬ ∀ image, Succeeds oneFile caller callerSpace image →
    ∃ p', execSyscall oneFile caller = .ok p' ∧ Started 0 4 callerSpace image p' := by
  intro hall
  obtain ⟨image, h⟩ := succeeds_oneFile
  obtain ⟨p', hp', hstarted⟩ := hall image h
  rw [execSyscall_of_succeeds rfl h] at hp'
  cases hp'
  have hne : ¬ (4 : Word) = 0 := by decide
  exact hne hstarted.pc

end Nachos.Userprog
