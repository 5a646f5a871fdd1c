import Nachos.Threads.Step
import Nachos.Userprog.Loader

/-!
# Exec

`doExec` (`exception.cc`) and the branch of `ExceptionHandler` that calls it. The old address space
is deleted before the new one is built, and the handler drops the result of `doExec`: whatever went
wrong, the caller goes on with `r2` as it was, and unless the file could not be opened it goes on
without an address space.

`~AddrSpace` takes `mmLock`, so other threads can run while it waits for the lock and after it
has released it. The registers of the caller are saved and restored then; what the other
threads do to the frames and to the memory is arbitrary.
-/

namespace Nachos.Userprog

open Lib (bind_eq_ok)
open Threads Mips

/-- `class AddrSpace`: the pid of its PCB and the page table. -/
structure AddrSpace where
  pcb : ℕ
  pageTable : List TranslationEntry

/-- What a system call of a process works on: the machine, `currentThread->space` and `mm`. -/
structure Process where
  machine : Machine
  space : Option AddrSpace
  mm : MemoryManager

/-- What the other threads do to the frames and the memory. -/
structure Others where
  mm : MemoryManager → MemoryManager
  mainMemory : (ℕ → Byte) → ℕ → Byte

/-- The surroundings of an Exec: the files, the memory the code reads uninitialised or past an
array, and the other threads. -/
structure Surroundings where
  openFile : List Byte → Option OpenFile
  stack : ℕ → Byte
  /-- The memory after the page table of the caller, and after that of the new space. -/
  beyond : ℕ → Word
  beyondNew : ℕ → Word
  /-- Before `mmLock->Acquire` returns, and before `mmLock->Release` does. -/
  atAcquire : Others
  atRelease : Others
  /-- The caller is switched out during `mmLock->Release`. -/
  switched : Bool

/-- The code of the system call, in `r2`. -/
def SC_Exec : Word := 2

/-- `MemoryManager::DeallocatePage`. The assertion of `Clear` is that of `Test`. -/
def MemoryManager.deallocatePage (mm : MemoryManager) (which : ℤ) :
    Except Fault (ℤ × MemoryManager) :=
  match mm.bitmap.test which with
  | .error fault => .error fault
  | .ok false => .ok (-1, mm)
  | .ok true => .ok (0, ⟨mm.bitmap.clearBit which.toNat, mm.numBits_eq⟩)

/-- The loop of `~AddrSpace`. -/
def deallocatePages : List TranslationEntry → MemoryManager → Except Fault MemoryManager
  | [], mm => .ok mm
  | entry :: table, mm => do
    let freed ← mm.deallocatePage entry.physicalPage.toInt
    if freed.1 = 0 then deallocatePages table freed.2 else .error .assertion

/-- The other threads run. -/
def Process.interleave (p : Process) (others : Others) : Process where
  machine := { p.machine with mainMemory := others.mainMemory p.machine.mainMemory }
  space := p.space
  mm := others.mm p.mm

/-- `delete currentThread->space`. A switch after `pageTable = NULL` loads that `NULL` into the
machine; without one the machine keeps the pointer to the table that is no more. -/
def AddrSpace.delete (space : AddrSpace) (k : Surroundings) (p : Process) :
    Except Fault Process := do
  let p := p.interleave k.atAcquire
  let mm ← deallocatePages space.pageTable p.mm
  let pageTable := if k.switched then none else p.machine.pageTable
  .ok (Process.interleave ⟨{ p.machine with pageTable := pageTable }, p.space, mm⟩ k.atRelease)

/-- `AddrSpace::InitRegisters`. -/
def initRegisters (numPages : ℕ) : Registers where
  gpr := Function.update (fun _ => 0) 29 (BitVec.ofNat 32 (numPages * pageSize) - 16)
  hi := 0
  lo := 0
  pc := 0
  nextPC := 4
  prevPC := 0
  loadReg := 0
  loadValue := 0
  badVAddr := 0

/-- `incrementPC`. -/
def incrementPC (r : Registers) : Registers :=
  { r with prevPC := r.pc, pc := r.pc + 4, nextPC := r.pc + 8 }

/-- `doExec`. -/
def doExec (k : Surroundings) (filename : List Byte) (p : Process) :
    Except Fault (Word × Process) :=
  match k.openFile filename with
  | none => .ok (-1, p)
  | some executable =>
    match p.space with
    | none => .ok (-1, p)
    | some old => do
      let p ← old.delete k p
      match ← (Constructor.withPCB old.pcb).run executable
        ⟨p.mm, p.machine.mainMemory, k.stack, k.beyondNew⟩ with
      | none => .ok (-1, { p with space := none })
      | some image => .ok (BitVec.ofNat 32 old.pcb,
          ⟨⟨initRegisters image.numPages, image.mainMemory, some image.pageTable⟩,
            some ⟨image.pcb, image.pageTable⟩, image.mm⟩)

/-- The name that `readString` fetches for the system call. -/
def fileName (k : Surroundings) (space : AddrSpace) (p : Process) : List Byte :=
  (readString p.machine.mainMemory (AddrSpace.translate space.pageTable k.beyond)
    (p.machine.registers.gpr 4)).1.takeWhile (· ≠ 0)

/-- The branch of `ExceptionHandler` for Exec, up to the call of `machine->Run`. -/
def execSyscall (k : Surroundings) (p : Process) : Except Fault Process :=
  match p.space with
  | none => .error .memory
  | some space => do
    let ret ← doExec k (fileName k space p) p
    .ok { ret.2 with machine := ret.2.machine.withRegs (incrementPC ret.2.machine.registers) }

/-! ### A failing Exec -/

/-- The Exec of a process fails: its file cannot be opened, is not a NOFF file, or needs more pages
than are free when the caller has given back its own. -/
inductive Fails (k : Surroundings) (p : Process) (space : AddrSpace) : Prop
  | notFound (h : k.openFile (fileName k space p) = none)
  | notNoff (executable : OpenFile) (h : k.openFile (fileName k space p) = some executable)
      (hmagic : (readHeader executable k.stack).noffMagic ≠ NOFFMAGIC)
  | tooBig (executable : OpenFile) (h : k.openFile (fileName k space p) = some executable)
      (hpages : ∀ p', space.delete k p = .ok p' →
        p'.mm.getFreePageCount < (readHeader executable k.stack).numPages)

/-- **The caller is left intact**: it goes on with `r2 = -1`, and with the rest of its registers, its
address space, its memory and the number of free frames as they were. -/
structure Intact (p p' : Process) : Prop where
  result : p'.machine.registers.gpr 2 = -1
  gpr : ∀ n, n ≠ 2 → p'.machine.registers.gpr n = p.machine.registers.gpr n
  hi : p'.machine.registers.hi = p.machine.registers.hi
  lo : p'.machine.registers.lo = p.machine.registers.lo
  space : p'.space = p.space
  pageTable : p'.machine.pageTable = p.machine.pageTable
  memory : ∀ space, p.space = some space → ∀ e ∈ space.pageTable, ∀ i, i / pageSize = e.frame →
    p'.machine.mainMemory i = p.machine.mainMemory i
  free : p'.mm.getFreePageCount = p.mm.getFreePageCount

section Fails

variable {k : Surroundings} {p p' : Process} {space : AddrSpace}

/-- Deleting an address space leaves the registers. -/
lemma registers_delete (h : space.delete k p = .ok p') :
    p'.machine.registers = p.machine.registers := by
  unfold AddrSpace.delete at h
  obtain ⟨mm, -, h⟩ := bind_eq_ok h
  cases h
  rfl

/-- A constructor refuses what is not a NOFF file or too big. -/
lemma run_eq_none {executable : OpenFile} {env : Environment} {pcb : ℕ}
    (h : (readHeader executable env.stack).noffMagic ≠ NOFFMAGIC ∨
      env.mm.getFreePageCount < (readHeader executable env.stack).numPages) :
    (Constructor.withPCB pcb).run executable env = .ok none := by
  unfold Constructor.run construct
  by_cases hmagic : (readHeader executable env.stack).noffMagic ≠ NOFFMAGIC
  · simp [hmagic]
  · have hpages := h.resolve_left hmagic
    simp [hmagic, hpages]

/-- What a failing `doExec` leaves: everything when the file cannot be opened, and else the
registers, without an address space. -/
lemma doExec_of_fails (hspace : p.space = some space) (hf : Fails k p space) {ret : Word × Process}
    (h : doExec k (fileName k space p) p = .ok ret) : ret.1 = -1 ∧
      ret.2.machine.registers = p.machine.registers ∧ (ret.2 = p ∨ ret.2.space = none) := by
  have hopened : ∀ executable, k.openFile (fileName k space p) = some executable →
      ((readHeader executable k.stack).noffMagic ≠ NOFFMAGIC ∨
        ∀ p', space.delete k p = .ok p' →
          p'.mm.getFreePageCount < (readHeader executable k.stack).numPages) →
      ret.1 = -1 ∧ ret.2.machine.registers = p.machine.registers ∧
        (ret.2 = p ∨ ret.2.space = none) := by
    intro executable hopen hbad
    unfold doExec at h
    rw [hopen, hspace] at h
    obtain ⟨p₁, hdel, h⟩ := bind_eq_ok h
    have hnone : (Constructor.withPCB space.pcb).run executable
        ⟨p₁.mm, p₁.machine.mainMemory, k.stack, k.beyondNew⟩ = .ok none :=
      run_eq_none (hbad.imp id fun hpages => hpages p₁ hdel)
    obtain ⟨result, hrun, h⟩ := bind_eq_ok h
    obtain rfl : none = result := Except.ok.inj (hnone.symm.trans hrun)
    have hregs := registers_delete hdel
    cases h
    exact ⟨rfl, hregs, .inr rfl⟩
  cases hf with
  | notFound hopen =>
    unfold doExec at h
    rw [hopen] at h
    cases h
    exact ⟨rfl, rfl, .inl rfl⟩
  | notNoff executable hopen hmagic => exact hopened executable hopen (.inl hmagic)
  | tooBig executable hopen hpages => exact hopened executable hopen (.inr hpages)

/-- **The handler drops the result**: after a failing Exec the registers are those of the caller,
with the program counter past the system call. -/
theorem registers_execSyscall_of_fails (hspace : p.space = some space) (hf : Fails k p space)
    (h : execSyscall k p = .ok p') :
    p'.machine.registers = incrementPC p.machine.registers := by
  unfold execSyscall at h
  rw [hspace] at h
  obtain ⟨ret, hret, h⟩ := bind_eq_ok h
  obtain ⟨-, hregs, -⟩ := doExec_of_fails hspace hf hret
  cases h
  exact congrArg incrementPC hregs

/-- **No failing Exec leaves its caller intact.** -/
theorem not_intact_of_fails (hspace : p.space = some space)
    (hsyscall : p.machine.registers.gpr 2 = SC_Exec) (hf : Fails k p space) :
    ¬ ∃ p', execSyscall k p = .ok p' ∧ Intact p p' := by
  rintro ⟨p', h, hintact⟩
  have hregs := registers_execSyscall_of_fails hspace hf h
  have hr2 : p'.machine.registers.gpr 2 = SC_Exec := by
    rw [hregs]
    exact hsyscall
  have hne : (SC_Exec : Word) ≠ -1 := by decide
  exact hne (hr2.symm.trans hintact.result)

end Fails

/-! ### A file that does not exist -/

/-- No files, no other threads. -/
def bare : Surroundings where
  openFile _ := none
  stack _ := 0
  beyond _ := 0
  beyondNew _ := 0
  atAcquire := ⟨id, id⟩
  atRelease := ⟨id, id⟩
  switched := false

/-- A process with one page, in the system call. -/
def caller : Process where
  machine :=
    { twoPages (fun _ => 0) with
      registers := ⟨Function.update (fun _ => 0) 2 SC_Exec, 0, 0, 0, 4, 0, 0, 0, 0⟩ }
  space := some ⟨0, [⟨0, 5, true, false, false, false⟩, ⟨1, 3, true, false, false, false⟩]⟩
  mm := ⟨((BitMap.new numPhysPages).setBit 5).setBit 3, rfl⟩

theorem not_intact_of_fails_bare : ¬ ∃ p', execSyscall bare caller = .ok p' ∧ Intact caller p' :=
  not_intact_of_fails rfl rfl (.notFound rfl)

/-- The caller has `r2 = SC_Exec` when it goes on. -/
theorem not_intact_caller : ¬ ∃ p', execSyscall bare caller = .ok p' ∧ Intact caller p' := by
  rintro ⟨p', h, hintact⟩
  obtain rfl := Except.ok.inj h
  have hne : ¬ (SC_Exec : Word) = -1 := by decide
  exact hne hintact.result

end Nachos.Userprog
