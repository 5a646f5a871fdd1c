import Nachos.Lib.Run
import Nachos.Mips.Invisible
import Nachos.Process.Objects

/-!
# The kernel under user programs

The processor runs `currentThread`. What a thread has still to execute is a list of statements, the
next one first: a system call pushes the statements of its body, a routine those of its own. A
statement is a stretch of code in which no other thread can run; another one gets the processor in
`Yield`, in `Sleep`, and where `SetLevel` enables interrupts (`tick`) and the timer asks for a
`Yield`.

One register file serves all threads: `Scheduler::Run` saves it into the thread that leaves the
processor and loads it from the thread that comes back, each time only for a thread with an
address space. What the instructions of a user program do to the registers is the choice of the
environment, and so is what a file holds that is executed.
-/

namespace Nachos.Process

open Lib Threads Mips Userprog

/-- `mmLock`, and the lock of the `PCBManager`. -/
inductive LockName where
  | mmLock | pcbManagerLock
  deriving DecidableEq

/-- `class Lock`. -/
structure Lock where
  free : Bool
  activeThread : Option Tid
  queue : List Tid

/-- The header of an executable: whether the magic number is right, and how many pages the segments
and the stack need. -/
structure Executable where
  magic : Bool
  numPages : ℕ

/-- A stretch of code of a thread. -/
inductive Stmt where
  /-- `Machine::Run`, before an instruction. -/
  | user
  /-- `Lock::Acquire`, before a test of `free`. -/
  | acquire (l : LockName)
  | release (l : LockName)
  /-- `SetLevel`, enabling interrupts, or the `OneTick` after an instruction. -/
  | tick
  /-- `Thread::Yield`, with interrupts disabled. -/
  | yield
  /-- `Scheduler::Run`, after `SWITCH`. -/
  | resume
  /-- `ThreadRoot`: `InterruptEnable`. -/
  | threadRoot
  | childFunction
  /-- `doFork`: `AllocatePCB`, with the lock; `call` is the register file at the call. -/
  | allocatePCB (call : Registers)
  /-- `doFork`, from `SaveUserState` on. -/
  | saveParent (call : Registers) (p : PCBId)
  /-- The copy constructor of `AddrSpace`, with the lock. -/
  | copySpace (call : Registers) (p : PCBId)
  /-- `doFork`, from `new Thread` on. -/
  | startChild (call : Registers) (p : PCBId) (a : SpaceId)
  /-- `return pcb->pid`. -/
  | forkReturn (call : Registers) (p : PCBId)
  /-- `doExec`, after `delete currentThread->space`. -/
  | load (e : Executable) (p : PCBId)
  /-- `children->Mapcar(decspn)` of `p`, with the elements ahead. -/
  | mapcar (p : PCBId) (ahead : List PCBId)
  /-- `doExit`: `if (pcb->parent == NULL) DeallocatePCB(pcb)`. -/
  | exitDeallocate (p : PCBId)
  /-- `doExit`: `delete currentThread->space`. -/
  | exitSpace
  /-- `Thread::Finish`. -/
  | finish
  /-- `DeallocatePCB`, with the lock, up to `delete pcb`. -/
  | clearPid (p : PCBId)
  /-- `pcbs[pid] = NULL`. -/
  | forgetPid (pid : ℕ)
  /-- `PCB::~PCB`, up to `delete thread->space`. -/
  | destroyPCB (p : PCBId)
  /-- The rest of it. -/
  | unlinkPCB (p : PCBId)
  /-- `AddrSpace::~AddrSpace`, with the lock. -/
  | freeFrames (a : SpaceId)
  /-- The end of a `delete` of an address space. -/
  | freeSpace (a : SpaceId)
  /-- `doJoin`: the loop. -/
  | joinWait (p : PCBId)
  | joinReturn (status : Word)
  /-- `doKill`, after `DeleteExitedChildrenSetParentNull`. -/
  | killReturn (p : PCBId)
  | incrementPC
  /-- `ASSERT(FALSE)`. -/
  | assertFalse
  /-- The result of a system call. -/
  | ret (value : Word)

/-- The state of the kernel. -/
structure State extends Objects where
  lock : LockName → Lock
  threadToBeDestroyed : Option Tid
  /-- `machine->registers`. -/
  registers : Registers
  code : Tid → List Stmt

/-- What a step shows. -/
inductive Event where
  /-- `doFork` has made the thread of a child; the register file at the call. -/
  | forked (child : Tid) (call : Registers)
  /-- The thread enters `Machine::Run` for the first time. -/
  | begins (t : Tid) (r : Registers)
  /-- A `Fork` returns the pid of a child; the register file at the call, and now. -/
  | resumes (t : Tid) (call : Registers) (pid : ℕ) (r : Registers)
  /-- A `Kill` of another process returns 0. -/
  | killed (t : Tid) (p : PCBId)
  /-- An address space gives its frames back. -/
  | destroys (t : Tid) (a : SpaceId)

/-- What the environment chooses. -/
inductive Choice where
  /-- Nothing, where nothing is to choose; in a tick, no interrupt is due. -/
  | go
  /-- In a tick, an interrupt is due. -/
  | interrupt
  /-- In a tick, the timer asks for a `Yield` on return from the interrupt. -/
  | timeSlice
  /-- The user program executes an instruction. -/
  | instruction (r : Registers)
  /-- The user program executes a `SYSCALL`; what the file holds that is named in an `Exec`. -/
  | syscall (e : Option Executable)

/-! ### Calls as statements -/

/-- A body between `Acquire` and what follows it. -/
def acquireLock (l : LockName) : List Stmt := [.acquire l, .tick]

def releaseLock (l : LockName) : List Stmt := [.release l, .tick]

/-- `PCBManager::DeallocatePCB`. The check of the pid passes for every pid of the table. -/
def deallocatePCB (p : PCBId) : List Stmt := acquireLock .pcbManagerLock ++ [.clearPid p]

/-- `delete space`. -/
def deleteSpace (a : SpaceId) : List Stmt :=
  acquireLock .mmLock ++ .freeFrames a :: releaseLock .mmLock ++ [.freeSpace a]

/-- `currentThread->Yield()`. -/
def threadYield : List Stmt := [.yield, .tick]

namespace State

variable (s : State)

/-- The running thread goes on at other statements. -/
def goto (k : List Stmt) : State := { s with code := Function.update s.code s.currentThread k }

/-- Other objects. -/
def withObjects (o : Objects) : State := { s with toObjects := o }

def setLock (l : LockName) (v : Lock) : State := { s with lock := Function.update s.lock l v }

/-! ### Threads -/

/-- `currentThread->SaveUserState()`. -/
def saveUserState : State :=
  s.withObjects (s.setThread s.currentThread fun t => { t with userRegisters := s.registers })

/-- `currentThread->RestoreUserState()`. -/
def restoreUserState : State :=
  { s with registers := (s.thread.get s.currentThread).userRegisters }

/-- `Scheduler::ReadyToRun`. -/
def readyToRun (t : Tid) : State := s.withObjects { s.toObjects with readyList := s.readyList ++ [t] }

/-- `Scheduler::Run`, up to `SWITCH`. -/
def run (next : Tid) : State :=
  let s := if s.currentSpace = none then s else s.saveUserState
  s.withObjects { s.toObjects with currentThread := next }

/-- `FindNextToRun` has returned the head of the ready list. -/
def setReadyList (ts : List Tid) : State := s.withObjects { s.toObjects with readyList := ts }

/-- `Thread::Sleep`. With no thread ready and no interrupt pending, `Idle` halts the machine. -/
def sleep : Except Fault State :=
  match s.readyList with
  | [] => .error .halt
  | next :: rest => .ok ((s.setReadyList rest).run next)

/-- The end of `Scheduler::Run`. -/
def afterSwitch : Except Fault State :=
  let restore (s : State) := if s.currentSpace = none then s else s.restoreUserState
  match s.threadToBeDestroyed with
  | none => .ok (restore s)
  | some t =>
    if t = s.currentThread then .error .assertion
    else
      .ok (restore { s.withObjects { s.toObjects with thread := s.thread.delete t } with
        threadToBeDestroyed := none })

/-- `Lock::Release`, between the two calls of `SetLevel`. -/
def releaseOf (l : LockName) : State :=
  if (s.lock l).activeThread = some s.currentThread then
    match (s.lock l).queue with
    | [] => s.setLock l ⟨true, none, []⟩
    | t :: queue => (s.setLock l ⟨true, none, queue⟩).readyToRun t
  else s

/-! ### Statements -/

/-- `Lock::Acquire`, at the test. -/
def execAcquire (l : LockName) (k : List Stmt) : Except Fault State :=
  let lk := s.lock l
  if lk.free then
    .ok ((s.setLock l { lk with free := false, activeThread := some s.currentThread }).goto k)
  else
    ((s.setLock l { lk with queue := lk.queue ++ [s.currentThread] }).goto
      (.resume :: .acquire l :: k)).sleep

/-- `Yield`, after `SetLevel(IntOff)`. -/
def execYield (k : List Stmt) : State :=
  match s.readyList with
  | [] => s.goto k
  | next :: rest =>
    (((s.setReadyList rest).readyToRun s.currentThread).goto (.resume :: k)).run next

/-- `OneTick`. The handlers run after `DelayedLoad(0, 0)`. -/
def execTick (c : Choice) (again k : List Stmt) : Except Fault State :=
  match c with
  | .go => .ok (s.goto k)
  | .interrupt => .ok ({ s with registers := s.registers.flush }.goto k)
  | .timeSlice => .ok ({ s with registers := s.registers.flush }.goto (again ++ k))
  | _ => .error .disabled

/-- `doFork`, the check for memory. -/
def doFork (k : List Stmt) : Except Fault State :=
  match s.currentSpace with
  | none => .error .memory
  | some a =>
    if (s.space.get a).numPages > s.mm.getFreePageCount then .ok (s.goto (.ret (-1) :: k))
    else .ok (s.goto (acquireLock .pcbManagerLock ++ .allocatePCB s.registers :: k))

/-- The copy constructor. A constructor that fails keeps the lock. -/
def execCopySpace (call : Registers) (p : PCBId) (k : List Stmt) : Except Fault State :=
  match s.currentSpace with
  | none => .error .memory
  | some a =>
    let n := (s.space.get a).numPages
    if n > s.mm.getFreePageCount then .ok (s.goto (.ret (-1) :: k))
    else
      let new := s.newSpace none n
      .ok ((s.withObjects new.2).goto (releaseLock .mmLock ++ .startChild call p new.1 :: k))

/-- `doFork`, from `new Thread` to `childThread->Fork`. -/
def execStartChild (call : Registers) (p : PCBId) (a : SpaceId) (k : List Stmt) :
    Except Fault (List Event × State) := do
  let some q ← s.currentPCB | throw .memory
  let new := s.linkChild p q a (childRegisters (call.gpr 4) s.registers)
  let s := (s.withObjects new.2).restoreUserState
  let s := { s with code := Function.update s.code new.1 [.threadRoot, .childFunction] }
  return ([.forked new.1 call], (s.readyToRun new.1).goto (.tick :: .forkReturn call p :: k))

/-- `doExec`, up to `delete currentThread->space`. -/
def doExec (e : Option Executable) (k : List Stmt) : Except Fault State :=
  match e with
  | none => .ok (s.goto k)
  | some e =>
    match s.currentSpace with
    | none => .ok (s.goto k)
    | some a =>
      match (s.space.get a).pcb with
      -- the pid is printed
      | none => .error .memory
      | some p => .ok (s.goto (deleteSpace a ++ .load e p :: k))

/-- `doExec`, from `currentThread->space = NULL` on. -/
def execLoad (e : Executable) (p : PCBId) (k : List Stmt) : State :=
  let s := s.withObjects (s.setThread s.currentThread fun t => { t with space := none })
  if !e.magic || e.numPages > s.mm.getFreePageCount then s.goto k
  else
    let new := s.newSpace (some p) e.numPages
    let s := s.withObjects new.2
    let s := s.withObjects (s.setThread s.currentThread fun t => { t with space := some new.1 })
    { s with registers := initRegisters e.numPages }.goto k

/-- `doExit`, up to the walk over the children. It does not return, unless the space is gone. -/
def doExit (status : Word) (k : List Stmt) : Except Fault State :=
  match s.currentSpace with
  | none => .error .memory
  | some a =>
    if (s.space.get a).pageTable = none then .ok (s.goto k)
    else
      match (s.space.get a).pcb with
      | none => .error .memory
      | some p =>
        let s := s.withObjects (s.setPCB p fun pcb => { pcb with exitStatus := status })
        let s := s.withObjects (s.removeThread (s.pcb.get p).thread)
        .ok (s.goto [.mapcar p (s.pcb.get p).children, .exitDeallocate p, .exitSpace, .finish])

/-- `decspn`, for the next element that is still on the list. -/
def execMapcar (p : PCBId) (ahead : List PCBId) (k : List Stmt) : State :=
  match ahead with
  | [] => s.goto k
  | c :: ahead =>
    if c ∈ (s.pcb.get p).children then
      if (s.pcb.get c).hasExited then s.goto (deallocatePCB c ++ .mapcar p ahead :: k)
      else
        (s.withObjects (s.setPCB c fun pcb => { pcb with parent := none })).goto
          (.mapcar p ahead :: k)
    else s.goto (.mapcar p ahead :: k)

/-- `PCB::~PCB`, up to `delete thread->space`. -/
def destroyPCB (p : PCBId) : List Stmt :=
  match s.spaceToDelete p with
  | none => [.unlinkPCB p]
  | some a => deleteSpace a ++ [.unlinkPCB p]

/-- `DeallocatePCB`, with the lock, up to `delete thread->space`. -/
def execClearPid (p : PCBId) (k : List Stmt) : Except Fault State :=
  let pid := (s.pcb.get p).pid
  if s.pcb.live p then do
    let bitmap ← s.bitmap.clear pid
    let s := s.withObjects { s.toObjects with bitmap := bitmap }
    .ok (s.goto (s.destroyPCB p ++ .forgetPid pid :: releaseLock .pcbManagerLock ++ k))
  else .error .memory

/-- `doJoin`, up to the loop. -/
def doJoin (pid : Word) (k : List Stmt) : Except Fault State := do
  let joinPCB ← s.getPCB pid
  let pcb ← s.currentPCB
  match pcb, joinPCB with
  | some p, some j =>
    if (s.pcb.get j).parent = some p then .ok (s.goto (.joinWait j :: k))
    else .ok (s.goto (.ret (-1) :: k))
  | _, _ => .ok (s.goto (.ret (-1) :: k))

/-- `doKill`, up to the walk over the children. -/
def doKill (pid : Word) (k : List Stmt) : Except Fault State := do
  match ← s.getPCB pid with
  | none => .ok (s.goto (.ret (-1) :: k))
  | some p =>
    let self ← s.currentPCB
    if self = some p then s.doExit 0 (.assertFalse :: k)
    else
      let s := s.withObjects (s.detach p)
      .ok (s.goto (.mapcar p (s.pcb.get p).children :: .killReturn p :: k))

/-- `doYield`; the pid is printed. -/
def doYield (k : List Stmt) : Except Fault State :=
  if s.currentSpace = none then .error .memory else .ok (s.goto (threadYield ++ .incrementPC :: k))

/-- `ExceptionHandler`. The nested `Run` after an `Exec` does not return. -/
def exceptionHandler (e : Option Executable) (k : List Stmt) : Except Fault State :=
  let arg := s.registers.gpr 4
  match (s.registers.gpr 2).toNat with
  | 0 => .error .halt
  | 1 => s.doExit arg k
  | 2 => s.doExec e [.incrementPC, .user]
  | 3 => s.doJoin arg k
  | 4 => .ok (s.goto (.incrementPC :: k))
  | 9 => s.doFork k
  | 10 => s.doYield k
  | 11 => s.doKill arg k
  | _ => .error .assertion

/-- `Machine::Run`: an instruction, and the `OneTick` after it. -/
def execUser (c : Choice) (k : List Stmt) : Except Fault State :=
  match c with
  | .instruction r => .ok ({ s with registers := r }.goto (.tick :: .user :: k))
  | .syscall e => { s with registers := raised s.registers }.exceptionHandler e (.tick :: .user :: k)
  | _ => .error .disabled

/-- `doJoin`, the test of the loop. -/
def execJoinWait (j : PCBId) (k : List Stmt) : State :=
  if (s.pcb.get j).hasExited then
    s.goto (.destroyPCB j :: .joinReturn (s.pcb.get j).exitStatus :: k)
  else s.goto (threadYield ++ .joinWait j :: k)

/-- One statement of the running thread. -/
def exec (c : Choice) (stmt : Stmt) (k : List Stmt) : Except Fault (List Event × State) :=
  let quiet (r : Except Fault State) := r.map fun s => ([], s)
  match stmt with
  | .user => quiet (s.execUser c k)
  | .acquire l => quiet (s.execAcquire l k)
  | .release l => quiet (.ok ((s.releaseOf l).goto k))
  | .tick => quiet (s.execTick c threadYield k)
  | .yield => quiet (.ok (s.execYield k))
  | .resume => quiet (s.afterSwitch.map (·.goto k))
  | .threadRoot => quiet (s.execTick c threadYield k)
  | .childFunction =>
    if s.currentSpace = none then .error .memory
    else
      let s := s.restoreUserState
      .ok ([.begins s.currentThread s.registers], s.goto [.user])
  | .allocatePCB call => do
    let new ← s.allocatePCB
    .ok ([], (s.withObjects new.2).goto
      (releaseLock .pcbManagerLock ++ .saveParent call new.1 :: k))
  | .saveParent call p =>
    quiet (.ok (s.saveUserState.goto (acquireLock .mmLock ++ .copySpace call p :: k)))
  | .copySpace call p => quiet (s.execCopySpace call p k)
  | .startChild call p a => s.execStartChild call p a k
  | .forkReturn call p =>
    let pid := (s.pcb.get p).pid
    let r := returned s.registers (BitVec.ofNat 32 pid)
    .ok ([.resumes s.currentThread call pid r], { s with registers := r }.goto k)
  | .load e p => quiet (.ok (s.execLoad e p k))
  | .mapcar p ahead => quiet (.ok (s.execMapcar p ahead k))
  | .exitDeallocate p =>
    quiet (.ok (s.goto (if (s.pcb.get p).parent = none then deallocatePCB p ++ k else k)))
  | .exitSpace =>
    match s.currentSpace with
    | none => quiet (.ok (s.goto k))
    | some a => quiet (.ok (s.goto (deleteSpace a ++ k)))
  | .finish =>
    quiet ({ s with threadToBeDestroyed := some s.currentThread }.goto []).sleep
  | .clearPid p => quiet (s.execClearPid p k)
  | .forgetPid pid =>
    quiet (.ok ((s.withObjects { s.toObjects with pcbs := Function.update s.pcbs pid none }).goto k))
  | .destroyPCB p =>
    if s.pcb.live p then quiet (.ok (s.goto (s.destroyPCB p ++ k))) else .error .memory
  | .unlinkPCB p => do
    let o ← (s.unlink p).freePCB p
    .ok ([], (s.withObjects o).goto k)
  | .freeFrames a => do
    let o ← s.freeFrames a
    .ok ([.destroys s.currentThread a], (s.withObjects o).goto k)
  | .freeSpace a => do
    let o ← s.freeSpace a
    .ok ([], (s.withObjects o).goto k)
  | .joinWait j => quiet (.ok (s.execJoinWait j k))
  | .joinReturn status =>
    match s.currentSpace with
    | none => .error .memory
    | some _ => quiet (.ok (s.goto (.ret status :: k)))
  | .killReturn p =>
    -- `pcb->thread->setStatus(BLOCKED)`
    if (s.pcb.get p).thread = none ∨ s.currentSpace = none then .error .memory
    else .ok ([.killed s.currentThread p], s.goto (.ret 0 :: k))
  | .incrementPC => quiet (.ok ({ s with registers := Userprog.incrementPC s.registers }.goto k))
  | .assertFalse => .error .assertion
  | .ret value => quiet (.ok ({ s with registers := returned s.registers value }.goto k))

end State

/-- One step of the machine. -/
def step (c : Choice) (s : State) : Except Fault (List Event × State) :=
  match s.code s.currentThread with
  | [] => .error .disabled
  | stmt :: k => s.exec c stmt k

/-- The steps of the machine. -/
abbrev Step : State → List Event → State → Prop := StepOf step

/-! ### The first process -/

/-- `MAX_PROCESSES`. -/
def maxProcesses : ℕ := 1024

/-- After `Initialize`: the main thread, and no process. -/
def boot : Objects where
  pcb := .empty (.new 0)
  space := .empty ⟨none, none, 0⟩
  thread := (Heap.empty ⟨none, initRegisters 0⟩).new ⟨none, initRegisters 0⟩
  pcbs _ := none
  bitmap := .new maxProcesses
  mm := .new
  readyList := []
  currentThread := 0

/-- `StartProcess`, up to `machine->Run()`. A space that is not valid has no page table. -/
def startProcess (e : Executable) : Except Fault State := do
  if !e.magic || e.numPages > boot.mm.getFreePageCount then throw .memory
  let pcb ← boot.allocatePCB
  let o := pcb.2.setPCB pcb.1 fun p => { p with thread := some boot.currentThread }
  let space := o.newSpace (some pcb.1) e.numPages
  return {
    toObjects := space.2.setThread boot.currentThread fun t => { t with space := some space.1 }
    lock _ := ⟨true, none, []⟩
    threadToBeDestroyed := none
    registers := initRegisters e.numPages
    code := Function.update (fun _ => []) boot.currentThread [.user] }

end Nachos.Process
