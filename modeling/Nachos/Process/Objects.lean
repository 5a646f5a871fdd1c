import Nachos.Lib.Heap
import Nachos.Userprog.Exec

/-!
# The objects of the process kernel

`PCB` with `PCBManager`, `AddrSpace` and `Thread`, as far as the system calls use them, and the
functions on them that run without a context switch. A pointer is an address in a heap. Memory that
has been deleted keeps what it held; an object that is deleted twice ends the run.
-/

namespace Nachos.Process

open Lib Threads Mips Userprog

/-- A `PCB *`. -/
abbrev PCBId := ℕ

/-- An `AddrSpace *`. -/
abbrev SpaceId := ℕ

/-- `class PCB`. -/
structure PCB where
  pid : ℕ
  parent : Option PCBId
  thread : Option Tid
  exitStatus : Word
  children : List PCBId

namespace PCB

/-- The `exitStatus` of a process that has not exited. -/
def notExited : Word := -9999

/-- `PCB::PCB`. -/
def new (pid : ℕ) : PCB := ⟨pid, none, none, notExited, []⟩

/-- `PCB::HasExited`. -/
def hasExited (p : PCB) : Bool := p.exitStatus != notExited

end PCB

/-- `class AddrSpace`: of a page table, the physical pages. `none` is `NULL`. -/
structure AddrSpace where
  pcb : Option PCBId
  pageTable : Option (List ℤ)
  numPages : ℕ

/-- `class Thread`, as the user programs see it. -/
structure Thread where
  space : Option SpaceId
  userRegisters : Registers

/-- The objects, with `pcbs` and `bitmap` of the `PCBManager`, the `MemoryManager`, the ready list
and the running thread. -/
structure Objects where
  pcb : Heap PCB
  space : Heap AddrSpace
  thread : Heap Thread
  pcbs : ℕ → Option PCBId
  bitmap : BitMap
  mm : MemoryManager
  readyList : List Tid
  currentThread : Tid

/-! ### Frames -/

/-- `n` calls of `AllocatePage`. -/
def allocatePages : ℕ → MemoryManager → List ℤ × MemoryManager
  | 0, mm => ([], mm)
  | n + 1, mm =>
    let rest := allocatePages n mm.allocatePage.2
    (mm.allocatePage.1 :: rest.1, rest.2)

/-- The loop of `~AddrSpace`. -/
def deallocatePages : List ℤ → MemoryManager → Except Fault MemoryManager
  | [], mm => .ok mm
  | page :: pages, mm => do
    let freed ← mm.deallocatePage page
    if freed.1 = 0 then deallocatePages pages freed.2 else .error .assertion

namespace Objects

variable (s : Objects)

/-! ### Assignments -/

def setPCB (p : PCBId) (f : PCB → PCB) : Objects := { s with pcb := s.pcb.modify p f }

def setSpace (a : SpaceId) (f : AddrSpace → AddrSpace) : Objects :=
  { s with space := s.space.modify a f }

def setThread (t : Tid) (f : Thread → Thread) : Objects := { s with thread := s.thread.modify t f }

/-- `currentThread->space`. -/
def currentSpace : Option SpaceId := (s.thread.get s.currentThread).space

/-- `currentThread->space->pcb`; `NULL` cannot be followed. -/
def currentPCB : Except Fault (Option PCBId) :=
  match s.currentSpace with
  | none => .error .memory
  | some a => .ok (s.space.get a).pcb

/-- `Scheduler::RemoveThread`. -/
def removeThread : Option Tid → Objects
  | none => s
  | some t => { s with readyList := s.readyList.erase t }

/-! ### The process table -/

/-- `PCBManager::AllocatePCB`, between the two calls on the lock. -/
def allocatePCB : Except Fault (PCBId × Objects) :=
  if s.bitmap.find.1 = -1 then .error .assertion
  else
    let pid := s.bitmap.find.1.toNat
    .ok (s.pcb.next, { s with
      pcb := s.pcb.new (.new pid)
      pcbs := Function.update s.pcbs pid (some s.pcb.next)
      bitmap := s.bitmap.find.2 })

/-- `PCBManager::GetPCB`: an index outside the array reads other memory. -/
def getPCB (pid : Word) : Except Fault (Option PCBId) :=
  if 0 ≤ pid.toInt ∧ pid.toInt < s.bitmap.numBits then .ok (s.pcbs pid.toInt.toNat)
  else .error .memory

/-- `delete pcb`, after the destructor. -/
def freePCB (p : PCBId) : Except Fault Objects :=
  if s.pcb.live p then .ok { s with pcb := s.pcb.delete p } else .error .memory

/-- In `PCB::~PCB`, the thread whose space is deleted or unlinked, if any. -/
def othersThread (p : PCBId) : Option Tid :=
  match (s.pcb.get p).thread with
  | none => none
  | some t => if t = s.currentThread then none else some t

/-- The space that `PCB::~PCB` deletes. -/
def spaceToDelete (p : PCBId) : Option SpaceId :=
  match s.othersThread p with
  | none => none
  | some t =>
    match (s.thread.get t).space with
    | none => none
    | some a => if (s.space.get a).pageTable = none then none else some a

/-- The end of `PCB::~PCB`, after `delete thread->space`. -/
def unlink (p : PCBId) : Objects :=
  match s.othersThread p with
  | none => s
  | some t =>
    ((s.setThread t fun th => { th with space := none }).removeThread (some t)).setPCB p
      fun pcb => { pcb with thread := none }

/-! ### Address spaces -/

/-- The body of `AddrSpace::~AddrSpace` between the two calls on the lock. -/
def freeFrames (a : SpaceId) : Except Fault Objects :=
  match (s.space.get a).pageTable with
  | none => .error .assertion
  | some pages => do
    let mm ← deallocatePages pages s.mm
    .ok ({ s with mm := mm }.setSpace a fun sp => { sp with pageTable := none })

/-- `delete space`, after the destructor. -/
def freeSpace (a : SpaceId) : Except Fault Objects :=
  if s.space.live a then .ok { s with space := s.space.delete a } else .error .memory

/-- A constructor of `AddrSpace`, once the check for free pages has passed. -/
def newSpace (pcb : Option PCBId) (n : ℕ) : SpaceId × Objects :=
  let pages := allocatePages n s.mm
  (s.space.next, { s with space := s.space.new ⟨pcb, some pages.1, n⟩, mm := pages.2 })

/-! ### Parents and children -/

/-- `doFork`, from `new Thread` to `AddChild`, with the registers that are saved into the child. -/
def linkChild (p q : PCBId) (a : SpaceId) (userRegisters : Registers) : Tid × Objects :=
  let child := s.thread.next
  let s := { s with thread := s.thread.new ⟨some a, userRegisters⟩ }
  let s := s.setSpace a fun sp => { sp with pcb := some p }
  let s := s.setPCB p fun pcb => { pcb with thread := some child, parent := some q }
  (child, s.setPCB q fun pcb => { pcb with children := pcb.children ++ [p] })

/-- The start of `doKill`, for another process: it loses its place on the ready list and among the
children of its parent. -/
def detach (p : PCBId) : Objects :=
  let s := s.removeThread (s.pcb.get p).thread
  match (s.pcb.get p).parent with
  | none => s
  | some q => s.setPCB q fun pcb => { pcb with children := pcb.children.erase p }

end Objects

/-! ### Registers -/

/-- `Machine::RaiseException(SyscallException, 0)`. -/
def raised (r : Registers) : Registers := { r with badVAddr := 0 }.delayedLoad 0 0

/-- `doFork`: the registers that are saved into the child. -/
def childRegisters (functionAddr : Word) (r : Registers) : Registers :=
  { r with pc := functionAddr, prevPC := functionAddr - 4, nextPC := functionAddr + 4 }

/-- The handler writes the result of a system call and increments the PC. -/
def returned (r : Registers) (ret : Word) : Registers := incrementPC (r.write 2 ret)

end Nachos.Process
