import Nachos.Lib.Run
import Mathlib.Data.Int.Notation
import Mathlib.Logic.Function.Basic

/-!
# The thread kernel

`Thread`, `Scheduler`, `Semaphore`, `Lock` and `Condition`, with the part of `Interrupt` that lets
a thread lose the processor. The machine has one processor: only `currentThread` runs, and another
thread gets the processor in `Sleep`, in `Yield`, or in `OneTick`, which `SetLevel` calls when it
enables interrupts and which yields when the timer asked for it.

Where a thread is in its code is its `Loc`: at a label of the client's code, or inside a routine
of the kernel. A routine called from another routine gets a continuation, a `Kont`. One step of
the machine is one stretch of code of the running thread that touches the shared data once.

The client (a test program, a device driver, a system call) is a function from a label and a
result to the next call; it keeps its own shared data. When the timer goes off, which device
interrupts, and where `new Thread` puts its object is the choice of the environment.
-/

namespace Nachos.Threads

/-- A `Thread *`. -/
abbrev Tid := ℕ

/-- `enum IntStatus`. -/
inductive IntStatus where
  | intOff | intOn
  deriving DecidableEq

/-- `enum ThreadStatus`. -/
inductive ThreadStatus where
  | justCreated | running | ready | blocked
  deriving DecidableEq

/-- A `Lock *`: a lock of the client, or the `queueLock` of a condition. -/
inductive LockId where
  | lock (n : ℕ)
  | queueLock (cond : ℕ)
  deriving DecidableEq

/-- The `queue` of a lock, a condition or a semaphore. -/
inductive QueueId where
  | lock (l : LockId)
  | cond (c : ℕ)
  | sem (i : ℕ)
  deriving DecidableEq

/-- `class Lock`, without its queue. -/
structure Lock where
  free : Bool
  activeThread : Option Tid
  deriving DecidableEq

/-- What a routine hands back to its caller: which routine it was, and its value. -/
inductive Ret where
  | unit
  | acquired (l : LockId)
  | waited (c l : ℕ)
  | thread (t : Option Tid)
  | count (n : ℕ)
  | level (l : IntStatus)
  deriving DecidableEq

/-- Where a routine returns to: to the client, or into `Condition::Wait`, `Signal` or `Broadcast`
after the call named. `old` is the caller's `oldLevel`. -/
inductive Kont (C : Type) where
  | client (c : C)
  /-- `Wait`, after `conditionLock->Release()`. -/
  | waitAcquire (cond l : ℕ) (old : IntStatus) (c : C)
  /-- `Wait`, after `queueLock->Acquire()`. -/
  | waitSleep (cond l : ℕ) (old : IntStatus) (c : C)
  /-- `Wait`, after `conditionLock->Acquire()`. -/
  | waitReturn (cond l : ℕ) (old : IntStatus) (c : C)
  /-- `Signal`, after `queueLock->Acquire()`. -/
  | signalDequeue (cond : ℕ) (c : C)
  /-- `Signal`, after `queueLock->Release()`. -/
  | signalReady (cond : ℕ) (thread : Option Tid) (c : C)
  /-- `Broadcast`, after `queueLock->Acquire()`, with `i`. -/
  | bcastDequeue (cond i : ℕ) (c : C)
  /-- `Broadcast`, after `queueLock->Release()`. -/
  | bcastReady (cond i : ℕ) (thread : Option Tid) (c : C)
  deriving DecidableEq

/-- Where a thread is. In a routine that disabled interrupts, `old` is its `oldLevel`. -/
inductive Loc (C : Type) where
  /-- No `Thread` object, or one that was never forked. -/
  | unborn
  /-- Forked; `ThreadRoot` has not run. -/
  | fresh (c : C)
  | run (k : Kont C) (r : Ret)
  /-- `Lock::Acquire`, before the test of `free`. -/
  | acquire (l : LockId) (old : IntStatus) (k : Kont C)
  /-- `Lock::Acquire`, in `Sleep`. -/
  | lockAsleep (l : LockId) (old : IntStatus) (k : Kont C)
  | release (l : LockId) (old : IntStatus) (k : Kont C)
  /-- `Semaphore::P`, before the test of `value`. -/
  | down (i : ℕ) (old : IntStatus) (c : C)
  /-- `Semaphore::P`, in `Sleep`. -/
  | semAsleep (i : ℕ) (old : IntStatus) (c : C)
  /-- `Semaphore::V`. -/
  | up (i : ℕ) (old : IntStatus) (c : C)
  | yield (old : IntStatus) (c : C)
  /-- `Condition::Wait`, in `Sleep`. -/
  | condAsleep (cond l : ℕ) (old : IntStatus) (c : C)
  /-- Before the `SetLevel(oldLevel)` that ends a routine. -/
  | ret (old : IntStatus) (k : Kont C) (r : Ret)
  /-- `Thread::Finish`, in `Sleep`. -/
  | finished
  deriving DecidableEq

/-- The calls of a client, with the label it goes on at. -/
inductive Call (C : Type) where
  | acquire (l : ℕ) (c : C)
  | release (l : ℕ) (c : C)
  | wait (cond l : ℕ) (c : C)
  | signal (cond l : ℕ) (c : C)
  | broadcast (cond l : ℕ) (c : C)
  | down (i : ℕ) (c : C)
  | up (i : ℕ) (c : C)
  | yield (c : C)
  | setLevel (now : IntStatus) (c : C)
  /-- `OneTick`, after a user instruction. -/
  | oneTick (c : C)
  /-- `new Thread` and `Fork`, with the first label of the new thread. -/
  | fork (first c : C)
  | finish
  /-- No call: the client goes on. -/
  | skip (c : C)

/-- Why the machine does not make a step. -/
inductive Fault where
  | assertion
  | halt
  /-- An access through `NULL`, or outside an array. -/
  | memory
  /-- The environment cannot choose this. -/
  | disabled
  deriving DecidableEq

/-- A client: its code, and the interrupt handlers of its devices, which may call `V`. -/
structure Client (C σ ι H : Type) where
  code : ι → Tid → C → Ret → σ → Except Fault (σ × Call C)
  handler : H → σ → Except Fault (σ × Option ℕ)

/-- Is the processor running `currentThread`, or is that thread in `Sleep`, looking for another
one or idling (`Interrupt::Idle`)? -/
inductive Mode where
  | running | asleep | idling
  deriving DecidableEq

/-- The state of the kernel and its client. -/
structure State (C σ : Type) where
  currentThread : Tid
  mode : Mode
  level : IntStatus
  readyList : List Tid
  threadToBeDestroyed : Option Tid
  status : Tid → ThreadStatus
  lock : LockId → Lock
  value : ℕ → ℤ
  queue : QueueId → List Tid
  loc : Tid → Loc C
  shared : σ

/-- What a step shows. -/
inductive Event (C : Type) where
  /-- The client's code ran at a label. -/
  | ran (t : Tid) (c : C)
  | acquired (t : Tid) (l : LockId)
  | released (t : Tid) (l : LockId)
  /-- A routine restored the interrupt level and returned. -/
  | returned (t : Tid) (r : Ret)
  | waiting (t : Tid) (cond l : ℕ)
  | signal (t : Tid) (cond l : ℕ)
  | broadcast (t : Tid) (cond l : ℕ)
  /-- `Signal` or `Broadcast` called `ReadyToRun`. -/
  | readied (t : Tid) (cond : ℕ) (thread : Tid)
  | signalled (t : Tid) (cond : ℕ) (thread : Option Tid)
  | broadcasted (t : Tid) (cond n : ℕ)
  deriving DecidableEq

/-- What the environment chooses. -/
inductive Choice (ι H : Type) where
  /-- The running thread goes on; `input` is for the client, and `new` is what `new Thread` gives
  if it is called. -/
  | run (input : ι) (new : Tid)
  /-- The timer has asked for a `Yield` on return from the interrupt. -/
  | preempt
  /-- A device interrupts. -/
  | interrupt (h : H)
  /-- `Sleep` runs the next thread. -/
  | dispatch

section

variable {C σ ι H : Type}

namespace State

variable (s : State C σ)

def setLoc (t : Tid) (l : Loc C) : State C σ := { s with loc := Function.update s.loc t l }

/-- `ChangeLevel`. -/
def setLevel (l : IntStatus) : State C σ := { s with level := l }

def setStatus (t : Tid) (st : ThreadStatus) : State C σ :=
  { s with status := Function.update s.status t st }

def setQueue (q : QueueId) (ts : List Tid) : State C σ :=
  { s with queue := Function.update s.queue q ts }

def setLock (l : LockId) (v : Lock) : State C σ := { s with lock := Function.update s.lock l v }

def setValue (i : ℕ) (v : ℤ) : State C σ := { s with value := Function.update s.value i v }

/-- `Scheduler::ReadyToRun`. -/
def readyToRun (t : Tid) : State C σ :=
  { s.setStatus t .ready with readyList := s.readyList ++ [t] }

/-- `queue->Remove()`, and `ReadyToRun` of the thread if there is one. -/
def wake (q : QueueId) : State C σ :=
  match s.queue q with
  | [] => s
  | t :: rest => (s.setQueue q rest).readyToRun t

/-- `queue->Append(currentThread)`. -/
def append (q : QueueId) : State C σ := s.setQueue q (s.queue q ++ [s.currentThread])

/-- `Thread::Sleep`, up to `FindNextToRun`. -/
def sleep : Except Fault (State C σ) :=
  if s.level = .intOff then .ok { s.setStatus s.currentThread .blocked with mode := .asleep }
  else .error .assertion

/-- The end of `Scheduler::Run`: `delete threadToBeDestroyed`. -/
def reap : Except Fault (State C σ) :=
  match s.threadToBeDestroyed with
  | none => .ok s
  | some d =>
    if d = s.currentThread then .error .assertion
    else .ok { s.setLoc d .unborn with threadToBeDestroyed := none }

/-- `Scheduler::Run`. A thread that runs for the first time comes out of `SWITCH` in `ThreadRoot`,
which enables interrupts and calls the thread's procedure. -/
def runThread (next : Tid) : Except Fault (State C σ) :=
  let s := { s.setStatus next .running with currentThread := next, mode := .running }
  match s.loc next with
  | .fresh c => .ok (s.setLoc next (.ret .intOn (.client c) .unit))
  | _ => s.reap

/-- `Yield`, when there is a thread to run: `ReadyToRun(this)` and `Run(nextThread)`. -/
def yieldTo (next : Tid) (rest : List Tid) : Except Fault (State C σ) :=
  ({ s with readyList := rest }.readyToRun s.currentThread).runThread next

/-- `Lock::isHeldByCurrentThread`. -/
def isHeldByCurrentThread (l : LockId) : Bool := (s.lock l).activeThread = some s.currentThread

/-- `Lock::Release`, between the two calls of `SetLevel`. -/
def releaseLock (l : LockId) : State C σ :=
  if s.isHeldByCurrentThread l then
    (s.setLock l ⟨true, none⟩).wake (.lock l)
  else s

/-- The running thread is in `OneTick`. -/
def inTick : Bool :=
  match s.mode, s.loc s.currentThread, s.level with
  | .running, .ret .intOn _ _, .intOff => true
  | _, _, _ => false

/-- A device can interrupt: in `OneTick`, or while there is no thread to run. -/
def interruptible : Bool := s.inTick || s.mode = .idling || (s.mode = .asleep && s.readyList = [])

end State

/-- A call of the client, up to the first test or effect of the routine called. -/
def enter (new : Tid) (s : State C σ) (call : Call C) :
    Except Fault (List (Event C) × State C σ) :=
  let t := s.currentThread
  let off := s.setLevel .intOff
  match call with
  | .acquire l c => .ok ([], off.setLoc t (.acquire (.lock l) s.level (.client c)))
  | .release l c => .ok ([], off.setLoc t (.release (.lock l) s.level (.client c)))
  | .wait cond l c =>
    if s.isHeldByCurrentThread (.lock l) then
      .ok ([.waiting t cond l],
        off.setLoc t (.release (.lock l) .intOff (.waitAcquire cond l s.level c)))
    else .error .assertion
  | .signal cond l c =>
    if s.isHeldByCurrentThread (.lock l) then
      .ok ([.signal t cond l],
        off.setLoc t (.acquire (.queueLock cond) s.level (.signalDequeue cond c)))
    else .error .assertion
  | .broadcast cond l c =>
    if s.isHeldByCurrentThread (.lock l) then
      .ok ([.broadcast t cond l],
        off.setLoc t (.acquire (.queueLock cond) s.level (.bcastDequeue cond 0 c)))
    else .error .assertion
  | .down i c => .ok ([], off.setLoc t (.down i s.level c))
  | .up i c => .ok ([], off.setLoc t (.up i s.level c))
  | .yield c => .ok ([], off.setLoc t (.yield s.level c))
  | .setLevel now c => .ok ([], s.setLoc t (.ret now (.client c) (.level s.level)))
  | .oneTick c => .ok ([], off.setLoc t (.ret .intOn (.client c) .unit))
  | .fork first c =>
    match s.loc new with
    | .unborn => .ok ([], ((off.setLoc new (.fresh first)).readyToRun new).setLoc t
        (.ret s.level (.client c) (.thread (some new))))
    | _ => .error .disabled
  | .finish => do
    let s ← { off with threadToBeDestroyed := some t }.sleep
    .ok ([], s.setLoc t .finished)
  | .skip c => .ok ([], s.setLoc t (.run (.client c) .unit))

/-- The test in `Lock::Acquire`. -/
def tryAcquire (s : State C σ) (l : LockId) (old : IntStatus) (k : Kont C) :
    Except Fault (List (Event C) × State C σ) :=
  let t := s.currentThread
  if (s.lock l).free then
    .ok ([.acquired t l], (s.setLock l ⟨false, some t⟩).setLoc t (.ret old k (.acquired l)))
  else do
    let s ← (s.append (.lock l)).sleep
    .ok ([], s.setLoc t (.lockAsleep l old k))

/-- The test in `Semaphore::P`. -/
def tryDown (s : State C σ) (i : ℕ) (old : IntStatus) (c : C) :
    Except Fault (List (Event C) × State C σ) :=
  let t := s.currentThread
  if s.value i = 0 then do
    let s ← (s.append (.sem i)).sleep
    .ok ([], s.setLoc t (.semAsleep i old c))
  else .ok ([], (s.setValue i (s.value i - 1)).setLoc t (.ret old (.client c) .unit))

/-- `V`, between the two calls of `SetLevel`. -/
def State.raise (s : State C σ) (i : ℕ) : State C σ := (s.wake (.sem i)).setValue i (s.value i + 1)

/-- `queue->Remove()` in `Signal` and `Broadcast`. -/
def State.dequeue (s : State C σ) (cond : ℕ) : Option Tid × State C σ :=
  match s.queue (.cond cond) with
  | [] => (none, s)
  | t :: rest => (some t, s.setQueue (.cond cond) rest)

/-- The code of `Condition` that a continuation names. -/
def resume (s : State C σ) (k : Kont C) : Except Fault (List (Event C) × State C σ) :=
  let t := s.currentThread
  match k with
  | .client _ => .error .disabled
  | .waitAcquire cond l old c =>
    .ok ([], (s.setLevel .intOff).setLoc t
      (.acquire (.queueLock cond) s.level (.waitSleep cond l old c)))
  | .waitSleep cond l old c => do
    let s ← ((s.append (.cond cond)).releaseLock (.queueLock cond)).sleep
    .ok ([.released t (.queueLock cond)], s.setLoc t (.condAsleep cond l old c))
  | .waitReturn cond l old c => .ok ([], s.setLoc t (.ret old (.client c) (.waited cond l)))
  | .signalDequeue cond c =>
    let p := s.dequeue cond
    .ok ([], (p.2.setLevel .intOff).setLoc t
      (.release (.queueLock cond) s.level (.signalReady cond p.1 c)))
  | .signalReady cond none c =>
    .ok ([.signalled t cond none], s.setLoc t (.run (.client c) (.thread none)))
  | .signalReady cond (some x) c =>
    .ok ([.readied t cond x, .signalled t cond (some x)],
      (s.readyToRun x).setLoc t (.run (.client c) (.thread (some x))))
  | .bcastDequeue cond i c =>
    let p := s.dequeue cond
    .ok ([], (p.2.setLevel .intOff).setLoc t
      (.release (.queueLock cond) s.level (.bcastReady cond i p.1 c)))
  | .bcastReady cond i none c =>
    .ok ([.broadcasted t cond i], s.setLoc t (.run (.client c) (.count i)))
  | .bcastReady cond i (some x) c =>
    .ok ([.readied t cond x], ((s.readyToRun x).setLevel .intOff).setLoc t
      (.acquire (.queueLock cond) s.level (.bcastDequeue cond (i + 1) c)))

/-- The running thread goes on. -/
def runStep (K : Client C σ ι H) (input : ι) (new : Tid) (s : State C σ) :
    Except Fault (List (Event C) × State C σ) :=
  let t := s.currentThread
  match s.loc t with
  | .run (.client c) r =>
    match K.code input t c r s.shared with
    | .error f => .error f
    | .ok (shared, call) =>
      match enter new { s with shared := shared } call with
      | .error f => .error f
      | .ok (es, s') => .ok (.ran t c :: es, s')
  | .run k _ => resume s k
  | .acquire l old k => tryAcquire s l old k
  | .lockAsleep l old k => tryAcquire s l old k
  | .release l old k => .ok ([.released t l], (s.releaseLock l).setLoc t (.ret old k .unit))
  | .down i old c => tryDown s i old c
  | .semAsleep i old c => tryDown s i old c
  | .up i old c => .ok ([], (s.raise i).setLoc t (.ret old (.client c) .unit))
  | .yield old c =>
    let s := s.setLoc t (.ret old (.client c) .unit)
    match s.readyList with
    | [] => .ok ([], s)
    | next :: rest => do
      let s ← s.yieldTo next rest
      .ok ([], s)
  | .condAsleep cond l old c =>
    .ok ([], (s.setLevel .intOff).setLoc t
      (.acquire (.lock l) s.level (.waitReturn cond l old c)))
  | .ret old k r => .ok ([.returned t r], (s.setLevel old).setLoc t (.run k r))
  | .unborn => .error .disabled
  | .fresh _ => .error .disabled
  | .finished => .error .disabled

/-- One step of the machine. -/
def step (K : Client C σ ι H) : Choice ι H → State C σ → Except Fault (List (Event C) × State C σ)
  | .run input new, s => if s.mode = .running then runStep K input new s else .error .disabled
  | .preempt, s =>
    match s.inTick, s.readyList with
    | true, next :: rest => do
      let s ← s.yieldTo next rest
      .ok ([], s)
    | _, _ => .error .disabled
  | .interrupt h, s =>
    if s.interruptible then
      match K.handler h s.shared with
      | .error f => .error f
      | .ok (shared, v) =>
        let s := { s with
          shared := shared
          mode := if s.mode = .running then .running else .idling }
        match v with
        | none => .ok ([], s)
        | some i => .ok ([], s.raise i)
    else .error .disabled
  | .dispatch, s =>
    match s.mode, s.readyList with
    | .running, _ => .error .disabled
    | _, [] => .error .disabled
    | _, next :: rest => do
      let s ← { s with readyList := rest }.runThread next
      .ok ([], s)

/-- The kernel after `Initialize`: the main thread runs the client's code at `first`, with
interrupts enabled; every lock is free. -/
def State.init (first : C) (value : ℕ → ℤ) (shared : σ) : State C σ where
  currentThread := 0
  mode := .running
  level := .intOn
  readyList := []
  threadToBeDestroyed := none
  status := Function.update (fun _ => .justCreated) 0 .running
  lock := fun _ => ⟨true, none⟩
  value := value
  queue := fun _ => []
  loc := Function.update (fun _ => .unborn) 0 (.run (.client first) .unit)
  shared := shared

end

end Nachos.Threads
