import Nachos.Elevator.Persons

/-!
# The elevator

`ELEVATOR`, its thread, the thread that looks whether the machine can halt, the threads of the
persons, and a main thread in which persons arrive. `elevatorLock` guards everything but
`personsWaiting` and the lists; the lists have `personLock`.

A thread's label says where it is between two calls of the kernel, with its local variables. The
messages that are printed are left out, and with them `pf` and `lastActive`.
-/

namespace Nachos.Elevator

open Threads

/-- `class ELEVATOR`, without its locks and conditions. -/
structure ELEVATOR where
  personsWaiting : ℕ → ℤ
  occupancy : ℤ
  numFloors : ℕ
  personsOn : Persons
  listEntering : ℕ → Persons
  listLeaving : ℕ → Persons
  currentFloor : ℕ

def maxOccupancy : ℤ := 5

/-! ### Locks, conditions, semaphores -/

def elevatorLock : ℕ := 0
def personLock : ℕ := 1
def personIDLock : ℕ := 2

/-- `entering[floor]`. -/
def entering (floor : ℕ) : ℕ := 2 * floor
/-- `leaving[floor]`. -/
def leaving (floor : ℕ) : ℕ := 2 * floor + 1

def haltSem : ℕ := 0

/-! ### Pure parts -/

namespace ELEVATOR

/-- An array that `new` has made an empty list. -/
def empty (pp : Persons) : Persons := Function.update pp 0 .null

/-- `ELEVATOR::ELEVATOR`. The constructor leaves `occupancy` and `personsWaiting` as the memory
was. -/
def new (numFloors : ℕ) (memory : ELEVATOR) : ELEVATOR where
  personsWaiting := memory.personsWaiting
  occupancy := memory.occupancy
  numFloors := numFloors
  personsOn := empty memory.personsOn
  listEntering := fun i =>
    if 1 ≤ i ∧ i < numFloors + 1 then empty (memory.listEntering i) else memory.listEntering i
  listLeaving := fun i =>
    if 1 ≤ i ∧ i < numFloors + 1 then empty (memory.listLeaving i) else memory.listLeaving i
  currentFloor := 1

variable (e : ELEVATOR)

def onElevator (target : Person) : Bool := memberFrom e.personsOn target tp 0

/-- The floor of the first person in a list whom `getFloor` looks for, or `-1`. -/
def getFloorIn (isAt : Bool) (pp : Persons) : Except Fault ℤ := do
  match ← find pp fun p => isAt || e.onElevator p with
  | none => .ok (-1)
  | some p => .ok (if isAt then p.atFloor else p.toFloor)

/-- One of the two floors at a distance, when there is such a floor. -/
def getFloorAt (pp : ℕ → Persons) (isAt : Bool) (floor : ℕ) (exists_floor : Bool) :
    Except Fault ℤ :=
  if exists_floor then e.getFloorIn isAt (pp floor) else .ok (-1)

/-- `ELEVATOR::getFloor`, with `n` iterations left from `delta`. -/
def getFloorFrom (pp : ℕ → Persons) (isAt : Bool) : ℕ → ℕ → Except Fault ℤ
  | 0, _ => .ok (-1)
  | n + 1, delta => do
    let above ← e.getFloorAt pp isAt (e.currentFloor + delta) (e.currentFloor + delta ≤ e.numFloors)
    if above ≠ -1 then .ok above
    else do
      let below ← e.getFloorAt pp isAt (e.currentFloor - delta)
        (delta ≠ 0 ∧ delta + 1 ≤ e.currentFloor)
      if below ≠ -1 then .ok below else getFloorFrom pp isAt n (delta + 1)

def getFloor (pp : ℕ → Persons) (isAt : Bool) : Except Fault ℤ :=
  e.getFloorFrom pp isAt e.numFloors 0

/-- A target of the elevator: the one it has, or a new one. -/
def target (floor : ℤ) (pp : ℕ → Persons) (isAt : Bool) : Except Fault ℤ :=
  if floor < 1 then e.getFloor pp isAt else .ok floor

/-- `active`, for the floors up to one. -/
def activeTo : ℕ → Except Fault ℤ
  | 0 => do
    let c ← personCount e.personsOn
    .ok c
  | floor + 1 => do
    let below ← activeTo floor
    let leaving ← personCount (e.listLeaving (floor + 1))
    let entering ← personCount (e.listEntering (floor + 1))
    .ok (below + e.personsWaiting (floor + 1) + leaving + entering)

/-- `active`. -/
def active : Except Fault ℤ := e.activeTo e.numFloors

/-- The floor in the middle. -/
def middle : ℕ := (e.numFloors + 1) / 2

/-- One floor towards another. -/
def toward (floor : ℤ) (currentFloor : ℕ) : ℕ :=
  if floor < currentFloor then currentFloor - 1
  else if floor > currentFloor then currentFloor + 1
  else currentFloor

/-- What the elevator does at its next floor. -/
inductive Stop where
  | board | alight | none
  deriving DecidableEq

/-- Where the elevator goes: `currentFloor` after the move, and what it does there. -/
def move (fromFloor toFloor : ℤ) : ℕ × Stop :=
  let floor := if fromFloor = -1 ∧ toFloor = -1 then toward e.middle e.currentFloor
    else e.currentFloor
  if 0 < fromFloor ∧ (toFloor = -1 ∨ (toFloor - floor).natAbs > (fromFloor - floor).natAbs) ∧
      e.occupancy < maxOccupancy then
    (toward fromFloor floor, if fromFloor = toward fromFloor floor then .board else .none)
  else if 0 < toFloor then
    (toward toFloor floor, if toFloor = toward toFloor floor then .alight else .none)
  else (floor, .none)

end ELEVATOR

/-! ### The threads -/

/-- The shared data: the global `e`, and the counters. -/
structure Shared where
  e : Option ELEVATOR
  totalIn : ℕ
  totalOut : ℕ
  nextPersonID : ℕ

/-- A `PersonThread`: its person, and the `oldLevel` of `PersonThread` and of `hailElevator`. -/
structure Rider where
  person : Person
  oldLevel : IntStatus
  hailLevel : IntStatus
  deriving DecidableEq

inductive Label where
  /-- The main thread, before `Elevator(numFloors)`. -/
  | main
  /-- Between two arrivals. -/
  | arrivals
  /-- `ArrivingGoingFromTo`, with interrupts disabled. -/
  | arriving (atFloor toFloor : ℕ)
  /-- `getNextPersonID`, with `personIDLock`. -/
  | numbering (oldLevel : IntStatus) (p : Person)
  | numbered (oldLevel : IntStatus) (p : Person)
  | forked (oldLevel : IntStatus)
  /-- `ElevatorThread`. -/
  | elevatorThread
  /-- `ELEVATOR::start`, at the top of its loop. -/
  | start (fromFloor toFloor : ℤ)
  /-- With `elevatorLock`. -/
  | awake (fromFloor toFloor : ℤ)
  | scan (fromFloor toFloor : ℤ)
  | spin (fromFloor toFloor : ℤ) (j : ℕ)
  | choose (fromFloor toFloor : ℤ)
  | board (toFloor : ℤ)
  /-- The loop that signals, with `o`, at a floor. -/
  | more (floor : ℕ) (o : ℤ) (toFloor : ℤ)
  | signalled (floor : ℕ) (o : ℤ) (toFloor : ℤ)
  /-- `removeFromPP`, with `personLock`. -/
  | unlist (p : Person) (floor : ℕ) (o : ℤ) (toFloor : ℤ)
  | alight (fromFloor : ℤ)
  | alighted (floor : ℕ) (fromFloor : ℤ)
  /-- The loop after `Broadcast`, with `i` and `j`. -/
  | clear (fromFloor : ℤ) (i j : ℕ)
  | unlistLeaving (p : Person) (fromFloor : ℤ) (i j : ℕ)
  | depart (fromFloor toFloor : ℤ)
  | rest (fromFloor toFloor : ℤ) (j : ℕ)
  /-- `haltTest`, at the top of its loop. -/
  | haltTest
  | haltCheck
  | haltSpin (oldLevel : IntStatus) (j : ℕ)
  | haltWatch (oldLevel : IntStatus) (j : ℕ)
  | haltReset (oldLevel : IntStatus)
  /-- `PersonThread`. -/
  | personThread (p : Person)
  /-- `hailElevator`. -/
  | hail (p : Person)
  | hailed (p : Person) (oldLevel : IntStatus)
  | enlist (ρ : Rider)
  | enlisted (ρ : Rider)
  /-- With `elevatorLock`, before `entering[atFloor]->Wait`. -/
  | waits (ρ : Rider)
  /-- After it. -/
  | boarded (ρ : Rider)
  | getOn (ρ : Rider)
  | gotOn (ρ : Rider)
  | press (ρ : Rider)
  | seated (ρ : Rider)
  /-- After `leaving[toFloor]->Wait`. -/
  | arrived (ρ : Rider)
  | getOff (ρ : Rider)
  | gotOff (ρ : Rider)
  | left (ρ : Rider)
  | home (oldLevel : IntStatus)
  | done
  deriving DecidableEq

/-- What the main thread does next. -/
inductive Input where
  | arrive (atFloor toFloor : ℕ)
  | pause
  | leave

/-- The number of floors, `elevatorDelay`, and what `new ELEVATOR` finds in the memory. -/
structure Config where
  numFloors : ℕ
  elevatorDelay : ℕ
  memory : ELEVATOR

/-- The `oldLevel` that `SetLevel` returned. -/
def levelOf : Ret → IntStatus
  | .level l => l
  | _ => .intOn

/-- The thread that `Signal` returned. -/
def threadOf : Ret → Option Tid
  | .thread t => t
  | _ => none

/-- What `Broadcast` returned. -/
def countOf : Ret → ℕ
  | .count n => n
  | _ => 0

section Code

variable (cfg : Config) (sh : Shared)

/-- Code that uses the global `e`. -/
def withE (f : ELEVATOR → Except Fault (ELEVATOR × Call Label)) :
    Except Fault (Shared × Call Label) :=
  match sh.e with
  | none => .error .memory
  | some e => do
    let (e, call) ← f e
    .ok ({ sh with e := some e }, call)

/-- `ElevatorTest`, with arrivals when the environment says so. -/
def mainCode (input : Input) (r : Ret) : Label → Except Fault (Shared × Call Label)
  | .main => .ok (sh, .fork .elevatorThread .arrivals)
  | .arrivals =>
    match input with
    | .arrive a b =>
      if (1 ≤ a ∧ a ≤ cfg.numFloors) ∧ 1 ≤ b ∧ b ≤ cfg.numFloors then
        .ok (sh, .setLevel .intOff (.arriving a b))
      else .error .disabled
    | .pause => .ok (sh, .yield .arrivals)
    | .leave => .ok (sh, .finish)
  | .arriving a b =>
    .ok (sh, .acquire personIDLock (.numbering (levelOf r) ⟨sh.nextPersonID, a, b⟩))
  | .numbering old p =>
    .ok ({ sh with nextPersonID := sh.nextPersonID + 1 }, .release personIDLock (.numbered old p))
  | .numbered old p =>
    .ok ({ sh with totalIn := sh.totalIn + 1 }, .fork (.personThread p) (.forked old))
  | .forked old => .ok (sh, .setLevel old .arrivals)
  | _ => .error .disabled

/-- `removeFromPPFirst`, up to `personLock->Acquire()`, and the `ASSERT(found)` of its caller. -/
def removeFromPPFirst (e : ELEVATOR) (pp : Persons) (next : Person → Label) :
    Except Fault (ELEVATOR × Call Label) := do
  match ← first pp with
  | none => .error .assertion
  | some p => .ok (e, .acquire personLock (next p))

/-- `ElevatorThread` and `ELEVATOR::start`. -/
def elevatorCode (r : Ret) : Label → Except Fault (Shared × Call Label)
  | .elevatorThread =>
    .ok ({ sh with e := some (.new cfg.numFloors cfg.memory) }, .fork .haltTest (.start (-1) (-1)))
  | .start frm dst => .ok (sh, .acquire elevatorLock (.awake frm dst))
  | .awake frm dst => .ok (sh, .up haltSem (.scan frm dst))
  | .scan frm dst => withE sh fun e => do
    let frm ← e.target frm e.listEntering true
    let dst ← e.target dst e.listLeaving false
    let totalActive ← e.active
    .ok (e, .skip (if 0 < totalActive then .spin frm dst 0 else .choose frm dst))
  | .spin frm dst j =>
    .ok (sh, if j < cfg.elevatorDelay then .yield (.spin frm dst (j + 1)) else .skip (.choose frm dst))
  | .choose frm dst => withE sh fun e =>
    .ok ({ e with currentFloor := (e.move frm dst).1 }, .skip (match (e.move frm dst).2 with
      | .board => .board dst
      | .alight => .alight frm
      | .none => .depart frm dst))
  | .board dst => withE sh fun e => .ok (e, .skip (.more e.currentFloor e.occupancy dst))
  | .more floor o dst =>
    .ok (sh, if o < maxOccupancy then
      .signal (entering floor) elevatorLock (.signalled floor o dst) else .skip (.depart (-1) dst))
  | .signalled floor o dst => withE sh fun e =>
    match threadOf r with
    | none => .ok (e, .skip (.depart (-1) dst))
    | some _ => removeFromPPFirst e (e.listEntering e.currentFloor) (.unlist · floor o dst)
  | .unlist p floor o dst => withE sh fun e => do
    let pp ← removeFromPP (e.listEntering e.currentFloor) p
    .ok ({ e with listEntering := Function.update e.listEntering e.currentFloor pp },
      .release personLock (.more floor (o + 1) dst))
  | .alight frm => withE sh fun e =>
    .ok (e, .broadcast (leaving e.currentFloor) elevatorLock (.alighted e.currentFloor frm))
  | .alighted _ frm => .ok (sh, .skip (.clear frm (countOf r) 0))
  | .clear frm i j => withE sh fun e =>
    if j < i then removeFromPPFirst e (e.listLeaving e.currentFloor) (.unlistLeaving · frm i j)
    else .ok (e, .skip (.depart frm (-1)))
  | .unlistLeaving p frm i j => withE sh fun e => do
    let pp ← removeFromPP (e.listLeaving e.currentFloor) p
    .ok ({ e with listLeaving := Function.update e.listLeaving e.currentFloor pp },
      .release personLock (.clear frm i (j + 1)))
  | .depart frm dst => .ok (sh, .release elevatorLock (.rest frm dst 0))
  | .rest frm dst j =>
    .ok (sh, if j < cfg.elevatorDelay then .yield (.rest frm dst (j + 1)) else .skip (.start frm dst))
  | _ => .error .disabled

/-- The first test of `haltTest`. -/
def isIdle (e : ELEVATOR) : Except Fault Bool :=
  if sh.totalIn = sh.totalOut then do
    let n ← e.active
    .ok (n = 0)
  else .ok false

/-- The test in the loop of `haltTest`. -/
def isBusy (e : ELEVATOR) : Except Fault Bool :=
  if e.currentFloor ≠ e.middle then .ok true
  else do
    let n ← e.active
    .ok (0 < n ∨ sh.totalIn ≠ sh.totalOut)

/-- `haltTest`. -/
def haltCode (r : Ret) : Label → Except Fault (Shared × Call Label)
  | .haltTest => .ok (sh, .setLevel .intOff .haltCheck)
  | .haltCheck => withE sh fun e => do
    let idle ← isIdle sh e
    .ok (e, if idle ∧ e.middle = e.currentFloor then .skip (.haltSpin (levelOf r) 0)
      else .down haltSem (.haltReset (levelOf r)))
  | .haltSpin old j => if j < 10000000 then .ok (sh, .yield (.haltWatch old j)) else .error .halt
  | .haltWatch old j => withE sh fun e => do
    let busy ← isBusy sh e
    .ok (e, if busy then .down haltSem (.haltReset old)
      else .skip (.haltSpin old (j + 1)))
  | .haltReset old => .ok (sh, .setLevel old .haltTest)
  | _ => .error .disabled

/-- `PersonThread` and `ELEVATOR::hailElevator`. -/
def personCode (r : Ret) : Label → Except Fault (Shared × Call Label)
  | .personThread p => .ok (sh, .setLevel .intOff (.hail p))
  | .hail p => .ok (sh, .setLevel .intOff (.hailed p (levelOf r)))
  | .hailed p old => withE sh fun e =>
    .ok ({ e with
        personsWaiting :=
          Function.update e.personsWaiting p.atFloor (e.personsWaiting p.atFloor + 1) },
      .acquire personLock (.enlist ⟨p, old, levelOf r⟩))
  | .enlist ρ => withE sh fun e => do
    let pp ← addToPP (e.listEntering ρ.person.atFloor) ρ.person
    .ok ({ e with listEntering := Function.update e.listEntering ρ.person.atFloor pp },
      .release personLock (.enlisted ρ))
  | .enlisted ρ => .ok (sh, .acquire elevatorLock (.waits ρ))
  | .waits ρ => .ok (sh, .wait (entering ρ.person.atFloor) elevatorLock (.boarded ρ))
  | .boarded ρ => .ok (sh, .acquire personLock (.getOn ρ))
  | .getOn ρ => withE sh fun e => do
    let pp ← addToPP e.personsOn ρ.person
    .ok ({ e with personsOn := pp }, .release personLock (.gotOn ρ))
  | .gotOn ρ => withE sh fun e =>
    if ρ.person.atFloor = e.currentFloor then
      .ok ({ e with
          personsWaiting := Function.update e.personsWaiting ρ.person.atFloor
            (e.personsWaiting ρ.person.atFloor - 1) },
        .acquire personLock (.press ρ))
    else .error .assertion
  | .press ρ => withE sh fun e => do
    let pp ← addToPP (e.listLeaving ρ.person.toFloor) ρ.person
    .ok ({ e with listLeaving := Function.update e.listLeaving ρ.person.toFloor pp },
      .release personLock (.seated ρ))
  | .seated ρ => withE sh fun e =>
    .ok ({ e with occupancy := e.occupancy + 1 },
      .wait (leaving ρ.person.toFloor) elevatorLock (.arrived ρ))
  | .arrived ρ => .ok (sh, .acquire personLock (.getOff ρ))
  | .getOff ρ => withE sh fun e => do
    let pp ← removeFromPP e.personsOn ρ.person
    .ok ({ e with personsOn := pp }, .release personLock (.gotOff ρ))
  | .gotOff ρ =>
    withE { sh with totalOut := sh.totalOut + 1 } fun e =>
      if e.currentFloor = ρ.person.toFloor then
        .ok ({ e with occupancy := e.occupancy - 1 }, .release elevatorLock (.left ρ))
      else .error .assertion
  | .left ρ => .ok (sh, .setLevel ρ.hailLevel (.home ρ.oldLevel))
  | .home old => .ok (sh, .setLevel old .done)
  | .done => .ok (sh, .finish)
  | _ => .error .disabled

/-- The threads of the elevator program. -/
inductive Role where
  | main | elevator | halt | person
  deriving DecidableEq

def Label.role : Label → Role
  | .main | .arrivals | .arriving .. | .numbering .. | .numbered .. | .forked .. => .main
  | .haltTest | .haltCheck | .haltSpin .. | .haltWatch .. | .haltReset .. => .halt
  | .personThread .. | .hail .. | .hailed .. | .enlist .. | .enlisted .. | .waits .. | .boarded ..
  | .getOn .. | .gotOn .. | .press .. | .seated .. | .arrived .. | .getOff .. | .gotOff ..
  | .left .. | .home .. | .done => .person
  | _ => .elevator

end Code

/-- The elevator program as a client of the kernel. -/
def client (cfg : Config) : Client Label Shared Input Empty where
  code input _ c r sh :=
    match c.role with
    | .main => mainCode cfg sh input r c
    | .elevator => elevatorCode cfg sh r c
    | .halt => haltCode sh r c
    | .person => personCode sh r c
  handler h := nomatch h

/-- The machine before `ElevatorTest`. -/
def start : State Label Shared :=
  .init .main (Function.update (fun _ => 0) haltSem 1) ⟨none, 0, 0, 1⟩

end Nachos.Elevator
