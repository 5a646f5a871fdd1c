import Nachos.Lib.Agenda

/-!
# The interrupt queue

`class Interrupt` (`machine/interrupt.cc`) and the part of `class List` (`threads/list.cc`) that it
uses. Time is simulated: it advances when interrupts are re-enabled, when a user instruction has
been executed, and when there is nothing to run. The interrupts that the devices will cause wait
on a list sorted by time.

What a handler does besides, and what the kernel does between two calls, is not modelled: a handler
is any function of the machine and the kernel, as far as `Schedule` and `YieldOnReturn` go. A sum
that does not fit in an `int` has no meaning, so such a step stops.
-/

namespace Nachos.Machine

open Lib

/-! ### Sorted lists -/

/-- `class ListElement`, without `next`. -/
structure ListElement (α : Type) where
  item : α
  key : ℤ
  deriving DecidableEq

section List

variable {α : Type}

/-- `List::SortedInsert`. -/
def sortedInsert (item : α) (sortKey : ℤ) : List (ListElement α) → List (ListElement α)
  | [] => [⟨item, sortKey⟩]
  | element :: rest =>
    if sortKey < element.key then ⟨item, sortKey⟩ :: element :: rest
    else element :: sortedInsert item sortKey rest

/-- `List::SortedRemove`: the item, `*keyPtr` and the list after it; `none` is `NULL`. -/
def sortedRemove : List (ListElement α) → Option (α × ℤ × List (ListElement α))
  | [] => none
  | element :: rest => some (element.item, element.key, rest)

/-- Is the list sorted by key? -/
def Sorted (l : List (ListElement α)) : Prop := l.Pairwise fun a b => a.key ≤ b.key

variable {item : α} {sortKey : ℤ} {l : List (ListElement α)}

lemma sortedInsert_perm : (sortedInsert item sortKey l).Perm (⟨item, sortKey⟩ :: l) := by
  induction l with
  | nil => exact List.Perm.refl _
  | cons element rest ih =>
    rw [sortedInsert]
    split
    · exact List.Perm.refl _
    · exact (ih.cons element).trans (List.Perm.swap _ _ _)

lemma mem_sortedInsert {e : ListElement α} :
    e ∈ sortedInsert item sortKey l ↔ e = ⟨item, sortKey⟩ ∨ e ∈ l :=
  sortedInsert_perm.mem_iff.trans List.mem_cons

lemma Sorted.sortedInsert (h : Sorted l) : Sorted (sortedInsert item sortKey l) := by
  induction l with
  | nil => exact List.pairwise_singleton _ _
  | cons element rest ih =>
    obtain ⟨hle, hrest⟩ := List.pairwise_cons.mp h
    rw [Machine.sortedInsert]
    split
    next hlt =>
      refine List.pairwise_cons.mpr ⟨fun e he => ?_, h⟩
      rcases List.mem_cons.mp he with rfl | he
      · exact hlt.le
      · exact hlt.le.trans (hle e he)
    next hge =>
      refine List.pairwise_cons.mpr ⟨fun e he => ?_, ih hrest⟩
      rcases mem_sortedInsert.mp he with rfl | he
      · exact not_lt.mp hge
      · exact hle e he

/-- What is inserted above a bound leaves what is below it alone. -/
lemma filter_sortedInsert {p : ListElement α → Bool} (h : p ⟨item, sortKey⟩ = false) :
    (sortedInsert item sortKey l).filter p = l.filter p := by
  induction l with
  | nil => simp [sortedInsert, h]
  | cons element rest ih =>
    rw [sortedInsert]
    split
    · rw [List.filter_cons_of_neg (by simp [h])]
    · rw [List.filter_cons, List.filter_cons, ih]

end List

/-! ### The machine -/

/-- Interrupts can be disabled (`IntOff`) or enabled (`IntOn`). -/
inductive IntStatus where
  | intOff | intOn
  deriving DecidableEq

/-- Running kernel code, user code, or nothing at all. -/
inductive MachineStatus where
  | idleMode | systemMode | userMode
  deriving DecidableEq

/-- Which device generates an interrupt. -/
inductive IntType where
  | timerInt | diskInt | consoleWriteInt | consoleReadInt | networkSendInt | networkRecvInt
  deriving DecidableEq

/-- `class PendingInterrupt`. -/
structure PendingInterrupt (H : Type) where
  handler : H
  arg : ℤ
  time : ℤ
  type : IntType
  deriving DecidableEq

/-- The ways to stop before a call is over: the assertions, a sum that overflows, a loop that goes
on, and `Halt`. -/
inductive Fault where
  /-- `ASSERT(fromNow > 0)` in `Schedule`. -/
  | fromNow
  /-- `ASSERT((now == IntOff) || (inHandler == FALSE))` in `SetLevel`. -/
  | enabled
  /-- `ASSERT(inHandler == TRUE)` in `YieldOnReturn`. -/
  | notInHandler
  /-- `ASSERT(level == IntOff)` in `CheckIfDue`. -/
  | level
  | overflow
  | fuel
  | halted
  deriving DecidableEq

/-- The fields of `class Interrupt` and `stats->totalTicks`; `kernel` is everything else. -/
structure Hardware (H W : Type) where
  totalTicks : ℤ
  level : IntStatus
  pending : List (ListElement (PendingInterrupt H))
  inHandler : Bool
  yieldOnReturn : Bool
  status : MachineStatus
  /-- `Halt` has been called. -/
  halted : Bool
  kernel : W

/-- The arguments of `Schedule`. -/
structure Request (H : Type) where
  handler : H
  arg : ℤ
  fromNow : ℤ
  type : IntType

/-- What a handler does to the interrupt queue. -/
inductive HandlerCall (H : Type) where
  | schedule (r : Request H)
  | yieldOnReturn

/-- What the handlers are: a function called with an argument reads the machine, makes its calls
and changes the kernel. -/
abbrev Handlers (H W : Type) := H → ℤ → Hardware H W → List (HandlerCall H) × W

/-- An interrupt is scheduled, or fires. -/
abbrev Event (H : Type) := Agenda.Event (PendingInterrupt H) ℤ

abbrev userTick : ℤ := 1
abbrev systemTick : ℤ := 10

/-- `a + b`, as an `int`. -/
def addInt (a b : ℤ) : Except Fault ℤ :=
  if -2147483648 ≤ a + b ∧ a + b ≤ 2147483647 then .ok (a + b) else .error .overflow

variable {H W : Type}

/-- `Interrupt::Interrupt` and `Statistics::Statistics`. -/
def Hardware.init (kernel : W) : Hardware H W :=
  { totalTicks := 0, level := .intOff, pending := [], inHandler := false, yieldOnReturn := false,
    status := .systemMode, halted := false, kernel }

/-- `Interrupt::Schedule`. -/
def schedule (r : Request H) (m : Hardware H W) : Except Fault (List (Event H) × Hardware H W) :=
  match addInt m.totalTicks r.fromNow with
  | .error f => .error f
  | .ok time =>
    let toOccur : PendingInterrupt H :=
      { handler := r.handler, arg := r.arg, time, type := r.type }
    if r.fromNow > 0 then
      .ok ([.scheduled toOccur m.totalTicks],
        { m with pending := sortedInsert toOccur time m.pending })
    else .error .fromNow

/-- A call of a handler. -/
def handlerCall (c : HandlerCall H) (m : Hardware H W) :
    Except Fault (List (Event H) × Hardware H W) :=
  match c with
  | .schedule r => schedule r m
  | .yieldOnReturn =>
    if m.inHandler then .ok ([], { m with yieldOnReturn := true }) else .error .notInHandler

/-- `(*(toOccur->handler))(toOccur->arg)`. -/
def invoke (handlers : Handlers H W) (toOccur : PendingInterrupt H) (m : Hardware H W) :
    Except Fault (List (Event H) × Hardware H W) :=
  let (calls, kernel) := handlers toOccur.handler toOccur.arg m
  exec handlerCall calls { m with kernel }

/-- `Interrupt::CheckIfDue`, with the value that it returns. -/
def checkIfDue (handlers : Handlers H W) (advanceClock : Bool) (m : Hardware H W) :
    Except Fault (Bool × List (Event H) × Hardware H W) :=
  let old := m.status
  if m.level ≠ .intOff then .error .level
  else match sortedRemove m.pending with
  | none => .ok (false, [], m)
  | some (toOccur, time, rest) =>
    if advanceClock = false ∧ time > m.totalTicks then
      -- not time yet, put it back
      .ok (false, [], { m with pending := sortedInsert toOccur time rest })
    else
      let totalTicks := if time > m.totalTicks then time else m.totalTicks
      if m.status = .idleMode ∧ toOccur.type = .timerInt ∧ rest.isEmpty then
        -- the time-slice daemon alone: nothing more to do
        .ok (false, [], { m with totalTicks, pending := sortedInsert toOccur time rest })
      else
        match invoke handlers toOccur
            { m with totalTicks, pending := rest, inHandler := true, status := .systemMode } with
        | .error f => .error f
        | .ok (es, m') =>
          .ok (true, .fired toOccur totalTicks :: es, { m' with status := old, inHandler := false })

/-- `while (CheckIfDue(FALSE));`, for so many rounds at most. -/
def checkAll (handlers : Handlers H W) :
    ℕ → Hardware H W → Except Fault (List (Event H) × Hardware H W)
  | 0, _ => .error .fuel
  | fuel + 1, m =>
    match checkIfDue handlers false m with
    | .error f => .error f
    | .ok (false, es, m') => .ok (es, m')
    | .ok (true, es, m') =>
      match checkAll handlers fuel m' with
      | .error f => .error f
      | .ok (es', m'') => .ok (es ++ es', m'')

/-- `Interrupt::OneTick`, up to the `Yield` if there is one, which is more kernel code. -/
def oneTick (handlers : Handlers H W) (fuel : ℕ) (m : Hardware H W) :
    Except Fault (List (Event H) × Hardware H W) :=
  match addInt m.totalTicks (if m.status = .systemMode then systemTick else userTick) with
  | .error f => .error f
  | .ok totalTicks =>
    match checkAll handlers fuel { m with totalTicks, level := .intOff } with
    | .error f => .error f
    | .ok (es, m') =>
      if m'.yieldOnReturn then
        .ok (es, { m' with level := .intOn, yieldOnReturn := false, status := .systemMode })
      else .ok (es, { m' with level := .intOn })

/-- `Interrupt::SetLevel`. -/
def setLevel (handlers : Handlers H W) (fuel : ℕ) (now : IntStatus) (m : Hardware H W) :
    Except Fault (List (Event H) × Hardware H W) :=
  if now = .intOff ∨ m.inHandler = false then
    if now = .intOn ∧ m.level = .intOff then oneTick handlers fuel { m with level := now }
    else .ok ([], { m with level := now })
  else .error .enabled

/-- `Interrupt::Idle`. -/
def idle (handlers : Handlers H W) (fuel : ℕ) (m : Hardware H W) :
    Except Fault (List (Event H) × Hardware H W) :=
  match checkIfDue handlers true { m with status := .idleMode } with
  | .error f => .error f
  | .ok (false, es, m') => .ok (es, { m' with halted := true })
  | .ok (true, es, m') =>
    match checkAll handlers fuel m' with
    | .error f => .error f
    | .ok (es', m'') =>
      .ok (es ++ es', { m'' with yieldOnReturn := false, status := .systemMode })

/-- What the kernel and the simulation of the processor do next. -/
inductive Choice (H W : Type) where
  /-- A device is started. -/
  | schedule (r : Request H)
  | setLevel (fuel : ℕ) (now : IntStatus)
  /-- A user instruction has been executed. -/
  | oneTick (fuel : ℕ)
  | idle (fuel : ℕ)
  /-- `setStatus`, and `status = old` at the end of `OneTick`. -/
  | setStatus (user : Bool)
  | kernel (k : W)

/-- One step, as long as `Halt` has not been called. -/
def step (handlers : Handlers H W) (c : Choice H W) (m : Hardware H W) :
    Except Fault (List (Event H) × Hardware H W) :=
  if m.halted then .error .halted
  else match c with
  | .schedule r => schedule r m
  | .setLevel fuel now => setLevel handlers fuel now m
  | .oneTick fuel => oneTick handlers fuel m
  | .idle fuel => idle handlers fuel m
  | .setStatus user => .ok ([], { m with status := if user then .userMode else .systemMode })
  | .kernel k => .ok ([], { m with kernel := k })

/-- The step relation. -/
abbrev Step (handlers : Handlers H W) : Hardware H W → List (Event H) → Hardware H W → Prop :=
  StepOf (step handlers)

end Nachos.Machine
