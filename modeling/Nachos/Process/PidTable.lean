import Mathlib.Data.Finset.Card
import Nachos.Process.Pids

/-!
# The bitmap, the table and the processes

Three things say which pids are taken: the bitmap of the `PCBManager`, its array, and the `pid` of
the PCBs. `DeallocatePCB` changes all three, and `delete joinPCB` in `doJoin` one: from the first
child that is joined on, the array leads to deleted memory, and its pid is never free again.
-/

namespace Nachos.Process

open Lib Threads Mips Userprog

/-- A `Fork` is making the process. -/
def Making (s : State) (p : PCBId) : Prop :=
  ∃ t call, .saveParent call p ∈ s.code t ∨ .copySpace call p ∈ s.code t ∨
    ∃ a, .startChild call p a ∈ s.code t

/-- **The process is alive, or has exited and waits to be joined.** -/
def Counts (os : List PidEvent) (s : State) (p : PCBId) : Prop :=
  s.pcb.live p = true ∧
    (.exited p ∈ os ∨ (.killed p ∉ os ∧ ((s.pcb.get p).thread ≠ none ∨ Making s p)))

section Bits

variable {s s₁ : State} {st : Stmt} {k k' : List Stmt} {es : List Event} {i : ℕ}

end Bits

/-! ### Runs -/

section Runs

variable {s₀ s : State} {e : Executable} {os : List PidEvent} {tr : List Event}

end Runs

/-! ### A child that is joined -/

/-- A program makes a system call. -/
def systemCall (number arg : Word) : List Choice :=
  [.instruction (callRegisters number arg), .go, .syscall none]

/-- The parent calls `Fork(400)`, up to its return. -/
def forkCall : List Choice := systemCall 9 400 ++ List.replicate 15 .go

/-- The parent forks a child and calls `Join(1)`; it waits until the child has called `Exit(7)`. -/
def joinChoices : List Choice :=
  forkCall ++ systemCall 3 1 ++ List.replicate 4 .go ++ systemCall 1 7 ++ List.replicate 18 .go

end Nachos.Process
