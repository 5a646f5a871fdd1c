import Nachos.Threads.Kernel

/-!
# The thread test

`ThreadTest` and `SimpleThread` (`threadtest.cc`) as a client of the kernel, in the build with a
semaphore or in the one with a lock. The threads increment a variable five times each, with a
`Yield` between reading it and writing it, and then wait for each other: `numThreadsActive` is
decremented by each thread that is through with its increments, and again and again by those that
wait for it to come to 0.
-/

namespace Nachos.Threads

namespace ThreadTest

/-- `HW1_SEMAPHORES` and `HW1_LOCKS`. -/
inductive Build where
  | semaphores | locks
  deriving DecidableEq

/-- `semaphore` and `lock`. -/
abbrev semaphore : ℕ := 0
abbrev lock : ℕ := 0

/-- The global variables. -/
structure Shared where
  sharedVariable : ℤ
  numThreadsActive : ℤ
  deriving DecidableEq

/-- The points of a thread; `which` is the argument of `SimpleThread`. -/
inductive Label where
  /-- `ThreadTest`. -/
  | threadTest (n : ℕ)
  /-- `ThreadTest`, at the test of the loop. -/
  | forks (n i : ℕ)
  /-- `SimpleThread`, at the test of the loop. -/
  | simpleThread (which num : ℕ)
  /-- After `P` or `Acquire`. -/
  | entered (which num : ℕ)
  /-- After the `Yield` between `P` and `V`. -/
  | yielded (which num : ℕ) (val : ℤ)
  /-- After `V` or `Release`. -/
  | exited (which num : ℕ)
  /-- After the `Yield` in the loop on `numThreadsActive`. -/
  | waiting (which : ℕ)
  /-- After that loop. -/
  | passed (which : ℕ)
  deriving DecidableEq

/-- `semaphore->P()` or `lock->Acquire()`. -/
def Build.enter : Build → Label → Call Label
  | .semaphores => .down semaphore
  | .locks => .acquire lock

/-- `semaphore->V()` or `lock->Release()`. -/
def Build.exit : Build → Label → Call Label
  | .semaphores => .up semaphore
  | .locks => .release lock

/-- `numThreadsActive--`, and the test of the loop on it. -/
def barrier (which : ℕ) (shared : Shared) : Shared × Call Label :=
  let numThreadsActive := shared.numThreadsActive - 1
  ({ shared with numThreadsActive },
    if numThreadsActive > 0 then .yield (.waiting which) else .skip (.passed which))

/-- The code of the threads. A thread that returns from `SimpleThread` calls `Finish`. -/
def code (b : Build) (c : Label) (shared : Shared) : Shared × Call Label :=
  match c with
  | .threadTest n => ({ shared with numThreadsActive := n }, .skip (.forks n 1))
  | .forks n i =>
    if i < n then (shared, .fork (.simpleThread i 0) (.forks n (i + 1)))
    else (shared, .skip (.simpleThread 0 0))
  | .simpleThread which num =>
    if num < 5 then (shared, b.enter (.entered which num)) else barrier which shared
  | .entered which num => (shared, .yield (.yielded which num shared.sharedVariable))
  | .yielded which num val =>
    ({ shared with sharedVariable := val + 1 }, b.exit (.exited which num))
  | .exited which num => (shared, .yield (.simpleThread which (num + 1)))
  | .waiting which => barrier which shared
  | .passed _ => (shared, .finish)

end ThreadTest

/-- The threads of the test. -/
def threadTest (b : ThreadTest.Build) : Client ThreadTest.Label ThreadTest.Shared Unit Empty where
  code := fun _ _ c _ shared => .ok (ThreadTest.code b c shared)
  handler := fun h => nomatch h

namespace ThreadTest

/-- The main thread calls `ThreadTest(n)`. -/
def start (n : ℕ) : State Label Shared := State.init (.threadTest n) (fun _ => 1) ⟨0, 0⟩

/-! ### What is seen of the threads -/

inductive TestEvent where
  /-- `SharedVariable = val+1`. -/
  | incremented (which : ℕ)
  /-- The `numThreadsActive--` before the loop. -/
  | arrived (which : ℕ)
  /-- The loop on `numThreadsActive` is over. -/
  | left (which : ℕ)
  /-- "Thread %d sees final value %d". -/
  | sees (which : ℕ) (val : ℤ)
  deriving DecidableEq

/-- What the test of the loop on `numThreadsActive` shows. -/
def leaves (which : ℕ) (shared : Shared) : List TestEvent :=
  if shared.numThreadsActive - 1 > 0 then [] else [.left which]

/-- What the code at a label shows. -/
def Label.events (shared : Shared) : Label → List TestEvent
  | .simpleThread which num => if num < 5 then [] else .arrived which :: leaves which shared
  | .yielded which _ _ => [.incremented which]
  | .waiting which => leaves which shared
  | .passed which => [.sees which shared.sharedVariable]
  | _ => []

/-- What the running thread does as it goes on. -/
def testEvents (_ : Choice Unit Empty) (s : State Label Shared) : List TestEvent :=
  match s.mode, s.loc s.currentThread with
  | .running, .run (.client c) _ => c.events s.shared
  | _, _ => []

/-- One step, which shows what it does. -/
def testStep (b : Build) : Choice Unit Empty → State Label Shared →
    Except Fault (List TestEvent × State Label Shared) :=
  Lib.observed (step (threadTest b)) testEvents

/-- **What the barrier is for**: no thread leaves it before all `n` threads have made their five
increments, and every thread sees the final value `5 * n`. -/
def Barrier (n : ℕ) (tr : List TestEvent) : Prop :=
  (∀ pre which post, tr = pre ++ .left which :: post →
    ∀ i < n, pre.count (.incremented i) = 5) ∧
  ∀ which (val : ℤ), .sees which val ∈ tr → val = 5 * n

/-! ### Three threads -/

/-- The running thread goes on; `new Thread` gives `new`. -/
def go (new k : ℕ) : List (Choice Unit Empty) := List.replicate k (.run () new)

/-- The threads change in `Yield` and in `Sleep` only. When thread 1 is at the barrier, the main
thread waits there, and thread 2 is in its fifth increment. -/
def threeThreads : List (Choice Unit Empty) :=
  go 1 3 ++ go 2 11 ++ .dispatch :: go 2 3 ++
    (List.replicate 12 (.dispatch :: go 2 13)).flatten ++ .dispatch :: go 2 29

/-- **Threads leave the barrier too early**, without any context switch by the timer: the one that
waits decrements `numThreadsActive`, too. -/
theorem not_barrier : ¬ ∀ b n tr s, 1 ≤ n →
    Lib.Run (Lib.StepOf (testStep b)) (start n) tr s → Barrier n tr := by
  intro h
  obtain ⟨tr, s, hr, hp⟩ := Lib.run_of_passes (testStep .locks) threeThreads (start 3)
    (fun tr _ => .sees 1 14 ∈ tr) (by decide +kernel)
  have hval := (h .locks 3 tr s (by decide) hr).2 1 14 (of_decide_eq_true hp)
  exact absurd hval (by decide)

end ThreadTest

end Nachos.Threads
