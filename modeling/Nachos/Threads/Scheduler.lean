import Nachos.Threads.Client
import Nachos.Threads.SynchList

/-!
# The interrupt level of the scheduler

The routines of `Scheduler` assume that interrupts are disabled (`scheduler.cc`). The routines that
call them disable interrupts first, save for two: `Condition::Signal` and `Broadcast` call
`ReadyToRun` after `queueLock->Release()` has restored the level of their caller. So the
assumption holds in a run exactly as long as no `Signal` or `Broadcast` takes a thread off the
queue of its condition.
-/

namespace Nachos.Threads

variable {C σ ι H : Type}

/-- A call of a routine of `Scheduler`. -/
inductive SchedulerCall where
  | readyToRun (t : Tid)
  | findNextToRun
  | run (t : Tid)
  deriving DecidableEq

/-- The calls of a stretch of code, each with the interrupt level it is made at. -/
abbrev Calls := List (SchedulerCall × IntStatus)

namespace State

variable (s : State C σ)

end State

/-- In `Wait`, between its two calls of `SetLevel`. -/
def Kont.inWait : Kont C → Bool
  | .waitAcquire _ _ _ _ => true
  | .waitSleep _ _ _ _ => true
  | .waitReturn _ _ _ _ => true
  | _ => false

/-- A routine called by `Wait` restores the level that `Wait` has set. -/
def Loc.Nested : Loc C → Prop
  | .acquire _ old k => k.inWait = true → old = .intOff
  | .lockAsleep _ old k => k.inWait = true → old = .intOff
  | .release _ old k => k.inWait = true → old = .intOff
  | .ret old k _ => k.inWait = true → old = .intOff
  | _ => True

/-- The places between a call of `SetLevel(IntOff)` and the `SetLevel` that ends the routine. -/
def Loc.Off : Loc C → Prop
  | .run k _ => k.inWait = true
  | .acquire _ _ _ => True
  | .lockAsleep _ _ _ => True
  | .release _ _ _ => True
  | .down _ _ _ => True
  | .semAsleep _ _ _ => True
  | .up _ _ _ => True
  | .yield _ _ => True
  | .condAsleep _ _ _ _ => True
  | _ => False

/-- **The interrupt level fits the place of the running thread**, and `Sleep` looks for another
thread with interrupts disabled. -/
structure Leveled (s : State C σ) : Prop where
  nested : ∀ u, (s.loc u).Nested
  running : s.mode = .running → (s.loc s.currentThread).Off → s.level = .intOff
  asleep : s.mode ≠ .running → s.level = .intOff

/-- The running thread is in a `Signal` or `Broadcast`, about to take a thread off the queue. -/
def Kont.dequeues : Kont C → Option ℕ
  | .signalDequeue cond _ => some cond
  | .bcastDequeue cond _ _ => some cond
  | _ => none

section Steps

variable {K : Client C σ ι H} {s s' : State C σ} {es : List (Event C)}

lemma Moved.nested {l l' : Loc C} (h : Moved l l') (hl : l.Nested) : l'.Nested := by
  cases h with
  | stays => exact hl
  | forked c => trivial
  | starts c => exact nofun
  | deleted => trivial

lemma Goes.nested {l l' : Loc C} (h : Goes s es l l') (hl : l.Nested)
    (hoff : l.Off → s.level = .intOff) : l'.Nested := by
  cases h with
  | call entry =>
    cases entry with
    | wait => exact fun _ => rfl
    | acquire | release | signal | broadcast | setLevel | oneTick => exact nofun
    | down | up | yield | skip => trivial
  | take | takeAwake | lockWait | lockWaitAgain | release => exact hl
  | fork | down | downAwake | up | yield | waitReturn => exact nofun
  | semWait | semWaitAgain | finish | ret | waitSleep | signalNone | signalReady | bcastNone =>
    trivial
  | waitAcquire => exact fun _ => hoff rfl
  | waitAwake => exact fun _ => hoff trivial
  | signalDequeue | bcastDequeue | bcastReady => exact nofun
  | tick => exact hl

/-- The level of the place where the running thread is now. -/
def LevelFits (s : State C σ) : Prop :=
  (s.mode = .running → (s.loc s.currentThread).Off → s.level = .intOff) ∧
    (s.mode ≠ .running → s.level = .intOff)

lemma LevelFits.of_off (h : s.level = .intOff) : LevelFits s := ⟨fun _ _ => h, fun _ => h⟩

/-- The running thread goes on where the level does not matter. -/
lemma LevelFits.setLoc (hm : s.mode = .running) {l : Loc C} (hl : l.Off → s.level = .intOff) :
    LevelFits (s.setLoc s.currentThread l) := by
  refine ⟨fun _ hoff => hl ?_, fun hn => absurd hm hn⟩
  rwa [show ((s.setLoc s.currentThread l).loc (s.setLoc s.currentThread l).currentThread) = l from
    setLoc_self ..] at hoff

lemma LevelFits.yieldTo (hoff : s.level = .intOff) {next : Tid} {rest : List Tid}
    (run : s.yieldTo next rest = .ok s') : LevelFits s' :=
  .of_off ((yieldTo_frame run).2.2.2.2.2.1.trans hoff)

/-- **Every rule sets the level that the next place needs.** -/
lemma Leveled.levelFits (h : Leveled s) (hs : Step K s es s') : LevelFits s' := by
  have hcur : ∀ {l : Loc C}, s.mode = .running → s.loc s.currentThread = l → l.Off →
      s.level = .intOff := fun hm hl hoff => h.running hm (hl ▸ hoff)
  cases hs with
  | @call _ _ _ shared _ _ lv _ mode loc code entry =>
    refine LevelFits.setLoc (s := { s with shared := shared }.setLevel lv) mode fun hoff => ?_
    cases entry with
    | setLevel => exact absurd hoff id
    | skip => cases hoff
    | _ => rfl
  | fork mode loc code unborn => exact .of_off rfl
  | finish mode loc code => exact .of_off rfl
  | take mode loc free => exact .setLoc mode fun hoff => absurd hoff id
  | lockWait mode loc busy level => exact .of_off level
  | @release l old k mode loc =>
    refine .of_off ?_
    show (s.releaseLock l).level = .intOff
    rw [State.releaseLock_level]
    exact hcur mode loc trivial
  | down mode loc value => exact .setLoc mode fun hoff => absurd hoff id
  | semWait mode loc value level => exact .of_off level
  | @up i old c mode loc =>
    refine .of_off ?_
    show (s.wake (.sem i)).level = .intOff
    rw [State.wake_level]
    exact hcur mode loc trivial
  | yieldAlone mode loc ready => exact .setLoc mode fun hoff => absurd hoff id
  | @yield old c _ _ _ mode loc ready run =>
    have hoff : (s.setLoc s.currentThread (.ret old (.client c) .unit)).level = .intOff :=
      hcur mode loc trivial
    exact .yieldTo hoff run
  | @ret old k _ mode loc =>
    have hn := h.nested s.currentThread
    rw [loc] at hn
    exact LevelFits.setLoc (s := s.setLevel old) mode hn
  | waitAcquire mode loc => exact .of_off rfl
  | waitSleep mode loc level =>
    refine .of_off ?_
    unfold State.blockOnCond
    simpa [State.setLoc, State.setStatus, State.append, State.setQueue] using level
  | waitAwake mode loc => exact .of_off rfl
  | waitReturn mode loc => exact .setLoc mode fun hoff => absurd hoff id
  | signalDequeue mode loc => exact .of_off rfl
  | signalNone mode loc => exact .setLoc mode fun h => by cases h
  | @signalReady _ x _ _ mode loc =>
    exact LevelFits.setLoc (s := s.readyToRun x) mode fun h => by cases h
  | bcastDequeue mode loc => exact .of_off rfl
  | bcastNone mode loc => exact .setLoc mode fun h => by cases h
  | bcastReady mode loc => exact .of_off rfl
  | preempt mode loc level ready run => exact .yieldTo level run
  | @interrupt _ shared allowed handler =>
    by_cases hm : s.mode = .running
    · obtain ⟨-, hoff, -⟩ := inTick_of_running allowed hm
      exact .of_off hoff
    · exact .of_off (h.asleep hm)
  | @interruptUp _ shared i allowed handler =>
    refine .of_off ?_
    show ((s.handled shared).wake (.sem i)).level = .intOff
    rw [State.wake_level]
    by_cases hm : s.mode = .running
    · exact (inTick_of_running allowed hm).2.1
    · exact h.asleep hm
  | dispatch mode ready run =>
    exact .of_off ((runThread_frame run).2.2.2.2.2.1.trans (h.asleep mode))

theorem Leveled.step (h : Leveled s) (hp : Placed s) (hs : Step K s es s') : Leveled s' where
  nested u := by
    by_cases hu : s.mode = .running → u ≠ s.currentThread
    · exact (hs.moved hp hu).nested (h.nested u)
    · obtain ⟨hm, hu⟩ := Classical.not_imp.1 hu
      obtain rfl := not_not.1 hu
      exact (hs.goes hp hm).nested (h.nested _) (h.running hm)
  running := (h.levelFits hs).1
  asleep := (h.levelFits hs).2

lemma init_loc_of_ne (first : C) (value : ℕ → ℤ) (shared : σ) {u : Tid} (hu : u ≠ 0) :
    (State.init first value shared).loc u = .unborn := by
  simp [State.init, Function.update_of_ne hu]

lemma leveled_init (first : C) (value : ℕ → ℤ) (shared : σ) :
    Leveled (State.init first value shared) where
  nested u := by
    by_cases hu : u = 0
    · rw [hu]
      trivial
    · rw [init_loc_of_ne first value shared hu]
      trivial
  running _ hoff := by cases hoff
  asleep hm := absurd rfl hm

/-! ### Nobody in the hands of a `Signal` -/

lemma Moved.limbo {l l' : Loc C} (h : Moved l l') (hl : l.limbo = none) : l'.limbo = none := by
  cases h with
  | stays => exact hl
  | forked | starts | deleted => rfl

/-- The running thread takes somebody in its hands only off the queue of a condition. -/
lemma Goes.limbo {l l' : Loc C} (h : Goes s es l l') (hl : l.limbo = none)
    (hq : ∀ k r cond, l = .run k r → k.dequeues = some cond → s.queue (.cond cond) = []) :
    l'.limbo = none := by
  cases h with
  | call entry => exact entry.place.2
  | take | takeAwake | lockWait | lockWaitAgain | release | ret | tick => exact hl
  | @signalDequeue cond c r =>
    show (s.dequeue cond).1 = none
    rw [dequeue_fst, hq _ r cond rfl rfl]
    rfl
  | @bcastDequeue cond i c r =>
    show (s.dequeue cond).1 = none
    rw [dequeue_fst, hq _ r cond rfl rfl]
    rfl
  | _ => rfl

end Steps

/-! ### The calls -/

section Calls

variable {K : Client C σ ι H} {s s' : State C σ} {es : List (Event C)}

/-- The calls are made with interrupts disabled. -/
def AllOff (calls : Calls) : Prop := ∀ call ∈ calls, call.2 = .intOff

lemma AllOff.append {a b : Calls} (ha : AllOff a) (hb : AllOff b) : AllOff (a ++ b) :=
  fun call hc => (List.mem_append.1 hc).elim (ha call) (hb call)

end Calls

/-! ### Threads that share a list -/

/-- `Enabled`, as a test. -/
def State.enabled (s : State C σ) : Bool :=
  match s.mode, s.loc s.currentThread, s.level with
  | .running, .run (.client _) _, .intOff => false
  | _, _, _ => true

/-- A thread waits in `Remove`, and the other appends an item, up to `ReadyToRun`. -/
def wakeUp : List (Choice SynchList.Input Empty) :=
  [.run .fork 1, .run .fork 1, .run .yield 1, .run .yield 1] ++
    List.replicate 11 (.run .remove 1) ++ .dispatch :: List.replicate 10 (.run (.append 5) 1)

end Nachos.Threads
