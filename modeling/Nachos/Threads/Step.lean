import Nachos.Lib.Except
import Nachos.Threads.Kernel

/-!
# What a step of the kernel can do

The relation `Step` has one rule for each stretch of code; `step_rule` reads a step of the machine
as a rule. Every invariant below is proved from the rules, and none unfolds `step`.
-/

namespace Nachos.Threads

open Lib (bind_eq_ok)

variable {C σ ι H : Type}

/-! ### The pieces of a rule -/

namespace State

variable (s : State C σ)

/-- The running thread appends itself to a queue and sleeps. -/
def block (q : QueueId) (l : Loc C) : State C σ :=
  { (s.append q).setStatus s.currentThread .blocked with
    mode := .asleep
    loc := Function.update s.loc s.currentThread l }

/-- `Condition::Wait`: the running thread joins the queue, gives up `queueLock` and sleeps. -/
def blockOnCond (cond l : ℕ) (old : IntStatus) (c : C) : State C σ :=
  let r := (s.append (.cond cond)).releaseLock (.queueLock cond)
  { r.setStatus r.currentThread .blocked with mode := .asleep }.setLoc s.currentThread
    (.condAsleep cond l old c)

/-- `Thread::Finish`. -/
def finish : State C σ :=
  { s.setStatus s.currentThread .blocked with
    level := .intOff
    threadToBeDestroyed := some s.currentThread
    mode := .asleep
    loc := Function.update s.loc s.currentThread .finished }

/-- `Thread::Fork`, before the level is restored. -/
def fork (new : Tid) (first c : C) : State C σ :=
  (((s.setLevel .intOff).setLoc new (.fresh first)).readyToRun new).setLoc s.currentThread
    (.ret s.level (.client c) (.thread (some new)))

/-- A device interrupt, before the `V` of its handler. -/
def handled (shared : σ) : State C σ :=
  { s with shared := shared, mode := if s.mode = .running then .running else .idling }

@[simp] lemma wake_currentThread (q : QueueId) : (s.wake q).currentThread = s.currentThread := by
  unfold wake; split <;> rfl
@[simp] lemma wake_mode (q : QueueId) : (s.wake q).mode = s.mode := by
  unfold wake; split <;> rfl
@[simp] lemma wake_level (q : QueueId) : (s.wake q).level = s.level := by
  unfold wake; split <;> rfl
@[simp] lemma wake_threadToBeDestroyed (q : QueueId) :
    (s.wake q).threadToBeDestroyed = s.threadToBeDestroyed := by
  unfold wake; split <;> rfl
@[simp] lemma wake_lock (q : QueueId) : (s.wake q).lock = s.lock := by
  unfold wake; split <;> rfl
@[simp] lemma wake_value (q : QueueId) : (s.wake q).value = s.value := by
  unfold wake; split <;> rfl
@[simp] lemma wake_loc (q : QueueId) : (s.wake q).loc = s.loc := by
  unfold wake; split <;> rfl
@[simp] lemma wake_shared (q : QueueId) : (s.wake q).shared = s.shared := by
  unfold wake; split <;> rfl

lemma wake_nil {q : QueueId} (h : s.queue q = []) : s.wake q = s := by
  unfold wake; rw [h]

lemma wake_cons {q : QueueId} {t : Tid} {rest : List Tid} (h : s.queue q = t :: rest) :
    s.wake q = (s.setQueue q rest).readyToRun t := by
  unfold wake; rw [h]

/-- The queue woken loses its head. -/
@[simp] lemma wake_queue (q : QueueId) :
    (s.wake q).queue = Function.update s.queue q (s.queue q).tail := by
  unfold wake
  split
  next h =>
    funext q'
    by_cases hq : q' = q
    · rw [hq, Function.update_self, h, List.tail_nil]
    · rw [Function.update_of_ne hq]
  next h => rw [h]; rfl

/-- The head of the queue goes to the end of the ready list. -/
@[simp] lemma wake_readyList (q : QueueId) :
    (s.wake q).readyList = s.readyList ++ (s.queue q).head?.toList := by
  unfold wake
  split
  next h => rw [h]; simp
  next h => rw [h]; rfl

lemma isHeldByCurrentThread_iff {l : LockId} :
    s.isHeldByCurrentThread l ↔ (s.lock l).activeThread = some s.currentThread :=
  decide_eq_true_iff

lemma releaseLock_of_held {l : LockId} (h : s.isHeldByCurrentThread l) :
    s.releaseLock l = (s.setLock l ⟨true, none⟩).wake (.lock l) :=
  if_pos h

lemma releaseLock_of_not_held {l : LockId} (h : ¬ s.isHeldByCurrentThread l) :
    s.releaseLock l = s :=
  if_neg h

@[simp] lemma releaseLock_currentThread (l : LockId) :
    (s.releaseLock l).currentThread = s.currentThread := by
  unfold releaseLock; split <;> simp [setLock]
@[simp] lemma releaseLock_mode (l : LockId) : (s.releaseLock l).mode = s.mode := by
  unfold releaseLock; split <;> simp [setLock]
@[simp] lemma releaseLock_level (l : LockId) : (s.releaseLock l).level = s.level := by
  unfold releaseLock; split <;> simp [setLock]
@[simp] lemma releaseLock_threadToBeDestroyed (l : LockId) :
    (s.releaseLock l).threadToBeDestroyed = s.threadToBeDestroyed := by
  unfold releaseLock; split <;> simp [setLock]
@[simp] lemma releaseLock_value (l : LockId) : (s.releaseLock l).value = s.value := by
  unfold releaseLock; split <;> simp [setLock]
@[simp] lemma releaseLock_loc (l : LockId) : (s.releaseLock l).loc = s.loc := by
  unfold releaseLock; split <;> simp [setLock]
@[simp] lemma releaseLock_shared (l : LockId) : (s.releaseLock l).shared = s.shared := by
  unfold releaseLock; split <;> simp [setLock]

end State

/-- The calls that only move the running thread: the events, the interrupt level and the place
where it is next. -/
inductive Entry (s : State C σ) : Call C → List (Event C) → IntStatus → Loc C → Prop
  | acquire (l c) : Entry s (.acquire l c) [] .intOff (.acquire (.lock l) s.level (.client c))
  | release (l c) : Entry s (.release l c) [] .intOff (.release (.lock l) s.level (.client c))
  | wait (cond l c) (held : s.isHeldByCurrentThread (.lock l)) :
      Entry s (.wait cond l c) [.waiting s.currentThread cond l] .intOff
        (.release (.lock l) .intOff (.waitAcquire cond l s.level c))
  | signal (cond l c) (held : s.isHeldByCurrentThread (.lock l)) :
      Entry s (.signal cond l c) [.signal s.currentThread cond l] .intOff
        (.acquire (.queueLock cond) s.level (.signalDequeue cond c))
  | broadcast (cond l c) (held : s.isHeldByCurrentThread (.lock l)) :
      Entry s (.broadcast cond l c) [.broadcast s.currentThread cond l] .intOff
        (.acquire (.queueLock cond) s.level (.bcastDequeue cond 0 c))
  | down (i c) : Entry s (.down i c) [] .intOff (.down i s.level c)
  | up (i c) : Entry s (.up i c) [] .intOff (.up i s.level c)
  | yield (c) : Entry s (.yield c) [] .intOff (.yield s.level c)
  | setLevel (now c) :
      Entry s (.setLevel now c) [] s.level (.ret now (.client c) (.level s.level))
  | oneTick (c) : Entry s (.oneTick c) [] .intOff (.ret .intOn (.client c) .unit)
  | skip (c) : Entry s (.skip c) [] s.level (.run (.client c) .unit)

/-- **The rules.** -/
inductive Step (K : Client C σ ι H) (s : State C σ) : List (Event C) → State C σ → Prop
  /-- The client makes a call. -/
  | call {input c r shared call es lv l} (mode : s.mode = .running)
      (loc : s.loc s.currentThread = .run (.client c) r)
      (code : K.code input s.currentThread c r s.shared = .ok (shared, call))
      (entry : Entry s call es lv l) :
      Step K s (.ran s.currentThread c :: es)
        (({ s with shared := shared }.setLevel lv).setLoc s.currentThread l)
  | fork {input c r shared first c' new} (mode : s.mode = .running)
      (loc : s.loc s.currentThread = .run (.client c) r)
      (code : K.code input s.currentThread c r s.shared = .ok (shared, .fork first c'))
      (unborn : s.loc new = .unborn) :
      Step K s [.ran s.currentThread c] ({ s with shared := shared }.fork new first c')
  | finish {input c r shared} (mode : s.mode = .running)
      (loc : s.loc s.currentThread = .run (.client c) r)
      (code : K.code input s.currentThread c r s.shared = .ok (shared, .finish)) :
      Step K s [.ran s.currentThread c] { s with shared := shared }.finish
  /-- `Acquire` finds the lock free. -/
  | take {l old k} (mode : s.mode = .running)
      (loc : s.loc s.currentThread = .acquire l old k ∨
        s.loc s.currentThread = .lockAsleep l old k)
      (free : (s.lock l).free = true) :
      Step K s [.acquired s.currentThread l]
        ((s.setLock l ⟨false, some s.currentThread⟩).setLoc s.currentThread
          (.ret old k (.acquired l)))
  /-- `Acquire` does not. -/
  | lockWait {l old k} (mode : s.mode = .running)
      (loc : s.loc s.currentThread = .acquire l old k ∨
        s.loc s.currentThread = .lockAsleep l old k)
      (busy : (s.lock l).free = false) (level : s.level = .intOff) :
      Step K s [] (s.block (.lock l) (.lockAsleep l old k))
  | release {l old k} (mode : s.mode = .running)
      (loc : s.loc s.currentThread = .release l old k) :
      Step K s [.released s.currentThread l]
        ((s.releaseLock l).setLoc s.currentThread (.ret old k .unit))
  | down {i old c} (mode : s.mode = .running)
      (loc : s.loc s.currentThread = .down i old c ∨ s.loc s.currentThread = .semAsleep i old c)
      (value : s.value i ≠ 0) :
      Step K s []
        ((s.setValue i (s.value i - 1)).setLoc s.currentThread (.ret old (.client c) .unit))
  | semWait {i old c} (mode : s.mode = .running)
      (loc : s.loc s.currentThread = .down i old c ∨ s.loc s.currentThread = .semAsleep i old c)
      (value : s.value i = 0) (level : s.level = .intOff) :
      Step K s [] (s.block (.sem i) (.semAsleep i old c))
  | up {i old c} (mode : s.mode = .running) (loc : s.loc s.currentThread = .up i old c) :
      Step K s [] ((s.raise i).setLoc s.currentThread (.ret old (.client c) .unit))
  /-- `Yield` with nobody to run. -/
  | yieldAlone {old c} (mode : s.mode = .running) (loc : s.loc s.currentThread = .yield old c)
      (ready : s.readyList = []) :
      Step K s [] (s.setLoc s.currentThread (.ret old (.client c) .unit))
  | yield {old c next rest s'} (mode : s.mode = .running)
      (loc : s.loc s.currentThread = .yield old c) (ready : s.readyList = next :: rest)
      (run : (s.setLoc s.currentThread (.ret old (.client c) .unit)).yieldTo next rest = .ok s') :
      Step K s [] s'
  | ret {old k r} (mode : s.mode = .running) (loc : s.loc s.currentThread = .ret old k r) :
      Step K s [.returned s.currentThread r]
        ((s.setLevel old).setLoc s.currentThread (.run k r))
  | waitAcquire {cond l old c r} (mode : s.mode = .running)
      (loc : s.loc s.currentThread = .run (.waitAcquire cond l old c) r) :
      Step K s [] ((s.setLevel .intOff).setLoc s.currentThread
        (.acquire (.queueLock cond) s.level (.waitSleep cond l old c)))
  | waitSleep {cond l old c r} (mode : s.mode = .running)
      (loc : s.loc s.currentThread = .run (.waitSleep cond l old c) r)
      (level : s.level = .intOff) :
      Step K s [.released s.currentThread (.queueLock cond)] (s.blockOnCond cond l old c)
  /-- `Wait`, after `Sleep`: `conditionLock->Acquire()`. -/
  | waitAwake {cond l old c} (mode : s.mode = .running)
      (loc : s.loc s.currentThread = .condAsleep cond l old c) :
      Step K s [] ((s.setLevel .intOff).setLoc s.currentThread
        (.acquire (.lock l) s.level (.waitReturn cond l old c)))
  | waitReturn {cond l old c r} (mode : s.mode = .running)
      (loc : s.loc s.currentThread = .run (.waitReturn cond l old c) r) :
      Step K s [] (s.setLoc s.currentThread (.ret old (.client c) (.waited cond l)))
  | signalDequeue {cond c r} (mode : s.mode = .running)
      (loc : s.loc s.currentThread = .run (.signalDequeue cond c) r) :
      Step K s [] (((s.dequeue cond).2.setLevel .intOff).setLoc s.currentThread
        (.release (.queueLock cond) s.level (.signalReady cond (s.dequeue cond).1 c)))
  | signalNone {cond c r} (mode : s.mode = .running)
      (loc : s.loc s.currentThread = .run (.signalReady cond none c) r) :
      Step K s [.signalled s.currentThread cond none]
        (s.setLoc s.currentThread (.run (.client c) (.thread none)))
  | signalReady {cond x c r} (mode : s.mode = .running)
      (loc : s.loc s.currentThread = .run (.signalReady cond (some x) c) r) :
      Step K s [.readied s.currentThread cond x, .signalled s.currentThread cond (some x)]
        ((s.readyToRun x).setLoc s.currentThread (.run (.client c) (.thread (some x))))
  | bcastDequeue {cond i c r} (mode : s.mode = .running)
      (loc : s.loc s.currentThread = .run (.bcastDequeue cond i c) r) :
      Step K s [] (((s.dequeue cond).2.setLevel .intOff).setLoc s.currentThread
        (.release (.queueLock cond) s.level (.bcastReady cond i (s.dequeue cond).1 c)))
  | bcastNone {cond i c r} (mode : s.mode = .running)
      (loc : s.loc s.currentThread = .run (.bcastReady cond i none c) r) :
      Step K s [.broadcasted s.currentThread cond i]
        (s.setLoc s.currentThread (.run (.client c) (.count i)))
  | bcastReady {cond i x c r} (mode : s.mode = .running)
      (loc : s.loc s.currentThread = .run (.bcastReady cond i (some x) c) r) :
      Step K s [.readied s.currentThread cond x]
        (((s.readyToRun x).setLevel .intOff).setLoc s.currentThread
          (.acquire (.queueLock cond) s.level (.bcastDequeue cond (i + 1) c)))
  /-- The timer takes the processor away in `OneTick`. -/
  | preempt {k r next rest s'} (mode : s.mode = .running)
      (loc : s.loc s.currentThread = .ret .intOn k r) (level : s.level = .intOff)
      (ready : s.readyList = next :: rest) (run : s.yieldTo next rest = .ok s') :
      Step K s [] s'
  | interrupt {h shared} (allowed : s.interruptible)
      (handler : K.handler h s.shared = .ok (shared, none)) : Step K s [] (s.handled shared)
  | interruptUp {h shared i} (allowed : s.interruptible)
      (handler : K.handler h s.shared = .ok (shared, some i)) :
      Step K s [] ((s.handled shared).raise i)
  | dispatch {next rest s'} (mode : s.mode ≠ .running) (ready : s.readyList = next :: rest)
      (run : { s with readyList := rest }.runThread next = .ok s') :
      Step K s [] s'

/-! ### Every step is a rule -/

/-- `Sleep` needs interrupts disabled. -/
lemma sleep_eq_ok {s s' : State C σ} (h : s.sleep = .ok s') :
    s.level = .intOff ∧ s' = { s.setStatus s.currentThread .blocked with mode := .asleep } := by
  unfold State.sleep at h
  split at h
  next hl => exact ⟨hl, (Except.ok.inj h).symm⟩
  next => cases h

lemma inTick_iff {s : State C σ} :
    s.inTick = true ↔ s.mode = .running ∧ s.level = .intOff ∧
      ∃ k r, s.loc s.currentThread = .ret .intOn k r := by
  unfold State.inTick
  constructor
  · intro h
    split at h
    next hm hl hv => exact ⟨hm, hv, _, _, hl⟩
    next => cases h
  · rintro ⟨hm, hv, k, r, hl⟩
    rw [hm, hv, hl]

/-- A device interrupts a running thread in `OneTick` only. -/
lemma inTick_of_running {s : State C σ} (h : s.interruptible) (hm : s.mode = .running) :
    s.mode = .running ∧ s.level = .intOff ∧ ∃ k r, s.loc s.currentThread = .ret .intOn k r := by
  refine inTick_iff.1 ?_
  simpa [State.interruptible, hm] using h

/-- `Scheduler::Run`, up to `SWITCH`. -/
def State.switchTo (s : State C σ) (next : Tid) : State C σ :=
  { s.setStatus next .running with currentThread := next, mode := .running }

/-- What `Scheduler::Run` can do: start a fresh thread, resume a thread, or resume a thread that
deletes the one that finished. -/
lemma runThread_cases {s s' : State C σ} {next : Tid} (h : s.runThread next = .ok s') :
    (∃ c, s.loc next = .fresh c ∧
      s' = (s.switchTo next).setLoc next (.ret .intOn (.client c) .unit)) ∨
    ((∀ c, s.loc next ≠ .fresh c) ∧ s.threadToBeDestroyed = none ∧ s' = s.switchTo next) ∨
    (∃ d, (∀ c, s.loc next ≠ .fresh c) ∧ s.threadToBeDestroyed = some d ∧ d ≠ next ∧
      s' = { (s.switchTo next).setLoc d .unborn with threadToBeDestroyed := none }) := by
  simp only [State.runThread] at h
  split at h
  next c hc =>
    cases h
    exact .inl ⟨c, hc, rfl⟩
  next hc =>
    simp only [State.reap] at h
    split at h
    next hd =>
      cases h
      exact .inr (.inl ⟨hc, hd, rfl⟩)
    next d hd =>
      split at h
      next => cases h
      next hne =>
        cases h
        exact .inr (.inr ⟨d, hc, hd, hne, rfl⟩)

section Rules

variable {K : Client C σ ι H} {s s' : State C σ} {es : List (Event C)}

lemma tryAcquire_rule {l : LockId} {old : IntStatus} {k : Kont C} (mode : s.mode = .running)
    (loc : s.loc s.currentThread = .acquire l old k ∨ s.loc s.currentThread = .lockAsleep l old k)
    (h : tryAcquire s l old k = .ok (es, s')) : Step K s es s' := by
  unfold tryAcquire at h
  split at h
  next free =>
    cases h
    exact .take mode loc free
  next busy =>
    obtain ⟨s₁, hs, h⟩ := bind_eq_ok h
    obtain ⟨level, rfl⟩ := sleep_eq_ok hs
    cases h
    exact .lockWait mode loc (eq_false_of_ne_true busy) level

lemma tryDown_rule {i : ℕ} {old : IntStatus} {c : C} (mode : s.mode = .running)
    (loc : s.loc s.currentThread = .down i old c ∨ s.loc s.currentThread = .semAsleep i old c)
    (h : tryDown s i old c = .ok (es, s')) : Step K s es s' := by
  unfold tryDown at h
  split at h
  next value =>
    obtain ⟨s₁, hs, h⟩ := bind_eq_ok h
    obtain ⟨level, rfl⟩ := sleep_eq_ok hs
    cases h
    exact .semWait mode loc value level
  next value =>
    cases h
    exact .down mode loc value

lemma resume_rule {k : Kont C} {r : Ret} (mode : s.mode = .running)
    (loc : s.loc s.currentThread = .run k r) (h : resume s k = .ok (es, s')) : Step K s es s' := by
  cases k with
  | client c => cases h
  | waitAcquire cond l old c =>
    cases h
    exact .waitAcquire mode loc
  | waitSleep cond l old c =>
    obtain ⟨s₁, hs, h⟩ := bind_eq_ok h
    obtain ⟨level, rfl⟩ := sleep_eq_ok hs
    cases h
    exact .waitSleep mode loc (by simpa [State.append, State.setQueue] using level)
  | waitReturn cond l old c =>
    cases h
    exact .waitReturn mode loc
  | signalDequeue cond c =>
    cases h
    exact .signalDequeue mode loc
  | signalReady cond thread c =>
    cases thread with
    | none => cases h; exact .signalNone mode loc
    | some x => cases h; exact .signalReady mode loc
  | bcastDequeue cond i c =>
    cases h
    exact .bcastDequeue mode loc
  | bcastReady cond i thread c =>
    cases thread with
    | none => cases h; exact .bcastNone mode loc
    | some x => cases h; exact .bcastReady mode loc

lemma enter_rule {input : ι} {new : Tid} {c : C} {r : Ret} {shared : σ} {call : Call C}
    (mode : s.mode = .running) (loc : s.loc s.currentThread = .run (.client c) r)
    (code : K.code input s.currentThread c r s.shared = .ok (shared, call))
    (h : enter new { s with shared := shared } call = .ok (es, s')) :
    Step K s (.ran s.currentThread c :: es) s' := by
  cases call with
  | acquire l c' => cases h; exact .call mode loc code (.acquire ..)
  | release l c' => cases h; exact .call mode loc code (.release ..)
  | wait cond l c' =>
    simp only [enter] at h
    split at h
    next held => cases h; exact .call mode loc code (.wait _ _ _ held)
    next => cases h
  | signal cond l c' =>
    simp only [enter] at h
    split at h
    next held => cases h; exact .call mode loc code (.signal _ _ _ held)
    next => cases h
  | broadcast cond l c' =>
    simp only [enter] at h
    split at h
    next held => cases h; exact .call mode loc code (.broadcast _ _ _ held)
    next => cases h
  | down i c' => cases h; exact .call mode loc code (.down ..)
  | up i c' => cases h; exact .call mode loc code (.up ..)
  | yield c' => cases h; exact .call mode loc code (.yield ..)
  | setLevel now c' => cases h; exact .call mode loc code (.setLevel ..)
  | oneTick c' => cases h; exact .call mode loc code (.oneTick ..)
  | skip c' => cases h; exact .call mode loc code (.skip ..)
  | fork first c' =>
    simp only [enter] at h
    split at h
    next unborn => cases h; exact .fork mode loc code unborn
    next => cases h
  | finish => cases h; exact .finish mode loc code

lemma runStep_rule {input : ι} {new : Tid} (mode : s.mode = .running)
    (h : runStep K input new s = .ok (es, s')) : Step K s es s' := by
  simp only [runStep] at h
  split at h
  next loc =>
    split at h
    next => cases h
    next code =>
      split at h
      next => cases h
      next he =>
        cases h
        exact enter_rule mode loc code he
  next k r _ loc => exact resume_rule mode loc h
  next loc => exact tryAcquire_rule mode (.inl loc) h
  next loc => exact tryAcquire_rule mode (.inr loc) h
  next loc => cases h; exact .release mode loc
  next loc => exact tryDown_rule mode (.inl loc) h
  next loc => exact tryDown_rule mode (.inr loc) h
  next loc => cases h; exact .up mode loc
  next old c loc =>
    split at h
    next ready => cases h; exact .yieldAlone mode loc ready
    next ready =>
      obtain ⟨s₁, run, h⟩ := bind_eq_ok h
      cases h
      exact .yield mode loc ready run
  next loc => cases h; exact .waitAwake mode loc
  next loc => cases h; exact .ret mode loc
  all_goals cases h

/-- **A step of the machine is a step by a rule.** -/
theorem step_rule {ch : Choice ι H} (h : step K ch s = .ok (es, s')) : Step K s es s' := by
  cases ch with
  | run input new =>
    simp only [step] at h
    split at h
    next mode => exact runStep_rule mode h
    next => cases h
  | preempt =>
    simp only [step] at h
    split at h
    next tick ready =>
      obtain ⟨mode, level, k, r, loc⟩ := inTick_iff.1 tick
      obtain ⟨s₁, run, h⟩ := bind_eq_ok h
      cases h
      exact .preempt mode loc level ready run
    next => cases h
  | interrupt i =>
    simp only [step] at h
    split at h
    next allowed =>
      split at h
      next => cases h
      next handler =>
        split at h
        · cases h; exact .interrupt allowed handler
        · cases h; exact .interruptUp allowed handler
    next => cases h
  | dispatch =>
    simp only [step] at h
    split at h
    next => cases h
    next => cases h
    next ready mode =>
      obtain ⟨s₁, run, h⟩ := bind_eq_ok h
      cases h
      exact .dispatch mode ready run

end Rules

/-- The runs of the kernel with a client, from its initial state. -/
abbrev KernelRun (K : Client C σ ι H) (s₀ : State C σ) : List (Event C) → State C σ → Prop :=
  Lib.Run (Lib.StepOf (step K)) s₀

lemma KernelRun.rules {K : Client C σ ι H} {s₀ s : State C σ} {tr : List (Event C)}
    (h : KernelRun K s₀ tr s) : Lib.Run (Step K) s₀ tr s :=
  h.mono fun ⟨_, hc⟩ => step_rule hc

end Nachos.Threads
