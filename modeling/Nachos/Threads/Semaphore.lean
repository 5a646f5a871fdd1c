import Mathlib.Data.Set.Card
import Nachos.Threads.Client

/-!
# Semaphores

`V` increments the value and makes one waiter ready; it gives the unit to nobody. A `P` that comes
before that waiter runs takes the unit, and the waiter goes back to the queue. A `P` is done when it
has decremented the value; the number of these and of the calls of `V` is read off the steps of a
run, and compared with the value.
-/

namespace Nachos.Threads

variable {C σ ι H : Type}

/-! ### What is seen of the semaphores -/

/-- A `P` that takes a unit, and a `V`. -/
inductive SemEvent where
  | down (t : Tid) (i : ℕ)
  | up (i : ℕ)
  deriving DecidableEq

/-- The number of times that `P` of a semaphore was done. -/
def downs (i : ℕ) (es : List SemEvent) : ℕ :=
  es.countP fun e => match e with
    | .down _ j => j = i
    | .up _ => false

/-- The number of times that `V` of a semaphore was called. -/
def ups (i : ℕ) (es : List SemEvent) : ℕ := es.count (.up i)

/-- What the running thread does as it goes on. -/
def State.semEvents (s : State C σ) : List SemEvent :=
  match s.mode, s.loc s.currentThread with
  | .running, .down i _ _ => if s.value i = 0 then [] else [.down s.currentThread i]
  | .running, .semAsleep i _ _ => if s.value i = 0 then [] else [.down s.currentThread i]
  | .running, .up i _ _ => [.up i]
  | _, _ => []

/-- What a step does; an interrupt handler may call `V`. -/
def semEvents (K : Client C σ ι H) : Choice ι H → State C σ → List SemEvent
  | .interrupt h, s =>
    match K.handler h s.shared with
    | .ok (_, some i) => [.up i]
    | _ => []
  | _, s => s.semEvents

/-- One step of the machine, which shows what it does to the semaphores. -/
def semStep (K : Client C σ ι H) : Choice ι H → State C σ → Except Fault (List SemEvent × State C σ) :=
  Lib.observed (step K) (semEvents K)

/-- `w` slept in `P`, a `V` took it off the queue, and it has not tested the value again. -/
structure Dequeued (s : State C σ) (i : ℕ) (w : Tid) : Prop where
  asleep : (s.loc w).sleepsOn = some (.sem i)
  off : w ∉ s.queue (.sem i)

/-! ### The ways in which a step changes a semaphore -/

/-- The running thread tests the value: it was not dequeued before, or it is not any more. -/
def Tests (s : State C σ) (i : ℕ) (s' : State C σ) : Prop :=
  (∀ w, Dequeued s' i w ↔ Dequeued s i w) ∨
    (Dequeued s i s.currentThread ∧
      ∀ w, Dequeued s' i w ↔ Dequeued s i w ∧ w ≠ s.currentThread)

inductive SemMove (i : ℕ) (s : State C σ) (es : List SemEvent) (s' : State C σ) : Prop
  | idle (value : s'.value i = s.value i) (queue : s'.queue (.sem i) = s.queue (.sem i))
      (downs : downs i es = 0) (ups : ups i es = 0)
      (dequeued : ∀ w, Dequeued s' i w ↔ Dequeued s i w)
  | down (value : s.value i ≠ 0) (value' : s'.value i = s.value i - 1)
      (queue : s'.queue (.sem i) = s.queue (.sem i)) (downs : downs i es = 1) (ups : ups i es = 0)
      (tests : Tests s i s')
  | wait (value : s.value i = 0) (value' : s'.value i = 0) (downs : downs i es = 0)
      (ups : ups i es = 0) (tests : Tests s i s')
  | up (value' : s'.value i = s.value i + 1) (queue : s'.queue (.sem i) = (s.queue (.sem i)).tail)
      (downs : downs i es = 0) (ups : ups i es = 1)
      (dequeued : ∀ w, Dequeued s' i w ↔ Dequeued s i w ∨ (s.queue (.sem i)).head? = some w)

section Steps

variable {K : Client C σ ι H} {s s' : State C σ} {i : ℕ} {es : List (Event C)}

/-- The client without its interrupt handlers. -/
def Client.quiet (K : Client C σ ι H) : Client C σ ι H :=
  { K with handler := fun _ _ => .error .disabled }

/-- A step is an interrupt, or one that needs no handler. -/
lemma step_interrupt_or {ch : Choice ι H} (h : step K ch s = .ok (es, s')) :
    (∃ d shared v, ch = .interrupt d ∧ s.interruptible ∧ K.handler d s.shared = .ok (shared, v) ∧
      s' = v.elim (s.handled shared) (s.handled shared).raise) ∨
    ((∀ d, ch ≠ .interrupt d) ∧ Step K.quiet s es s') := by
  cases ch with
  | interrupt d =>
    simp only [step] at h
    split at h
    next allowed =>
      split at h
      next => cases h
      next shared v handler =>
        left
        cases v with
        | none =>
          cases h
          exact ⟨d, shared, none, rfl, allowed, handler, rfl⟩
        | some i =>
          cases h
          exact ⟨d, shared, some i, rfl, allowed, handler, rfl⟩
    next => cases h
  | run input new =>
    have h' : step K.quiet (.run input new) s = .ok (es, s') := h
    exact .inr ⟨fun d hd => (by cases hd), step_rule h'⟩
  | preempt =>
    have h' : step K.quiet .preempt s = .ok (es, s') := h
    exact .inr ⟨fun d hd => (by cases hd), step_rule h'⟩
  | dispatch =>
    have h' : step K.quiet .dispatch s = .ok (es, s') := h
    exact .inr ⟨fun d hd => (by cases hd), step_rule h'⟩

lemma Moved.sleepsOn {l l' : Loc C} (h : Moved l l') : l'.sleepsOn = l.sleepsOn := by
  cases h <;> rfl

/-- The places in which a thread sleeps in `P`. -/
lemma Loc.eq_of_sleepsOn_sem {l : Loc C} (h : l.sleepsOn = some (.sem i)) :
    ∃ old c, l = .semAsleep i old c := by
  cases l <;> cases h
  exact ⟨_, _, rfl⟩

/-- A thread goes to sleep in `P` from its test. -/
lemma Goes.sleepsOn_sem {l l' : Loc C} (h : Goes s es l l') (hl : l'.sleepsOn = some (.sem i)) :
    ∃ old c, l = .down i old c ∨ l = .semAsleep i old c := by
  cases h with
  | semWait => cases hl; exact ⟨_, _, .inl rfl⟩
  | semWaitAgain => cases hl; exact ⟨_, _, .inr rfl⟩
  | call entry => cases entry <;> cases hl
  | ret | tick | _ => cases hl

/-- A thread that does not run stays dequeued as long as the queue is the same for it. -/
lemma dequeued_other (hp : Placed s) (hs : Step K s es s') {w : Tid}
    (hw : s.mode = .running → w ≠ s.currentThread) :
    Dequeued s' i w ↔ (s.loc w).sleepsOn = some (.sem i) ∧ w ∉ s'.queue (.sem i) := by
  rw [← (hs.moved hp hw).sleepsOn]
  exact ⟨fun h => ⟨h.asleep, h.off⟩, fun h => ⟨h.1, h.2⟩⟩

/-- The running thread is not at the test of the semaphore. -/
def NotTesting (s : State C σ) (i : ℕ) : Prop :=
  s.mode = .running → ∀ old c, s.loc s.currentThread ≠ .down i old c ∧
    s.loc s.currentThread ≠ .semAsleep i old c

lemma dequeued_of_notTesting (hp : Placed s) (hs : Step K s es s') (hn : NotTesting s i)
    {w : Tid} : Dequeued s' i w ↔ (s.loc w).sleepsOn = some (.sem i) ∧ w ∉ s'.queue (.sem i) := by
  by_cases hw : s.mode = .running ∧ w = s.currentThread
  · obtain ⟨hm, rfl⟩ := hw
    refine iff_of_false (fun h => ?_) (fun h => ?_)
    · obtain ⟨old, c, hl | hl⟩ := (hs.goes hp hm).sleepsOn_sem h.asleep
      · exact (hn hm old c).1 hl
      · exact (hn hm old c).2 hl
    · obtain ⟨old, c, hl⟩ := Loc.eq_of_sleepsOn_sem h.1
      exact (hn hm old c).2 hl
  · exact dequeued_other hp hs fun hm he => hw ⟨hm, he⟩

lemma wake_queue_sem {q : QueueId} (hq : q ≠ .sem i) : (s.wake q).queue (.sem i) = s.queue (.sem i) := by
  rw [State.wake_queue]
  exact Function.update_of_ne (Ne.symm hq) _ _

lemma releaseLock_queue_sem (l : LockId) : (s.releaseLock l).queue (.sem i) = s.queue (.sem i) := by
  unfold State.releaseLock
  split
  · exact wake_queue_sem (s := s.setLock l ⟨true, none⟩) (by simp)
  · rfl

lemma setQueue_queue_of_ne {q q' : QueueId} (h : q' ≠ q) (ts : List Tid) :
    (s.setQueue q ts).queue q' = s.queue q' :=
  Function.update_of_ne h ..

lemma block_queue_of_ne {q q' : QueueId} (h : q' ≠ q) (l : Loc C) :
    (s.block q l).queue q' = s.queue q' :=
  setQueue_queue_of_ne h _

lemma block_queue_self (q : QueueId) (l : Loc C) :
    (s.block q l).queue q = s.queue q ++ [s.currentThread] :=
  Function.update_self ..

lemma dequeue_queue_sem (cond : ℕ) : (s.dequeue cond).2.queue (.sem i) = s.queue (.sem i) := by
  unfold State.dequeue
  split
  · rfl
  · exact setQueue_queue_of_ne (by simp) _

lemma raise_value (j : ℕ) : (s.raise j).value = Function.update s.value j (s.value j + 1) := by
  simp [State.raise, State.setValue]

lemma raise_queue (j : ℕ) :
    (s.raise j).queue = Function.update s.queue (.sem j) (s.queue (.sem j)).tail :=
  s.wake_queue _

/-- The running thread is at a `P` or a `V` of the semaphore. -/
def AtSem (s : State C σ) (i : ℕ) : Prop :=
  ∃ old c, s.loc s.currentThread = .down i old c ∨ s.loc s.currentThread = .semAsleep i old c ∨
    s.loc s.currentThread = .up i old c

/-- Other code leaves the semaphore alone. -/
lemma Step.sem_frame (hs : Step K.quiet s es s') (hn : s.mode = .running → ¬ AtSem s i) :
    s'.value i = s.value i ∧ s'.queue (.sem i) = s.queue (.sem i) := by
  cases hs with
  | @down j old c mode loc value =>
    have hji : i ≠ j := by
      rintro rfl
      exact hn mode ⟨old, c, loc.imp_right .inl⟩
    exact ⟨Function.update_of_ne hji _ _, rfl⟩
  | @semWait j old c mode loc value level =>
    have hji : i ≠ j := by
      rintro rfl
      exact hn mode ⟨old, c, loc.imp_right .inl⟩
    exact ⟨rfl, block_queue_of_ne (by simpa using hji) _⟩
  | @up j old c mode loc =>
    have hji : i ≠ j := by
      rintro rfl
      exact hn mode ⟨old, c, .inr (.inr loc)⟩
    refine ⟨?_, wake_queue_sem (by simpa using Ne.symm hji)⟩
    exact (congrFun (raise_value j) i).trans (Function.update_of_ne hji _ _)
  | lockWait mode loc busy level => exact ⟨rfl, block_queue_of_ne (by simp) _⟩
  | release mode loc => exact ⟨congrFun (s.releaseLock_value _) i, releaseLock_queue_sem _⟩
  | @waitSleep cond _ _ _ _ mode loc level =>
    refine ⟨congrFun ((s.append (.cond cond)).releaseLock_value _) i, ?_⟩
    exact (releaseLock_queue_sem (s := s.append (.cond cond)) _).trans
      (setQueue_queue_of_ne (by simp) _)
  | signalDequeue mode loc | bcastDequeue mode loc =>
    refine ⟨?_, dequeue_queue_sem _⟩
    show (s.dequeue _).2.value i = s.value i
    unfold State.dequeue
    split <;> rfl
  | yield mode loc ready run =>
    obtain ⟨-, hqueue, -, hvalue, -⟩ := yieldTo_frame run
    exact ⟨congrFun hvalue i, congrFun hqueue _⟩
  | preempt mode loc level ready run =>
    obtain ⟨-, hqueue, -, hvalue, -⟩ := yieldTo_frame run
    exact ⟨congrFun hvalue i, congrFun hqueue _⟩
  | dispatch mode ready run =>
    obtain ⟨-, hqueue, -, hvalue, -⟩ := runThread_frame run
    exact ⟨congrFun hvalue i, congrFun hqueue _⟩
  | interruptUp allowed handler => cases handler
  | _ => exact ⟨rfl, rfl⟩

/-- The events of other code are not about the semaphore. -/
lemma semEvents_of_not_atSem (hn : s.mode = .running → ¬ AtSem s i) :
    downs i s.semEvents = 0 ∧ ups i s.semEvents = 0 := by
  unfold State.semEvents
  split
  next j old c mode loc =>
    have hji : j ≠ i := by
      rintro rfl
      exact hn mode ⟨old, c, .inl loc⟩
    split <;> simp [downs, ups, hji]
  next j old c mode loc =>
    have hji : j ≠ i := by
      rintro rfl
      exact hn mode ⟨old, c, .inr (.inl loc)⟩
    split <;> simp [downs, ups, hji]
  next j old c mode loc =>
    have hji : j ≠ i := by
      rintro rfl
      exact hn mode ⟨old, c, .inr (.inr loc)⟩
    simp [downs, ups, hji]
  next => exact ⟨rfl, rfl⟩

/-- The head of the queue is dequeued. -/
lemma dequeued_of_up (hp : Placed s) {w : Tid} (hqueue : s'.queue (.sem i) = (s.queue (.sem i)).tail) :
    (s.loc w).sleepsOn = some (.sem i) ∧ w ∉ s'.queue (.sem i) ↔
      Dequeued s i w ∨ (s.queue (.sem i)).head? = some w := by
  rw [hqueue]
  constructor
  · rintro ⟨hs, hw⟩
    by_cases hq : w ∈ s.queue (.sem i)
    · right
      cases hqs : s.queue (.sem i) with
      | nil => rw [hqs] at hq; cases hq
      | cons x rest =>
        rw [hqs] at hq hw
        rw [List.head?_cons, (List.mem_cons.1 hq).resolve_right hw]
    · exact .inl ⟨hs, hq⟩
  · rintro (h | h)
    · exact ⟨h.asleep, fun hw => h.off (List.mem_of_mem_tail hw)⟩
    · have hmem := List.mem_of_head? h
      refine ⟨hp.queued _ w hmem, fun hw => ?_⟩
      have hnd := hp.queue_nodup (.sem i)
      cases hqs : s.queue (.sem i) with
      | nil => rw [hqs] at hmem; cases hmem
      | cons x rest =>
        rw [hqs] at h hw hnd
        cases h
        exact (List.nodup_cons.1 hnd).1 hw

/-- A `V` by an interrupt handler. -/
lemma semMove_raise (hp : Placed s) (j : ℕ) : SemMove i s [.up j] (s.raise j) := by
  have hloc : (s.raise j).loc = s.loc := s.wake_loc _
  by_cases hji : j = i
  · subst hji
    have hqueue := (congrFun (raise_queue (s := s) j) (.sem j)).trans (Function.update_self ..)
    refine .up ((congrFun (raise_value j) j).trans (Function.update_self ..)) hqueue rfl
      (by simp [ups]) fun w => ?_
    rw [← dequeued_of_up hp hqueue, ← hloc]
    exact ⟨fun h => ⟨h.asleep, h.off⟩, fun h => ⟨h.1, h.2⟩⟩
  · have hqueue : (s.raise j).queue (.sem i) = s.queue (.sem i) :=
      wake_queue_sem (by simpa using hji)
    refine .idle ((congrFun (raise_value j) i).trans (Function.update_of_ne (Ne.symm hji) ..)) hqueue
      rfl (by simp [ups, hji]) fun w => ⟨fun h => ⟨?_, ?_⟩, fun h => ⟨?_, ?_⟩⟩
    · exact hloc ▸ h.asleep
    · exact hqueue ▸ h.off
    · exact hloc ▸ h.asleep
    · exact hqueue ▸ h.off

/-- **The steps of the threads**, seen from one semaphore. -/
theorem Step.semMove (hp : Placed s) (hs : Step K.quiet s es s') : SemMove i s s.semEvents s' := by
  by_cases hat : s.mode = .running ∧ AtSem s i
  swap
  · -- other code
    have hn : s.mode = .running → ¬ AtSem s i := fun hm h => hat ⟨hm, h⟩
    obtain ⟨hvalue, hqueue⟩ := hs.sem_frame hn
    obtain ⟨hdowns, hups⟩ := semEvents_of_not_atSem hn
    refine .idle hvalue hqueue hdowns hups fun w => ?_
    rw [dequeued_of_notTesting hp hs, hqueue]
    · exact ⟨fun h => ⟨h.1, h.2⟩, fun h => ⟨h.asleep, h.off⟩⟩
    · exact fun hm old c => ⟨fun h => hn hm ⟨old, c, .inl h⟩, fun h => hn hm ⟨old, c, .inr (.inl h)⟩⟩
  obtain ⟨hm, old, c, hloc⟩ := hat
  obtain ⟨-, -, hu⟩ := hp.running hm
  -- a thread at the test was dequeued if it slept
  have htests : (∃ old c, s.loc s.currentThread = .down i old c ∨
        s.loc s.currentThread = .semAsleep i old c) →
      ¬ Dequeued s' i s.currentThread →
      (∀ x, x ≠ s.currentThread → (x ∈ s'.queue (.sem i) ↔ x ∈ s.queue (.sem i))) →
      Tests s i s' := by
    rintro ⟨old, c, hl⟩ hnot hqueue
    have hother : ∀ w, w ≠ s.currentThread → (Dequeued s' i w ↔ Dequeued s i w) := by
      intro w hw
      rw [dequeued_other hp hs fun _ => hw, hqueue w hw]
      exact ⟨fun h => ⟨h.1, h.2⟩, fun h => ⟨h.asleep, h.off⟩⟩
    rcases hl with hl | hl
    · refine .inl fun w => ?_
      by_cases hw : w = s.currentThread
      · subst hw
        refine iff_of_false hnot fun h => ?_
        have := h.asleep
        rw [hl] at this
        cases this
      · exact hother w hw
    · refine .inr ⟨⟨by rw [hl]; rfl, hu.queue _⟩, fun w => ?_⟩
      by_cases hw : w = s.currentThread
      · exact iff_of_false (hw ▸ hnot) fun h => h.2 hw
      · rw [hother w hw]
        exact ⟨fun h => ⟨h, hw⟩, And.left⟩
  cases hs with
  | @down j old' c' mode loc value =>
    have hji : j = i := by
      rcases loc with loc | loc <;> rw [loc] at hloc <;> rcases hloc with h | h | h <;> cases h <;> rfl
    subst hji
    have hev : s.semEvents = [.down s.currentThread j] := by
      unfold State.semEvents
      rw [hm]
      rcases loc with loc | loc <;> rw [loc] <;> exact if_neg value
    rw [hev]
    refine .down value (Function.update_self ..) rfl (by simp [downs]) (by simp [ups])
      (htests ⟨old', c', loc⟩ (fun h => ?_) fun x _ => Iff.rfl)
    have := h.asleep
    rw [setLoc_self] at this
    cases this
  | @semWait j old' c' mode loc value level =>
    have hji : j = i := by
      rcases loc with loc | loc <;> rw [loc] at hloc <;> rcases hloc with h | h | h <;> cases h <;> rfl
    subst hji
    have hev : s.semEvents = [] := by
      unfold State.semEvents
      rw [hm]
      rcases loc with loc | loc <;> rw [loc] <;> exact if_pos value
    have hqueue := block_queue_self (s := s) (.sem j) (.semAsleep j old' c')
    rw [hev]
    refine .wait value value rfl rfl (htests ⟨old', c', loc⟩ (fun h => h.off ?_) fun x hx => ?_)
    · rw [hqueue]
      exact List.mem_append_right _ List.mem_cons_self
    · rw [hqueue, List.mem_append, List.mem_singleton, or_iff_left hx]
  | @up j old' c' mode loc =>
    have hji : j = i := by
      rw [loc] at hloc
      rcases hloc with h | h | h <;> cases h
      rfl
    subst hji
    have hev : s.semEvents = [.up j] := by
      unfold State.semEvents
      rw [hm, loc]
    have hn : NotTesting s j := by
      intro _ old c
      rw [loc]
      exact ⟨fun h => (by cases h), fun h => (by cases h)⟩
    have hqueue := (congrFun (raise_queue (s := s) j) (.sem j)).trans (Function.update_self ..)
    rw [hev]
    refine .up ((congrFun (raise_value j) j).trans (Function.update_self ..)) hqueue rfl
      (by simp [ups]) fun w => ?_
    have hs' : Step K.quiet s [] ((s.raise j).setLoc s.currentThread (.ret old' (.client c') .unit)) :=
      .up mode loc
    rw [dequeued_of_notTesting hp hs' hn]
    exact dequeued_of_up hp hqueue
  | interrupt allowed handler => cases handler
  | interruptUp allowed handler => cases handler
  | dispatch mode ready run => exact absurd hm mode
  | take mode loc | lockWait mode loc =>
    rcases loc with loc | loc <;> rw [loc] at hloc <;> rcases hloc with h | h | h <;> cases h
  | _ mode loc =>
    rw [loc] at hloc
    rcases hloc with h | h | h <;> cases h

/-- In `P` of the semaphore, before it is done. -/
def Loc.tests (i : ℕ) : Loc C → Bool
  | .down j _ _ => j = i
  | .semAsleep j _ _ => j = i
  | _ => false

lemma Loc.tests_iff {l : Loc C} : l.tests i = true ↔
    ∃ old c, l = .down i old c ∨ l = .semAsleep i old c := by
  cases l <;> simp [Loc.tests, eq_comm]

lemma Moved.tests {l l' : Loc C} (h : Moved l l') : l'.tests i = l.tests i := by
  cases h <;> rfl

/-- Code outside the client that is not in `P` does not get there. -/
lemma Goes.tests {l l' : Loc C} (h : Goes s es l l') (hk : ∀ e ∈ es, ¬ e.IsRan)
    (hl : l.tests i = false) : l'.tests i = false := by
  cases h with
  | call | fork | finish => exact absurd trivial (hk _ List.mem_cons_self)
  | semWait | semWaitAgain => exact hl
  | _ => rfl

/-- A call of the client leads into `P` when it is one. -/
lemma After.tests {l : Loc C} {call : Call C} (h : After s call l) :
    l.tests i = true ↔ ∃ c, call = .down i c := by
  cases h with
  | entry h => cases h <;> simp [Loc.tests, eq_comm]
  | fork | finish => simp [Loc.tests]

/-- **The steps of the kernel without `V`**: somebody is done with `P`, or all stay where they were
in it. -/
theorem Step.tests (hp : Placed s) (hs : Step K.quiet s es s') (hk : ∀ e ∈ es, ¬ e.IsRan)
    (hup : s.mode = .running → ∀ j old c, s.loc s.currentThread ≠ .up j old c) :
    (s'.value i = s.value i ∧ ∀ t, (s'.loc t).tests i = (s.loc t).tests i) ∨
      (s.mode = .running ∧ (s.loc s.currentThread).tests i = true ∧ s.value i ≠ 0 ∧
        s'.value i = s.value i - 1 ∧ (s'.loc s.currentThread).tests i = false ∧
        ∀ t, t ≠ s.currentThread → (s'.loc t).tests i = (s.loc t).tests i) := by
  have hother : ∀ t, (s.mode = .running → t ≠ s.currentThread) →
      (s'.loc t).tests i = (s.loc t).tests i := fun t ht => (hs.moved hp ht).tests
  by_cases hat : s.mode = .running ∧ AtSem s i
  swap
  · left
    refine ⟨(hs.sem_frame fun hm h => hat ⟨hm, h⟩).1, fun t => ?_⟩
    by_cases ht : s.mode = .running ∧ t = s.currentThread
    · obtain ⟨hm, rfl⟩ := ht
      have hf : (s.loc s.currentThread).tests i = false := by
        by_contra htrue
        obtain ⟨old, c, hl⟩ := Loc.tests_iff.1 (Bool.not_eq_false _ ▸ htrue)
        exact hat ⟨hm, old, c, hl.imp_right .inl⟩
      rw [hf, (hs.goes hp hm).tests hk hf]
    · exact hother t fun hm he => ht ⟨hm, he⟩
  obtain ⟨hm, old, c, hloc⟩ := hat
  have htests : (s.loc s.currentThread).tests i = true := by
    refine Loc.tests_iff.2 ⟨old, c, ?_⟩
    rcases hloc with h | h | h
    · exact .inl h
    · exact .inr h
    · exact absurd h (hup hm i old c)
  cases hs with
  | @down j old' c' mode loc value =>
    have hji : j = i := by
      rcases loc with loc | loc <;> rw [loc] at hloc <;> rcases hloc with h | h | h <;> cases h <;> rfl
    subst hji
    refine .inr ⟨hm, htests, value, Function.update_self .., ?_, fun t ht => hother t fun _ => ht⟩
    rw [setLoc_self]
    rfl
  | @semWait j old' c' mode loc value level =>
    refine .inl ⟨rfl, fun t => ?_⟩
    by_cases ht : t = s.currentThread
    · subst ht
      rw [htests]
      have hji : j = i := by
        rcases loc with loc | loc <;> rw [loc] at hloc <;> rcases hloc with h | h | h <;> cases h <;>
          rfl
      rw [show (s.block (.sem j) (.semAsleep j old' c')).loc s.currentThread = _ from
        Function.update_self ..]
      exact decide_eq_true hji
    · exact hother t fun _ => ht
  | up mode loc => exact absurd loc (hup hm _ _ _)
  | interrupt allowed handler => cases handler
  | interruptUp allowed handler => cases handler
  | dispatch mode ready run => exact absurd hm mode
  | take mode loc | lockWait mode loc =>
    rcases loc with loc | loc <;> rw [loc] at hloc <;> rcases hloc with h | h | h <;> cases h
  | _ mode loc =>
    rw [loc] at hloc
    rcases hloc with h | h | h <;> cases h

/-- **The steps of the machine**, seen from one semaphore. -/
theorem semMove_of_step {ch : Choice ι H} (hp : Placed s) (h : step K ch s = .ok (es, s')) :
    SemMove i s (semEvents K ch s) s' := by
  rcases step_interrupt_or h with ⟨d, shared, v, rfl, -, handler, rfl⟩ | ⟨hd, hs⟩
  · have hev : semEvents K (.interrupt d) s = v.elim [] fun j => [.up j] := by
      rw [semEvents, handler]
      cases v <;> rfl
    have hhandled : ∀ w, Dequeued (s.handled shared) i w ↔ Dequeued s i w := fun w =>
      ⟨fun h => ⟨h.asleep, h.off⟩, fun h => ⟨h.asleep, h.off⟩⟩
    rw [hev]
    cases v with
    | none => exact .idle rfl rfl rfl rfl hhandled
    | some j =>
      have hmove : SemMove i (s.handled shared) [.up j] ((s.handled shared).raise j) :=
        semMove_raise (hp.handled shared) j
      cases hmove with
      | idle value queue hdowns hups dequeued =>
        exact .idle value queue hdowns hups fun w => (dequeued w).trans (hhandled w)
      | down value value' queue hdowns => cases hdowns
      | wait value value' hdowns hups tests =>
        exact .wait value value' hdowns hups (tests.imp (fun h w => (h w).trans (hhandled w))
          fun h => ⟨(hhandled _).1 h.1, fun w => (h.2 w).trans (and_congr_left' (hhandled w))⟩)
      | up value' queue hdowns hups dequeued =>
        exact .up value' queue hdowns hups fun w =>
          (dequeued w).trans (or_congr_left (hhandled w))
  · have hev : semEvents K ch s = s.semEvents := by
      cases ch with
      | interrupt d => exact absurd rfl (hd d)
      | _ => rfl
    rw [hev]
    exact hs.semMove hp

end Steps

/-! ### The invariant -/

/-- **The invariant of a semaphore** with the initial value `n`. -/
structure SemInv (i : ℕ) (n : ℤ) (tr : List SemEvent) (s : State C σ) : Prop where
  nonneg : 0 ≤ s.value i
  count : s.value i + downs i tr = n + ups i tr
  finite : {w | Dequeued s i w}.Finite
  enough : s.queue (.sem i) ≠ [] → s.value i ≤ {w | Dequeued s i w}.ncard

section Invariant

variable {K : Client C σ ι H} {s s' : State C σ} {i : ℕ} {n : ℤ} {tr es : List SemEvent}

lemma downs_append : downs i (tr ++ es) = downs i tr + downs i es := List.countP_append

lemma ups_append : ups i (tr ++ es) = ups i tr + ups i es := List.count_append

/-- After a test, at most the thread that made it is not dequeued any more. -/
lemma Tests.ncard (h : Tests s i s') (hf : {w | Dequeued s i w}.Finite) :
    {w | Dequeued s' i w}.Finite ∧
      {w | Dequeued s i w}.ncard ≤ {w | Dequeued s' i w}.ncard + 1 := by
  rcases h with h | ⟨hc, h⟩
  · have heq : {w | Dequeued s' i w} = {w | Dequeued s i w} := Set.ext h
    rw [heq]
    exact ⟨hf, Nat.le_succ _⟩
  · have heq : {w | Dequeued s' i w} = {w | Dequeued s i w} \ {s.currentThread} := Set.ext h
    have hmem : s.currentThread ∈ {w | Dequeued s i w} := hc
    rw [heq, Set.ncard_sdiff_singleton_add_one hmem hf]
    exact ⟨hf.sdiff, le_rfl⟩

/-- Every step keeps the invariant. -/
lemma SemInv.move (h : SemInv i n tr s) (hm : SemMove i s es s') :
    SemInv i n (tr ++ es) s' := by
  have hnonneg := h.nonneg
  have hcount := h.count
  cases hm with
  | idle value queue hdowns hups dequeued =>
    have heq : {w | Dequeued s' i w} = {w | Dequeued s i w} := Set.ext dequeued
    refine ⟨by omega, ?_, heq ▸ h.finite, fun hq => ?_⟩
    · rw [downs_append, ups_append]
      omega
    · rw [value, heq]
      exact h.enough (queue ▸ hq)
  | down value value' queue hdowns hups tests =>
    obtain ⟨hfinite, hcard⟩ := tests.ncard h.finite
    refine ⟨by omega, ?_, hfinite, fun hq => ?_⟩
    · rw [downs_append, ups_append]
      omega
    · have henough := h.enough (queue ▸ hq)
      omega
  | wait value value' hdowns hups tests =>
    refine ⟨by omega, ?_, (tests.ncard h.finite).1, fun _ => by omega⟩
    rw [downs_append, ups_append]
    omega
  | up value' queue hdowns hups dequeued =>
    refine ⟨by omega, ?_, ?_, fun hq => ?_⟩
    · rw [downs_append, ups_append]
      omega
    · cases hhead : (s.queue (.sem i)).head? with
      | none =>
        refine h.finite.subset fun w hw => ?_
        rcases (dequeued w).1 hw with hw | hw
        · exact hw
        · rw [hhead] at hw
          cases hw
      | some x =>
        refine (h.finite.insert x).subset fun w hw => ?_
        rcases (dequeued w).1 hw with hw | hw
        · exact .inr hw
        · rw [hhead] at hw
          exact .inl (Option.some.inj hw).symm
    · -- the head of the queue is one more
      cases hqs : s.queue (.sem i) with
      | nil =>
        rw [queue, hqs] at hq
        exact absurd rfl hq
      | cons x rest =>
        have henough := h.enough (by rw [hqs]; exact List.cons_ne_nil _ _)
        have hx : x ∉ {w | Dequeued s i w} := fun hd => hd.off (by rw [hqs]; exact List.mem_cons_self)
        have heq : {w | Dequeued s' i w} = insert x {w | Dequeued s i w} := by
          ext w
          rw [Set.mem_ofPred_eq, dequeued, hqs, List.head?_cons, Option.some_inj, Set.mem_insert_iff,
            Set.mem_ofPred_eq, or_comm, eq_comm]
        rw [heq, Set.ncard_insert_of_notMem hx h.finite]
        omega

/-- The invariant holds in every run. -/
theorem SemInv.of_run {first : C} {value : ℕ → ℤ} {shared : σ} (hv : 0 ≤ value i)
    (h : Lib.Run (Lib.StepOf (semStep K)) (State.init first value shared) tr s) :
    SemInv i (value i) tr s := by
  refine (h.observed_invariant (I := fun tr s => SemInv i (value i) tr s)
    ⟨hv, rfl, ?_, fun hq => absurd rfl hq⟩ fun hr hi hstep => ?_).2
  · have hnone : {w | Dequeued (State.init first value shared) i w} = ∅ := by
      refine Set.eq_empty_of_forall_notMem fun w hw => ?_
      have hs := hw.asleep
      rcases init_loc first value shared w with hl | hl <;> rw [hl] at hs <;> cases hs
    rw [hnone]
    exact Set.finite_empty
  · exact hi.move (semMove_of_step (Placed.of_run hr) hstep)

end Invariant

/-! ### Two threads and a semaphore -/

end Nachos.Threads
