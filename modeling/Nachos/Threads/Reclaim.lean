import Mathlib.Data.List.Induction
import Nachos.Threads.Frame
import Nachos.Threads.Client

/-!
# The threads that finish

`Thread::Finish` cannot delete the thread it runs on. It leaves the thread in the one global
`threadToBeDestroyed`, and `Scheduler::Run` deletes it once `SWITCH` has returned in another
thread. A thread that runs for the first time does not return there: it comes out of `SWITCH` in
`ThreadRoot`, and deletes nothing. If it finishes before any other thread goes on, `Finish`
overwrites the global, and the first thread is never deleted.

So the finished threads are all deleted, once each, in exactly those runs in which some thread that
has run before gets the processor between any two calls of `Finish`.
-/

namespace Nachos.Threads

variable {C σ ι H : Type}

/-- What is seen of the threads that finish. -/
inductive ReapEvent where
  /-- `Finish`, with what it finds in `threadToBeDestroyed`. -/
  | finished (t : Tid) (old : Option Tid)
  /-- A thread comes out of `SWITCH` in `ThreadRoot`. -/
  | started (t : Tid)
  /-- `SWITCH` returns in `Run`, which deletes `threadToBeDestroyed`. -/
  | resumed (t : Tid) (deleted : Option Tid)
  deriving DecidableEq

/-- `Run` of a thread. -/
def State.reapSwitch (s : State C σ) (next : Tid) : List ReapEvent :=
  match s.loc next with
  | .fresh _ => [.started next]
  | _ => [.resumed next s.threadToBeDestroyed]

/-- `Run` of the next thread that is ready, if there is one. -/
def State.reapNext (s : State C σ) : List ReapEvent :=
  match s.readyList with
  | [] => []
  | next :: _ => s.reapSwitch next

/-- **What a step shows** of the threads that finish. -/
def reapEvents (K : Client C σ ι H) : Choice ι H → State C σ → List ReapEvent
  | .run input _, s =>
    match s.loc s.currentThread with
    | .run (.client c) r =>
      match K.code input s.currentThread c r s.shared with
      | .ok (_, .finish) => [.finished s.currentThread s.threadToBeDestroyed]
      | _ => []
    | .yield _ _ => s.reapNext
    | _ => []
  | .preempt, s => s.reapNext
  | .interrupt _, _ => []
  | .dispatch, s => s.reapNext

/-- The threads that finished, in order. -/
def finishedThreads : List ReapEvent → List Tid :=
  List.filterMap fun
    | .finished t _ => some t
    | _ => none

/-- The threads that `Run` deleted, in order. -/
def deletedThreads : List ReapEvent → List Tid :=
  List.filterMap fun
    | .resumed _ d => d
    | _ => none

/-- **Finished threads are reclaimed**: `Finish` overwrites no thread, the threads deleted and the
one still to be deleted are the threads that finished, one by one, and none of them is, or is about
to be, `currentThread`. -/
structure Reclaimed (os : List ReapEvent) (s : State C σ) : Prop where
  empty : ∀ t old, .finished t old ∈ os → old = none
  once : finishedThreads os = deletedThreads os ++ s.threadToBeDestroyed.toList
  other : ∀ t d, .resumed t (some d) ∈ os → d ≠ t
  ready : ∀ next ∈ s.readyList, s.threadToBeDestroyed ≠ some next

/-- Between any two calls of `Finish`, a thread that has run before gets the processor. -/
def Separated (os : List ReapEvent) : Prop :=
  ∀ pre t old mid u old' post,
    os = pre ++ .finished t old :: (mid ++ .finished u old' :: post) → ∃ v d, .resumed v d ∈ mid

/-! ### What a step does to `threadToBeDestroyed` -/

/-- The steps, by what they do to `threadToBeDestroyed`. -/
inductive Reaps (s : State C σ) : List ReapEvent → State C σ → Prop
  | keeps {s'} (slot : s'.threadToBeDestroyed = s.threadToBeDestroyed) : Reaps s [] s'
  | finishes {s'} (slot : s'.threadToBeDestroyed = some s.currentThread) :
      Reaps s [.finished s.currentThread s.threadToBeDestroyed] s'
  | starts {s' next} (slot : s'.threadToBeDestroyed = s.threadToBeDestroyed) :
      Reaps s [.started next] s'
  | resumes {s' next} (slot : s'.threadToBeDestroyed = none)
      (other : s.threadToBeDestroyed ≠ some next) :
      Reaps s [.resumed next s.threadToBeDestroyed] s'

section Steps

variable {K : Client C σ ι H} {s s' : State C σ} {es : List (Event C)}

lemma reapSwitch_of_fresh {next : Tid} {c : C} (h : s.loc next = .fresh c) :
    s.reapSwitch next = [.started next] := by
  simp only [State.reapSwitch, h]

lemma reapSwitch_of_resumed {next : Tid} (h : ∀ c, s.loc next ≠ .fresh c) :
    s.reapSwitch next = [.resumed next s.threadToBeDestroyed] := by
  unfold State.reapSwitch
  split
  next c hfresh => exact absurd hfresh (h c)
  next => rfl

/-- Only the running thread and the slot matter. -/
lemma Reaps.congr {s₁ : State C σ} {os : List ReapEvent} (h : Reaps s₁ os s')
    (hcur : s₁.currentThread = s.currentThread)
    (hslot : s₁.threadToBeDestroyed = s.threadToBeDestroyed) : Reaps s os s' := by
  cases h with
  | keeps slot => exact .keeps (slot.trans hslot)
  | finishes slot => rw [hcur, hslot]; exact .finishes (hcur ▸ slot)
  | starts slot => exact .starts (slot.trans hslot)
  | resumes slot other => rw [hslot] at other ⊢; exact .resumes slot other

lemma reapNext_of_ready {next : Tid} {rest : List Tid} (h : s.readyList = next :: rest) :
    s.reapNext = s.reapSwitch next := by
  simp only [State.reapNext, h]

/-- `Run` deletes the thread to be destroyed when it goes on with a thread that has run before. -/
lemma reaps_of_runThread {next : Tid} (run : s.runThread next = .ok s') :
    Reaps s (s.reapSwitch next) s' := by
  rcases runThread_cases run with ⟨c, hc, rfl⟩ | ⟨hc, hnone, rfl⟩ | ⟨d, hc, hsome, hne, rfl⟩
  · rw [reapSwitch_of_fresh hc]
    exact .starts rfl
  · rw [reapSwitch_of_resumed hc]
    exact .resumes hnone (by simp [hnone])
  · rw [reapSwitch_of_resumed hc]
    exact .resumes rfl (by simpa [hsome] using hne)

lemma reaps_of_yieldTo {next : Tid} {rest : List Tid} (run : s.yieldTo next rest = .ok s') :
    Reaps s (s.reapSwitch next) s' := by
  unfold State.yieldTo at run
  exact (reaps_of_runThread run).congr rfl rfl

/-- A call of the client. -/
lemma reaps_of_enter {new : Tid} {shared : σ} {call : Call C}
    (h : enter new { s with shared := shared } call = .ok (es, s')) :
    Reaps s (match call with
      | .finish => [.finished s.currentThread s.threadToBeDestroyed]
      | _ => []) s' := by
  cases call with
  | finish => cases h; exact .finishes rfl
  | wait | signal | broadcast | fork =>
    simp only [enter] at h
    split at h
    · cases h; exact .keeps rfl
    · cases h
  | _ => cases h; exact .keeps rfl

/-- The tests of `Acquire` and `P` do not touch the thread to be destroyed. -/
lemma slot_of_tryAcquire {l : LockId} {old : IntStatus} {k : Kont C}
    (h : tryAcquire s l old k = .ok (es, s')) :
    s'.threadToBeDestroyed = s.threadToBeDestroyed := by
  unfold tryAcquire at h
  split at h
  next =>
    cases h
    rfl
  next =>
    obtain ⟨s₁, hsleep, h⟩ := Lib.bind_eq_ok h
    obtain ⟨-, rfl⟩ := sleep_eq_ok hsleep
    cases h
    rfl

lemma slot_of_tryDown {i : ℕ} {old : IntStatus} {c : C} (h : tryDown s i old c = .ok (es, s')) :
    s'.threadToBeDestroyed = s.threadToBeDestroyed := by
  unfold tryDown at h
  split at h
  next =>
    obtain ⟨s₁, hsleep, h⟩ := Lib.bind_eq_ok h
    obtain ⟨-, rfl⟩ := sleep_eq_ok hsleep
    cases h
    rfl
  next =>
    cases h
    rfl

lemma slot_of_dequeue (cond : ℕ) :
    (s.dequeue cond).2.threadToBeDestroyed = s.threadToBeDestroyed := by
  unfold State.dequeue
  split <;> rfl

lemma slot_of_resume {k : Kont C} (h : resume s k = .ok (es, s')) :
    s'.threadToBeDestroyed = s.threadToBeDestroyed := by
  cases k with
  | client c => cases h
  | waitSleep cond l old c =>
    obtain ⟨s₁, hsleep, h⟩ := Lib.bind_eq_ok h
    obtain ⟨-, rfl⟩ := sleep_eq_ok hsleep
    cases h
    exact (s.append (.cond cond)).releaseLock_threadToBeDestroyed _
  | signalReady cond thread c => cases thread <;> (cases h; rfl)
  | bcastReady cond i thread c => cases thread <;> (cases h; rfl)
  | signalDequeue cond c => cases h; exact slot_of_dequeue cond
  | bcastDequeue cond i c => cases h; exact slot_of_dequeue cond
  | waitAcquire | waitReturn => cases h; rfl

/-- The running thread goes on. -/
lemma reaps_of_runStep (hp : Placed s) (hm : s.mode = .running) {input : ι} {new : Tid}
    (h : runStep K input new s = .ok (es, s')) : Reaps s (reapEvents K (.run input new) s) s' := by
  simp only [runStep] at h
  simp only [reapEvents]
  split at h
  next c r loc =>
    rw [loc]
    dsimp only
    split at h
    next => cases h
    next shared call hcode =>
      rw [hcode]
      split at h
      next => cases h
      next henter =>
        cases h
        have hreaps := reaps_of_enter henter
        cases call <;> exact hreaps
  next k r hk loc =>
    rw [loc]
    cases k with
    | client c => cases h
    | _ => exact .keeps (slot_of_resume h)
  next loc => rw [loc]; exact .keeps (slot_of_tryAcquire h)
  next loc => rw [loc]; exact .keeps (slot_of_tryAcquire h)
  next l _ _ loc => rw [loc]; cases h; exact .keeps (s.releaseLock_threadToBeDestroyed l)
  next loc => rw [loc]; exact .keeps (slot_of_tryDown h)
  next loc => rw [loc]; exact .keeps (slot_of_tryDown h)
  next i _ _ loc => rw [loc]; cases h; exact .keeps (s.wake_threadToBeDestroyed (.sem i))
  next old c loc =>
    rw [loc]
    dsimp only
    split at h
    next ready =>
      cases h
      simp only [State.reapNext, show s.readyList = [] from ready]
      exact .keeps rfl
    next next rest ready =>
      obtain ⟨s₁, run, h⟩ := Lib.bind_eq_ok h
      cases h
      have hready : s.readyList = next :: rest := ready
      have hne : next ≠ s.currentThread := by
        rintro rfl
        exact (hp.running hm).2.1 (hready ▸ List.mem_cons_self)
      have hswitch : (s.setLoc s.currentThread (.ret old (.client c) .unit)).reapSwitch next =
          s.reapSwitch next := by
        unfold State.reapSwitch
        rw [setLoc_of_ne _ _ hne]
        rfl
      rw [reapNext_of_ready hready, ← hswitch]
      exact (reaps_of_yieldTo run).congr rfl rfl
  next loc => rw [loc]; cases h; exact .keeps rfl
  next loc => rw [loc]; cases h; exact .keeps rfl
  all_goals cases h

/-- **Every step** keeps, fills, or empties the slot, as it shows. -/
theorem step_reaps (hp : Placed s) {ch : Choice ι H} (h : step K ch s = .ok (es, s')) :
    Reaps s (reapEvents K ch s) s' := by
  cases ch with
  | run input new =>
    simp only [step] at h
    split at h
    next hm => exact reaps_of_runStep hp hm h
    next => cases h
  | preempt =>
    simp only [step] at h
    split at h
    next next rest tick ready =>
      obtain ⟨s₁, run, h⟩ := Lib.bind_eq_ok h
      cases h
      rw [reapEvents, reapNext_of_ready ready]
      exact reaps_of_yieldTo run
    next => cases h
  | interrupt i =>
    simp only [step] at h
    split at h
    next allowed =>
      split at h
      next => cases h
      next shared v hhandler =>
        split at h
        · cases h
          exact .keeps rfl
        next i =>
          cases h
          exact .keeps ((s.handled shared).wake_threadToBeDestroyed (.sem i))
    next => cases h
  | dispatch =>
    simp only [step] at h
    split at h
    next => cases h
    next => cases h
    next next rest ready hm =>
      obtain ⟨s₁, run, h⟩ := Lib.bind_eq_ok h
      cases h
      rw [reapEvents, reapNext_of_ready ready]
      exact (reaps_of_runThread run).congr rfl rfl

end Steps

/-! ### The thread that waits to be deleted -/

/-- The thread that waits to be deleted, after some events. -/
def waitingThread : List ReapEvent → Option Tid :=
  List.foldl (fun w e => match e with
    | .finished t _ => some t
    | .started _ => w
    | .resumed _ _ => none) none

lemma waitingThread_concat (os : List ReapEvent) (e : ReapEvent) :
    waitingThread (os ++ [e]) = match e with
      | .finished t _ => some t
      | .started _ => waitingThread os
      | .resumed _ _ => none := by
  rw [waitingThread, List.foldl_append]
  cases e <;> rfl

/-- No thread waits to be deleted if a thread went on after the last `Finish`. -/
lemma waitingThread_eq_none {os : List ReapEvent} :
    waitingThread os = none ↔
      ∀ pre t old mid, os = pre ++ .finished t old :: mid → ∃ v d, .resumed v d ∈ mid := by
  induction os using List.reverseRecOn with
  | nil => exact ⟨fun _ pre t old mid h => (by cases pre <;> cases h), fun _ => rfl⟩
  | append_singleton os e ih =>
    rw [waitingThread_concat]
    cases e with
    | finished t old =>
      refine ⟨fun h => (Option.some_ne_none t h).elim, fun h => ?_⟩
      obtain ⟨v, d, hmem⟩ := h os t old [] rfl
      cases hmem
    | started t =>
      rw [ih]
      refine ⟨fun h pre t' old mid heq => ?_, fun h pre t' old mid heq => ?_⟩
      · obtain ⟨mid', hos, rfl⟩ | ⟨-, he, -⟩ := Lib.concat_eq_append_cons heq
        · obtain ⟨v, d, hmem⟩ := h pre t' old mid' hos
          exact ⟨v, d, List.mem_append_left _ hmem⟩
        · cases he
      · obtain ⟨v, d, hmem⟩ := h pre t' old (mid ++ [.started t]) (by rw [heq]; simp)
        rcases List.mem_append.1 hmem with hmem | hmem
        · exact ⟨v, d, hmem⟩
        · cases List.mem_singleton.1 hmem
    | resumed t d =>
      refine ⟨fun _ pre t' old mid heq => ?_, fun _ => rfl⟩
      obtain ⟨mid', -, rfl⟩ | ⟨-, he, -⟩ := Lib.concat_eq_append_cons heq
      · exact ⟨t, d, List.mem_append_right _ List.mem_cons_self⟩
      · cases he

/-- **What is known in every run**: the slot has the thread that waits, and `Finish` finds it
there; if none is ever overwritten, no thread is lost. -/
structure Slot (os : List ReapEvent) (s : State C σ) : Prop where
  waits : s.threadToBeDestroyed = waitingThread os
  found : ∀ pre t old post, os = pre ++ .finished t old :: post → old = waitingThread pre
  once : (∀ t old, .finished t old ∈ os → old = none) →
    finishedThreads os = deletedThreads os ++ s.threadToBeDestroyed.toList
  other : ∀ t d, .resumed t (some d) ∈ os → d ≠ t

section Runs

variable {K : Client C σ ι H} {s s' : State C σ} {os : List ReapEvent}

lemma slot_init (first : C) (value : ℕ → ℤ) (shared : σ) :
    Slot [] (State.init first value shared) where
  waits := rfl
  found pre t old post h := by cases pre <;> cases h
  once _ := rfl
  other t d h := by cases h

/-- What `Finish` finds, with one more event. -/
lemma Slot.found_concat (h : Slot os s) {e : ReapEvent}
    (he : ∀ t old, e = .finished t old → old = s.threadToBeDestroyed) :
    ∀ pre t old post, os ++ [e] = pre ++ .finished t old :: post → old = waitingThread pre := by
  intro pre t old post heq
  obtain ⟨mid, hos, -⟩ | ⟨rfl, rfl, -⟩ := Lib.concat_eq_append_cons heq
  · exact h.found pre t old mid hos
  · exact (he t old rfl).trans h.waits

lemma Slot.step (h : Slot os s) {new : List ReapEvent} (hs : Reaps s new s') :
    Slot (os ++ new) s' := by
  have hempty : ∀ e, (∀ t old, .finished t old ∈ os ++ [e] → old = none) →
      ∀ t old, .finished t old ∈ os → old = none :=
    fun e he t old hmem => he t old (List.mem_append_left _ hmem)
  cases hs with
  | keeps slot =>
    rw [List.append_nil]
    exact ⟨slot.trans h.waits, h.found, slot ▸ h.once, h.other⟩
  | finishes slot =>
    refine ⟨by rw [slot, waitingThread_concat], h.found_concat ?_, fun he => ?_, fun t d hmem => ?_⟩
    · intro t old heq
      cases heq
      rfl
    · have hnone := he s.currentThread s.threadToBeDestroyed (by simp)
      have honce := h.once (hempty _ he)
      rw [hnone] at honce
      rw [finishedThreads, deletedThreads, List.filterMap_append, List.filterMap_append, slot]
      rw [finishedThreads, deletedThreads] at honce
      simp [honce]
    · exact h.other t d (by simpa using hmem)
  | @starts _ next slot =>
    refine ⟨by rw [slot, waitingThread_concat, h.waits], h.found_concat nofun, fun he => ?_,
      fun t d hmem => h.other t d (by simpa using hmem)⟩
    have honce := h.once (hempty _ he)
    rw [finishedThreads, deletedThreads] at honce ⊢
    rw [List.filterMap_append, List.filterMap_append, slot]
    simpa using honce
  | @resumes _ next slot other =>
    refine ⟨by rw [slot, waitingThread_concat], h.found_concat nofun, fun he => ?_, fun t d hmem => ?_⟩
    · have honce := h.once (hempty _ he)
      rw [finishedThreads, deletedThreads] at honce ⊢
      rw [List.filterMap_append, List.filterMap_append, slot, honce]
      cases s.threadToBeDestroyed <;> simp
    · rcases List.mem_append.1 hmem with hmem | hmem
      · exact h.other t d hmem
      · obtain ⟨rfl, hd⟩ := ReapEvent.resumed.inj (List.mem_singleton.1 hmem)
        rintro rfl
        exact other hd.symm

/-- **Finished threads are reclaimed** in a run if and only if a thread that has run before gets the
processor between any two calls of `Finish`. -/
theorem reclaimed_iff_separated {first : C} {value : ℕ → ℤ} {shared : σ}
    (h : Lib.Run (Lib.StepOf (Lib.observed (step K) (reapEvents K)))
      (State.init first value shared) os s) : Reclaimed os s ↔ Separated os := by
  obtain ⟨-, hp, hslot⟩ := h.observed_invariant (I := fun os s => Placed s ∧ Slot os s)
    ⟨placed_init first value shared, slot_init first value shared⟩
    fun _ hi hs => ⟨hi.1.step (step_rule hs), hi.2.step (step_reaps hi.1 hs)⟩
  constructor
  · intro hr pre t old mid u old' post heq
    -- the second `Finish` finds nothing, so a thread went on after the first
    have hnone : old' = none := hr.empty u old' (by rw [heq]; simp)
    have hfound := hslot.found (pre ++ .finished t old :: mid) u old' post (by rw [heq]; simp)
    exact waitingThread_eq_none.1 (hfound.symm.trans hnone) pre t old mid rfl
  · intro hsep
    have hempty : ∀ t old, .finished t old ∈ os → old = none := by
      intro u old' hmem
      obtain ⟨pre', post, heq⟩ := List.append_of_mem hmem
      rw [hslot.found pre' u old' post heq, waitingThread_eq_none]
      intro pre t old mid hpre
      exact hsep pre t old mid u old' post (by rw [heq, hpre]; simp)
    refine ⟨hempty, hslot.once hempty, hslot.other, fun next hnext hdoomed => ?_⟩
    -- a ready thread has not finished
    have halive := (hp.ready next hnext).1
    rw [hp.doomed next hdoomed] at halive
    exact halive

end Runs

/-! ### Two threads that finish at once -/

/-- The places of a program that forks threads which do nothing. -/
inductive Idler where
  | fork (n : ℕ)
  | wait
  | body
  | finished
  deriving DecidableEq

/-- The main thread forks `n` threads and calls `Yield`; each of them returns at once. -/
def idlers : Client Idler Unit Unit Empty where
  code _ _ c _ shared :=
    match c with
    | .fork 0 => .ok (shared, .yield .wait)
    | .fork (n + 1) => .ok (shared, .fork .body (.fork n))
    | .wait => .ok (shared, .skip .finished)
    | .body => .ok (shared, .finish)
    | .finished => .ok (shared, .skip .finished)
  handler h := nomatch h

/-- The program that forks `n` threads. -/
def idlersStart (n : ℕ) : State Idler Unit := .init (.fork n) (fun _ => 0) ()

/-- Each of two new threads runs, and finishes, before the main thread goes on. -/
def bothFinish : List (Choice Unit Empty) :=
  [.run () 1, .run () 1, .run () 2, .run () 2, .run () 0, .run () 0, .run () 0, .run () 0, .dispatch,
    .run () 0, .run () 0]

/-- The main thread goes on after its only thread has finished. -/
def oneFinishes : List (Choice Unit Empty) :=
  [.run () 1, .run () 1, .run () 0, .run () 0, .run () 0, .run () 0, .dispatch]

/-- `Finish` of the second thread overwrites the first. -/
theorem not_reclaimed : ¬ ∀ os s,
    Lib.Run (Lib.StepOf (Lib.observed (step idlers) (reapEvents idlers))) (idlersStart 2) os s →
      Reclaimed os s := by
  intro hall
  obtain ⟨os, s, run, hos⟩ := Lib.run_of_passes (Lib.observed (step idlers) (reapEvents idlers))
    bothFinish (idlersStart 2) (fun os _ => decide (.finished 2 (some 1) ∈ os)) (by decide +kernel)
  cases (hall os s run).empty 2 (some 1) (of_decide_eq_true hos)

/-- The only thread that finishes is deleted. -/
theorem reclaimed_iff_separated_oneFinishes : ∃ os s,
    Lib.Run (Lib.StepOf (Lib.observed (step idlers) (reapEvents idlers))) (idlersStart 1) os s ∧
      .resumed 0 (some 1) ∈ os ∧ (Reclaimed os s ↔ Separated os) := by
  obtain ⟨os, s, run, hos⟩ := Lib.run_of_passes (Lib.observed (step idlers) (reapEvents idlers))
    oneFinishes (idlersStart 1) (fun os _ => decide (.resumed 0 (some 1) ∈ os)) (by decide +kernel)
  exact ⟨os, s, run, of_decide_eq_true hos, reclaimed_iff_separated run⟩

end Nachos.Threads
