import Nachos.Threads.Labels
import Nachos.Threads.Scheduler

/-!
# The assertions of the kernel

`Sleep` and `Finish` assert that interrupts are disabled, `Run` deletes a thread that it asserts is
not the current one, and `Wait`, `Signal` and `Broadcast` assert that the caller has the lock. The
first two never fail, in any run of any client; the third one does when the client breaks the rule.
-/

namespace Nachos.Threads

variable {C σ ι H : Type}

/-- The lock that a call asserts the caller to have. -/
def Call.asserts : Call C → Option ℕ
  | .wait _ L _ => some L
  | .signal _ L _ => some L
  | .broadcast _ L _ => some L
  | _ => none

/-- The client's part in a failed assertion: its handler, its code, or a condition that it uses
without the lock. -/
inductive ClientFails (K : Client C σ ι H) (s : State C σ) : Choice ι H → Prop
  | handler {d} (handler : K.handler d s.shared = .error .assertion) : ClientFails K s (.interrupt d)
  | code {input new c r} (mode : s.mode = .running) (loc : s.loc s.currentThread = .run (.client c) r)
      (code : K.code input s.currentThread c r s.shared = .error .assertion) :
      ClientFails K s (.run input new)
  | condition {input new c r shared call L} (mode : s.mode = .running)
      (loc : s.loc s.currentThread = .run (.client c) r)
      (code : K.code input s.currentThread c r s.shared = .ok (shared, call))
      (asserts : call.asserts = some L)
      (held : (s.lock (.lock L)).activeThread ≠ some s.currentThread) :
      ClientFails K s (.run input new)

section Pieces

variable {s : State C σ} {next : Tid} {f : Fault}

/-- `ASSERT(interrupt->getLevel() == IntOff)`. -/
lemma sleep_ne_error (h : s.level = .intOff) : s.sleep ≠ .error f := by
  unfold State.sleep
  rw [if_pos h]
  simp

/-- `delete threadToBeDestroyed`, with `ASSERT(this != currentThread)`. -/
lemma runThread_ne_error (h : ∀ d, s.threadToBeDestroyed = some d → d ≠ next) :
    s.runThread next ≠ .error f := by
  unfold State.runThread State.reap
  simp only
  split
  · simp
  · split
    · simp
    next d hd =>
      have hne : d ≠ next := h d hd
      simp [State.setStatus, hne]

/-- The thread to be destroyed is not on the ready list. -/
lemma Parked.doomed_ne (h : Parked s) (hn : next ∈ s.readyList) {d : Tid}
    (hd : s.threadToBeDestroyed = some d) : d ≠ next := by
  rintro rfl
  have halive := (h.ready d hn).1
  rw [h.doomed d hd] at halive
  exact halive

lemma Placed.yieldTo_ne_error (h : Placed s) {rest : List Tid} (hr : s.readyList = next :: rest) :
    s.yieldTo next rest ≠ .error f :=
  runThread_ne_error fun _ hd => h.doomed_ne (hr ▸ List.mem_cons_self) hd

lemma tryAcquire_ne_error (h : s.level = .intOff) {l : LockId} {old : IntStatus} {k : Kont C} :
    tryAcquire s l old k ≠ .error f := by
  unfold tryAcquire
  split
  · simp
  · exact Lib.bind_ne_error (sleep_ne_error h) fun _ _ => by simp

lemma tryDown_ne_error (h : s.level = .intOff) {i : ℕ} {old : IntStatus} {c : C} :
    tryDown s i old c ≠ .error f := by
  unfold tryDown
  split
  · exact Lib.bind_ne_error (sleep_ne_error h) fun _ _ => by simp
  · simp

/-- The calls assert what they name. -/
lemma enter_eq_assertion {new : Tid} {call : Call C} (h : enter new s call = .error .assertion) :
    ∃ L, call.asserts = some L ∧ (s.lock (.lock L)).activeThread ≠ some s.currentThread := by
  have hheld : ∀ {L} {x : List (Event C) × State C σ},
      (if s.isHeldByCurrentThread (.lock L) then .ok x else .error Fault.assertion) =
        Except.error Fault.assertion → (s.lock (.lock L)).activeThread ≠ some s.currentThread := by
    intro L x h he
    rw [if_pos (show s.isHeldByCurrentThread (.lock L) = true from decide_eq_true he)] at h
    cases h
  cases call with
  | wait | signal | broadcast => exact ⟨_, rfl, hheld h⟩
  | fork first c =>
    simp only [enter] at h
    split at h <;> cases h
  | finish => exact absurd h (Lib.bind_ne_error (sleep_ne_error rfl) fun _ _ => by simp)
  | _ => cases h

/-- The code of `Condition` asserts nothing else. -/
lemma resume_ne_assertion {k : Kont C} (h : k.inWait = true → s.level = .intOff) :
    resume s k ≠ .error .assertion := by
  cases k with
  | waitSleep =>
    have hlevel := h rfl
    refine Lib.bind_ne_error (sleep_ne_error ?_) fun _ _ => by simp
    rw [State.releaseLock_level]
    exact hlevel
  | signalReady cond thread | bcastReady cond i thread => cases thread <;> simp [resume]
  | _ => simp [resume]

end Pieces

variable {K : Client C σ ι H} {s : State C σ} {ch : Choice ι H}

/-- A step of the running thread that fails an assertion. -/
lemma runStep_assertion (hp : Placed s) (hv : Leveled s) (hm : s.mode = .running) {input : ι}
    {new : Tid} (h : runStep K input new s = .error .assertion) :
    ClientFails K s (.run input new) := by
  have hoff := hv.running hm
  unfold runStep at h
  simp only at h
  split at h
  next c r hloc =>
    split at h
    next f hcode =>
      cases h
      exact .code hm hloc hcode
    next shared call hcode =>
      split at h
      next f henter =>
        cases h
        obtain ⟨L, hasserts, hheld⟩ := enter_eq_assertion henter
        exact .condition hm hloc hcode hasserts hheld
      next => cases h
  next k r hnot hloc =>
    rw [hloc] at hoff
    exact absurd h (resume_ne_assertion hoff)
  next hloc =>
    rw [hloc] at hoff
    exact absurd h (tryAcquire_ne_error (hoff trivial))
  next hloc =>
    rw [hloc] at hoff
    exact absurd h (tryAcquire_ne_error (hoff trivial))
  next => cases h
  next hloc =>
    rw [hloc] at hoff
    exact absurd h (tryDown_ne_error (hoff trivial))
  next hloc =>
    rw [hloc] at hoff
    exact absurd h (tryDown_ne_error (hoff trivial))
  next => cases h
  next old c hloc =>
    split at h
    next => cases h
    next next rest hr =>
      refine absurd h (Lib.bind_ne_error ?_ fun _ _ => by simp)
      exact runThread_ne_error fun _ hd => hp.doomed_ne (hr ▸ List.mem_cons_self) hd
  all_goals cases h

lemma Leveled.of_run {first : C} {value : ℕ → ℤ} {shared : σ} {tr : List (Event C)}
    (h : KernelRun K (State.init first value shared) tr s) : Leveled s := by
  refine h.invariant (I := fun _ s => Leveled s) (leveled_init first value shared)
    fun hr hi ⟨_, hstep⟩ => hi.step (.of_run hr) (step_rule hstep)

/-- **The kernel fails no assertion of its own**: in every run of every client, a step that fails an
assertion fails one of the client, or the client uses a condition without its lock. -/
theorem assertion_of_client {first : C} {value : ℕ → ℤ} {shared : σ} {tr : List (Event C)}
    (h : KernelRun K (State.init first value shared) tr s) (hstep : step K ch s = .error .assertion) :
    ClientFails K s ch := by
  have hp : Placed s := .of_run h
  have hv : Leveled s := Leveled.of_run h
  cases ch with
  | run input new =>
    simp only [step] at hstep
    split at hstep
    next hm => exact runStep_assertion hp hv hm hstep
    next => cases hstep
  | preempt =>
    simp only [step] at hstep
    split at hstep
    next next rest ht hr =>
      exact absurd hstep (Lib.bind_ne_error (hp.yieldTo_ne_error hr) fun _ _ => by simp)
    next => cases hstep
  | interrupt d =>
    simp only [step] at hstep
    split at hstep
    next =>
      split at hstep
      next f handler =>
        cases hstep
        exact .handler handler
      next => split at hstep <;> cases hstep
    next => cases hstep
  | dispatch =>
    simp only [step] at hstep
    split at hstep
    next => cases hstep
    next => cases hstep
    next next rest hr hm =>
      refine absurd hstep (Lib.bind_ne_error ?_ fun _ _ => by simp)
      exact runThread_ne_error fun _ hd => hp.doomed_ne (hr ▸ List.mem_cons_self) hd

/-- A client that waits on a condition without the lock. -/
def waitsUnlocked : Client Unit Unit Unit Unit where
  code := fun _ _ _ _ _ => .ok ((), .wait 0 0 ())
  handler := fun _ _ => .ok ((), none)

theorem assertion_of_client_waitsUnlocked :
    ClientFails waitsUnlocked (State.init () (fun _ => 0) ()) (.run () 1) :=
  assertion_of_client .start rfl

end Nachos.Threads
