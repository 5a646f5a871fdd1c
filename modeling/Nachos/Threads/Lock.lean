import Nachos.Threads.Frame

/-!
# Locks

`Release` frees the lock and makes one waiter ready; it gives the lock to nobody. A thread that
asks for the lock before that waiter runs gets it, and the waiter goes back to the queue. Who has
a lock is read off the trace of a run, and compared with `free` and `activeThread`.
-/

namespace Nachos.Threads

variable {C σ ι H : Type}

/-! ### Who has a lock, from the trace -/

/-- Where a thread is with a lock: it does not have it; it took it in an `Acquire` that has not
returned; it is between the return of its `Acquire` and its `Release`. -/
inductive Phase where
  | outside | taken | between
  deriving DecidableEq

/-- The phase of `t` after an event. -/
def phaseNext (l : LockId) (t : Tid) (p : Phase) : Event C → Phase
  | .acquired t' l' => if t' = t ∧ l' = l then .taken else p
  | .returned t' (.acquired l') => if t' = t ∧ l' = l ∧ p = .taken then .between else p
  | .released t' l' => if t' = t ∧ l' = l then .outside else p
  | _ => p

/-- The phase of `t` after a trace. -/
def phase (l : LockId) (t : Tid) (tr : List (Event C)) : Phase :=
  tr.foldl (phaseNext l t) .outside

/-- The thread owns the lock. -/
def Owns (l : LockId) (t : Tid) (tr : List (Event C)) : Prop := phase l t tr ≠ .outside

section Trace

variable {l : LockId} {t : Tid} {tr es : List (Event C)}

lemma phase_append : phase l t (tr ++ es) = es.foldl (phaseNext l t) (phase l t tr) :=
  List.foldl_append

/-- Only `Acquire` and `Release` of the lock change who owns it. -/
lemma phaseNext_outside {e : Event C} (he : ¬ e.Moves l) (p : Phase) :
    phaseNext l t p e = .outside ↔ p = .outside := by
  cases e with
  | acquired t' l' =>
    rw [phaseNext, if_neg fun h => he h.2]
  | released t' l' =>
    rw [phaseNext, if_neg fun h => he h.2]
  | returned t' r =>
    cases r with
    | acquired l' =>
      rw [phaseNext]
      split
      next h => simp [h.2.2]
      next => rfl
    | _ => rfl
  | _ => rfl

lemma foldl_outside (he : ∀ e ∈ es, ¬ e.Moves l) (p : Phase) :
    es.foldl (phaseNext l t) p = .outside ↔ p = .outside := by
  induction es generalizing p with
  | nil => rfl
  | cons e es ih =>
    rw [List.foldl_cons, ih fun e' h => he e' (List.mem_cons_of_mem _ h)]
    exact phaseNext_outside (he e List.mem_cons_self) p

lemma owns_append_of_quiet (he : ∀ e ∈ es, ¬ e.Moves l) : Owns l t (tr ++ es) ↔ Owns l t tr := by
  rw [Owns, phase_append, Ne, foldl_outside he]
  rfl

lemma owns_append_acquired {u : Tid} :
    Owns l t (tr ++ [.acquired u l]) ↔ u = t ∨ Owns l t tr := by
  rw [Owns, phase_append, List.foldl_cons, List.foldl_nil, phaseNext]
  by_cases hu : u = t
  · simp [hu]
  · simp [hu, Owns]

lemma owns_append_released {u : Tid} :
    Owns l t (tr ++ [.released u l]) ↔ u ≠ t ∧ Owns l t tr := by
  rw [Owns, phase_append, List.foldl_cons, List.foldl_nil, phaseNext]
  by_cases hu : u = t
  · simp [hu]
  · simp [hu, Owns]

end Trace

/-! ### The invariant -/

/-- `w` slept in `Acquire`, a `Release` took it off the queue, and it has not tried again: it is
ready, or it is just about to. -/
structure Woken (s : State C σ) (l : LockId) (w : Tid) : Prop where
  asleep : ∃ old k, s.loc w = .lockAsleep l old k
  dequeued : w ∉ s.queue (.lock l)
  ready : w ∈ s.readyList ∨ (w = s.currentThread ∧ s.mode = .running)

/-- **The invariant of a lock.** -/
structure LockInv (l : LockId) (tr : List (Event C)) (s : State C σ) : Prop where
  free_iff : (s.lock l).free = true ↔ (s.lock l).activeThread = none
  owner : ∀ t, Owns l t tr ↔ (s.lock l).activeThread = some t
  woken : (s.lock l).free = true → s.queue (.lock l) ≠ [] → ∃ w, Woken s l w

section Invariant

variable {K : Client C σ ι H} {s s' : State C σ} {tr es : List (Event C)} {l : LockId}

/-- A woken thread stays so over a step that leaves the queue alone and is not its own. -/
lemma Woken.step {w : Tid} (h : Woken s l w) (hp : Placed s) (hs : Step K s es s')
    (hw : s.mode = .running → w ≠ s.currentThread)
    (hq : ∀ x ∈ s'.queue (.lock l), x ∈ s.queue (.lock l)) : Woken s' l w := by
  obtain ⟨old, k, hl⟩ := h.asleep
  have hmoved := hs.moved hp (x := w) hw
  rw [hl] at hmoved
  refine ⟨⟨old, k, hmoved.eq_of_sleepsOn rfl⟩, fun hx => h.dequeued (hq w hx), ?_⟩
  rcases h.ready with hr | ⟨rfl, hm⟩
  · exact hs.ready hr
  · exact absurd rfl (hw hm)

lemma LockInv.step (h : LockInv l tr s) (hp : Placed s) (hs : Step K s es s') :
    LockInv l (tr ++ es) s' := by
  cases hs.lockMove l with
  | idle lock queue events loc =>
    refine ⟨by rw [lock]; exact h.free_iff, fun t => ?_, fun hf hq => ?_⟩
    · rw [owns_append_of_quiet events, lock]
      exact h.owner t
    · rw [lock] at hf
      rw [queue] at hq
      obtain ⟨w, hw⟩ := h.woken hf hq
      refine ⟨w, hw.step hp hs (fun hm he => ?_) (by rw [queue]; exact fun x hx => hx)⟩
      obtain ⟨old, k, hl⟩ := hw.asleep
      exact loc hm old k (he ▸ hl)
  | take mode loc free lock queue events =>
    have hnone := h.free_iff.1 free
    refine ⟨by rw [lock]; simp, fun t => ?_, fun hf => by rw [lock] at hf; cases hf⟩
    rw [events, owns_append_acquired, lock, h.owner t, hnone]
    simp
  | wait mode busy lock queue events =>
    refine ⟨by rw [lock]; exact h.free_iff, fun t => ?_, fun hf => ?_⟩
    · rw [events, List.append_nil, lock]
      exact h.owner t
    · rw [lock, busy] at hf
      cases hf
  | release mode loc held lock queue ready events =>
    refine ⟨by rw [lock]; simp, fun t => ?_, fun _ hq => ?_⟩
    · rw [events, owns_append_released, lock, h.owner t, held]
      simp
    · -- the head of the queue is ready
      rw [queue] at hq
      cases hqs : s.queue (.lock l) with
      | nil => rw [hqs] at hq; exact absurd rfl hq
      | cons w rest =>
        obtain ⟨hsl, hrest, hnr, -⟩ := hp.head hqs
        have hwc : w ≠ s.currentThread :=
          (hp.running mode).2.2.ne_of_queue (q := .lock l) (by rw [hqs]; exact List.mem_cons_self)
        have hloc := (hs.moved hp (x := w) fun _ => hwc).eq_of_sleepsOn hsl
        refine ⟨w, ?_, by rw [queue, hqs]; exact hrest, .inl (by rw [ready, hqs]; simp)⟩
        rw [hloc]
        cases hl : s.loc w <;> rw [hl] at hsl <;> cases hsl
        exact ⟨_, _, rfl⟩
  | releaseNot mode notHeld loc lock queue events =>
    refine ⟨by rw [lock]; exact h.free_iff, fun t => ?_, fun hf hq => ?_⟩
    · rw [events, owns_append_released, lock, h.owner t]
      refine ⟨fun h => h.2, fun h => ⟨?_, h⟩⟩
      rintro rfl
      exact notHeld h
    · rw [lock] at hf
      rw [queue] at hq
      obtain ⟨w, hw⟩ := h.woken hf hq
      refine ⟨w, hw.step hp hs (fun _ he => ?_) (by rw [queue]; exact fun x hx => hx)⟩
      obtain ⟨old, k, hl⟩ := hw.asleep
      exact loc old k (he ▸ hl)

/-- The invariant holds in every run. -/
theorem LockInv.of_run {first : C} {value : ℕ → ℤ} {shared : σ}
    (h : KernelRun K (State.init first value shared) tr s) (l : LockId) : LockInv l tr s := by
  refine h.rules.invariant (I := LockInv l) ⟨by simp [State.init], fun t => ?_, fun _ hq => ?_⟩
    fun hr hi hs => hi.step (hr.invariant_state (placed_init first value shared) fun hp hs =>
      hp.step hs) hs
  · simp [Owns, phase, State.init]
  · exact absurd rfl hq

/-! ### Lock safety -/

/-- A `Release` by a thread that does not have the lock changes nothing but its own place. -/
lemma release_not_held {n : ℕ} {old : IntStatus} {k : Kont C} (mode : s.mode = .running)
    (loc : s.loc s.currentThread = .release (.lock n) old k)
    (notHeld : (s.lock (.lock n)).activeThread ≠ some s.currentThread) (input : ι) (new : Tid) :
    step K (.run input new) s = .ok ([.released s.currentThread (.lock n)],
      s.setLoc s.currentThread (.ret old k .unit)) := by
  have hne : ¬ s.isHeldByCurrentThread (.lock n) := fun h =>
    notHeld ((State.isHeldByCurrentThread_iff s).1 h)
  rw [step, if_pos mode, runStep, loc]
  simp only [State.releaseLock_of_not_held _ hne]

/-- **Lock safety**, for every client and every run. -/
theorem lock_safety {first : C} {value : ℕ → ℤ} {shared : σ}
    (h : KernelRun K (State.init first value shared) tr s) (n : ℕ) :
    -- at most one thread is between the return of its `Acquire` and its `Release`
    (∀ t u, phase (.lock n) t tr = .between → phase (.lock n) u tr = .between → t = u) ∧
    -- `free` is false exactly when a thread owns the lock, and `activeThread` is that thread
    ((s.lock (.lock n)).free = false ↔
      ∃ t, Owns (.lock n) t tr ∧ (s.lock (.lock n)).activeThread = some t) ∧
    (∀ t, Owns (.lock n) t tr → (s.lock (.lock n)).activeThread = some t) ∧
    -- a `Release` by another thread changes nothing
    (∀ old k input new, s.mode = .running →
      s.loc s.currentThread = .release (.lock n) old k →
      (s.lock (.lock n)).activeThread ≠ some s.currentThread →
      step K (.run input new) s = .ok ([.released s.currentThread (.lock n)],
        s.setLoc s.currentThread (.ret old k .unit))) ∧
    -- no wakeup is lost
    ((s.lock (.lock n)).free = true → s.queue (.lock (.lock n)) ≠ [] →
      ∃ w, Woken s (.lock n) w) := by
  have hi := LockInv.of_run h (.lock n)
  have hown : ∀ t, phase (.lock n) t tr = .between → (s.lock (.lock n)).activeThread = some t := by
    intro t ht
    exact (hi.owner t).1 (by rw [Owns, ht]; decide)
  refine ⟨fun t u ht hu => ?_, ?_, fun t => (hi.owner t).1, ?_, hi.woken⟩
  · exact Option.some.inj ((hown t ht).symm.trans (hown u hu))
  · rw [← Bool.not_eq_true, hi.free_iff, ← Ne, Option.ne_none_iff_exists']
    exact ⟨fun ⟨t, ht⟩ => ⟨t, (hi.owner t).2 ht, ht⟩, fun ⟨t, _, ht⟩ => ⟨t, ht⟩⟩
  · exact fun old k input new mode loc notHeld => release_not_held mode loc notHeld input new

end Invariant

/-! ### A client that contends for a lock -/

/-- The main thread forks a second one; both acquire lock `0` and release it, over and over. -/
def contenders : Client ℕ Unit Unit Empty where
  code := fun _ _ c _ _ => .ok ((), match c with
    | 0 => .fork 1 1
    | 1 => .acquire 0 2
    | _ => .release 0 1)
  handler := fun h => nomatch h

/-- The main thread takes the lock and is preempted inside `Acquire`; the second thread waits. -/
def contention : List (Choice Unit Empty) :=
  [.run () 1, .run () 1, .run () 1, .run () 1, .preempt, .run () 1, .run () 1, .run () 1]

theorem lock_safety_contenders :
    ∃ tr s, KernelRun contenders (State.init 0 (fun _ => 0) ()) tr s ∧
      s.queue (.lock (.lock 0)) = [1] ∧ ((s.lock (.lock 0)).free = false ↔
        ∃ t, Owns (.lock 0) t tr ∧ (s.lock (.lock 0)).activeThread = some t) := by
  have run := @Lib.run_of_exec _ _ _ _ (step contenders) contention _
    (State.init 0 (fun _ => 0) ()) _ rfl
  exact ⟨_, _, run, rfl, (lock_safety run 0).2.1⟩

end Nachos.Threads
