import Nachos.Threads.Placed

/-!
# What a step leaves alone

The threads that do not run, the ready list, and the locks: for each, the few ways in which a step
can change it. The invariants of the following modules are proved from these.
-/

namespace Nachos.Threads

variable {C σ ι H : Type}

variable {K : Client C σ ι H} {s s' : State C σ} {es : List (Event C)}

/-- How the place of a thread that is not running can change: it is forked, it starts, or its
object is deleted. -/
inductive Moved : Loc C → Loc C → Prop
  | stays (l) : Moved l l
  | forked (c) : Moved .unborn (.fresh c)
  | starts (c) : Moved (.fresh c) (.ret .intOn (.client c) .unit)
  | deleted : Moved .finished .unborn

lemma Moved.of_eq {l l' : Loc C} (h : l' = l) : Moved l l' := h ▸ .stays l

/-- A sleeping thread stays where it is. -/
lemma Moved.eq_of_sleepsOn {l l' : Loc C} {q : QueueId} (h : Moved l l')
    (hl : l.sleepsOn = some q) : l' = l := by
  cases h with
  | stays => rfl
  | forked | starts | deleted => cases hl

lemma moved_runThread {next : Tid} (run : s.runThread next = .ok s')
    (h : ∀ d, s.threadToBeDestroyed = some d → s.loc d = .finished) (x : Tid) :
    Moved (s.loc x) (s'.loc x) := by
  rcases runThread_cases run with ⟨c, hc, rfl⟩ | ⟨-, -, rfl⟩ | ⟨d, -, hd, -, rfl⟩
  · by_cases hx : x = next
    · subst hx
      rw [setLoc_self, hc]
      exact .starts c
    · rw [setLoc_of_ne _ _ hx]
      exact .stays _
  · exact .stays _
  · by_cases hx : x = d
    · subst hx
      rw [h x hd]
      exact (setLoc_self (s.switchTo next) x .unborn).symm ▸ .deleted
    · exact (setLoc_of_ne (s.switchTo next) .unborn hx).symm ▸ .stays _

lemma moved_yieldTo {next : Tid} {rest : List Tid} (run : s.yieldTo next rest = .ok s')
    (h : ∀ d, s.threadToBeDestroyed = some d → s.loc d = .finished) (x : Tid) :
    Moved (s.loc x) (s'.loc x) := by
  unfold State.yieldTo at run
  exact moved_runThread run h x

/-- What `Run` leaves alone. -/
lemma runThread_frame {next : Tid} (run : s.runThread next = .ok s') :
    s'.lock = s.lock ∧ s'.queue = s.queue ∧ s'.readyList = s.readyList ∧
      s'.value = s.value ∧ s'.shared = s.shared ∧ s'.level = s.level ∧
      s'.currentThread = next ∧ s'.mode = .running := by
  rcases runThread_cases run with ⟨c, hc, rfl⟩ | ⟨-, -, rfl⟩ | ⟨d, -, hd, -, rfl⟩ <;>
    exact ⟨rfl, rfl, rfl, rfl, rfl, rfl, rfl, rfl⟩

lemma dequeue_loc (cond : ℕ) : (s.dequeue cond).2.loc = s.loc := by
  unfold State.dequeue
  split <;> rfl

lemma blockOnCond_loc (cond l : ℕ) (old : IntStatus) (c : C) :
    (s.blockOnCond cond l old c).loc =
      Function.update s.loc s.currentThread (.condAsleep cond l old c) := by
  simp [State.blockOnCond, State.setLoc, State.setStatus, State.append, State.setQueue]

lemma fork_loc (new : Tid) (first c : C) :
    (s.fork new first c).loc =
      Function.update (Function.update s.loc new (.fresh first)) s.currentThread
        (.ret s.level (.client c) (.thread (some new))) := rfl

lemma finish_loc : s.finish.loc = Function.update s.loc s.currentThread .finished := rfl

/-- **A thread that is not running** stays where it is, or it starts, or it comes or goes. -/
theorem Step.moved (h : Placed s) (hs : Step K s es s') {x : Tid}
    (hx : s.mode = .running → x ≠ s.currentThread) : Moved (s.loc x) (s'.loc x) := by
  cases hs with
  | @fork _ _ _ _ first _ new mode loc code unborn =>
    have hxc : Moved (s.loc x) (Function.update s.loc new (.fresh first) x) := by
      by_cases hn : x = new
      · subst hn
        rw [Function.update_self, unborn]
        exact .forked first
      · exact .of_eq (Function.update_of_ne hn _ _)
    rw [fork_loc, Function.update_of_ne (hx mode)]
    exact hxc
  | @yield old c _ _ _ mode loc ready run =>
    have hp := h.setLoc mode (l := .ret old (.client c) .unit) trivial (.inl rfl)
    have hm := moved_yieldTo run hp.doomed x
    rwa [setLoc_of_ne _ _ (hx mode)] at hm
  | preempt mode loc level ready run => exact moved_yieldTo run h.doomed x
  | dispatch mode ready run => exact moved_runThread run h.doomed x
  | interrupt allowed handler => exact .stays _
  | @interruptUp _ shared i allowed handler =>
    exact .of_eq (congrFun ((s.handled shared).wake_loc (.sem i)) x)
  | @release l _ _ mode loc =>
    refine .of_eq ((setLoc_of_ne _ _ (hx mode)).trans ?_)
    rw [State.releaseLock_loc]
  | @up i _ _ mode loc =>
    exact .of_eq ((setLoc_of_ne _ _ (hx mode)).trans (congrFun (s.wake_loc (.sem i)) x))
  | signalDequeue mode loc =>
    exact .of_eq ((setLoc_of_ne _ _ (hx mode)).trans (congrFun (dequeue_loc _) x))
  | bcastDequeue mode loc =>
    exact .of_eq ((setLoc_of_ne _ _ (hx mode)).trans (congrFun (dequeue_loc _) x))
  | waitSleep mode loc level =>
    rw [blockOnCond_loc, Function.update_of_ne (hx mode)]
    exact .stays _
  | _ mode loc => exact .of_eq (Function.update_of_ne (hx mode) _ _)

/-- What `Yield` leaves alone. -/
lemma yieldTo_frame {next : Tid} {rest : List Tid} (run : s.yieldTo next rest = .ok s') :
    s'.lock = s.lock ∧ s'.queue = s.queue ∧ s'.readyList = rest ++ [s.currentThread] ∧
      s'.value = s.value ∧ s'.shared = s.shared ∧ s'.level = s.level ∧
      s'.currentThread = next ∧ s'.mode = .running := by
  unfold State.yieldTo at run
  exact runThread_frame run

lemma mem_wake_readyList {x : Tid} (q : QueueId) (hx : x ∈ s.readyList) :
    x ∈ (s.wake q).readyList := by
  rw [State.wake_readyList]
  exact List.mem_append_left _ hx

lemma mem_releaseLock_readyList {x : Tid} (l : LockId) (hx : x ∈ s.readyList) :
    x ∈ (s.releaseLock l).readyList := by
  unfold State.releaseLock
  split
  · exact mem_wake_readyList (s := s.setLock l ⟨true, none⟩) _ hx
  · exact hx

lemma dequeue_readyList (cond : ℕ) : (s.dequeue cond).2.readyList = s.readyList := by
  unfold State.dequeue
  split <;> rfl

/-- **A ready thread** stays ready until it runs. -/
theorem Step.ready (hs : Step K s es s') {x : Tid} (hx : x ∈ s.readyList) :
    x ∈ s'.readyList ∨ (x = s'.currentThread ∧ s'.mode = .running) := by
  have happ : ∀ ts, x ∈ s.readyList ++ ts := fun ts => List.mem_append_left ts hx
  have hhead : ∀ {next rest}, s.readyList = next :: rest → x = next ∨ x ∈ rest := by
    intro next rest hr
    rw [hr] at hx
    exact List.mem_cons.1 hx
  cases hs with
  | fork | signalReady | bcastReady => exact .inl (happ _)
  | yield mode loc ready run =>
    obtain ⟨-, -, hr, -, -, -, hc, hm⟩ := yieldTo_frame run
    rw [hr, hc, hm]
    rcases hhead ready with rfl | hx
    · exact .inr ⟨rfl, rfl⟩
    · exact .inl (List.mem_append_left _ hx)
  | preempt mode loc level ready run =>
    obtain ⟨-, -, hr, -, -, -, hc, hm⟩ := yieldTo_frame run
    rw [hr, hc, hm]
    rcases hhead ready with rfl | hx
    · exact .inr ⟨rfl, rfl⟩
    · exact .inl (List.mem_append_left _ hx)
  | dispatch mode ready run =>
    obtain ⟨-, -, hr, -, -, -, hc, hm⟩ := runThread_frame run
    rw [hr, hc, hm]
    rcases hhead ready with rfl | hx
    · exact .inr ⟨rfl, rfl⟩
    · exact .inl hx
  | release mode loc => exact .inl (mem_releaseLock_readyList _ hx)
  | @waitSleep cond _ _ _ _ mode loc level =>
    exact .inl (mem_releaseLock_readyList (s := s.append (.cond cond)) (.queueLock cond) hx)
  | up mode loc => exact .inl (mem_wake_readyList _ hx)
  | @interruptUp _ shared i allowed handler =>
    exact .inl (mem_wake_readyList (s := s.handled shared) (.sem i) hx)
  | signalDequeue mode loc => exact .inl ((dequeue_readyList _).symm ▸ hx)
  | bcastDequeue mode loc => exact .inl ((dequeue_readyList _).symm ▸ hx)
  | _ => exact .inl hx

/-! ### What a step does to a lock -/

/-- The event is an `Acquire` or a `Release` of the lock. -/
def Event.Moves (l : LockId) : Event C → Prop
  | .acquired _ l' => l' = l
  | .released _ l' => l' = l
  | _ => False

/-- **What a step does to a lock**: nothing; a thread takes it, or waits for it; its owner
releases it, and the first waiter is ready; or another thread calls `Release`. -/
inductive LockMove (s : State C σ) (l : LockId) (es : List (Event C)) (s' : State C σ) : Prop
  | idle (lock : s'.lock l = s.lock l) (queue : s'.queue (.lock l) = s.queue (.lock l))
      (events : ∀ e ∈ es, ¬ e.Moves l)
      (loc : s.mode = .running → ∀ old k, s.loc s.currentThread ≠ .lockAsleep l old k)
  | take (mode : s.mode = .running)
      (loc : ∃ old k, (s.loc s.currentThread = .acquire l old k ∨
        s.loc s.currentThread = .lockAsleep l old k) ∧
        s'.loc s.currentThread = .ret old k (.acquired l))
      (free : (s.lock l).free = true)
      (lock : s'.lock l = ⟨false, some s.currentThread⟩)
      (queue : s'.queue (.lock l) = s.queue (.lock l)) (events : es = [.acquired s.currentThread l])
  | wait (mode : s.mode = .running) (busy : (s.lock l).free = false) (lock : s'.lock l = s.lock l)
      (queue : s'.queue (.lock l) = s.queue (.lock l) ++ [s.currentThread]) (events : es = [])
  | release (mode : s.mode = .running)
      (loc : (∃ old k, s.loc s.currentThread = .release l old k) ∨
        ∃ cond l' old c r, l = .queueLock cond ∧
          s.loc s.currentThread = .run (.waitSleep cond l' old c) r)
      (held : (s.lock l).activeThread = some s.currentThread)
      (lock : s'.lock l = ⟨true, none⟩) (queue : s'.queue (.lock l) = (s.queue (.lock l)).tail)
      (ready : s'.readyList = s.readyList ++ (s.queue (.lock l)).head?.toList)
      (events : es = [.released s.currentThread l])
  | releaseNot (mode : s.mode = .running)
      (notHeld : (s.lock l).activeThread ≠ some s.currentThread)
      (loc : ∀ old k, s.loc s.currentThread ≠ .lockAsleep l old k) (lock : s'.lock l = s.lock l) (queue : s'.queue (.lock l) = s.queue (.lock l))
      (events : es = [.released s.currentThread l])

/-- `Release`, as a part of a step: it changes its own lock only. -/
lemma releaseLock_other {l l' : LockId} (h : l' ≠ l) :
    (s.releaseLock l).lock l' = s.lock l' ∧
      (s.releaseLock l).queue (.lock l') = s.queue (.lock l') := by
  unfold State.releaseLock
  split
  · refine ⟨?_, ?_⟩
    · rw [State.wake_lock]
      exact Function.update_of_ne h _ _
    · rw [State.wake_queue]
      exact Function.update_of_ne (by simpa using h) _ _
  · exact ⟨rfl, rfl⟩

lemma releaseLock_self {l : LockId} (h : (s.lock l).activeThread = some s.currentThread) :
    (s.releaseLock l).lock l = ⟨true, none⟩ ∧
      (s.releaseLock l).queue (.lock l) = (s.queue (.lock l)).tail ∧
      (s.releaseLock l).readyList = s.readyList ++ (s.queue (.lock l)).head?.toList := by
  rw [State.releaseLock_of_held _ ((State.isHeldByCurrentThread_iff s).2 h)]
  refine ⟨?_, ?_, ?_⟩
  · rw [State.wake_lock]
    exact Function.update_self ..
  · rw [State.wake_queue]
    exact Function.update_self ..
  · rw [State.wake_readyList]
    rfl

/-- Appending to the queue of a condition does not change the locks. -/
lemma append_cond_queue_lock (cond : ℕ) (l : LockId) :
    (s.append (.cond cond)).queue (.lock l) = s.queue (.lock l) := by
  simp [State.append, State.setQueue]

lemma dequeue_queue_lock (cond : ℕ) (l : LockId) :
    (s.dequeue cond).2.queue (.lock l) = s.queue (.lock l) ∧ (s.dequeue cond).2.lock = s.lock := by
  unfold State.dequeue
  split
  · exact ⟨rfl, rfl⟩
  · exact ⟨by simp [State.setQueue], rfl⟩

lemma raise_queue_lock (i : ℕ) (l : LockId) :
    (s.raise i).queue (.lock l) = s.queue (.lock l) ∧ (s.raise i).lock = s.lock := by
  refine ⟨?_, s.wake_lock _⟩
  show (s.wake (.sem i)).queue (.lock l) = _
  rw [State.wake_queue]
  exact Function.update_of_ne (by simp) _ _

/-- A call does not touch a lock yet. -/
lemma Entry.not_moves {call : Call C} {lv : IntStatus} {l : Loc C} (h : Entry s call es lv l)
    (l' : LockId) : ∀ e ∈ es, ¬ e.Moves l' := by
  cases h <;> simp [Event.Moves]

theorem Step.lockMove (hs : Step K s es s') (l : LockId) : LockMove s l es s' := by
  cases hs with
  | call mode loc code entry =>
    refine .idle rfl rfl (fun e he => ?_) (fun _ old k hl => by rw [loc] at hl; cases hl)
    rcases List.mem_cons.1 he with rfl | he
    · exact id
    · exact entry.not_moves l e he
  | @take l' old k mode loc free =>
    by_cases hl : l = l'
    · subst hl
      exact .take mode ⟨old, k, loc, setLoc_self ..⟩ free (Function.update_self ..) rfl rfl
    · refine .idle (Function.update_of_ne hl _ _) rfl ?_ ?_
      · simpa [Event.Moves] using Ne.symm hl
      · intro _ old k h
        rcases loc with loc | loc <;> rw [loc] at h <;> cases h
        exact hl rfl
  | @lockWait l' old k mode loc busy level =>
    by_cases hl : l = l'
    · subst hl
      exact .wait mode busy rfl (Function.update_self ..) rfl
    · refine .idle rfl (Function.update_of_ne (by simpa using hl) _ _) (by simp) ?_
      intro _ old k h
      rcases loc with loc | loc <;> rw [loc] at h <;> cases h
      exact hl rfl
  | @release l' old k mode loc =>
    by_cases hl : l = l'
    · subst hl
      by_cases held : (s.lock l).activeThread = some s.currentThread
      · obtain ⟨h₁, h₂, h₃⟩ := releaseLock_self held
        exact .release mode (.inl ⟨old, k, loc⟩) held h₁ h₂ h₃ rfl
      · have hne : ¬ s.isHeldByCurrentThread l := fun h =>
          held ((State.isHeldByCurrentThread_iff s).1 h)
        rw [State.releaseLock_of_not_held _ hne]
        exact .releaseNot mode held (fun old k h => by rw [loc] at h; cases h) rfl rfl rfl
    · obtain ⟨h₁, h₂⟩ := releaseLock_other (s := s) hl
      refine .idle h₁ h₂ (by simpa [Event.Moves] using Ne.symm hl) ?_
      intro _ old k h
      rw [loc] at h
      cases h
  | @waitSleep cond l' old c r mode loc level =>
    have hnot : s.mode = .running → ∀ old k, s.loc s.currentThread ≠ .lockAsleep l old k := by
      intro _ old k h
      rw [loc] at h
      cases h
    have hq := append_cond_queue_lock (s := s) cond l
    by_cases hl : l = .queueLock cond
    · subst hl
      by_cases held : (s.lock (.queueLock cond)).activeThread = some s.currentThread
      · obtain ⟨h₁, h₂, h₃⟩ := releaseLock_self (s := s.append (.cond cond)) held
        rw [hq] at h₂ h₃
        exact .release mode (.inr ⟨cond, l', old, c, r, rfl, loc⟩) held h₁ h₂ h₃ rfl
      · have hne : ¬ (s.append (.cond cond)).isHeldByCurrentThread (.queueLock cond) := fun h =>
          held ((State.isHeldByCurrentThread_iff _).1 h)
        have hb : (s.blockOnCond cond l' old c).lock (.queueLock cond) = s.lock (.queueLock cond) ∧
            (s.blockOnCond cond l' old c).queue (.lock (.queueLock cond)) =
              s.queue (.lock (.queueLock cond)) := by
          unfold State.blockOnCond
          rw [State.releaseLock_of_not_held _ hne]
          exact ⟨rfl, hq⟩
        exact .releaseNot mode held (hnot mode) hb.1 hb.2 rfl
    · obtain ⟨h₁, h₂⟩ := releaseLock_other (s := s.append (.cond cond)) hl
      exact .idle h₁ (h₂.trans hq) (by simpa [Event.Moves] using Ne.symm hl) hnot
  | yield mode loc ready run =>
    obtain ⟨hlock, hqueue, -⟩ := yieldTo_frame run
    exact .idle (by rw [hlock]; rfl) (by rw [hqueue]; rfl) (by simp)
      (fun _ old k hl => by rw [loc] at hl; cases hl)
  | preempt mode loc level ready run =>
    obtain ⟨hlock, hqueue, -⟩ := yieldTo_frame run
    exact .idle (by rw [hlock]) (by rw [hqueue]) (by simp)
      (fun _ old k hl => by rw [loc] at hl; cases hl)
  | dispatch mode ready run =>
    obtain ⟨hlock, hqueue, -⟩ := runThread_frame run
    exact .idle (by rw [hlock]) (by rw [hqueue]) (by simp) (fun hm => absurd hm mode)
  | interrupt allowed handler =>
    refine .idle rfl rfl (by simp) (fun mode old k hl => ?_)
    obtain ⟨-, -, k', r, loc⟩ := inTick_of_running allowed mode
    rw [loc] at hl
    cases hl
  | @interruptUp _ shared i allowed handler =>
    obtain ⟨h₁, h₂⟩ := raise_queue_lock (s := s.handled shared) i l
    refine .idle (congrFun h₂ l) h₁ (by simp) (fun mode old k hl => ?_)
    obtain ⟨-, -, k', r, loc⟩ := inTick_of_running allowed mode
    rw [loc] at hl
    cases hl
  | up mode loc =>
    obtain ⟨h₁, h₂⟩ := raise_queue_lock (s := s) _ l
    exact .idle (congrFun h₂ l) h₁ (by simp) (fun _ old k hl => by rw [loc] at hl; cases hl)
  | signalDequeue mode loc =>
    obtain ⟨h₁, h₂⟩ := dequeue_queue_lock (s := s) _ l
    exact .idle (congrFun h₂ l) h₁ (by simp) (fun _ old k hl => by rw [loc] at hl; cases hl)
  | bcastDequeue mode loc =>
    obtain ⟨h₁, h₂⟩ := dequeue_queue_lock (s := s) _ l
    exact .idle (congrFun h₂ l) h₁ (by simp) (fun _ old k hl => by rw [loc] at hl; cases hl)
  | down mode loc value =>
    refine .idle rfl rfl (by simp) (fun _ old k hl => ?_)
    rcases loc with loc | loc <;> rw [loc] at hl <;> cases hl
  | @semWait i _ _ mode loc value level =>
    refine .idle rfl (by simp [State.block, State.append, State.setQueue, State.setStatus])
      (by simp) (fun _ old k hl => ?_)
    rcases loc with loc | loc <;> rw [loc] at hl <;> cases hl
  | _ mode loc =>
    exact .idle rfl rfl (by simp [Event.Moves]) (fun _ old k hl => by rw [loc] at hl; cases hl)

/-! ### Where the running thread goes -/

/-- The events of a step of the running thread, and the places it goes from and to. -/
inductive Goes (s : State C σ) : List (Event C) → Loc C → Loc C → Prop
  | call {c r call es lv l} {shared : σ} (entry : Entry { s with shared := shared } call es lv l) :
      Goes s (.ran s.currentThread c :: es) (.run (.client c) r) l
  | fork {c r old c' x} :
      Goes s [.ran s.currentThread c] (.run (.client c) r) (.ret old (.client c') (.thread x))
  | finish {c r} : Goes s [.ran s.currentThread c] (.run (.client c) r) .finished
  | take {l old k} :
      Goes s [.acquired s.currentThread l] (.acquire l old k) (.ret old k (.acquired l))
  | takeAwake {l old k} :
      Goes s [.acquired s.currentThread l] (.lockAsleep l old k) (.ret old k (.acquired l))
  | lockWait {l old k} : Goes s [] (.acquire l old k) (.lockAsleep l old k)
  | lockWaitAgain {l old k} : Goes s [] (.lockAsleep l old k) (.lockAsleep l old k)
  | release {l old k} :
      Goes s [.released s.currentThread l] (.release l old k) (.ret old k .unit)
  | down {i old c} : Goes s [] (.down i old c) (.ret old (.client c) .unit)
  | downAwake {i old c} : Goes s [] (.semAsleep i old c) (.ret old (.client c) .unit)
  | semWait {i old c} : Goes s [] (.down i old c) (.semAsleep i old c)
  | semWaitAgain {i old c} : Goes s [] (.semAsleep i old c) (.semAsleep i old c)
  | up {i old c} : Goes s [] (.up i old c) (.ret old (.client c) .unit)
  | yield {old c} : Goes s [] (.yield old c) (.ret old (.client c) .unit)
  | ret {old k r} : Goes s [.returned s.currentThread r] (.ret old k r) (.run k r)
  | waitAcquire {cond l old c r} :
      Goes s [] (.run (.waitAcquire cond l old c) r)
        (.acquire (.queueLock cond) s.level (.waitSleep cond l old c))
  | waitSleep {cond l old c r} :
      Goes s [.released s.currentThread (.queueLock cond)] (.run (.waitSleep cond l old c) r)
        (.condAsleep cond l old c)
  | waitAwake {cond l old c} :
      Goes s [] (.condAsleep cond l old c) (.acquire (.lock l) s.level (.waitReturn cond l old c))
  | waitReturn {cond l old c r} :
      Goes s [] (.run (.waitReturn cond l old c) r) (.ret old (.client c) (.waited cond l))
  | signalDequeue {cond c r} :
      Goes s [] (.run (.signalDequeue cond c) r)
        (.release (.queueLock cond) s.level (.signalReady cond (s.dequeue cond).1 c))
  | signalNone {cond c r} :
      Goes s [.signalled s.currentThread cond none] (.run (.signalReady cond none c) r)
        (.run (.client c) (.thread none))
  | signalReady {cond x c r} :
      Goes s [.readied s.currentThread cond x, .signalled s.currentThread cond (some x)]
        (.run (.signalReady cond (some x) c) r) (.run (.client c) (.thread (some x)))
  | bcastDequeue {cond i c r} :
      Goes s [] (.run (.bcastDequeue cond i c) r)
        (.release (.queueLock cond) s.level (.bcastReady cond i (s.dequeue cond).1 c))
  | bcastNone {cond i c r} :
      Goes s [.broadcasted s.currentThread cond i] (.run (.bcastReady cond i none c) r)
        (.run (.client c) (.count i))
  | bcastReady {cond i x c r} :
      Goes s [.readied s.currentThread cond x] (.run (.bcastReady cond i (some x) c) r)
        (.acquire (.queueLock cond) s.level (.bcastDequeue cond (i + 1) c))
  /-- Preempted or interrupted in `OneTick`. -/
  | tick {k r} : Goes s [] (.ret .intOn k r) (.ret .intOn k r)

/-- A thread that gives up the processor in `Yield` is where it put itself. -/
lemma yieldTo_loc {next : Tid} {rest : List Tid} (run : s.yieldTo next rest = .ok s')
    (h : ∀ d, s.threadToBeDestroyed = some d → s.loc d = .finished) {x : Tid} {old : IntStatus}
    {k : Kont C} {r : Ret} (hx : s.loc x = .ret old k r) : s'.loc x = .ret old k r := by
  have hm := moved_yieldTo run h x
  rw [hx] at hm
  generalize s'.loc x = l at hm
  cases hm
  rfl

theorem Step.goes (h : Placed s) (hs : Step K s es s') (hm : s.mode = .running) :
    Goes s es (s.loc s.currentThread) (s'.loc s.currentThread) := by
  cases hs with
  | call mode loc code entry => rw [loc, setLoc_self]; exact .call entry
  | fork mode loc code unborn => rw [loc, fork_loc, Function.update_self]; exact .fork
  | finish mode loc code =>
    rw [loc, finish_loc, Function.update_self]
    exact .finish
  | take mode loc free =>
    rw [setLoc_self]
    rcases loc with loc | loc <;> rw [loc]
    · exact .take
    · exact .takeAwake
  | lockWait mode loc busy level =>
    rw [show State.loc (State.block _ _ _) s.currentThread = _ from Function.update_self ..]
    rcases loc with loc | loc <;> rw [loc]
    · exact .lockWait
    · exact .lockWaitAgain
  | release mode loc => rw [loc, setLoc_self]; exact .release
  | down mode loc value =>
    rw [setLoc_self]
    rcases loc with loc | loc <;> rw [loc]
    · exact .down
    · exact .downAwake
  | semWait mode loc value level =>
    rw [show State.loc (State.block _ _ _) s.currentThread = _ from Function.update_self ..]
    rcases loc with loc | loc <;> rw [loc]
    · exact .semWait
    · exact .semWaitAgain
  | up mode loc => rw [loc, setLoc_self]; exact .up
  | yieldAlone mode loc ready => rw [loc, setLoc_self]; exact .yield
  | @yield old c _ _ _ mode loc ready run =>
    have hp := h.setLoc mode (l := .ret old (.client c) .unit) trivial (.inl rfl)
    rw [loc, yieldTo_loc run hp.doomed (setLoc_self ..)]
    exact .yield
  | ret mode loc => rw [loc, setLoc_self]; exact .ret
  | waitAcquire mode loc => rw [loc, setLoc_self]; exact .waitAcquire
  | waitSleep mode loc level =>
    rw [loc, blockOnCond_loc, Function.update_self]
    exact .waitSleep
  | waitAwake mode loc => rw [loc, setLoc_self]; exact .waitAwake
  | waitReturn mode loc => rw [loc, setLoc_self]; exact .waitReturn
  | signalDequeue mode loc => rw [loc, setLoc_self]; exact .signalDequeue
  | signalNone mode loc => rw [loc, setLoc_self]; exact .signalNone
  | signalReady mode loc => rw [loc, setLoc_self]; exact .signalReady
  | bcastDequeue mode loc => rw [loc, setLoc_self]; exact .bcastDequeue
  | bcastNone mode loc => rw [loc, setLoc_self]; exact .bcastNone
  | bcastReady mode loc => rw [loc, setLoc_self]; exact .bcastReady
  | preempt mode loc level ready run =>
    rw [loc, yieldTo_loc run h.doomed loc]
    exact .tick
  | interrupt allowed handler =>
    obtain ⟨-, -, k, r, loc⟩ := inTick_of_running allowed hm
    rw [show (s.handled _).loc s.currentThread = s.loc s.currentThread from rfl, loc]
    exact .tick
  | @interruptUp _ shared i allowed handler =>
    obtain ⟨-, -, k, r, loc⟩ := inTick_of_running allowed hm
    rw [show ((s.handled shared).raise i).loc s.currentThread = s.loc s.currentThread from
      congrFun ((s.handled shared).wake_loc (.sem i)) _, loc]
    exact .tick
  | dispatch mode ready run => exact absurd hm mode

/-- While no thread runs, nothing is seen. -/
lemma Step.events_of_not_running (hs : Step K s es s') (hm : s.mode ≠ .running) : es = [] := by
  cases hs with
  | interrupt | interruptUp | dispatch => rfl
  | _ mode => exact absurd mode hm

/-! ### The queue of a condition -/

/-- What the code at a place does to the queue of a condition. -/
inductive CondOp where
  | append | remove | nothing
  deriving DecidableEq

def Loc.condOp (cond : ℕ) : Loc C → CondOp
  | .run (.waitSleep c _ _ _) _ => if c = cond then .append else .nothing
  | .run (.signalDequeue c _) _ => if c = cond then .remove else .nothing
  | .run (.bcastDequeue c _ _) _ => if c = cond then .remove else .nothing
  | _ => .nothing

def CondOp.apply : CondOp → Tid → List Tid → List Tid
  | .append, t, ts => ts ++ [t]
  | .remove, _, ts => ts.tail
  | .nothing, _, ts => ts

lemma dequeue_queue_cond (cond cond' : ℕ) :
    (s.dequeue cond').2.queue (.cond cond) =
      if cond' = cond then (s.queue (.cond cond)).tail else s.queue (.cond cond) := by
  unfold State.dequeue
  split
  next h =>
    split
    next he => rw [← he, h, List.tail_nil]
    next => rfl
  next h =>
    split
    next he =>
      subst he
      rw [h]
      exact Function.update_self ..
    next he => simp [State.setQueue, Ne.symm he]

lemma dequeue_fst (cond : ℕ) : (s.dequeue cond).1 = (s.queue (.cond cond)).head? := by
  unfold State.dequeue
  split
  next h => rw [h, List.head?_nil]
  next h => rw [h, List.head?_cons]

lemma wake_queue_cond {q : QueueId} {cond : ℕ} (hq : q ≠ .cond cond) :
    (s.wake q).queue (.cond cond) = s.queue (.cond cond) := by
  rw [State.wake_queue]
  exact Function.update_of_ne (Ne.symm hq) _ _

lemma releaseLock_queue_cond (l : LockId) (cond : ℕ) :
    (s.releaseLock l).queue (.cond cond) = s.queue (.cond cond) := by
  unfold State.releaseLock
  split
  · exact wake_queue_cond (s := s.setLock l ⟨true, none⟩) (by simp)
  · rfl

theorem Step.condQueue (hs : Step K s es s') (cond : ℕ) :
    s'.queue (.cond cond) = if s.mode = .running then
      ((s.loc s.currentThread).condOp cond).apply s.currentThread (s.queue (.cond cond))
      else s.queue (.cond cond) := by
  cases hs with
  | take mode loc free =>
    rw [if_pos mode]
    rcases loc with loc | loc <;> rw [loc] <;> rfl
  | lockWait mode loc busy level =>
    rw [if_pos mode]
    rcases loc with loc | loc <;> rw [loc] <;>
      simp [State.block, State.append, State.setQueue, State.setStatus, Loc.condOp, CondOp.apply]
  | release mode loc =>
    rw [if_pos mode, loc]
    exact releaseLock_queue_cond _ _
  | down mode loc value =>
    rw [if_pos mode]
    rcases loc with loc | loc <;> rw [loc] <;> rfl
  | semWait mode loc value level =>
    rw [if_pos mode]
    rcases loc with loc | loc <;> rw [loc] <;>
      simp [State.block, State.append, State.setQueue, State.setStatus, Loc.condOp, CondOp.apply]
  | up mode loc =>
    rw [if_pos mode, loc]
    exact wake_queue_cond (by simp)
  | yield mode loc ready run =>
    rw [if_pos mode, loc, (yieldTo_frame run).2.1]
    rfl
  | @waitSleep c l old c' r mode loc level =>
    rw [if_pos mode, loc]
    have hb : (s.blockOnCond c l old c').queue (.cond cond) =
        (s.append (.cond c)).queue (.cond cond) := releaseLock_queue_cond _ _
    rw [hb]
    by_cases hc : c = cond
    · subst hc
      simp [Loc.condOp, CondOp.apply, State.append, State.setQueue]
    · simp [Loc.condOp, CondOp.apply, State.append, State.setQueue, hc, Ne.symm hc]
  | @signalDequeue c _ _ mode loc =>
    rw [if_pos mode, loc]
    refine (dequeue_queue_cond cond c).trans ?_
    by_cases hc : c = cond <;> simp [Loc.condOp, CondOp.apply, hc]
  | @bcastDequeue c _ _ _ mode loc =>
    rw [if_pos mode, loc]
    refine (dequeue_queue_cond cond c).trans ?_
    by_cases hc : c = cond <;> simp [Loc.condOp, CondOp.apply, hc]
  | preempt mode loc level ready run =>
    rw [if_pos mode, loc, (yieldTo_frame run).2.1]
    rfl
  | interrupt allowed handler =>
    split
    next mode =>
      obtain ⟨-, -, k, r, loc⟩ := inTick_of_running allowed mode
      rw [loc]
      rfl
    next => rfl
  | @interruptUp _ shared i allowed handler =>
    refine (wake_queue_cond (s := s.handled shared) (q := .sem i) (by simp)).trans ?_
    split
    next mode =>
      obtain ⟨-, -, k, r, loc⟩ := inTick_of_running allowed mode
      rw [loc]
      rfl
    next => rfl
  | dispatch mode ready run =>
    rw [if_neg mode, (runThread_frame run).2.1]
  | _ mode loc => rw [if_pos mode, loc]; rfl

end Nachos.Threads