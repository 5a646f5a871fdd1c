import Mathlib.Data.List.Count
import Nachos.Threads.Lock

/-!
# No thread is lost

`Placed` says that a thread is in at most one place. `Accounted` is the other half: a thread that
was forked and has not finished is running, on the ready list, on a queue, or in the hands of a
`Signal` or `Broadcast` that has dequeued it, and its status says which. The rules keep it: what
is taken off a queue goes to the ready list or into the hands of the running thread, and what
the running thread has in its hands it readies before it returns to its client.

`Thread::Sleep` is what `P`, `Acquire`, `Wait` and `Finish` call; the first three put the thread
on a queue before.
-/

namespace Nachos.Threads

variable {C σ ι H : Type}

/-- The thread is in one of the places. -/
def Somewhere (s : State C σ) (t : Tid) : Prop :=
  (s.mode = .running ∧ s.currentThread = t) ∨ t ∈ s.readyList ∨ (∃ q, t ∈ s.queue q) ∨
    ∃ u, (s.loc u).limbo = some t

/-- **Every live thread is somewhere**, and the status of a thread fits its place. -/
structure Accounted (s : State C σ) : Prop where
  somewhere : ∀ t, (s.loc t).Alive → Somewhere s t
  running : s.mode = .running → s.status s.currentThread = .running
  ready : ∀ t ∈ s.readyList, s.status t = .ready
  queued : ∀ q, ∀ t ∈ s.queue q, s.status t = .blocked
  hands : ∀ u t, (s.loc u).limbo = some t → s.status t = .blocked

section Pieces

variable {s : State C σ}

/-- Only the lists, the places, the status and the running thread matter. -/
lemma Accounted.congr {s' : State C σ} (h : Accounted s) (hq : s'.queue = s.queue)
    (hl : s'.loc = s.loc) (hr : s'.readyList = s.readyList) (hst : s'.status = s.status)
    (hc : s'.currentThread = s.currentThread) (hm : s'.mode = .running ↔ s.mode = .running) :
    Accounted s' := by
  refine ⟨fun t ht => ?_, fun hrun => ?_, ?_, ?_, ?_⟩
  · have hsome := h.somewhere t (hl ▸ ht)
    unfold Somewhere at hsome ⊢
    rwa [hq, hl, hr, hc, hm]
  · rw [hst, hc]
    exact h.running (hm.1 hrun)
  · rw [hr, hst]
    exact h.ready
  · rw [hq, hst]
    exact h.queued
  · rw [hl, hst]
    exact h.hands

lemma Accounted.setLevel (h : Accounted s) (lv : IntStatus) : Accounted (s.setLevel lv) :=
  h.congr rfl rfl rfl rfl rfl Iff.rfl

lemma Accounted.setLock (h : Accounted s) (l : LockId) (v : Lock) : Accounted (s.setLock l v) :=
  h.congr rfl rfl rfl rfl rfl Iff.rfl

lemma Accounted.setValue (h : Accounted s) (i : ℕ) (v : ℤ) : Accounted (s.setValue i v) :=
  h.congr rfl rfl rfl rfl rfl Iff.rfl

lemma Accounted.setShared (h : Accounted s) (shared : σ) : Accounted { s with shared := shared } :=
  h.congr rfl rfl rfl rfl rfl Iff.rfl

lemma Accounted.handled (h : Accounted s) (shared : σ) : Accounted (s.handled shared) := by
  refine h.congr rfl rfl rfl rfl rfl ?_
  show (if s.mode = .running then Mode.running else .idling) = .running ↔ s.mode = .running
  by_cases hm : s.mode = .running
  · simp [hm]
  · simp [hm]

/-! ### The running thread goes on -/

lemma limbo_setLoc {t : Tid} {l : Loc C} (hl : l.limbo = (s.loc t).limbo) (u : Tid) :
    ((s.setLoc t l).loc u).limbo = (s.loc u).limbo := by
  by_cases hu : u = t
  · rw [hu, setLoc_self, hl]
  · rw [setLoc_of_ne _ _ hu]

/-- It keeps what it has in its hands. -/
lemma Accounted.setLoc (h : Accounted s) (hm : s.mode = .running) {l : Loc C}
    (hl : l.limbo = (s.loc s.currentThread).limbo) :
    Accounted (s.setLoc s.currentThread l) := by
  refine ⟨fun t ht => ?_, h.running, h.ready, h.queued, fun u t hu => ?_⟩
  · by_cases htc : t = s.currentThread
    · exact .inl ⟨hm, htc.symm⟩
    · rw [setLoc_of_ne _ _ htc] at ht
      rcases h.somewhere t ht with hrun | hready | hqueue | ⟨u, hu⟩
      · exact .inl hrun
      · exact .inr (.inl hready)
      · exact .inr (.inr (.inl hqueue))
      · exact .inr (.inr (.inr ⟨u, by rw [limbo_setLoc hl, hu]⟩))
  · rw [limbo_setLoc hl] at hu
    exact h.hands u t hu

/-! ### Queues -/

/-- The running thread goes to sleep on a queue. -/
lemma Accounted.block (h : Accounted s) (hp : Placed s) (hm : s.mode = .running) {q : QueueId}
    {l : Loc C} (hl : l.limbo = (s.loc s.currentThread).limbo) : Accounted (s.block q l) := by
  obtain ⟨-, hn, hu⟩ := hp.running hm
  have hqueue : (s.block q l).queue = Function.update s.queue q (s.queue q ++ [s.currentThread]) :=
    rfl
  have hstatus : ∀ t, t ≠ s.currentThread → (s.block q l).status t = s.status t := fun t ht =>
    Function.update_of_ne ht _ _
  have hself : (s.block q l).status s.currentThread = .blocked := Function.update_self ..
  have hmem : ∀ {q' t}, t ∈ s.queue q' → t ∈ (s.block q l).queue q' := by
    intro q' t ht
    rw [hqueue]
    by_cases hq : q' = q
    · subst hq
      rw [Function.update_self]
      exact List.mem_append_left _ ht
    · rwa [Function.update_of_ne hq]
  have hlimbo : ∀ u, ((s.block q l).loc u).limbo = (s.loc u).limbo := limbo_setLoc (s := s) hl
  refine ⟨fun t ht => ?_, fun hrun => ?_, fun t ht => ?_, fun q' t ht => ?_, fun u t hut => ?_⟩
  · by_cases htc : t = s.currentThread
    · refine .inr (.inr (.inl ⟨q, ?_⟩))
      rw [hqueue, Function.update_self, htc]
      exact List.mem_append_right _ (List.mem_singleton_self _)
    · rw [show (s.block q l).loc t = s.loc t from Function.update_of_ne htc _ _] at ht
      rcases h.somewhere t ht with ⟨-, hrun⟩ | hready | ⟨q', hq'⟩ | ⟨u, hut⟩
      · exact absurd hrun.symm htc
      · exact .inr (.inl hready)
      · exact .inr (.inr (.inl ⟨q', hmem hq'⟩))
      · exact .inr (.inr (.inr ⟨u, by rw [hlimbo, hut]⟩))
  · cases hrun
  · have hready : t ∈ s.readyList := ht
    rw [hstatus t fun he => hn (he ▸ hready)]
    exact h.ready t hready
  · by_cases htc : t = s.currentThread
    · rw [htc, hself]
    · rw [hstatus t htc]
      rw [hqueue] at ht
      by_cases hq : q' = q
      · subst hq
        rw [Function.update_self, List.mem_append, List.mem_singleton] at ht
        exact h.queued q' t (ht.resolve_right htc)
      · rw [Function.update_of_ne hq] at ht
        exact h.queued q' t ht
  · rw [hlimbo] at hut
    rw [hstatus t (hu.ne_of_limbo hut)]
    exact h.hands u t hut

/-- `ReadyToRun` changes one status. -/
lemma readyToRun_status_of_ne {t x : Tid} (h : x ≠ t) :
    (s.readyToRun t).status x = s.status x :=
  Function.update_of_ne h _ _

lemma readyToRun_status_self (t : Tid) : (s.readyToRun t).status t = .ready :=
  Function.update_self ..

/-- A thread that is in no list and in nobody's hands is readied. -/
lemma Accounted.readyToRun (h : Accounted s) {x : Tid} (hx : Unparked s x)
    (hrun : s.mode = .running → s.currentThread ≠ x) : Accounted (s.readyToRun x) := by
  refine ⟨fun t ht => ?_, fun hm => ?_, fun t ht => ?_, fun q t ht => ?_, fun u t hu => ?_⟩
  · rcases h.somewhere t ht with hr | hready | hqueue | hhands
    · exact .inl hr
    · exact .inr (.inl (List.mem_append_left _ hready))
    · exact .inr (.inr (.inl hqueue))
    · exact .inr (.inr (.inr hhands))
  · exact (readyToRun_status_of_ne (hrun hm)).trans (h.running hm)
  · by_cases htx : t = x
    · rw [htx, readyToRun_status_self]
    · rw [readyToRun_status_of_ne htx]
      have hmem : t ∈ s.readyList ++ [x] := ht
      rw [List.mem_append, List.mem_singleton] at hmem
      exact h.ready t (hmem.resolve_right htx)
  · rw [readyToRun_status_of_ne (hx.ne_of_queue ht)]
    exact h.queued q t ht
  · rw [readyToRun_status_of_ne (hx.ne_of_limbo hu)]
    exact h.hands u t hu

/-- The head of a queue is taken off it and readied. -/
lemma Accounted.wake (h : Accounted s) (hp : Placed s) (q : QueueId) : Accounted (s.wake q) := by
  cases hq : s.queue q with
  | nil => rwa [s.wake_nil hq]
  | cons t rest =>
    obtain ⟨hs, hrest, hready, hlimbo⟩ := hp.head hq
    have hmem : t ∈ s.queue q := by rw [hq]; exact List.mem_cons_self
    have hqueue : ∀ {q' x}, x ∈ (s.wake q).queue q' → x ≠ t ∧ x ∈ s.queue q' := by
      intro q' x hx
      refine ⟨fun he => ?_, mem_wake_queue hx⟩
      have hq' := hp.queued q' x (mem_wake_queue hx)
      rw [he, hs] at hq'
      obtain rfl := Option.some_inj.1 hq'
      rw [State.wake_queue, Function.update_self, hq, List.tail_cons, he] at hx
      exact hrest hx
    have hstatus : ∀ x, x ≠ t → (s.wake q).status x = s.status x := by
      intro x hx
      rw [s.wake_cons hq]
      exact Function.update_of_ne hx _ _
    refine ⟨fun x hx => ?_, fun hm => ?_, fun x hx => ?_, fun q' x hx => ?_, fun u x hux => ?_⟩
    · rw [State.wake_loc] at hx
      by_cases hxt : x = t
      · refine .inr (.inl ?_)
        rw [State.wake_readyList, hq, hxt]
        exact List.mem_append_right _ (List.mem_singleton_self _)
      · rcases h.somewhere x hx with hr | hr | ⟨q', hq'⟩ | ⟨u, hu⟩
        · refine .inl ?_
          rwa [State.wake_mode, State.wake_currentThread]
        · refine .inr (.inl ?_)
          rw [State.wake_readyList]
          exact List.mem_append_left _ hr
        · refine .inr (.inr (.inl ⟨q', ?_⟩))
          rw [State.wake_queue]
          by_cases hqq : q' = q
          · subst hqq
            rw [hq] at hq'
            rw [Function.update_self, hq, List.tail_cons]
            exact (List.mem_cons.1 hq').resolve_left hxt
          · rwa [Function.update_of_ne hqq]
        · refine .inr (.inr (.inr ⟨u, ?_⟩))
          rwa [State.wake_loc]
    · rw [State.wake_mode] at hm
      rw [State.wake_currentThread, hstatus _ ((hp.running hm).2.2.ne_of_queue hmem).symm]
      exact h.running hm
    · by_cases hxt : x = t
      · rw [hxt, s.wake_cons hq]
        exact readyToRun_status_self t
      · rw [State.wake_readyList, hq] at hx
        rw [hstatus x hxt]
        refine h.ready x ((List.mem_append.1 hx).resolve_right fun hx => hxt ?_)
        simpa using hx
    · obtain ⟨hxt, hx⟩ := hqueue hx
      rw [hstatus x hxt]
      exact h.queued q' x hx
    · rw [State.wake_loc] at hux
      rw [hstatus x fun he => hlimbo u (he ▸ hux)]
      exact h.hands u x hux

lemma Accounted.raise (h : Accounted s) (hp : Placed s) (i : ℕ) : Accounted (s.raise i) :=
  (h.wake hp (.sem i)).setValue _ _

lemma Accounted.releaseLock (h : Accounted s) (hp : Placed s) (l : LockId) :
    Accounted (s.releaseLock l) := by
  unfold State.releaseLock
  split
  · exact (h.setLock l _).wake (hp.setLock l _) _
  · exact h

lemma wake_status (q : QueueId) : (s.wake q).status =
    match s.queue q with
    | [] => s.status
    | t :: _ => Function.update s.status t .ready := by
  unfold State.wake
  cases s.queue q with
  | nil => rfl
  | cons t rest => rfl

/-- A thread that goes to sleep after it woke the head of a queue sleeps as if it had before. -/
lemma update_wake_status (a b : State C σ) {q : QueueId} (hq : b.queue q = a.queue q)
    (hst : b.status = Function.update a.status a.currentThread .blocked)
    (hu : a.currentThread ∉ a.queue q) :
    Function.update (a.wake q).status a.currentThread .blocked = (b.wake q).status := by
  rw [wake_status, wake_status, hq, hst]
  cases hs : a.queue q with
  | nil => rfl
  | cons t rest =>
    have hne : t ≠ a.currentThread := by
      rintro rfl
      exact hu (by rw [hs]; exact List.mem_cons_self)
    exact (Function.update_comm hne.symm _ _ _).symm

/-- `Condition::Wait` goes to sleep. -/
lemma Accounted.blockOnCond (h : Accounted s) (hp : Placed s) (hm : s.mode = .running)
    (cond l : ℕ) (old : IntStatus) (c : C) (hl : (s.loc s.currentThread).limbo = none) :
    Accounted (s.blockOnCond cond l old c) := by
  have hb : Accounted (s.block (.cond cond) (.condAsleep cond l old c)) := h.block hp hm hl.symm
  have hpb : Placed (s.block (.cond cond) (.condAsleep cond l old c)) :=
    hp.block hm rfl (.inl rfl)
  unfold State.blockOnCond
  by_cases hh : (s.append (.cond cond)).isHeldByCurrentThread (.queueLock cond)
  · rw [State.releaseLock_of_held _ hh]
    have hu : s.currentThread ∉ s.queue (.lock (.queueLock cond)) := (hp.running hm).2.2.queue _
    have hu' : s.currentThread ∉ ((s.append (.cond cond)).setLock (.queueLock cond)
        ⟨true, none⟩).queue (.lock (.queueLock cond)) := by
      simpa [State.setLock, State.append, State.setQueue] using hu
    have hst := update_wake_status ((s.append (.cond cond)).setLock (.queueLock cond) ⟨true, none⟩)
      (s.block (.cond cond) (.condAsleep cond l old c)) rfl rfl hu'
    refine (hb.wake hpb (.lock (.queueLock cond))).congr ?_ ?_ ?_ ?_ ?_ ?_
    case refine_4 => simpa [State.setLoc, State.setStatus] using hst
    all_goals simp [State.setLoc, State.setStatus, State.setLock, State.block, State.append,
      State.setQueue]
  · rw [State.releaseLock_of_not_held _ hh]
    exact hb.congr rfl rfl rfl rfl rfl Iff.rfl

/-! ### Threads in the hands of `Signal` and `Broadcast` -/

/-- `queue->Remove()`: the head is in the hands of the running thread. -/
lemma Accounted.dequeue (h : Accounted s) (hm : s.mode = .running) (cond : ℕ) {l : Loc C}
    (hnone : (s.loc s.currentThread).limbo = none) (hl : l.limbo = (s.dequeue cond).1) :
    Accounted ((s.dequeue cond).2.setLoc s.currentThread l) := by
  unfold State.dequeue at hl ⊢
  cases hq : s.queue (.cond cond) with
  | nil =>
    simp only [hq] at hl ⊢
    exact h.setLoc hm (hl.trans hnone.symm)
  | cons t rest =>
    simp only [hq] at hl ⊢
    have hqueue : ∀ {q x}, x ∈ Function.update s.queue (.cond cond) rest q → x ∈ s.queue q := by
      intro q x hx
      by_cases hqc : q = .cond cond
      · subst hqc
        rw [Function.update_self] at hx
        rw [hq]
        exact List.mem_cons_of_mem _ hx
      · rwa [Function.update_of_ne hqc] at hx
    refine ⟨fun x hx => ?_, h.running, h.ready, fun q x hx => h.queued q x (hqueue hx),
      fun u x hux => ?_⟩
    · by_cases hxc : x = s.currentThread
      · exact .inl ⟨hm, hxc.symm⟩
      rw [setLoc_of_ne _ _ hxc] at hx
      by_cases hxt : x = t
      · refine .inr (.inr (.inr ⟨s.currentThread, ?_⟩))
        rw [setLoc_self, hl, hxt]
      · rcases h.somewhere x hx with hr | hr | ⟨q, hxq⟩ | ⟨u, hux⟩
        · exact .inl hr
        · exact .inr (.inl hr)
        · refine .inr (.inr (.inl ⟨q, ?_⟩))
          show x ∈ Function.update s.queue (.cond cond) rest q
          by_cases hqc : q = .cond cond
          · subst hqc
            rw [hq] at hxq
            rw [Function.update_self]
            exact (List.mem_cons.1 hxq).resolve_left hxt
          · rwa [Function.update_of_ne hqc]
        · refine .inr (.inr (.inr ⟨u, ?_⟩))
          rw [setLoc_of_ne]
          · exact hux
          · rintro rfl
            rw [hnone] at hux
            cases hux
    · by_cases huc : u = s.currentThread
      · subst huc
        rw [setLoc_self, hl] at hux
        obtain rfl := Option.some_inj.1 hux
        exact h.queued (.cond cond) t (by rw [hq]; exact List.mem_cons_self)
      · rw [setLoc_of_ne _ _ huc] at hux
        exact h.hands u x hux

/-- `ReadyToRun` of the thread in the hands of the running one. -/
lemma Accounted.readyLimbo (h : Accounted s) (hp : Placed s) (hm : s.mode = .running) {x : Tid}
    {l : Loc C} (hx : (s.loc s.currentThread).limbo = some x) (hl : l.limbo = none) :
    Accounted ((s.readyToRun x).setLoc s.currentThread l) := by
  obtain ⟨-, -, hu⟩ := hp.running hm
  obtain ⟨cond, hc, hxq⟩ := hp.limbo _ x hx
  have hxc : x ≠ s.currentThread := hu.ne_of_limbo hx
  have hlimbo : ∀ u t, (((s.readyToRun x).setLoc s.currentThread l).loc u).limbo = some t →
      u ≠ s.currentThread ∧ (s.loc u).limbo = some t := by
    intro u t hut
    have huc : u ≠ s.currentThread := by
      rintro rfl
      rw [show ((s.readyToRun x).setLoc s.currentThread l).loc s.currentThread = l from
        setLoc_self .., hl] at hut
      cases hut
    refine ⟨huc, ?_⟩
    rwa [setLoc_of_ne _ _ huc] at hut
  refine ⟨fun t ht => ?_, fun _ => ?_, fun t ht => ?_, fun q t ht => ?_, fun u t hut => ?_⟩
  · by_cases htc : t = s.currentThread
    · exact .inl ⟨hm, htc.symm⟩
    · rw [setLoc_of_ne _ _ htc] at ht
      by_cases htx : t = x
      · exact .inr (.inl (htx ▸ List.mem_append_right _ (List.mem_singleton_self _)))
      · rcases h.somewhere t ht with hr | hr | hr | ⟨u, hut⟩
        · exact .inl hr
        · exact .inr (.inl (List.mem_append_left _ hr))
        · exact .inr (.inr (.inl hr))
        · refine .inr (.inr (.inr ⟨u, ?_⟩))
          rw [setLoc_of_ne]
          · exact hut
          · rintro rfl
            rw [hx] at hut
            exact htx (Option.some_inj.1 hut).symm
  · exact (readyToRun_status_of_ne hxc.symm).trans (h.running hm)
  · by_cases htx : t = x
    · rw [htx]
      exact readyToRun_status_self x
    · have hmem : t ∈ s.readyList ++ [x] := ht
      rw [List.mem_append, List.mem_singleton] at hmem
      exact (readyToRun_status_of_ne htx).trans (h.ready t (hmem.resolve_right htx))
  · have hqueue : t ∈ s.queue q := ht
    have htx : t ≠ x := by
      rintro rfl
      have hs := hp.queued q t hqueue
      rw [hc] at hs
      obtain rfl := Option.some_inj.1 hs
      exact hxq hqueue
    exact (readyToRun_status_of_ne htx).trans (h.queued q t hqueue)
  · obtain ⟨huc, hut'⟩ := hlimbo u t hut
    have htx : t ≠ x := by
      rintro rfl
      exact huc (hp.limbo_inj u _ t hut' hx)
    exact (readyToRun_status_of_ne htx).trans (h.hands u t hut')

/-! ### The processor changes hands -/

/-- Every live thread waits: as `Accounted`, when no thread runs. -/
structure AllWait (s : State C σ) : Prop where
  somewhere : ∀ t, (s.loc t).Alive →
    t ∈ s.readyList ∨ (∃ q, t ∈ s.queue q) ∨ ∃ u, (s.loc u).limbo = some t
  ready : ∀ t ∈ s.readyList, s.status t = .ready
  queued : ∀ q, ∀ t ∈ s.queue q, s.status t = .blocked
  hands : ∀ u t, (s.loc u).limbo = some t → s.status t = .blocked

lemma Accounted.allWait (h : Accounted s) (hm : s.mode ≠ .running) : AllWait s where
  somewhere t ht := (h.somewhere t ht).resolve_left fun hr => hm hr.1
  ready := h.ready
  queued := h.queued
  hands := h.hands

/-- `ReadyToRun(this)` in `Yield`. -/
lemma Accounted.readyCurrent (h : Accounted s) (hp : Placed s) (hm : s.mode = .running) :
    AllWait (s.readyToRun s.currentThread) := by
  obtain ⟨-, hn, hu⟩ := hp.running hm
  refine ⟨fun t ht => ?_, fun t ht => ?_, fun q t ht => ?_, fun u t hut => ?_⟩
  · rcases h.somewhere t ht with ⟨-, rfl⟩ | hready | hrest
    · exact .inl (List.mem_append_right _ (List.mem_singleton_self _))
    · exact .inl (List.mem_append_left _ hready)
    · exact .inr hrest
  · by_cases htc : t = s.currentThread
    · rw [htc]
      exact readyToRun_status_self _
    · have hmem : t ∈ s.readyList ++ [s.currentThread] := ht
      rw [List.mem_append, List.mem_singleton] at hmem
      exact (readyToRun_status_of_ne htc).trans (h.ready t (hmem.resolve_right htc))
  · exact (readyToRun_status_of_ne (hu.ne_of_queue ht)).trans (h.queued q t ht)
  · exact (readyToRun_status_of_ne (hu.ne_of_limbo hut)).trans (h.hands u t hut)

/-- The head of the ready list gets the processor. -/
lemma AllWait.switchTo (h : AllWait s) {next : Tid} {rest : List Tid}
    (hr : s.readyList = next :: rest) (hnext : next ∉ rest) (hu : Unparked s next) :
    Accounted ({ s with readyList := rest }.switchTo next) := by
  have hstatus : ∀ t, t ≠ next →
      ({ s with readyList := rest }.switchTo next).status t = s.status t :=
    fun t ht => Function.update_of_ne ht _ _
  refine ⟨fun t ht => ?_, fun _ => Function.update_self .., fun t ht => ?_, fun q t ht => ?_,
    fun u t hut => ?_⟩
  · rcases h.somewhere t ht with hready | hrest
    · rw [hr, List.mem_cons] at hready
      rcases hready with rfl | hready
      · exact .inl ⟨rfl, rfl⟩
      · exact .inr (.inl hready)
    · exact .inr (.inr hrest)
  · have hmem : t ∈ rest := ht
    have hne : t ≠ next := fun he => hnext (he ▸ hmem)
    rw [hstatus t hne]
    exact h.ready t (hr ▸ List.mem_cons_of_mem _ hmem)
  · rw [hstatus t (hu.ne_of_queue ht)]
    exact h.queued q t ht
  · rw [hstatus t (hu.ne_of_limbo hut)]
    exact h.hands u t hut

/-- A finished thread is deleted. -/
lemma Accounted.reap (h : Accounted s) {d : Tid} (hd : s.loc d = .finished) :
    Accounted { s.setLoc d .unborn with threadToBeDestroyed := none } := by
  have hlimbo : ∀ u, ((s.setLoc d .unborn).loc u).limbo = (s.loc u).limbo :=
    limbo_setLoc (by rw [hd]; rfl)
  refine ⟨fun t ht => ?_, h.running, h.ready, h.queued, fun u t hut => ?_⟩
  · have ht' : ((s.setLoc d .unborn).loc t).Alive := ht
    by_cases htd : t = d
    · rw [htd, setLoc_self] at ht'
      cases ht'
    · rw [setLoc_of_ne _ _ htd] at ht'
      rcases h.somewhere t ht' with hr | hr | hr | ⟨u, hut⟩
      · exact .inl hr
      · exact .inr (.inl hr)
      · exact .inr (.inr (.inl hr))
      · exact .inr (.inr (.inr ⟨u, (hlimbo u).trans hut⟩))
  · exact h.hands u t ((hlimbo u).symm.trans hut)

/-- `Scheduler::Run` of the head of the ready list. -/
lemma AllWait.runThread {s' : State C σ} (h : AllWait s) (hp : Parked s) {next : Tid}
    {rest : List Tid} (hr : s.readyList = next :: rest)
    (run : { s with readyList := rest }.runThread next = .ok s') : Accounted s' := by
  have hnd : next ∉ rest := (List.nodup_cons.1 (hr ▸ hp.ready_nodup)).1
  have hu : Unparked s next := (hp.ready next (hr ▸ List.mem_cons_self)).2
  have hsw := h.switchTo hr hnd hu
  rcases runThread_cases run with ⟨c, hc, rfl⟩ | ⟨-, -, rfl⟩ | ⟨d, -, hd, -, rfl⟩
  · have hlimbo : (Loc.ret .intOn (.client c) .unit).limbo = (s.loc next).limbo := by
      rw [show s.loc next = .fresh c from hc]
      rfl
    exact hsw.setLoc rfl hlimbo
  · exact hsw
  · exact hsw.reap (hp.doomed d hd)

/-- `Yield` to the head of the ready list. -/
lemma Accounted.yieldTo {s' : State C σ} (h : Accounted s) (hp : Placed s)
    (hm : s.mode = .running) {next : Tid} {rest : List Tid} (hr : s.readyList = next :: rest)
    (run : s.yieldTo next rest = .ok s') : Accounted s' := by
  obtain ⟨ha, hn, hu⟩ := hp.running hm
  have hready : (s.readyToRun s.currentThread).readyList = next :: (rest ++ [s.currentThread]) := by
    show s.readyList ++ [s.currentThread] = _
    rw [hr, List.cons_append]
  exact (h.readyCurrent hp hm).runThread (hp.toParked.readyToRun hn ha hu) hready run

/-! ### Threads come and go -/

lemma Accounted.fork (h : Accounted s) (hp : Placed s) (hm : s.mode = .running) {new : Tid}
    (hnew : s.loc new = .unborn) (hlimbo : (s.loc s.currentThread).limbo = none) (first c : C) :
    Accounted (s.fork new first c) := by
  have hne : s.currentThread ≠ new := by
    intro he
    have ha := (hp.running hm).1
    rw [he, hnew] at ha
    cases ha
  have hnu : Unparked s new := hp.unparked (by rw [hnew]; rfl)
  have hl : ∀ u, ((s.setLoc new (.fresh first)).loc u).limbo = (s.loc u).limbo :=
    limbo_setLoc (by rw [hnew]; rfl)
  have hf : Accounted ((((s.setLevel .intOff).setLoc new (.fresh first)).readyToRun new)) := by
    refine ⟨fun t ht => ?_, fun _ => ?_, fun t ht => ?_, fun q t ht => ?_, fun u t hut => ?_⟩
    · by_cases htn : t = new
      · exact .inr (.inl (htn ▸ List.mem_append_right _ (List.mem_singleton_self _)))
      · have ht' : ((s.setLoc new (.fresh first)).loc t).Alive := ht
        rw [setLoc_of_ne _ _ htn] at ht'
        rcases h.somewhere t ht' with hr | hr | hr | ⟨u, hut⟩
        · exact .inl hr
        · exact .inr (.inl (List.mem_append_left _ hr))
        · exact .inr (.inr (.inl hr))
        · exact .inr (.inr (.inr ⟨u, (hl u).trans hut⟩))
    · exact (readyToRun_status_of_ne hne).trans (h.running hm)
    · by_cases htn : t = new
      · rw [htn]
        exact readyToRun_status_self new
      · have hmem : t ∈ s.readyList ++ [new] := ht
        rw [List.mem_append, List.mem_singleton] at hmem
        exact (readyToRun_status_of_ne htn).trans (h.ready t (hmem.resolve_right htn))
    · exact (readyToRun_status_of_ne (hnu.ne_of_queue ht)).trans (h.queued q t ht)
    · have hut' : (s.loc u).limbo = some t := (hl u).symm.trans hut
      exact (readyToRun_status_of_ne (hnu.ne_of_limbo hut')).trans (h.hands u t hut')
  refine hf.setLoc hm ?_
  exact ((hl s.currentThread).trans hlimbo).symm

lemma Accounted.finish (h : Accounted s) (hp : Placed s) (hm : s.mode = .running)
    (hlimbo : (s.loc s.currentThread).limbo = none) : Accounted s.finish := by
  obtain ⟨-, hn, hu⟩ := hp.running hm
  have hl : ∀ u, ((s.setLoc s.currentThread .finished).loc u).limbo = (s.loc u).limbo :=
    limbo_setLoc hlimbo.symm
  have hstatus : ∀ t, t ≠ s.currentThread → s.finish.status t = s.status t := fun t ht =>
    Function.update_of_ne ht _ _
  refine ⟨fun t ht => ?_, fun hrun => ?_, fun t ht => ?_, fun q t ht => ?_, fun u t hut => ?_⟩
  · have ht' : ((s.setLoc s.currentThread .finished).loc t).Alive := ht
    by_cases htc : t = s.currentThread
    · rw [htc, setLoc_self] at ht'
      cases ht'
    · rw [setLoc_of_ne _ _ htc] at ht'
      rcases h.somewhere t ht' with ⟨-, hr⟩ | hr | hr | ⟨u, hut⟩
      · exact absurd hr.symm htc
      · exact .inr (.inl hr)
      · exact .inr (.inr (.inl hr))
      · exact .inr (.inr (.inr ⟨u, (hl u).trans hut⟩))
  · cases hrun
  · have hready : t ∈ s.readyList := ht
    rw [hstatus t fun he => hn (he ▸ hready)]
    exact h.ready t hready
  · rw [hstatus t (hu.ne_of_queue ht)]
    exact h.queued q t ht
  · have hut' : (s.loc u).limbo = some t := (hl u).symm.trans hut
    rw [hstatus t (hu.ne_of_limbo hut')]
    exact h.hands u t hut'

end Pieces

/-! ### Every rule accounts for every thread -/

variable {K : Client C σ ι H} {s s' : State C σ} {es : List (Event C)}

/-- **The rules lose no thread.** -/
theorem Accounted.step (h : Accounted s) (hp : Placed s) (hs : Step K s es s') : Accounted s' := by
  cases hs with
  | @call _ _ _ shared _ _ lv _ mode loc code entry =>
    have hl := congrArg Loc.limbo loc
    exact ((h.setShared shared).setLevel lv).setLoc mode (entry.place.2.trans hl.symm)
  | @fork _ _ _ shared _ _ _ mode loc code unborn =>
    exact (h.setShared shared).fork (hp.setShared shared) mode unborn (congrArg Loc.limbo loc) _ _
  | @finish _ _ _ shared mode loc code =>
    exact (h.setShared shared).finish (hp.setShared shared) mode (congrArg Loc.limbo loc)
  | @take l _ _ mode loc free =>
    exact (h.setLock l ⟨false, some s.currentThread⟩).setLoc mode (limbo_of_waiting loc).symm
  | lockWait mode loc busy level => exact h.block hp mode (limbo_of_waiting loc).symm
  | @release l old k mode loc =>
    have hc := s.releaseLock_currentThread l
    have hl := s.releaseLock_loc l
    have hr := (h.releaseLock hp l).setLoc (by simpa using mode) (l := .ret old k .unit)
      (by rw [hc, hl, loc]; rfl)
    rwa [hc] at hr
  | @down i _ _ mode loc value =>
    have hl : (s.loc s.currentThread).limbo = none := by rcases loc with loc | loc <;> rw [loc] <;> rfl
    exact (h.setValue i (s.value i - 1)).setLoc mode hl.symm
  | semWait mode loc value level =>
    have hl : (s.loc s.currentThread).limbo = none := by rcases loc with loc | loc <;> rw [loc] <;> rfl
    exact h.block hp mode hl.symm
  | @up i old c mode loc =>
    have hr := (h.raise hp i).setLoc (by simpa [State.raise, State.setValue] using mode)
      (l := .ret old (.client c) .unit)
      (by simp [State.raise, State.setValue, loc, Loc.limbo, Kont.limbo])
    rwa [show (s.raise i).currentThread = s.currentThread by
      simp [State.raise, State.setValue]] at hr
  | yieldAlone mode loc ready => exact h.setLoc mode (congrArg Loc.limbo loc).symm
  | @yield old c _ _ _ mode loc ready run =>
    have hl : (s.loc s.currentThread).limbo = none := congrArg Loc.limbo loc
    have hy : Accounted (s.setLoc s.currentThread (.ret old (.client c) .unit)) :=
      h.setLoc mode hl.symm
    exact hy.yieldTo (hp.setLoc mode trivial (.inl rfl)) mode ready run
  | @ret old _ _ mode loc => exact (h.setLevel old).setLoc mode (congrArg Loc.limbo loc).symm
  | waitAcquire mode loc => exact (h.setLevel .intOff).setLoc mode (congrArg Loc.limbo loc).symm
  | waitSleep mode loc level => exact h.blockOnCond hp mode _ _ _ _ (congrArg Loc.limbo loc)
  | waitAwake mode loc => exact (h.setLevel .intOff).setLoc mode (congrArg Loc.limbo loc).symm
  | waitReturn mode loc => exact h.setLoc mode (congrArg Loc.limbo loc).symm
  | signalDequeue mode loc =>
    exact (h.dequeue mode _ (congrArg Loc.limbo loc) (by rfl)).setLevel _
  | signalNone mode loc => exact h.setLoc mode (congrArg Loc.limbo loc).symm
  | signalReady mode loc => exact h.readyLimbo hp mode (congrArg Loc.limbo loc) (by rfl)
  | bcastDequeue mode loc =>
    exact (h.dequeue mode _ (congrArg Loc.limbo loc) (by rfl)).setLevel _
  | bcastNone mode loc => exact h.setLoc mode (congrArg Loc.limbo loc).symm
  | bcastReady mode loc =>
    exact (h.readyLimbo hp mode (congrArg Loc.limbo loc) (by rfl)).setLevel _
  | preempt mode loc level ready run => exact h.yieldTo hp mode ready run
  | interrupt allowed handler => exact h.handled _
  | interruptUp allowed handler => exact (h.handled _).raise (hp.handled _) _
  | dispatch mode ready run => exact (h.allWait mode).runThread hp.toParked ready run

lemma accounted_init (first : C) (value : ℕ → ℤ) (shared : σ) :
    Accounted (State.init first value shared) where
  somewhere t ht := by
    by_cases h0 : t = 0
    · exact .inl ⟨rfl, h0.symm⟩
    · simp [State.init, Function.update_of_ne h0, Loc.Alive] at ht
  running _ := rfl
  ready t ht := absurd ht List.not_mem_nil
  queued q t ht := absurd ht List.not_mem_nil
  hands u t hu := by
    by_cases h0 : u = 0
    · rw [h0] at hu
      cases hu
    · simp [State.init, Function.update_of_ne h0, Loc.limbo] at hu

/-- In every run, no thread is lost. -/
theorem Accounted.of_run {first : C} {value : ℕ → ℤ} {shared : σ} {tr : List (Event C)}
    (h : KernelRun K (State.init first value shared) tr s) : Accounted s := by
  have hboth : Accounted s ∧ Placed s :=
    h.rules.invariant_state
      (I := fun s => Accounted s ∧ Placed s)
      ⟨accounted_init first value shared, placed_init first value shared⟩
      fun ⟨ha, hp⟩ hs => ⟨ha.step hp hs, hp.step hs⟩
  exact hboth.1

/-! ### One place -/

/-- The places of a thread. -/
inductive Place where
  /-- `currentThread`, and not in `Sleep`. -/
  | running
  | readyList
  | queue (q : QueueId)
  /-- Dequeued by a `Signal` or `Broadcast` of `u` that has not called `ReadyToRun` yet. -/
  | hands (u : Tid)

/-- The thread is in a place. -/
def At (s : State C σ) (t : Tid) : Place → Prop
  | .running => s.mode = .running ∧ s.currentThread = t
  | .readyList => t ∈ s.readyList
  | .queue q => t ∈ s.queue q
  | .hands u => (s.loc u).limbo = some t

/-- How often it is there. -/
def State.occurs (s : State C σ) (t : Tid) : Place → ℕ
  | .running => if s.mode = .running ∧ s.currentThread = t then 1 else 0
  | .readyList => s.readyList.count t
  | .queue q => (s.queue q).count t
  | .hands u => if (s.loc u).limbo = some t then 1 else 0

/-- The status that goes with a place. -/
def Place.status : Place → ThreadStatus
  | .running => .running
  | .readyList => .ready
  | .queue _ => .blocked
  | .hands _ => .blocked

/-- The thread is in one place, once, and has the status that goes with it. -/
def OnePlace (s : State C σ) (t : Tid) : Prop :=
  ∃ p : Place, s.occurs t p = 1 ∧ s.status t = p.status ∧ ∀ p', p' ≠ p → s.occurs t p' = 0

lemma occurs_of_not_at {t : Tid} {p : Place} (h : ¬ At s t p) : s.occurs t p = 0 := by
  cases p with
  | running => exact if_neg h
  | readyList => exact List.count_eq_zero.2 h
  | queue q => exact List.count_eq_zero.2 h
  | hands u => exact if_neg h

lemma Placed.occurs_of_at (hp : Placed s) {t : Tid} {p : Place} (h : At s t p) :
    s.occurs t p = 1 := by
  cases p with
  | running => exact if_pos h
  | readyList => exact List.count_eq_one_of_mem hp.ready_nodup h
  | queue q => exact List.count_eq_one_of_mem (hp.queue_nodup q) h
  | hands u => exact if_pos h

lemma Accounted.status_of_at (ha : Accounted s) {t : Tid} {p : Place} (h : At s t p) :
    s.status t = p.status := by
  cases p with
  | running => exact h.2 ▸ ha.running h.1
  | readyList => exact ha.ready t h
  | queue q => exact ha.queued q t h
  | hands u => exact ha.hands u t h

/-- The running thread is in no other place. -/
lemma Placed.eq_of_at_running (hp : Placed s) {t : Tid} {p : Place} (hr : At s t .running)
    (h : At s t p) : p = .running := by
  obtain ⟨hm, rfl⟩ := hr
  obtain ⟨-, hn, hu⟩ := hp.running hm
  cases p with
  | running => rfl
  | readyList => exact absurd h hn
  | queue q => exact absurd h (hu.queue q)
  | hands u => exact absurd h (hu.limbo u)

/-- Nor is one on the ready list. -/
lemma Placed.eq_of_at_readyList (hp : Placed s) {t : Tid} {p : Place} (hr : At s t .readyList)
    (h : At s t p) : p = .readyList := by
  obtain ⟨-, hu⟩ := hp.ready t hr
  cases p with
  | running => cases hp.eq_of_at_running h hr
  | readyList => rfl
  | queue q => exact absurd h (hu.queue q)
  | hands u => exact absurd h (hu.limbo u)

/-- Nor is one on a queue. -/
lemma Placed.eq_of_at_queue (hp : Placed s) {t : Tid} {q : QueueId} {p : Place}
    (hq : At s t (.queue q)) (h : At s t p) : p = .queue q := by
  have hs := hp.queued q t hq
  cases p with
  | running => cases hp.eq_of_at_running h hq
  | readyList => cases hp.eq_of_at_readyList h hq
  | queue q' =>
    have hs' := hp.queued q' t h
    rw [hs] at hs'
    rw [Option.some_inj.1 hs']
  | hands u =>
    obtain ⟨cond, hc, hn⟩ := hp.limbo u t h
    rw [hs] at hc
    obtain rfl := Option.some_inj.1 hc
    exact absurd hq hn

/-- **A thread is in one place at most.** -/
lemma Placed.at_unique (hp : Placed s) {t : Tid} {p p' : Place} (h : At s t p)
    (h' : At s t p') : p' = p := by
  cases p with
  | running => exact hp.eq_of_at_running h h'
  | readyList => exact hp.eq_of_at_readyList h h'
  | queue q => exact hp.eq_of_at_queue h h'
  | hands u =>
    cases p' with
    | running => exact (hp.eq_of_at_running h' h).symm
    | readyList => exact (hp.eq_of_at_readyList h' h).symm
    | queue q => exact (hp.eq_of_at_queue h' h).symm
    | hands v => rw [hp.limbo_inj u v t h h']

lemma Accounted.exists_at (ha : Accounted s) {t : Tid} (ht : (s.loc t).Alive) :
    ∃ p, At s t p := by
  rcases ha.somewhere t ht with hr | hr | ⟨q, hq⟩ | ⟨u, hu⟩
  · exact ⟨.running, hr⟩
  · exact ⟨.readyList, hr⟩
  · exact ⟨.queue q, hq⟩
  · exact ⟨.hands u, hu⟩

/-- **No thread is lost, and none is scheduled twice**: in every state of every run, every thread
that was forked and has not finished is in exactly one place. -/
theorem onePlace_of_alive {first : C} {value : ℕ → ℤ} {shared : σ} {tr : List (Event C)}
    (h : KernelRun K (State.init first value shared) tr s) {t : Tid} (ht : (s.loc t).Alive) :
    OnePlace s t := by
  have hp := Placed.of_run h
  have ha := Accounted.of_run h
  obtain ⟨p, hat⟩ := ha.exists_at ht
  refine ⟨p, hp.occurs_of_at hat, ha.status_of_at hat, fun p' hne => ?_⟩
  exact occurs_of_not_at fun hat' => hne (hp.at_unique hat hat')

/-- The second of two contending threads waits on the queue of the lock. -/
theorem onePlace_of_alive_contenders :
    ∃ tr s, KernelRun contenders (State.init 0 (fun _ => 0) ()) tr s ∧
      s.occurs 1 (.queue (.lock (.lock 0))) = 1 ∧ OnePlace s 1 := by
  have run := @Lib.run_of_exec _ _ _ _ (step contenders) contention _
    (State.init 0 (fun _ => 0) ()) _ rfl
  exact ⟨_, _, run, rfl, onePlace_of_alive run trivial⟩

end Nachos.Threads
