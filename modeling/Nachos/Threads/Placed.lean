import Mathlib.Data.List.Nodup
import Nachos.Threads.Step

/-!
# Every thread is in one place

A thread that is not running is on the ready list, or on the queue of the lock, condition or
semaphore it sleeps on, or it has been taken off the queue of a condition by a `Signal` or
`Broadcast` that has not called `ReadyToRun` yet. `Placed` says that no thread is in two of these
places, or twice in one; the rules keep it.
-/

namespace Nachos.Threads

variable {C σ ι H : Type}

/-- The queue a routine put its thread on before it called `Sleep`. -/
def Loc.sleepsOn : Loc C → Option QueueId
  | .lockAsleep l _ _ => some (.lock l)
  | .semAsleep i _ _ => some (.sem i)
  | .condAsleep cond _ _ _ => some (.cond cond)
  | _ => none

/-- The thread a `Signal` or `Broadcast` has dequeued and not yet readied. -/
def Kont.limbo : Kont C → Option Tid
  | .signalReady _ x _ => x
  | .bcastReady _ _ x _ => x
  | _ => none

def Loc.limbo : Loc C → Option Tid
  | .run k _ => k.limbo
  | .acquire _ _ k => k.limbo
  | .lockAsleep _ _ k => k.limbo
  | .release _ _ k => k.limbo
  | .ret _ k _ => k.limbo
  | _ => none

/-- Forked, and not yet in `Finish`. -/
def Loc.Alive : Loc C → Prop
  | .unborn => False
  | .finished => False
  | _ => True

/-- On no queue, and in no `Signal`'s hands. -/
structure Unparked (s : State C σ) (x : Tid) : Prop where
  queue : ∀ q, x ∉ s.queue q
  limbo : ∀ u, (s.loc u).limbo ≠ some x

/-- The places of the threads that wait. -/
structure Parked (s : State C σ) : Prop where
  queued : ∀ q, ∀ x ∈ s.queue q, (s.loc x).sleepsOn = some q
  queue_nodup : ∀ q, (s.queue q).Nodup
  limbo : ∀ u x, (s.loc u).limbo = some x →
    ∃ cond, (s.loc x).sleepsOn = some (.cond cond) ∧ x ∉ s.queue (.cond cond)
  limbo_inj : ∀ u v x, (s.loc u).limbo = some x → (s.loc v).limbo = some x → u = v
  ready_nodup : s.readyList.Nodup
  ready : ∀ x ∈ s.readyList, (s.loc x).Alive ∧ Unparked s x
  doomed : ∀ d, s.threadToBeDestroyed = some d → s.loc d = .finished

/-- **Every thread is in one place**: the waiting threads are, and the running one is nowhere
else. -/
structure Placed (s : State C σ) : Prop extends Parked s where
  running : s.mode = .running → (s.loc s.currentThread).Alive ∧
    s.currentThread ∉ s.readyList ∧ Unparked s s.currentThread

section Pieces

variable {s : State C σ}

lemma Unparked.ne_of_queue {t x : Tid} {q : QueueId} (h : Unparked s t) (hx : x ∈ s.queue q) :
    x ≠ t := by
  rintro rfl
  exact h.queue q hx

lemma Unparked.ne_of_limbo {t u x : Tid} (h : Unparked s t) (hx : (s.loc u).limbo = some x) :
    x ≠ t := by
  rintro rfl
  exact h.limbo u hx

/-- A thread that sleeps on no queue is on none, and in nobody's hands. -/
lemma Parked.unparked (h : Parked s) {x : Tid} (hx : (s.loc x).sleepsOn = none) :
    Unparked s x where
  queue q hq := by
    have := h.queued q x hq
    rw [hx] at this
    cases this
  limbo u hu := by
    obtain ⟨cond, hc, -⟩ := h.limbo u x hu
    rw [hx] at hc
    cases hc

/-- Only the queues, the ready list, the places and the two thread pointers matter. -/
lemma Parked.congr {s' : State C σ} (h : Parked s) (hq : s'.queue = s.queue)
    (hl : s'.loc = s.loc) (hr : s'.readyList = s.readyList)
    (hd : s'.threadToBeDestroyed = s.threadToBeDestroyed) : Parked s' := by
  have hu : ∀ x, Unparked s x → Unparked s' x := fun x hx =>
    ⟨by rw [hq]; exact hx.queue, by rw [hl]; exact hx.limbo⟩
  refine ⟨?_, ?_, ?_, ?_, ?_, ?_, ?_⟩
  · rw [hq, hl]; exact h.queued
  · rw [hq]; exact h.queue_nodup
  · rw [hq, hl]; exact h.limbo
  · rw [hl]; exact h.limbo_inj
  · rw [hr]; exact h.ready_nodup
  · rw [hr, hl]; exact fun x hx => ⟨(h.ready x hx).1, hu x (h.ready x hx).2⟩
  · rw [hd, hl]; exact h.doomed

lemma Placed.congr {s' : State C σ} (h : Placed s) (hq : s'.queue = s.queue)
    (hl : s'.loc = s.loc) (hr : s'.readyList = s.readyList)
    (hd : s'.threadToBeDestroyed = s.threadToBeDestroyed)
    (hc : s'.currentThread = s.currentThread) (hm : s'.mode = .running → s.mode = .running) :
    Placed s' := by
  refine ⟨h.toParked.congr hq hl hr hd, fun hrun => ?_⟩
  obtain ⟨ha, hn, hu⟩ := h.running (hm hrun)
  rw [hc, hl, hr]
  exact ⟨ha, hn, ⟨by rw [hq]; exact hu.queue, by rw [hl]; exact hu.limbo⟩⟩

lemma Placed.setLevel (h : Placed s) (lv : IntStatus) : Placed (s.setLevel lv) :=
  h.congr rfl rfl rfl rfl rfl id

lemma Placed.setLock (h : Placed s) (l : LockId) (v : Lock) : Placed (s.setLock l v) :=
  h.congr rfl rfl rfl rfl rfl id

lemma Placed.setValue (h : Placed s) (i : ℕ) (v : ℤ) : Placed (s.setValue i v) :=
  h.congr rfl rfl rfl rfl rfl id

lemma Placed.setShared (h : Placed s) (shared : σ) : Placed { s with shared := shared } :=
  h.congr rfl rfl rfl rfl rfl id

lemma Placed.handled (h : Placed s) (shared : σ) : Placed (s.handled shared) := by
  refine h.congr rfl rfl rfl rfl rfl fun hm => ?_
  by_contra hn
  simp [State.handled, hn] at hm

/-! ### Moving a thread -/

lemma setLoc_self (s : State C σ) (t : Tid) (l : Loc C) : (s.setLoc t l).loc t = l :=
  Function.update_self ..

lemma setLoc_of_ne (s : State C σ) {t x : Tid} (l : Loc C) (h : x ≠ t) :
    (s.setLoc t l).loc x = s.loc x :=
  Function.update_of_ne h _ _

/-- A thread that moves takes nobody in its hands. -/
lemma limbo_of_setLoc {t : Tid} {l : Loc C} (hl : l.limbo = none ∨ l.limbo = (s.loc t).limbo)
    {u x : Tid} (hu : ((s.setLoc t l).loc u).limbo = some x) : (s.loc u).limbo = some x := by
  by_cases hut : u = t
  · subst hut
    rw [setLoc_self] at hu
    rcases hl with hl | hl <;> rw [hl] at hu
    · cases hu
    · exact hu
  · rwa [setLoc_of_ne _ _ hut] at hu

lemma Unparked.setLoc {t x : Tid} {l : Loc C} (h : Unparked s x)
    (hl : l.limbo = none ∨ l.limbo = (s.loc t).limbo) : Unparked (s.setLoc t l) x :=
  ⟨h.queue, fun u hu => h.limbo u (limbo_of_setLoc hl hu)⟩

lemma Parked.setLoc (h : Parked s) {t : Tid} {l : Loc C} (ht : Unparked s t)
    (hr : t ∈ s.readyList → l.Alive) (hl : l.limbo = none ∨ l.limbo = (s.loc t).limbo)
    (hd : s.threadToBeDestroyed = some t → l = .finished) : Parked (s.setLoc t l) := by
  refine ⟨fun q x hx => ?_, h.queue_nodup, fun u x hu => ?_, fun u v x hu hv => ?_,
    h.ready_nodup, fun x hx => ?_, fun d hd' => ?_⟩
  · rw [setLoc_of_ne _ _ (ht.ne_of_queue hx)]
    exact h.queued q x hx
  · have hux := limbo_of_setLoc hl hu
    rw [setLoc_of_ne _ _ (ht.ne_of_limbo hux)]
    exact h.limbo u x hux
  · exact h.limbo_inj u v x (limbo_of_setLoc hl hu) (limbo_of_setLoc hl hv)
  · refine ⟨?_, (h.ready x hx).2.setLoc hl⟩
    by_cases hxt : x = t
    · subst hxt
      rw [setLoc_self]
      exact hr hx
    · rw [setLoc_of_ne _ _ hxt]
      exact (h.ready x hx).1
  · by_cases hdt : d = t
    · subst hdt
      rw [setLoc_self]
      exact hd hd'
    · rw [setLoc_of_ne _ _ hdt]
      exact h.doomed d hd'

/-- The running thread is not the one to be destroyed. -/
lemma Placed.not_doomed (h : Placed s) (hm : s.mode = .running) :
    s.threadToBeDestroyed ≠ some s.currentThread := by
  intro hd
  have ha := (h.running hm).1
  rw [h.doomed _ hd] at ha
  exact ha

/-- **The running thread goes on**, in a place where it does not sleep. -/
lemma Placed.setLoc (h : Placed s) (hm : s.mode = .running) {l : Loc C} (ha : l.Alive)
    (hl : l.limbo = none ∨ l.limbo = (s.loc s.currentThread).limbo) :
    Placed (s.setLoc s.currentThread l) := by
  obtain ⟨-, hn, hu⟩ := h.running hm
  refine ⟨h.toParked.setLoc hu (fun hr => absurd hr hn) hl
    (fun hd => absurd hd (h.not_doomed hm)), fun _ => ⟨?_, hn, hu.setLoc hl⟩⟩
  show ((s.setLoc s.currentThread l).loc s.currentThread).Alive
  rw [setLoc_self]
  exact ha

/-! ### Queues -/

/-- The running thread goes to sleep on a queue. -/
lemma Placed.block (h : Placed s) (hm : s.mode = .running) {q : QueueId} {l : Loc C}
    (hs : l.sleepsOn = some q)
    (hl : l.limbo = none ∨ l.limbo = (s.loc s.currentThread).limbo) : Placed (s.block q l) := by
  obtain ⟨-, hn, hu⟩ := h.running hm
  have hloc : ∀ x, x ≠ s.currentThread → (s.block q l).loc x = s.loc x := fun x hx =>
    Function.update_of_ne hx _ _
  have hself : (s.block q l).loc s.currentThread = l := Function.update_self ..
  have hlimbo : ∀ u x, ((s.block q l).loc u).limbo = some x → (s.loc u).limbo = some x :=
    fun u x => limbo_of_setLoc (s := s) hl
  have hqueue : ∀ q', ∀ x ∈ (s.block q l).queue q',
      x ∈ s.queue q' ∨ (q' = q ∧ x = s.currentThread) := by
    intro q' x hx
    by_cases hq : q' = q
    · subst hq
      have hx' : x ∈ s.queue q' ++ [s.currentThread] := by
        simpa [State.block, State.append, State.setQueue, State.setStatus] using hx
      rcases List.mem_append.1 hx' with hx' | hx'
      · exact .inl hx'
      · exact .inr ⟨rfl, List.mem_singleton.1 hx'⟩
    · exact .inl (by
        simpa [State.block, State.append, State.setQueue, State.setStatus, hq] using hx)
  refine ⟨⟨fun q' x hx => ?_, fun q' => ?_, fun u x hux => ?_, fun u v x hux hvx => ?_,
    h.ready_nodup, fun x hx => ?_, fun d hd => ?_⟩, fun hrun => by cases hrun⟩
  · rcases hqueue q' x hx with hx | ⟨rfl, rfl⟩
    · rw [hloc x (hu.ne_of_queue hx)]
      exact h.queued q' x hx
    · rw [hself, hs]
  · by_cases hq : q' = q
    · subst hq
      have : (s.queue q' ++ [s.currentThread]).Nodup := by
        rw [List.nodup_append]
        exact ⟨h.queue_nodup q', List.nodup_singleton _, fun a ha b hb he => hu.queue q' (by
          rw [← List.mem_singleton.1 hb, ← he]; exact ha)⟩
      simpa [State.block, State.append, State.setQueue, State.setStatus] using this
    · simpa [State.block, State.append, State.setQueue, State.setStatus, hq] using
        h.queue_nodup q'
  · have hux := hlimbo u x hux
    have hxt : x ≠ s.currentThread := hu.ne_of_limbo hux
    obtain ⟨cond, hc, hx⟩ := h.limbo u x hux
    refine ⟨cond, by rw [hloc x hxt]; exact hc, fun hx' => ?_⟩
    rcases hqueue _ x hx' with hx' | ⟨-, he⟩
    · exact hx hx'
    · exact hxt he
  · exact h.limbo_inj u v x (hlimbo u x hux) (hlimbo v x hvx)
  · have hxt : x ≠ s.currentThread := fun he => hn (he ▸ hx)
    refine ⟨by rw [hloc x hxt]; exact (h.ready x hx).1, fun q' hx' => ?_, fun u hux =>
      (h.ready x hx).2.limbo u (hlimbo u x hux)⟩
    rcases hqueue _ x hx' with hx' | ⟨-, he⟩
    · exact (h.ready x hx).2.queue q' hx'
    · exact hxt he
  · have hd' : s.threadToBeDestroyed = some d := hd
    rw [hloc d (fun he => h.not_doomed hm (he ▸ hd'))]
    exact h.doomed d hd'

/-- The head of a queue is nowhere else. -/
lemma Parked.head (h : Parked s) {q : QueueId} {t : Tid} {rest : List Tid}
    (hq : s.queue q = t :: rest) :
    (s.loc t).sleepsOn = some q ∧ t ∉ rest ∧ t ∉ s.readyList ∧
      ∀ u, (s.loc u).limbo ≠ some t := by
  have hmem : t ∈ s.queue q := by rw [hq]; exact List.mem_cons_self
  have hs := h.queued q t hmem
  have hnd := h.queue_nodup q
  rw [hq] at hnd
  refine ⟨hs, (List.nodup_cons.1 hnd).1, fun hr => (h.ready t hr).2.queue q hmem, fun u hu => ?_⟩
  obtain ⟨cond, hc, hx⟩ := h.limbo u t hu
  rw [hs] at hc
  cases hc
  exact hx hmem

lemma Loc.alive_of_sleepsOn {l : Loc C} {q : QueueId} (h : l.sleepsOn = some q) : l.Alive := by
  cases l <;> trivial

/-- What is on a queue after `wake` was there before. -/
lemma mem_wake_queue {q q' : QueueId} {x : Tid} (hx : x ∈ (s.wake q).queue q') :
    x ∈ s.queue q' := by
  rw [State.wake_queue] at hx
  by_cases hq : q' = q
  · rw [hq, Function.update_self] at hx
    rw [hq]
    exact List.mem_of_mem_tail hx
  · rwa [Function.update_of_ne hq] at hx

lemma Unparked.wake {x : Tid} (h : Unparked s x) (q : QueueId) : Unparked (s.wake q) x :=
  ⟨fun q' hx => h.queue q' (mem_wake_queue hx), by rw [State.wake_loc]; exact h.limbo⟩

lemma Parked.wake (h : Parked s) (q : QueueId) : Parked (s.wake q) := by
  refine ⟨fun q' x hx => ?_, fun q' => ?_, fun u x hux => ?_, ?_, ?_, fun x hx => ?_, ?_⟩
  · rw [State.wake_loc]
    exact h.queued q' x (mem_wake_queue hx)
  · rw [State.wake_queue]
    by_cases hq : q' = q
    · rw [hq, Function.update_self]
      exact (h.queue_nodup q).tail
    · rw [Function.update_of_ne hq]
      exact h.queue_nodup q'
  · rw [State.wake_loc] at hux ⊢
    obtain ⟨cond, hc, hx⟩ := h.limbo u x hux
    exact ⟨cond, hc, fun hx' => hx (mem_wake_queue hx')⟩
  · rw [State.wake_loc]
    exact h.limbo_inj
  · rw [State.wake_readyList]
    cases hq : s.queue q with
    | nil => simpa using h.ready_nodup
    | cons t rest =>
      obtain ⟨-, -, hr, -⟩ := h.head hq
      simpa [List.nodup_append] using ⟨h.ready_nodup, fun a ha he => hr (he ▸ ha)⟩
  · rw [State.wake_readyList] at hx
    rw [State.wake_loc]
    rcases List.mem_append.1 hx with hx | hx
    · exact ⟨(h.ready x hx).1, (h.ready x hx).2.wake q⟩
    · -- the head of the queue
      cases hq : s.queue q with
      | nil => rw [hq] at hx; cases hx
      | cons t rest =>
        rw [hq] at hx
        obtain rfl : x = t := by simpa using hx
        obtain ⟨hs, hrest, -, hl⟩ := h.head hq
        refine ⟨Loc.alive_of_sleepsOn hs, fun q' hx' => ?_, by rw [State.wake_loc]; exact hl⟩
        have hq' : q' = q := by
          have := h.queued q' x (mem_wake_queue hx')
          rw [hs] at this
          exact (Option.some.inj this).symm
        rw [State.wake_queue, hq', Function.update_self, hq, List.tail_cons] at hx'
        exact hrest hx'
  · rw [State.wake_threadToBeDestroyed, State.wake_loc]
    exact h.doomed

lemma Placed.wake (h : Placed s) (q : QueueId) : Placed (s.wake q) := by
  refine ⟨h.toParked.wake q, fun hm => ?_⟩
  rw [State.wake_mode] at hm
  rw [State.wake_currentThread, State.wake_loc, State.wake_readyList]
  obtain ⟨ha, hn, hu⟩ := h.running hm
  refine ⟨ha, fun hx => ?_, hu.wake q⟩
  rcases List.mem_append.1 hx with hx | hx
  · exact hn hx
  · refine hu.queue q ?_
    cases hq : s.queue q with
    | nil => rw [hq] at hx; cases hx
    | cons t rest =>
      rw [hq] at hx
      rw [show s.currentThread = t by simpa using hx]
      exact List.mem_cons_self

lemma Placed.raise (h : Placed s) (i : ℕ) : Placed (s.raise i) :=
  (h.wake (.sem i)).congr rfl rfl rfl rfl rfl id

lemma Placed.releaseLock (h : Placed s) (l : LockId) : Placed (s.releaseLock l) := by
  unfold State.releaseLock
  split
  · exact (h.setLock l _).wake _
  · exact h

/-! ### Threads in the hands of `Signal` and `Broadcast` -/

/-- `queue->Remove()`: the head is in the hands of the running thread. -/
lemma Placed.dequeue (h : Placed s) (hm : s.mode = .running) (cond : ℕ) {l : Loc C}
    (ha : l.Alive) (hl : l.limbo = (s.dequeue cond).1) :
    Placed ((s.dequeue cond).2.setLoc s.currentThread l) := by
  obtain ⟨-, hn, hu⟩ := h.running hm
  unfold State.dequeue at hl ⊢
  cases hq : s.queue (.cond cond) with
  | nil =>
    simp only [hq] at hl ⊢
    exact h.setLoc hm ha (.inl hl)
  | cons t rest =>
    simp only [hq] at hl ⊢
    obtain ⟨hs, hrest, hready, hlimbo⟩ := h.head hq
    have hmem : t ∈ s.queue (.cond cond) := by rw [hq]; exact List.mem_cons_self
    have htc : t ≠ s.currentThread := hu.ne_of_queue hmem
    have hqueue : ∀ q, ∀ x ∈ ((s.setQueue (.cond cond) rest).setLoc s.currentThread l).queue q,
        x ∈ s.queue q := by
      intro q x hx
      by_cases hqc : q = .cond cond
      · subst hqc
        have hx' : x ∈ rest := by simpa [State.setLoc, State.setQueue] using hx
        rw [hq]
        exact List.mem_cons_of_mem t hx'
      · simpa [State.setLoc, State.setQueue, hqc] using hx
    have hrest' : t ∉ ((s.setQueue (.cond cond) rest).setLoc s.currentThread l).queue
        (.cond cond) := by
      simpa [State.setLoc, State.setQueue] using hrest
    -- the running thread has the head in its hands, the others have who they had
    have hloc : ∀ x, x ≠ s.currentThread →
        ((s.setQueue (.cond cond) rest).setLoc s.currentThread l).loc x = s.loc x := fun x hx =>
      setLoc_of_ne _ _ hx
    have hself : ((s.setQueue (.cond cond) rest).setLoc s.currentThread l).loc s.currentThread =
        l := setLoc_self ..
    have hhands : ∀ u x,
        (((s.setQueue (.cond cond) rest).setLoc s.currentThread l).loc u).limbo = some x →
        (u = s.currentThread ∧ x = t) ∨ (u ≠ s.currentThread ∧ (s.loc u).limbo = some x) := by
      intro u x hux
      by_cases huc : u = s.currentThread
      · rw [huc, hself, hl] at hux
        exact .inl ⟨huc, (Option.some.inj hux).symm⟩
      · rw [hloc u huc] at hux
        exact .inr ⟨huc, hux⟩
    refine ⟨⟨fun q x hx => ?_, fun q => ?_, fun u x hux => ?_, fun u v x hux hvx => ?_,
      h.ready_nodup, fun x hx => ?_, fun d hd => ?_⟩, fun _ => ⟨?_, hn, ?_, ?_⟩⟩
    · rw [hloc x (hu.ne_of_queue (hqueue q x hx))]
      exact h.queued q x (hqueue q x hx)
    · by_cases hqc : q = .cond cond
      · subst hqc
        have := h.queue_nodup (.cond cond)
        rw [hq] at this
        simpa [State.setLoc, State.setQueue] using (List.nodup_cons.1 this).2
      · simpa [State.setLoc, State.setQueue, hqc] using h.queue_nodup q
    · rcases hhands u x hux with ⟨-, rfl⟩ | ⟨-, hux⟩
      · exact ⟨cond, by rw [hloc x htc]; exact hs, hrest'⟩
      · obtain ⟨c, hc, hx⟩ := h.limbo u x hux
        exact ⟨c, by rw [hloc x (hu.ne_of_limbo hux)]; exact hc, fun hx' => hx (hqueue _ x hx')⟩
    · rcases hhands u x hux with ⟨rfl, rfl⟩ | ⟨-, hux⟩ <;>
        rcases hhands v x hvx with ⟨rfl, hxt⟩ | ⟨-, hvx⟩
      · rfl
      · exact absurd hvx (hlimbo v)
      · exact absurd (hxt ▸ hux) (hlimbo u)
      · exact h.limbo_inj u v x hux hvx
    · have hxt : x ≠ t := fun he => hready (he ▸ hx)
      obtain ⟨hxa, hxu⟩ := h.ready x hx
      refine ⟨by rw [hloc x (fun he => hn (he ▸ hx))]; exact hxa, fun q hx' =>
        hxu.queue q (hqueue q x hx'), fun u hux => ?_⟩
      rcases hhands u x hux with ⟨-, he⟩ | ⟨-, hux⟩
      · exact hxt he
      · exact hxu.limbo u hux
    · rw [hloc d (fun he => h.not_doomed hm (he ▸ hd))]
      exact h.doomed d hd
    · exact hself.symm ▸ ha
    · exact fun q hx => hu.queue q (hqueue q _ hx)
    · intro u hux
      rcases hhands u _ hux with ⟨-, he⟩ | ⟨-, hux⟩
      · exact htc he.symm
      · exact hu.limbo u hux

/-- `ReadyToRun` of the thread in the hands of the running one. -/
lemma Placed.readyLimbo (h : Placed s) (hm : s.mode = .running) {x : Tid} {l : Loc C}
    (hx : (s.loc s.currentThread).limbo = some x) (ha : l.Alive) (hl : l.limbo = none) :
    Placed ((s.readyToRun x).setLoc s.currentThread l) := by
  obtain ⟨-, hn, hu⟩ := h.running hm
  obtain ⟨cond, hc, hxq⟩ := h.limbo _ x hx
  have hxc : x ≠ s.currentThread := hu.ne_of_limbo hx
  have hxr : x ∉ s.readyList := fun hr => (h.ready x hr).2.limbo _ hx
  have hloc : ∀ y, y ≠ s.currentThread →
      ((s.readyToRun x).setLoc s.currentThread l).loc y = s.loc y := fun y hy =>
    setLoc_of_ne _ _ hy
  have hself : ((s.readyToRun x).setLoc s.currentThread l).loc s.currentThread = l :=
    setLoc_self ..
  have hhands : ∀ u y, (((s.readyToRun x).setLoc s.currentThread l).loc u).limbo = some y →
      u ≠ s.currentThread ∧ (s.loc u).limbo = some y := by
    intro u y huy
    have huc : u ≠ s.currentThread := by
      rintro rfl
      rw [hself, hl] at huy
      cases huy
    exact ⟨huc, by rwa [hloc u huc] at huy⟩
  refine ⟨⟨fun q y hy => ?_, h.queue_nodup, fun u y huy => ?_, fun u v y huy hvy => ?_, ?_,
    fun y hy => ?_, fun d hd => ?_⟩, fun _ => ⟨?_, ?_, hu.queue, fun u huy =>
      hu.limbo u (hhands u _ huy).2⟩⟩
  · rw [hloc y (hu.ne_of_queue hy)]
    exact h.queued q y hy
  · obtain ⟨-, huy⟩ := hhands u y huy
    rw [hloc y (hu.ne_of_limbo huy)]
    exact h.limbo u y huy
  · exact h.limbo_inj u v y (hhands u y huy).2 (hhands v y hvy).2
  · show (s.readyList ++ [x]).Nodup
    simpa [List.nodup_append] using ⟨h.ready_nodup, fun a ha he => hxr (he ▸ ha)⟩
  · rcases List.mem_append.1 (show y ∈ s.readyList ++ [x] from hy) with hy | hy
    · obtain ⟨hya, hyu⟩ := h.ready y hy
      exact ⟨by rw [hloc y (fun he => hn (he ▸ hy))]; exact hya, hyu.queue, fun u huy =>
        hyu.limbo u (hhands u y huy).2⟩
    · obtain rfl := List.mem_singleton.1 hy
      refine ⟨by rw [hloc y hxc]; exact Loc.alive_of_sleepsOn hc, fun q hyq => ?_, fun u huy => ?_⟩
      · have hq := h.queued q y hyq
        rw [hc] at hq
        cases hq
        exact hxq hyq
      · obtain ⟨huc, huy⟩ := hhands u y huy
        exact huc (h.limbo_inj u _ y huy hx)
  · rw [hloc d (fun he => h.not_doomed hm (he ▸ hd))]
    exact h.doomed d hd
  · exact hself.symm ▸ ha
  · intro hr
    rcases List.mem_append.1 (show s.currentThread ∈ s.readyList ++ [x] from hr) with hr | hr
    · exact hn hr
    · exact hxc (List.mem_singleton.1 hr).symm

/-! ### The processor changes hands -/

/-- The head of the ready list is taken off it. -/
lemma Parked.pop (h : Parked s) {next : Tid} {rest : List Tid} (hr : s.readyList = next :: rest) :
    Parked { s with readyList := rest } := by
  have hsub : ∀ x ∈ rest, x ∈ s.readyList := fun x hx => hr ▸ List.mem_cons_of_mem _ hx
  exact ⟨h.queued, h.queue_nodup, h.limbo, h.limbo_inj, (List.nodup_cons.1 (hr ▸ h.ready_nodup)).2,
    fun x hx => ⟨(h.ready x (hsub x hx)).1, (h.ready x (hsub x hx)).2.queue,
      (h.ready x (hsub x hx)).2.limbo⟩, h.doomed⟩

lemma Parked.readyToRun (h : Parked s) {x : Tid} (hn : x ∉ s.readyList) (ha : (s.loc x).Alive)
    (hu : Unparked s x) : Parked (s.readyToRun x) := by
  refine ⟨h.queued, h.queue_nodup, h.limbo, h.limbo_inj, ?_, fun y hy => ?_, h.doomed⟩
  · show (s.readyList ++ [x]).Nodup
    simpa [List.nodup_append] using ⟨h.ready_nodup, fun a ha he => hn (he ▸ ha)⟩
  · rcases List.mem_append.1 (show y ∈ s.readyList ++ [x] from hy) with hy | hy
    · exact ⟨(h.ready y hy).1, (h.ready y hy).2.queue, (h.ready y hy).2.limbo⟩
    · obtain rfl := List.mem_singleton.1 hy
      exact ⟨ha, hu.queue, hu.limbo⟩

lemma Parked.clear (h : Parked s) : Parked { s with threadToBeDestroyed := none } :=
  ⟨h.queued, h.queue_nodup, h.limbo, h.limbo_inj, h.ready_nodup,
    fun x hx => ⟨(h.ready x hx).1, (h.ready x hx).2.queue, (h.ready x hx).2.limbo⟩,
    fun _ hd => by cases hd⟩

/-- `Scheduler::Run` of a thread that is nowhere else. -/
lemma Parked.runThread {s' : State C σ} (h : Parked s) {next : Tid} (hn : next ∉ s.readyList)
    (ha : (s.loc next).Alive) (hu : Unparked s next) (run : s.runThread next = .ok s') :
    Placed s' := by
  have hsw : Parked (s.switchTo next) := h.congr rfl rfl rfl rfl
  have husw : Unparked (s.switchTo next) next := ⟨hu.queue, hu.limbo⟩
  rcases runThread_cases run with ⟨c, hc, rfl⟩ | ⟨-, -, rfl⟩ | ⟨d, -, hd, hdn, rfl⟩
  · have hnd : (s.switchTo next).threadToBeDestroyed ≠ some next := by
      intro hd
      rw [h.doomed next hd] at hc
      cases hc
    refine ⟨hsw.setLoc husw (fun hr => absurd hr hn) (.inl rfl) (fun hd => absurd hd hnd),
      fun _ => ⟨?_, hn, husw.setLoc (.inl rfl)⟩⟩
    exact (setLoc_self (s.switchTo next) next _).symm ▸ trivial
  · exact ⟨hsw, fun _ => ⟨ha, hn, husw⟩⟩
  · have hfin := h.doomed d hd
    have hdu : Unparked s d := h.unparked (by rw [hfin]; rfl)
    have hdr : d ∉ s.readyList := by
      intro hr
      have hal := (h.ready d hr).1
      rw [hfin] at hal
      exact hal
    refine ⟨hsw.clear.setLoc ⟨hdu.queue, hdu.limbo⟩ (fun hr => absurd hr hdr) (.inl rfl)
      (fun hd => by cases hd), fun _ => ⟨?_, hn, ?_⟩⟩
    · exact (setLoc_of_ne (s.switchTo next) _ hdn.symm).symm ▸ ha
    · have := husw.setLoc (t := d) (l := .unborn) (.inl rfl)
      exact ⟨this.queue, this.limbo⟩

/-- `Yield` to the head of the ready list. -/
lemma Placed.yieldTo {s' : State C σ} (h : Placed s) (hm : s.mode = .running) {next : Tid}
    {rest : List Tid} (hr : s.readyList = next :: rest) (run : s.yieldTo next rest = .ok s') :
    Placed s' := by
  obtain ⟨hca, hcn, hcu⟩ := h.running hm
  have hmem : next ∈ s.readyList := hr ▸ List.mem_cons_self
  have hnext := h.ready next hmem
  have hnd := hr ▸ h.ready_nodup
  have hrest : s.currentThread ∉ rest := fun hx => hcn (hr ▸ List.mem_cons_of_mem _ hx)
  have hp : Parked ({ s with readyList := rest }.readyToRun s.currentThread) :=
    (h.toParked.pop hr).readyToRun hrest hca ⟨hcu.queue, hcu.limbo⟩
  refine hp.runThread (fun hx => ?_) hnext.1 ⟨hnext.2.queue, hnext.2.limbo⟩ run
  rcases List.mem_append.1 (show next ∈ rest ++ [s.currentThread] from hx) with hx | hx
  · exact (List.nodup_cons.1 hnd).1 hx
  · exact hcn (List.mem_singleton.1 hx ▸ hmem)

/-- `Sleep` finds a thread to run. -/
lemma Placed.dispatch {s' : State C σ} (h : Placed s) {next : Tid} {rest : List Tid}
    (hr : s.readyList = next :: rest)
    (run : { s with readyList := rest }.runThread next = .ok s') : Placed s' := by
  have hnext := h.ready next (hr ▸ List.mem_cons_self)
  exact (h.toParked.pop hr).runThread (List.nodup_cons.1 (hr ▸ h.ready_nodup)).1 hnext.1
    ⟨hnext.2.queue, hnext.2.limbo⟩ run

/-! ### Threads come and go -/

lemma Placed.fork (h : Placed s) (hm : s.mode = .running) {new : Tid}
    (hnew : s.loc new = .unborn) (first c : C) : Placed (s.fork new first c) := by
  obtain ⟨hca, hcn, hcu⟩ := h.running hm
  have hne : s.currentThread ≠ new := by
    intro he
    rw [he, hnew] at hca
    exact hca
  have hnu : Unparked s new := h.unparked (by rw [hnew]; rfl)
  have hnr : new ∉ s.readyList := by
    intro hr
    have := (h.ready new hr).1
    rw [hnew] at this
    exact this
  have hnd : s.threadToBeDestroyed ≠ some new := by
    intro hd
    have := h.doomed new hd
    rw [hnew] at this
    cases this
  -- the new thread joins the ready list
  have h₁ : Parked ((s.setLevel .intOff).setLoc new (.fresh first)) :=
    Parked.setLoc (s := s.setLevel .intOff) (h.toParked.congr rfl rfl rfl rfl)
      ⟨hnu.queue, hnu.limbo⟩ (fun hr => absurd hr hnr) (.inl rfl) (fun hd => absurd hd hnd)
  have h₂ : Parked (((s.setLevel .intOff).setLoc new (.fresh first)).readyToRun new) :=
    h₁.readyToRun hnr (by rw [setLoc_self]; trivial)
      (Unparked.setLoc (s := s.setLevel .intOff) ⟨hnu.queue, hnu.limbo⟩ (.inl rfl))
  have h₃ : Placed (((s.setLevel .intOff).setLoc new (.fresh first)).readyToRun new) := by
    refine ⟨h₂, fun _ => ⟨?_, fun hr => ?_, ?_⟩⟩
    · exact (setLoc_of_ne (s.setLevel .intOff) _ hne).symm ▸ hca
    · rcases List.mem_append.1 (show s.currentThread ∈ s.readyList ++ [new] from hr) with hr | hr
      · exact hcn hr
      · exact hne (List.mem_singleton.1 hr)
    · have := Unparked.setLoc (s := s.setLevel .intOff) (t := new) (l := .fresh first)
        ⟨hcu.queue, hcu.limbo⟩ (.inl rfl)
      exact ⟨this.queue, this.limbo⟩
  exact h₃.setLoc hm trivial (.inl rfl)

lemma Placed.finish (h : Placed s) (hm : s.mode = .running) : Placed s.finish := by
  obtain ⟨-, hcn, hcu⟩ := h.running hm
  have h₁ : Parked ({ s with threadToBeDestroyed := none }.setLoc s.currentThread .finished) :=
    h.toParked.clear.setLoc ⟨hcu.queue, hcu.limbo⟩ (fun hr => absurd hr hcn) (.inl rfl)
      (fun hd => by cases hd)
  refine ⟨⟨h₁.queued, h₁.queue_nodup, h₁.limbo, h₁.limbo_inj, h₁.ready_nodup, fun x hx =>
    ⟨(h₁.ready x hx).1, (h₁.ready x hx).2.queue, (h₁.ready x hx).2.limbo⟩, fun d hd => ?_⟩,
    fun hrun => by cases hrun⟩
  obtain rfl : s.currentThread = d := Option.some.inj hd
  exact Function.update_self ..

/-- `Condition::Wait` goes to sleep. -/
lemma Placed.blockOnCond (h : Placed s) (hm : s.mode = .running) (cond l : ℕ) (old : IntStatus)
    (c : C) : Placed (s.blockOnCond cond l old c) := by
  have hb : Placed (s.block (.cond cond) (.condAsleep cond l old c)) := h.block hm rfl (.inl rfl)
  unfold State.blockOnCond
  by_cases hh : (s.append (.cond cond)).isHeldByCurrentThread (.queueLock cond)
  · rw [State.releaseLock_of_held _ hh]
    refine (hb.wake (.lock (.queueLock cond))).congr ?_ ?_ ?_ ?_ ?_ ?_
    all_goals simp [State.setLoc, State.setStatus, State.setLock, State.block, State.append,
      State.setQueue]
  · rw [State.releaseLock_of_not_held _ hh]
    exact hb.congr rfl rfl rfl rfl rfl id

end Pieces

/-! ### Every rule keeps the places -/

variable {K : Client C σ ι H} {s s' : State C σ} {es : List (Event C)}

/-- A call of the client neither sleeps nor takes a thread in its hands. -/
lemma Entry.place {call : Call C} {lv : IntStatus} {l : Loc C} (h : Entry s call es lv l) :
    l.Alive ∧ l.limbo = none := by
  cases h <;> exact ⟨trivial, rfl⟩

lemma limbo_of_waiting {l : LockId} {old : IntStatus} {k : Kont C}
    (loc : s.loc s.currentThread = .acquire l old k ∨
      s.loc s.currentThread = .lockAsleep l old k) : (s.loc s.currentThread).limbo = k.limbo := by
  rcases loc with loc | loc <;> exact congrArg Loc.limbo loc

/-- **The rules keep every thread in one place.** -/
theorem Placed.step (h : Placed s) (hs : Step K s es s') : Placed s' := by
  cases hs with
  | @call _ _ _ shared _ _ lv _ mode loc code entry =>
    exact ((h.setShared shared).setLevel lv).setLoc mode entry.place.1 (.inl entry.place.2)
  | @fork _ _ _ shared _ _ _ mode loc code unborn =>
    exact (h.setShared shared).fork mode unborn _ _
  | @finish _ _ _ shared mode loc code => exact (h.setShared shared).finish mode
  | @take l _ _ mode loc free =>
    exact (h.setLock l ⟨false, some s.currentThread⟩).setLoc mode (by trivial) (.inr (limbo_of_waiting loc).symm)
  | lockWait mode loc busy level => exact h.block mode (by rfl) (.inr (limbo_of_waiting loc).symm)
  | @release l old k mode loc =>
    have hc := s.releaseLock_currentThread l
    have hl := s.releaseLock_loc l
    have hr := (h.releaseLock l).setLoc (by simpa using mode) (l := .ret old k .unit)
      (by trivial)
      (.inr (by rw [hc, hl, loc]; rfl))
    rwa [hc] at hr
  | @down i _ _ mode loc value => exact (h.setValue i (s.value i - 1)).setLoc mode (by trivial) (.inl (by rfl))
  | semWait mode loc value level => exact h.block mode (by rfl) (.inl (by rfl))
  | @up i old c mode loc =>
    have hr := (h.raise i).setLoc (by simpa [State.raise, State.setValue] using mode)
      (l := .ret old (.client c) .unit) (by trivial) (.inl (by rfl))
    rwa [show (s.raise i).currentThread = s.currentThread by
      simp [State.raise, State.setValue]] at hr
  | yieldAlone mode loc ready => exact h.setLoc mode (by trivial) (.inl (by rfl))
  | yield mode loc ready run => exact (h.setLoc mode (by trivial) (.inl (by rfl))).yieldTo mode ready run
  | @ret old _ _ mode loc =>
    exact (h.setLevel old).setLoc mode (by trivial) (.inr (congrArg Loc.limbo loc).symm)
  | waitAcquire mode loc => exact (h.setLevel .intOff).setLoc mode (by trivial) (.inl (by rfl))
  | waitSleep mode loc level => exact h.blockOnCond mode _ _ _ _
  | waitAwake mode loc => exact (h.setLevel .intOff).setLoc mode (by trivial) (.inl (by rfl))
  | waitReturn mode loc => exact h.setLoc mode (by trivial) (.inl (by rfl))
  | signalDequeue mode loc => exact (h.dequeue mode _ (by trivial) (by rfl)).setLevel _
  | signalNone mode loc => exact h.setLoc mode (by trivial) (.inl (by rfl))
  | signalReady mode loc => exact h.readyLimbo mode (congrArg Loc.limbo loc) (by trivial) (by rfl)
  | bcastDequeue mode loc => exact (h.dequeue mode _ (by trivial) (by rfl)).setLevel _
  | bcastNone mode loc => exact h.setLoc mode (by trivial) (.inl (by rfl))
  | bcastReady mode loc =>
    exact (h.readyLimbo mode (congrArg Loc.limbo loc) (by trivial) (by rfl)).setLevel _
  | preempt mode loc level ready run => exact h.yieldTo mode ready run
  | interrupt allowed handler => exact h.handled _
  | interruptUp allowed handler => exact (h.handled _).raise _
  | dispatch mode ready run => exact h.dispatch ready run

lemma placed_init (first : C) (value : ℕ → ℤ) (shared : σ) :
    Placed (State.init first value shared) := by
  have hloc : ∀ u, ((State.init first value shared).loc u).limbo = none ∧
      ((State.init first value shared).loc u).sleepsOn = none := by
    intro u
    by_cases hu : u = 0
    · subst hu
      exact ⟨rfl, rfl⟩
    · simp [State.init, Function.update_of_ne hu, Loc.limbo, Loc.sleepsOn]
  have hu : ∀ x, Unparked (State.init first value shared) x := fun x =>
    ⟨fun q => List.not_mem_nil, fun u => by rw [(hloc u).1]; simp⟩
  refine ⟨⟨fun q x hx => absurd hx List.not_mem_nil, fun q => List.nodup_nil, fun u x hux => ?_,
    fun u v x hux => ?_, List.nodup_nil, fun x hx => absurd hx List.not_mem_nil,
    fun d hd => by cases hd⟩, fun _ => ⟨trivial, List.not_mem_nil, hu _⟩⟩
  all_goals
    rw [(hloc u).1] at hux
    cases hux

/-- In every run, every thread is in one place. -/
theorem Placed.of_run {first : C} {value : ℕ → ℤ} {shared : σ} {tr : List (Event C)}
    (h : KernelRun K (State.init first value shared) tr s) : Placed s :=
  h.rules.invariant_state (placed_init first value shared) fun hp hs => hp.step hs

end Nachos.Threads
