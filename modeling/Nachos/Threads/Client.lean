import Nachos.Threads.Condition

/-!
# What a client knows of its threads

A thread inside a routine of the kernel has one label of the client to go on at. A step of the
machine is a step of the client, which moves its label and its data, or a step of the kernel,
which moves neither; every place in a routine comes from a call that the client made. A client
whose labels say where it has a lock has the lock exactly there.
-/

namespace Nachos.Threads

open Lib (bind_eq_ok)

variable {C σ ι H : Type}

/-! ### Labels -/

def Kont.label : Kont C → C
  | .client c => c
  | .waitAcquire _ _ _ c => c
  | .waitSleep _ _ _ c => c
  | .waitReturn _ _ _ c => c
  | .signalDequeue _ c => c
  | .signalReady _ _ c => c
  | .bcastDequeue _ _ c => c
  | .bcastReady _ _ _ c => c

/-- The label of the client at which a thread is, or goes on. -/
def Loc.label : Loc C → Option C
  | .unborn => none
  | .fresh c => some c
  | .run k _ => some k.label
  | .acquire _ _ k => some k.label
  | .lockAsleep _ _ k => some k.label
  | .release _ _ k => some k.label
  | .down _ _ c => some c
  | .semAsleep _ _ c => some c
  | .up _ _ c => some c
  | .yield _ c => some c
  | .condAsleep _ _ _ c => some c
  | .ret _ k _ => some k.label
  | .finished => none

/-- The label at which the caller goes on. -/
def Call.label : Call C → Option C
  | .acquire _ c => some c
  | .release _ c => some c
  | .wait _ _ c => some c
  | .signal _ _ c => some c
  | .broadcast _ _ c => some c
  | .down _ c => some c
  | .up _ c => some c
  | .yield c => some c
  | .setLevel _ c => some c
  | .oneTick c => some c
  | .fork _ c => some c
  | .finish => none
  | .skip c => some c

def Call.isWait : Call C → Bool
  | .wait _ _ _ => true
  | _ => false

def Kont.joining : Kont C → Bool
  | .waitAcquire _ _ _ _ => true
  | .waitSleep _ _ _ _ => true
  | _ => false

/-- In `Wait`, before `Sleep`. -/
def Loc.joining : Loc C → Bool
  | .run k _ => k.joining
  | .acquire _ _ k => k.joining
  | .lockAsleep _ _ k => k.joining
  | .release _ _ k => k.joining
  | .ret _ k _ => k.joining
  | _ => false

def Kont.took : Kont C → Option Tid
  | .signalReady _ x _ => x
  | _ => none

/-- The thread that `Signal` took off the queue, until the client has used what it returned. -/
def Loc.took : Loc C → Option Tid
  | .run (.client _) (.thread x) => x
  | .ret _ (.client _) (.thread x) => x
  | .run k _ => k.took
  | .acquire _ _ k => k.took
  | .lockAsleep _ _ k => k.took
  | .release _ _ k => k.took
  | .ret _ k _ => k.took
  | _ => none

def Kont.woken : Kont C → ℕ
  | .bcastDequeue _ i _ => i
  | .bcastReady _ i x _ => i + x.toList.length
  | _ => 0

/-- The number of threads that `Broadcast` took off the queue, until the client has used what it
returned. -/
def Loc.woken : Loc C → ℕ
  | .run (.client _) (.count n) => n
  | .ret _ (.client _) (.count n) => n
  | .run k _ => k.woken
  | .acquire _ _ k => k.woken
  | .lockAsleep _ _ k => k.woken
  | .release _ _ k => k.woken
  | .ret _ k _ => k.woken
  | _ => 0

def Kont.broadcasting : Kont C → Bool
  | .bcastDequeue _ _ _ => true
  | .bcastReady _ _ x _ => x.isSome
  | _ => false

/-- In `Broadcast`, which has not found the queue empty yet. -/
def Loc.broadcasting : Loc C → Bool
  | .run k _ => k.broadcasting
  | .acquire _ _ k => k.broadcasting
  | .lockAsleep _ _ k => k.broadcasting
  | .release _ _ k => k.broadcasting
  | .ret _ k _ => k.broadcasting
  | _ => false

/-- In `Wait`, and not yet taken off the queue. -/
def Waiting (s : State C σ) (t : Tid) : Prop :=
  (s.loc t).joining = true ∨ ∃ cond, t ∈ s.queue (.cond cond)

/-- The running thread is about to take `t` off the queue of a condition. -/
def Taken (s : State C σ) (cond : ℕ) (t : Tid) : Prop :=
  s.mode = .running ∧ (s.loc s.currentThread).condOp cond = .remove ∧
    (s.queue (.cond cond)).head? = some t

/-! ### Where a place comes from -/

/-- The calls that the code of a client makes. -/
def Client.Makes (K : Client C σ ι H) (call : Call C) : Prop :=
  ∃ input t c r shared shared', K.code input t c r shared = .ok (shared', call)

/-- A call that satisfies `U` has led here. -/
def Kont.From (U : Call C → Prop) : Kont C → Prop
  | .client _ => True
  | .waitAcquire cond l _ c => U (.wait cond l c)
  | .waitSleep cond l _ c => U (.wait cond l c)
  | .waitReturn cond l _ c => U (.wait cond l c)
  | .signalDequeue cond c => ∃ l, U (.signal cond l c)
  | .signalReady cond _ c => ∃ l, U (.signal cond l c)
  | .bcastDequeue cond _ c => ∃ l, U (.broadcast cond l c)
  | .bcastReady cond _ _ c => ∃ l, U (.broadcast cond l c)

def Loc.From (U : Call C → Prop) : Loc C → Prop
  | .fresh c => ∃ c', U (.fork c c')
  | .run k _ => k.From U
  | .acquire l _ (.client c) => ∃ n, l = .lock n ∧ U (.acquire n c)
  | .acquire _ _ k => k.From U
  | .lockAsleep l _ (.client c) => ∃ n, l = .lock n ∧ U (.acquire n c)
  | .lockAsleep _ _ k => k.From U
  | .release l _ (.client c) => ∃ n, l = .lock n ∧ U (.release n c)
  | .release _ _ k => k.From U
  | .condAsleep cond l _ c => U (.wait cond l c)
  | .ret _ k _ => k.From U
  | _ => True

/-! ### Steps of the client and steps of the kernel -/

/-- Where a call leads. -/
inductive After (s : State C σ) : Call C → Loc C → Prop
  | entry {call es lv l} (h : Entry s call es lv l) : After s call l
  | fork {first c x} : After s (.fork first c) (.ret s.level (.client c) (.thread x))
  | finish : After s .finish .finished

/-- The client's code runs at the label of the running thread. -/
structure ClientStep (K : Client C σ ι H) (s s' : State C σ) (input : ι) (new : Tid) (c : C)
    (r : Ret) (call : Call C) : Prop where
  mode : s.mode = .running
  loc : s.loc s.currentThread = .run (.client c) r
  code : K.code input s.currentThread c r s.shared = .ok (s'.shared, call)
  place : After s call (s'.loc s.currentThread)
  queue : s'.queue = s.queue
  lock : s'.lock = s.lock
  other : ∀ t, t ≠ s.currentThread → s'.loc t = s.loc t ∨
    (t = new ∧ ∃ first c', call = .fork first c' ∧ s.loc t = .unborn ∧ s'.loc t = .fresh first)

section Steps

variable {K : Client C σ ι H} {s s' : State C σ} {es : List (Event C)} {l l' : Loc C}

lemma runThread_label {next : Tid} (run : s.runThread next = .ok s')
    (h : ∀ d, s.threadToBeDestroyed = some d → s.loc d = .finished) (t : Tid) :
    (s'.loc t).label = (s.loc t).label := by
  rcases runThread_cases run with ⟨c, hc, rfl⟩ | ⟨-, -, rfl⟩ | ⟨d, -, hd, -, rfl⟩
  · by_cases ht : t = next
    · subst ht
      rw [setLoc_self, hc]
      rfl
    · rw [setLoc_of_ne _ _ ht]
      rfl
  · rfl
  · by_cases ht : t = d
    · subst ht
      rw [h t hd]
      exact (setLoc_self (s.switchTo next) t .unborn).symm ▸ rfl
    · exact (setLoc_of_ne (s.switchTo next) .unborn ht).symm ▸ rfl

lemma yieldTo_label {next : Tid} {rest : List Tid} (run : s.yieldTo next rest = .ok s')
    (h : ∀ d, s.threadToBeDestroyed = some d → s.loc d = .finished) (t : Tid) :
    (s'.loc t).label = (s.loc t).label := by
  unfold State.yieldTo at run
  exact runThread_label (s := { s with readyList := rest }.readyToRun s.currentThread) run h t

lemma Moved.joining (h : Moved l l') : l'.joining = l.joining := by
  cases h <;> rfl

/-- The code of the client ran. -/
def Event.IsRan : Event C → Prop
  | .ran _ _ => True
  | _ => False

/-- A thread in a routine keeps its label. -/
lemma Goes.label (h : Goes s es l l') (hk : ∀ e ∈ es, ¬ e.IsRan) : l'.label = l.label := by
  cases h with
  | call | fork | finish => exact absurd trivial (hk _ List.mem_cons_self)
  | _ => rfl

/-- A thread goes through `Wait` until it is on the queue. -/
lemma Goes.joining (h : Goes s es l l') (hk : ∀ e ∈ es, ¬ e.IsRan) :
    (l'.joining = l.joining ∧ ∀ cond, l.condOp cond ≠ .append) ∨
      (l.joining = true ∧ ∃ cond, l.condOp cond = .append) := by
  cases h with
  | call | fork | finish => exact absurd trivial (hk _ List.mem_cons_self)
  | @waitSleep cond => exact .inr ⟨rfl, cond, if_pos rfl⟩
  | signalDequeue | bcastDequeue =>
    refine .inl ⟨rfl, fun cond => ?_⟩
    simp only [Loc.condOp]
    split <;> simp
  | @ret _ k r =>
    cases k with
    | waitSleep cond => exact .inl ⟨rfl, by simp [Loc.condOp]⟩
    | _ => exact .inl ⟨rfl, by simp [Loc.condOp]⟩
  | _ => exact .inl ⟨rfl, by simp [Loc.condOp]⟩

lemma mem_condOp_apply {op : CondOp} {t u : Tid} {ts : List Tid} (hts : ts.Nodup) :
    t ∈ op.apply u ts ↔
      (t ∈ ts ∧ ¬ (op = .remove ∧ ts.head? = some t)) ∨ (op = .append ∧ t = u) := by
  cases op with
  | append =>
    simp [CondOp.apply]
  | nothing => simp [CondOp.apply]
  | remove =>
    cases ts with
    | nil => simp [CondOp.apply]
    | cons x ts =>
      have hx := (List.nodup_cons.1 hts).1
      simp only [CondOp.apply, List.tail_cons, List.mem_cons, List.head?_cons, Option.some.injEq]
      constructor
      · intro ht
        exact .inl ⟨.inr ht, fun h => hx (h.2 ▸ ht)⟩
      · rintro (⟨rfl | ht, hn⟩ | ⟨h, -⟩)
        · exact absurd ⟨trivial, rfl⟩ hn
        · exact ht
        · cases h

/-- A step inside a routine leaves the labels of the other threads alone. -/
lemma Step.label_other (hp : Placed s) (hs : Step K s es s') (hk : ∀ e ∈ es, ¬ e.IsRan) {t : Tid}
    (ht : s.mode = .running → t ≠ s.currentThread) : (s'.loc t).label = (s.loc t).label := by
  cases hs with
  | call | fork | finish => exact absurd trivial (hk _ List.mem_cons_self)
  | @yield old c _ _ _ mode loc ready run =>
    have hp' := hp.setLoc mode (l := .ret old (.client c) .unit) trivial (.inl rfl)
    exact (yieldTo_label run hp'.doomed t).trans
      (congrArg Loc.label (setLoc_of_ne _ _ (ht mode)))
  | preempt mode loc level ready run => exact yieldTo_label run hp.doomed t
  | dispatch mode ready run =>
    have := runThread_label run hp.doomed t
    exact this
  | interrupt allowed handler => rfl
  | @interruptUp _ shared i allowed handler =>
    exact congrArg Loc.label (congrFun ((s.handled shared).wake_loc (.sem i)) t)
  | release mode loc =>
    refine congrArg Loc.label ((setLoc_of_ne _ _ (ht mode)).trans ?_)
    rw [State.releaseLock_loc]
  | up mode loc =>
    exact congrArg Loc.label ((setLoc_of_ne _ _ (ht mode)).trans (congrFun (s.wake_loc _) t))
  | signalDequeue mode loc =>
    exact congrArg Loc.label ((setLoc_of_ne _ _ (ht mode)).trans (congrFun (dequeue_loc _) t))
  | bcastDequeue mode loc =>
    exact congrArg Loc.label ((setLoc_of_ne _ _ (ht mode)).trans (congrFun (dequeue_loc _) t))
  | waitSleep mode loc level =>
    rw [blockOnCond_loc, Function.update_of_ne (ht mode)]
  | _ mode loc => exact congrArg Loc.label (Function.update_of_ne (ht mode) _ _)

/-- Only the client and the interrupt handlers touch the client's data. -/
lemma Step.shared (hs : Step K s es s') (hk : ∀ e ∈ es, ¬ e.IsRan) :
    s'.shared = s.shared ∨ ∃ h v, K.handler h s.shared = .ok (s'.shared, v) := by
  cases hs with
  | call | fork | finish => exact absurd trivial (hk _ List.mem_cons_self)
  | yield mode loc ready run => exact .inl (yieldTo_frame run).2.2.2.2.1
  | preempt mode loc level ready run => exact .inl (yieldTo_frame run).2.2.2.2.1
  | dispatch mode ready run => exact .inl (runThread_frame run).2.2.2.2.1
  | interrupt allowed handler => exact .inr ⟨_, _, handler⟩
  | @interruptUp _ shared i allowed handler =>
    refine .inr ⟨_, some i, handler.trans ?_⟩
    rw [show ((s.handled shared).raise i).shared = shared from
      (s.handled shared).wake_shared (.sem i)]
  | release mode loc => exact .inl (s.releaseLock_shared _)
  | up mode loc => exact .inl (s.wake_shared _)
  | signalDequeue mode loc | bcastDequeue mode loc =>
    left
    show (s.dequeue _).2.shared = s.shared
    unfold State.dequeue
    split <;> rfl
  | waitSleep mode loc level => exact .inl ((s.append (.cond _)).releaseLock_shared _)
  | _ => exact .inl rfl

/-- A thread is on the queue of one condition. -/
lemma Placed.queue_unique (hp : Placed s) {cond cond' : ℕ} {t : Tid}
    (h : t ∈ s.queue (.cond cond)) (h' : t ∈ s.queue (.cond cond')) : cond = cond' := by
  have hs := hp.queued _ t h
  rw [hp.queued _ t h'] at hs
  cases hs
  rfl

lemma Placed.not_joining_of_queue (hp : Placed s) {cond : ℕ} {t : Tid}
    (h : t ∈ s.queue (.cond cond)) : (s.loc t).joining ≠ true := by
  have hs := hp.queued _ t h
  cases hl : s.loc t <;> rw [hl] at hs <;> cases hs
  simp [Loc.joining]

/-- Only the running thread joins the queue of a condition, and only the one it takes off leaves
it. -/
lemma Step.waiting (hp : Placed s) (hs : Step K s es s') (hk : ∀ e ∈ es, ¬ e.IsRan) (t : Tid) :
    Waiting s' t ↔ Waiting s t ∧ ∀ cond, ¬ Taken s cond t := by
  have hqueue := fun cond => hs.condQueue cond
  by_cases hrun : s.mode = .running
  · simp only [if_pos hrun] at hqueue
    have hmem : ∀ cond, t ∈ s'.queue (.cond cond) ↔
        (t ∈ s.queue (.cond cond) ∧ ¬ Taken s cond t) ∨
          ((s.loc s.currentThread).condOp cond = .append ∧ t = s.currentThread) := by
      intro cond
      rw [hqueue, mem_condOp_apply (hp.queue_nodup _)]
      simp [Taken, hrun]
    by_cases ht : t = s.currentThread
    · subst ht
      have hnot : ∀ cond, s.currentThread ∉ s.queue (.cond cond) := fun cond =>
        (hp.running hrun).2.2.queue _
      have htaken : ∀ cond, ¬ Taken s cond s.currentThread := fun cond h =>
        hnot cond (List.mem_of_head? h.2.2)
      simp only [Waiting, hmem]
      rcases (hs.goes hp hrun).joining hk with ⟨hj, ha⟩ | ⟨hj, cond, ha⟩
      · simp [hj, ha, hnot, htaken]
      · simp only [hj, true_or, true_and, htaken, not_false_eq_true, implies_true, iff_true]
        exact .inr ⟨cond, .inr ⟨ha, trivial⟩⟩
    · have hjoin := (hs.moved hp (x := t) fun _ => ht).joining
      simp only [Waiting, hmem, hjoin, ht, and_false, or_false]
      constructor
      · rintro (hj | ⟨cond, hq, hn⟩)
        · exact ⟨.inl hj, fun cond h => hp.not_joining_of_queue (List.mem_of_head? h.2.2) hj⟩
        · refine ⟨.inr ⟨cond, hq⟩, fun cond' h => hn ?_⟩
          rwa [hp.queue_unique hq (List.mem_of_head? h.2.2)]
      · rintro ⟨hj | ⟨cond, hq⟩, hn⟩
        · exact .inl hj
        · exact .inr ⟨cond, hq, hn cond⟩
  · simp only [if_neg hrun] at hqueue
    have hjoin := (hs.moved hp (x := t) fun hm => absurd hm hrun).joining
    simp only [Waiting, hqueue, hjoin, iff_self_and]
    exact fun _ cond h => hrun h.1

/-- The code at a place works on one queue. -/
lemma Loc.condOp_unique {cond cond' : ℕ} (h : l.condOp cond = .remove)
    (h' : l.condOp cond' = .remove) : cond = cond' := by
  cases l with
  | run k r =>
    cases k with
    | signalDequeue | bcastDequeue | waitSleep =>
      simp only [Loc.condOp] at h h'
      split at h <;> split at h' <;> simp_all
    | _ => cases h
  | _ => cases h

/-- What `Signal` took stays in its hands. -/
lemma Goes.took (h : Goes s es l l') (hk : ∀ e ∈ es, ¬ e.IsRan) :
    l'.took = l.took ∨ ∃ cond c r, l = .run (.signalDequeue cond c) r ∧
      l'.took = (s.queue (.cond cond)).head? := by
  cases h with
  | call | fork | finish => exact absurd trivial (hk _ List.mem_cons_self)
  | @ret _ k r => cases k <;> cases r <;> exact .inl rfl
  | @take _ _ k | @takeAwake _ _ k => cases k <;> exact .inl rfl
  | @release _ _ k => cases k <;> exact .inl rfl
  | signalDequeue => exact .inr ⟨_, _, _, rfl, dequeue_fst _⟩
  | _ => exact .inl rfl

lemma Moved.took (h : Moved l l') : l'.took = l.took := by
  cases h <;> rfl

lemma Moved.woken (h : Moved l l') : l'.woken = l.woken := by
  cases h <;> rfl

lemma Moved.broadcasting (h : Moved l l') : l'.broadcasting = l.broadcasting := by
  cases h <;> rfl

/-- What `Broadcast` takes off the queue is counted; it goes on until it finds the queue empty. -/
lemma Goes.broadcasts (h : Goes s es l l') (hk : ∀ e ∈ es, ¬ e.IsRan) :
    (l'.woken = l.woken ∧ l'.broadcasting = l.broadcasting ∧
      ∀ cond i c r, l ≠ .run (.bcastDequeue cond i c) r) ∨
    ∃ cond i c r, l = .run (.bcastDequeue cond i c) r ∧
      l'.woken = l.woken + (s.queue (.cond cond)).head?.toList.length ∧
      l'.broadcasting = (s.queue (.cond cond)).head?.isSome := by
  cases h with
  | call | fork | finish => exact absurd trivial (hk _ List.mem_cons_self)
  | bcastDequeue =>
    refine .inr ⟨_, _, _, _, rfl, ?_, ?_⟩
    · rw [← dequeue_fst]
      rfl
    · rw [← dequeue_fst]
      rfl
  | @ret _ k r => cases k <;> cases r <;> exact .inl ⟨rfl, rfl, by simp⟩
  | @take _ _ k | @takeAwake _ _ k => cases k <;> exact .inl ⟨rfl, rfl, by simp⟩
  | @release _ _ k => cases k <;> exact .inl ⟨rfl, rfl, by simp⟩
  | _ => exact .inl ⟨rfl, rfl, by simp⟩

lemma After.label {call : Call C} (h : After s call l) : l.label = call.label := by
  cases h with
  | entry h => cases h <;> rfl
  | fork | finish => rfl

lemma After.joining {call : Call C} (h : After s call l) : l.joining = call.isWait := by
  cases h with
  | entry h => cases h <;> rfl
  | fork | finish => rfl

lemma After.took {call : Call C} (h : After s call l) (hf : ∀ first c, call ≠ .fork first c) :
    l.took = none := by
  cases h with
  | entry h => cases h <;> rfl
  | fork => exact absurd rfl (hf _ _)
  | finish => rfl

lemma After.woken {call : Call C} (h : After s call l) : l.woken = 0 := by
  cases h with
  | entry h => cases h <;> rfl
  | fork | finish => rfl

lemma After.broadcasting {call : Call C} (h : After s call l) :
    l.broadcasting = true ↔ ∃ cond n c, call = .broadcast cond n c := by
  cases h with
  | entry h => cases h <;> simp [Loc.broadcasting, Kont.broadcasting]
  | fork | finish => simp [Loc.broadcasting, Kont.broadcasting]

lemma After.from {U : Call C → Prop} {call : Call C} (h : After s call l) (hu : U call) :
    l.From U := by
  cases h with
  | entry h =>
    cases h with
    | acquire | release => exact ⟨_, rfl, hu⟩
    | wait => exact hu
    | signal | broadcast => exact ⟨_, hu⟩
    | _ => trivial
  | fork | finish => trivial

/-- **A step of the client**, or a step in which its code does not run. -/
theorem Step.client_or_kernel (hs : Step K s es s') :
    (∃ input new c r call, ClientStep K s s' input new c r call) ∨ ∀ e ∈ es, ¬ e.IsRan := by
  cases hs with
  | @call input c r shared call _ lv l mode loc code entry =>
    refine .inl ⟨input, 0, c, r, call, mode, loc, code, ?_, rfl, rfl,
      fun t ht => .inl (setLoc_of_ne _ _ ht)⟩
    rw [setLoc_self]
    cases entry <;> exact .entry (by constructor <;> assumption)
  | @fork input c r shared first c' new mode loc code unborn =>
    have hloc := fork_loc (s := { s with shared := shared }) new first c'
    refine .inl ⟨input, new, c, r, .fork first c', mode, loc, code, ?_, rfl, rfl, fun t ht => ?_⟩
    · rw [hloc, Function.update_self]
      exact .fork
    · rw [hloc, Function.update_of_ne ht]
      by_cases htn : t = new
      · subst htn
        exact .inr ⟨rfl, first, c', rfl, unborn, Function.update_self ..⟩
      · exact .inl (Function.update_of_ne htn _ _)
  | @finish input c r shared mode loc code =>
    have hloc := finish_loc (s := { s with shared := shared })
    refine .inl ⟨input, 0, c, r, .finish, mode, loc, code, ?_, rfl, rfl, fun t ht => .inl ?_⟩
    · rw [hloc, Function.update_self]
      exact .finish
    · rw [hloc, Function.update_of_ne ht]
  | _ => exact .inr (by simp [Event.IsRan])

end Steps

section From

variable {K : Client C σ ι H} {s s' : State C σ} {es : List (Event C)} {l l' : Loc C}
  {U : Call C → Prop}

lemma Goes.from (h : Goes s es l l') (hk : ∀ e ∈ es, ¬ e.IsRan) (hl : l.From U) : l'.From U := by
  cases h with
  | call | fork | finish => exact absurd trivial (hk _ List.mem_cons_self)
  | @take _ _ k | @takeAwake _ _ k | @release _ _ k =>
    cases k with
    | client => trivial
    | _ => exact hl
  | @ret _ k _ | @lockWait _ _ k | @lockWaitAgain _ _ k =>
    cases k with
    | _ => exact hl
  | waitAcquire | waitSleep | waitAwake | signalDequeue | bcastDequeue | bcastReady => exact hl
  | _ => trivial

lemma Moved.from (h : Moved l l') (hlabel : l'.label = l.label) (hl : l.From U) : l'.From U := by
  cases h with
  | stays => exact hl
  | forked c => cases hlabel
  | starts | deleted => trivial

/-- A thread is where a call of the client has led it. -/
lemma Step.from (hp : Placed s) (hs : Step K s es s') (h : ∀ t, (s.loc t).From K.Makes) (t : Tid) :
    (s'.loc t).From K.Makes := by
  rcases hs.client_or_kernel with ⟨input, new, c, r, call, hc⟩ | hk
  · have hmakes : K.Makes call := ⟨input, _, c, r, _, _, hc.code⟩
    by_cases ht : t = s.currentThread
    · subst ht
      exact hc.place.from hmakes
    · rcases hc.other t ht with he | ⟨-, first, c', rfl, -, he⟩
      · rw [he]
        exact h t
      · rw [he]
        exact ⟨c', hmakes⟩
  · by_cases ht : s.mode = .running ∧ t = s.currentThread
    · obtain ⟨hm, rfl⟩ := ht
      exact (hs.goes hp hm).from hk (h _)
    · have hne : s.mode = .running → t ≠ s.currentThread := fun hm he => ht ⟨hm, he⟩
      exact (hs.moved hp hne).from (hs.label_other hp hk hne) (h t)

theorem Loc.From.of_run {first : C} {value : ℕ → ℤ} {shared : σ} {tr : List (Event C)}
    (h : KernelRun K (State.init first value shared) tr s) (t : Tid) :
    (s.loc t).From K.Makes := by
  refine h.invariant (I := fun _ s => ∀ t, (s.loc t).From K.Makes) (fun t => ?_)
    (fun hr hi ⟨_, hc⟩ => (step_rule hc).from (.of_run hr) hi) t
  rcases init_loc first value shared t with h | h <;> rw [h] <;> trivial

end From

section Waiting

variable {s : State C σ} {t : Tid} {U : Call C → Prop}

/-- Who is in `Wait` has called it. -/
lemma Waiting.from (h : Waiting s t) (hp : Placed s) (hf : (s.loc t).From U) :
    ∃ cond n c, (s.loc t).label = some c ∧ U (.wait cond n c) := by
  rcases h with hj | ⟨cond, hq⟩
  · generalize s.loc t = l at hj hf
    cases l with
    | run k | acquire _ _ k | lockAsleep _ _ k | release _ _ k | ret _ k =>
      cases k with
      | waitAcquire | waitSleep => exact ⟨_, _, _, rfl, hf⟩
      | _ => cases hj
    | _ => cases hj
  · have hs := hp.queued _ t hq
    generalize s.loc t = l at hs hf
    cases l <;> cases hs
    exact ⟨_, _, _, rfl, hf⟩

end Waiting

/-! ### Clients that say where they have a lock -/

/-- How a call may change whether the caller has the lock `L`: `locked` says where it has. -/
def Call.Keeps (L : ℕ) (locked : C → Bool) (c : C) : Call C → Prop
  | .acquire l c' => if l = L then locked c = false ∧ locked c' = true else locked c' = locked c
  | .release l c' => if l = L then locked c = true ∧ locked c' = false else locked c' = locked c
  | .wait _ l c' => (l = L → locked c = true) ∧ locked c' = locked c
  | .fork first c' => locked first = false ∧ locked c' = locked c
  | .finish => locked c = false
  | .signal _ _ c' => locked c' = locked c
  | .broadcast _ _ c' => locked c' = locked c
  | .down _ c' => locked c' = locked c
  | .up _ c' => locked c' = locked c
  | .yield c' => locked c' = locked c
  | .setLevel _ c' => locked c' = locked c
  | .oneTick c' => locked c' = locked c
  | .skip c' => locked c' = locked c

/-- The client's labels say where it has the lock. -/
def Client.Locks (K : Client C σ ι H) (L : ℕ) (locked : C → Bool) : Prop :=
  ∀ {input t c r shared shared' call}, K.code input t c r shared = .ok (shared', call) →
    call.Keeps L locked c

def Kont.holds (L : ℕ) (locked : C → Bool) : Kont C → Bool
  | .waitAcquire _ l _ c => l ≠ L && locked c
  | .waitSleep _ l _ c => l ≠ L && locked c
  | k => locked k.label

/-- Where a thread has the lock, in the client and in the routines. -/
def Loc.holds (L : ℕ) (locked : C → Bool) : Loc C → Bool
  | .unborn => false
  | .fresh c => locked c
  | .run k _ => k.holds L locked
  | .acquire l _ k => l ≠ .lock L && k.holds L locked
  | .lockAsleep l _ k => l ≠ .lock L && k.holds L locked
  | .release l _ k => l = .lock L || k.holds L locked
  | .down _ _ c => locked c
  | .semAsleep _ _ c => locked c
  | .up _ _ c => locked c
  | .yield _ c => locked c
  | .condAsleep _ l _ c => l ≠ L && locked c
  | .ret _ k _ => k.holds L locked
  | .finished => false

section Locks

variable {K : Client C σ ι H} {s s' : State C σ} {es : List (Event C)} {l l' : Loc C} {L : ℕ}
  {locked : C → Bool}

lemma Goes.holds_lock_of_quiet (h : Goes s es l l') (hk : ∀ e ∈ es, ¬ e.IsRan)
    (he : ∀ e ∈ es, ¬ e.Moves (.lock L)) : l'.holds L locked = l.holds L locked := by
  cases h with
  | call | fork | finish => exact absurd trivial (hk _ List.mem_cons_self)
  | @take l₀ _ k | @takeAwake l₀ _ k =>
    have hne : l₀ ≠ .lock L := he _ List.mem_cons_self
    simp [Loc.holds, hne]
  | @release l₀ _ k =>
    have hne : l₀ ≠ .lock L := he _ List.mem_cons_self
    simp [Loc.holds, hne]
  | _ => simp [Loc.holds, Kont.holds, Kont.label]

lemma Moved.holds (h : Moved l l') (hlabel : l'.label = l.label) :
    l'.holds L locked = l.holds L locked := by
  cases h with
  | forked c => cases hlabel
  | _ => rfl

lemma After.holds {call : Call C} {c : C} (h : After s call l) (hk : call.Keeps L locked c) :
    l.holds L locked = locked c := by
  cases h with
  | entry h =>
    cases h with
    | acquire n c' | release n c' =>
      by_cases hn : n = L
      · rw [Call.Keeps, if_pos hn] at hk
        simp [Loc.holds, hn, hk.1]
      · rw [Call.Keeps, if_neg hn] at hk
        simp [Loc.holds, hn, Kont.holds, Kont.label, hk]
    | wait cond n c' held =>
      by_cases hn : n = L
      · simp [Loc.holds, hn, hk.1 hn]
      · simp [Loc.holds, hn, Kont.holds, hk.2]
    | _ => simpa [Loc.holds, Kont.holds, Kont.label, Call.Keeps] using hk
  | fork => simpa [Loc.holds, Kont.holds, Kont.label] using hk.2
  | finish => exact hk.symm

/-- Whoever takes the lock is to have it. -/
lemma holds_of_taken (old : IntStatus) {k : Kont C} {r : Ret}
    (hg : k.AfterAcquire (.lock L)) (hf : (Loc.acquire (.lock L) old k).From
      fun call => ∃ c, call.Keeps L locked c) : (Loc.ret old k r).holds L locked = true := by
  cases k with
  | client c =>
    obtain ⟨n, hn, c₀, hc⟩ := hf
    cases hn
    rw [Call.Keeps, if_pos rfl] at hc
    exact hc.2
  | waitReturn cond l old' c =>
    obtain rfl : l = L := hg
    obtain ⟨c₀, hc⟩ := hf
    exact hc.2.trans (hc.1 rfl)
  | _ => cases hg

/-- Whoever has called `Release` has not got the lock. -/
lemma not_holds_of_released {old : IntStatus} {k : Kont C} {r : Ret}
    (hg : k.AfterRelease (.lock L)) (hf : (Loc.release (.lock L) old k).From
      fun call => ∃ c, call.Keeps L locked c) : (Loc.ret old k r).holds L locked = false := by
  cases k with
  | client c =>
    obtain ⟨n, hn, c₀, hc⟩ := hf
    cases hn
    rw [Call.Keeps, if_pos rfl] at hc
    exact hc.2
  | waitAcquire cond l old' c =>
    obtain rfl : l = L := hg
    simp [Loc.holds, Kont.holds]
  | _ => cases hg

lemma Kont.From.mono {U V : Call C → Prop} (hUV : ∀ call, U call → V call) {k : Kont C}
    (h : k.From U) : k.From V := by
  cases k with
  | client => trivial
  | waitAcquire | waitSleep | waitReturn => exact hUV _ h
  | _ =>
    obtain ⟨l, hl⟩ := h
    exact ⟨l, hUV _ hl⟩

lemma Loc.From.mono {U V : Call C → Prop} (hUV : ∀ call, U call → V call) (h : l.From U) :
    l.From V := by
  cases l with
  | fresh c =>
    obtain ⟨c', hc⟩ := h
    exact ⟨c', hUV _ hc⟩
  | acquire l old k | lockAsleep l old k | release l old k =>
    cases k with
    | client c =>
      obtain ⟨n, hn, hc⟩ := h
      exact ⟨n, hn, hUV _ hc⟩
    | waitAcquire | waitSleep | waitReturn => exact hUV _ h
    | _ =>
      obtain ⟨n, hn⟩ := h
      exact ⟨n, hUV _ hn⟩
  | run k r | ret old k r => exact Kont.From.mono hUV h
  | condAsleep => exact hUV _ h
  | _ => trivial

/-- **A client whose labels say where it has a lock** has the lock exactly there. -/
theorem Client.Locks.step (hK : K.Locks L locked) (hp : Placed s) {tr : List (Event C)}
    (hl : LockInv (.lock L) tr s) (hg : ∀ t, (s.loc t).Good) (hf : ∀ t, (s.loc t).From K.Makes)
    (h : ∀ t, (s.lock (.lock L)).activeThread = some t ↔ (s.loc t).holds L locked = true)
    (hs : Step K s es s') (t : Tid) :
    (s'.lock (.lock L)).activeThread = some t ↔ (s'.loc t).holds L locked = true := by
  have hfrom : ∀ t, (s.loc t).From fun call => ∃ c, call.Keeps L locked c := fun t =>
    (hf t).mono fun call ⟨_, _, c, _, _, _, hc⟩ => ⟨c, hK hc⟩
  rcases hs.client_or_kernel with ⟨input, new, c, r, call, hc⟩ | hk
  · rw [hc.lock, h]
    by_cases ht : t = s.currentThread
    · subst ht
      rw [hc.place.holds (hK hc.code), hc.loc]
      rfl
    · rcases hc.other t ht with he | ⟨-, first, c', hcall, hu, he⟩
      · rw [he]
      · have := hK hc.code
        rw [hcall] at this
        rw [he, hu, Loc.holds, Loc.holds, this.1]
  · have hother : (s.mode = .running → t ≠ s.currentThread) →
        (s'.loc t).holds L locked = (s.loc t).holds L locked := fun ht =>
      (hs.moved hp ht).holds (hs.label_other hp hk ht)
    cases hs.lockMove (.lock L) with
    | idle lock queue events loc =>
      rw [lock, h]
      by_cases ht : s.mode = .running ∧ t = s.currentThread
      · obtain ⟨hm, rfl⟩ := ht
        rw [(hs.goes hp hm).holds_lock_of_quiet hk events]
      · rw [hother fun hm he => ht ⟨hm, he⟩]
    | take mode loc free lock queue events =>
      rw [lock]
      by_cases ht : t = s.currentThread
      · subst ht
        obtain ⟨old, k, loc, loc'⟩ := loc
        rw [loc']
        have hgood := hg s.currentThread
        have hcalled := hfrom s.currentThread
        refine iff_of_true rfl ?_
        rcases loc with loc | loc <;> rw [loc] at hgood hcalled
        · exact holds_of_taken old hgood hcalled
        · exact holds_of_taken old hgood (by cases k <;> exact hcalled)
      · rw [hother fun _ => ht, ← h, hl.free_iff.1 free]
        exact iff_of_false (fun he => ht (Option.some.inj he).symm) (by simp)
    | wait mode busy lock queue events =>
      rw [lock, h]
      by_cases ht : t = s.currentThread
      · subst ht
        rw [(hs.goes hp mode).holds_lock_of_quiet hk (by simp [events])]
      · rw [hother fun _ => ht]
    | release mode loc held lock queue ready events =>
      rw [lock]
      refine iff_of_false (by simp) ?_
      by_cases ht : t = s.currentThread
      · subst ht
        rcases loc with ⟨old, k, loc⟩ | ⟨_, _, _, _, _, hne, -⟩
        · have hgood := hg s.currentThread
          have hcalled := hfrom s.currentThread
          have hgoes := hs.goes hp mode
          rw [loc] at hgood hcalled hgoes
          generalize s'.loc s.currentThread = l' at hgoes
          cases hgoes with
          | release => simp [not_holds_of_released hgood hcalled]
        · cases hne
      · rw [hother fun _ => ht, ← h, held]
        exact fun he => ht (Option.some.inj he).symm
    | releaseNot mode notHeld loc lock queue events =>
      have hgoes := hs.goes hp mode
      rw [events] at hgoes
      refine absurd ((h _).2 ?_) notHeld
      generalize s.loc s.currentThread = l at hgoes
      generalize s'.loc s.currentThread = l' at hgoes
      cases hgoes with
      | release => simp [Loc.holds]

theorem Client.Locks.of_run (hK : K.Locks L locked) {first : C} (hfirst : locked first = false)
    {value : ℕ → ℤ} {shared : σ} {tr : List (Event C)}
    (h : KernelRun K (State.init first value shared) tr s) (t : Tid) :
    (s.lock (.lock L)).activeThread = some t ↔ (s.loc t).holds L locked = true := by
  refine h.invariant (I := fun _ s => ∀ t, (s.lock (.lock L)).activeThread = some t ↔
    (s.loc t).holds L locked = true) (fun t => ?_) (fun hr hi ⟨_, hc⟩ =>
      hK.step (.of_run hr) (.of_run hr _) (WaitInv.of_run hr).good (Loc.From.of_run hr) hi
        (step_rule hc)) t
  refine iff_of_false (by simp [State.init]) ?_
  rcases init_loc first value shared t with h | h <;> rw [h]
  · simp [Loc.holds]
  · simp [Loc.holds, Kont.holds, Kont.label, hfirst]

/-- Two threads are not both where they have the lock. -/
theorem Client.Locks.exclusive (hK : K.Locks L locked) {first : C} (hfirst : locked first = false)
    {value : ℕ → ℤ} {shared : σ} {tr : List (Event C)}
    (h : KernelRun K (State.init first value shared) tr s) {t u : Tid}
    (ht : (s.loc t).holds L locked = true) (hu : (s.loc u).holds L locked = true) : t = u := by
  have h₁ := (hK.of_run hfirst h t).2 ht
  rw [(hK.of_run hfirst h u).2 hu] at h₁
  exact (Option.some.inj h₁).symm

/-- A thread that goes on where it has the lock has it now, if it is not about to get it. -/
lemma holds_of_label {U : Call C → Prop} {c : C} (hf : l.From U) (hg : l.Good)
    (hl : l.label = some c) (hc : locked c = true) (ha : ¬ U (.acquire L c))
    (hw : ∀ cond n, ¬ U (.wait cond n c)) : l.holds L locked = true := by
  cases l with
  | unborn | finished => cases hl
  | run k r | ret old k r =>
    obtain rfl := Option.some.inj hl
    cases k with
    | waitAcquire | waitSleep => exact absurd hf (hw _ _)
    | _ => exact hc
  | acquire l old k | lockAsleep l old k =>
    obtain rfl := Option.some.inj hl
    cases k with
    | client c =>
      obtain ⟨n, rfl, hn⟩ := hf
      have hne : n ≠ L := fun he => ha (he ▸ hn)
      simpa [Loc.holds, Kont.holds, hne] using hc
    | waitAcquire | waitSleep | waitReturn => exact absurd hf (hw _ _)
    | signalReady | bcastReady => cases l <;> cases hg
    | signalDequeue | bcastDequeue =>
      cases l <;> cases hg
      simpa [Loc.holds, Kont.holds] using hc
  | release l old k =>
    obtain rfl := Option.some.inj hl
    cases k with
    | waitAcquire | waitSleep => exact absurd hf (hw _ _)
    | _ => exact Bool.or_eq_true_iff.2 (.inr hc)
  | condAsleep => exact absurd hf (Option.some.inj hl ▸ hw _ _)
  | _ =>
    obtain rfl := Option.some.inj hl
    exact hc

end Locks

/-! ### Threads that are never forked -/

/-- What `new Thread` may give. -/
def Choice.new : Choice ι H → Option Tid
  | .run _ new => some new
  | _ => none

section Unborn

variable {K : Client C σ ι H} {s s' : State C σ} {es : List (Event C)} {t new : Tid}

/-- A call changes the place of the running thread, and of the one that it forks. -/
lemma enter_loc {call : Call C} (h : enter new s call = .ok (es, s')) (ht : t ≠ s.currentThread)
    (hn : t ≠ new) : s'.loc t = s.loc t := by
  cases call with
  | wait | signal | broadcast =>
    simp only [enter] at h
    split at h
    next => cases h; exact setLoc_of_ne _ _ ht
    next => cases h
  | fork first c =>
    simp only [enter] at h
    split at h
    next => cases h; exact (setLoc_of_ne _ _ ht).trans (Function.update_of_ne hn _ _)
    next => cases h
  | finish =>
    obtain ⟨s₁, hs, h⟩ := bind_eq_ok h
    obtain ⟨-, rfl⟩ := sleep_eq_ok hs
    cases h
    exact setLoc_of_ne _ _ ht
  | _ => cases h; exact setLoc_of_ne _ _ ht

/-- A step leaves a thread unborn that is not what it forks. -/
theorem unborn_of_step (hp : Placed s) {ch : Choice ι H} (h : step K ch s = .ok (es, s'))
    (hu : s.loc t = .unborn) (hn : ch.new ≠ some t) : s'.loc t = .unborn := by
  have hs := step_rule h
  have ht : s.mode = .running → t ≠ s.currentThread := by
    rintro hm rfl
    have := (hp.running hm).1
    rw [hu] at this
    cases this
  by_cases hk : ∀ e ∈ es, ¬ e.IsRan
  · have hlabel := hs.label_other hp hk ht
    have hmoved := hs.moved hp ht
    rw [hu] at hlabel hmoved
    generalize s'.loc t = l at hlabel hmoved
    cases hmoved with
    | stays => rfl
    | forked => cases hlabel
  · obtain ⟨input, new, c, r, call, hc⟩ := hs.client_or_kernel.resolve_right hk
    cases ch with
    | run input' new' =>
      simp only [step, hc.mode, if_true, runStep, hc.loc] at h
      split at h
      next => cases h
      next =>
        split at h
        next => cases h
        next he =>
          cases h
          exact (enter_loc he (ht hc.mode) fun hn' => hn (congrArg some hn'.symm)).trans hu
    | preempt =>
      simp only [step] at h
      split at h
      next tick ready =>
        obtain ⟨-, -, k, r', loc⟩ := inTick_iff.1 tick
        rw [hc.loc] at loc
        cases loc
      next => cases h
    | interrupt i =>
      simp only [step] at h
      split at h
      next allowed =>
        obtain ⟨-, -, k, r', loc⟩ := inTick_of_running allowed hc.mode
        rw [hc.loc] at loc
        cases loc
      next => cases h
    | dispatch =>
      simp only [step, hc.mode] at h
      cases h

/-- An evaluation in which every state passes a test for a guard is a guarded run; `n` bounds the
threads. -/
theorem unborn_of_passes {G : State C σ → List (Event C) → State C σ → Prop}
    {g p : State C σ → Bool} {n : ℕ} (hn : 0 < n)
    (hg : ∀ {s es s'}, (∀ t, n ≤ t → s.loc t = .unborn) → g s = true → G s es s') {first : C}
    {value : ℕ → ℤ} {shared : σ} (cs : List (Choice ι H))
    (h : Lib.passesAll (step K) (fun ch s => ch.new.all (· < n) && g s) p cs
      (State.init first value shared) = true) :
    ∃ tr s, Lib.Run (Lib.Guarded G (Lib.StepOf (step K))) (State.init first value shared) tr s ∧
      (∀ t, n ≤ t → s.loc t = .unborn) ∧ p s = true := by
  suffices hrun : ∃ tr s, Lib.Run (Lib.Guarded G (Lib.StepOf (step K)))
      (State.init first value shared) tr s ∧ (Placed s ∧ ∀ t, n ≤ t → s.loc t = .unborn) ∧
        p s = true by
    obtain ⟨tr, s, hr, hi, hp⟩ := hrun
    exact ⟨tr, s, hr, hi.2, hp⟩
  refine Lib.run_of_passesAll (fun s => Placed s ∧ ∀ t, n ≤ t → s.loc t = .unborn)
    (fun {ch s es s'} hi hok hs => ?_) .start ⟨.of_run (K := K) .start, fun t ht => ?_⟩ h
  · obtain ⟨hnew, hs'⟩ := Bool.and_eq_true_iff.1 hok
    refine ⟨⟨hi.1.step (step_rule hs), fun t ht => ?_⟩, hg hi.2 hs'⟩
    refine unborn_of_step hi.1 hs (hi.2 t ht) fun he => ?_
    rw [he] at hnew
    exact Nat.lt_irrefl t (Nat.lt_of_lt_of_le (of_decide_eq_true hnew) ht)
  · have hne : t ≠ 0 := by omega
    simp [State.init, hne]

theorem guarded_of_passes {G : State C σ → List (Event C) → State C σ → Prop}
    {g p : State C σ → Bool} {n : ℕ} (hn : 0 < n)
    (hg : ∀ {s es s'}, (∀ t, n ≤ t → s.loc t = .unborn) → g s = true → G s es s') {first : C}
    {value : ℕ → ℤ} {shared : σ} (cs : List (Choice ι H))
    (h : Lib.passesAll (step K) (fun ch s => ch.new.all (· < n) && g s) p cs
      (State.init first value shared) = true) :
    ∃ tr s, Lib.Run (Lib.Guarded G (Lib.StepOf (step K))) (State.init first value shared) tr s ∧
      p s = true := by
  obtain ⟨tr, s, hr, -, hp⟩ := unborn_of_passes hn hg cs h
  exact ⟨tr, s, hr, hp⟩

end Unborn

end Nachos.Threads
