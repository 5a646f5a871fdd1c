import Nachos.Threads.Scheduler

/-!
# The interrupt level of the callers

The interrupt level is one global, and no part of a thread's state. A routine keeps the level it
was called at on its own stack (`oldLevel`) and sets it again before it returns, after other
threads may have set it to anything. `Signal` and `Broadcast` keep nothing: they rely on the
routines they call.

A run is read here as the calls and returns of every thread, those inside other routines included,
each with the interrupt level of the machine at that moment. `levels_restored` says that a call
returns at the level it was made at, and that every `SWITCH` happens with interrupts disabled.
-/

namespace Nachos.Threads

variable {C σ ι H : Type}

/-- A routine that changes the interrupt level. -/
inductive Routine where
  | acquire (l : LockId)
  | release (l : LockId)
  | wait (cond : ℕ)
  | signal (cond : ℕ)
  | broadcast (cond : ℕ)
  | down (i : ℕ)
  | up (i : ℕ)
  | yield
  /-- `Yield`, called by `OneTick` when the timer asked for it. -/
  | tickYield
  | fork
  | setLevel (now : IntStatus)
  | oneTick
  /-- `Interrupt::Enable`, called by `ThreadRoot`. -/
  | enable
  deriving DecidableEq

/-- Is the routine meant to return at the level it was called at? -/
def Routine.restores : Routine → Bool
  | .setLevel _ => false
  | .oneTick => false
  | .enable => false
  | _ => true

/-- The calls a thread is in, innermost first, each with the level it was made at. -/
abbrev CallStack := List (Routine × IntStatus)

/-- The calls that the `SetLevel` at the end of a routine returns from: the routine, and the
`Yield`s of the `OneTick`s in that `SetLevel`; and the calls that remain. -/
def popCall : CallStack → CallStack × CallStack
  | [] => ([], [])
  | p :: calls => if p.1 = .tickYield then (p :: (popCall calls).1, (popCall calls).2)
    else ([p], calls)

/-- What is seen of a run: switches, calls and returns, with the interrupt level. -/
inductive LevelEvent where
  | switch (level : IntStatus)
  | called (t : Tid) (routine : Routine) (level : IntStatus)
  | completed (t : Tid) (level : IntStatus)
  deriving DecidableEq

namespace LevelEvent

/-- What an event does to the calls of a thread. -/
def onStack (t : Tid) (calls : CallStack) : LevelEvent → CallStack
  | .switch _ => calls
  | .called u routine level => if u = t then (routine, level) :: calls else calls
  | .completed u _ => if u = t then (popCall calls).2 else calls

/-- **The level is as it should be**: interrupts are disabled in a `SWITCH`, and the calls that
return do so at the level they were made at. -/
def Restores (calls : Tid → CallStack) : LevelEvent → Prop
  | .switch level => level = .intOff
  | .called _ _ _ => True
  | .completed t level => (popCall (calls t)).1 ≠ [] ∧
      ∀ p ∈ (popCall (calls t)).1, p.1.restores = true → p.2 = level

end LevelEvent

/-- The calls of the threads, after some events. -/
def callsAfter (calls : Tid → CallStack) (os : List LevelEvent) (t : Tid) : CallStack :=
  os.foldl (LevelEvent.onStack t) (calls t)

/-! ### What a step shows -/

/-- The calls a client's call makes at once. `Wait` disables interrupts before it calls
`Release`. -/
def Call.levelEvents (t : Tid) (level : IntStatus) : Call C → List LevelEvent
  | .acquire l _ => [.called t (.acquire (.lock l)) level]
  | .release l _ => [.called t (.release (.lock l)) level]
  | .wait cond l _ => [.called t (.wait cond) level, .called t (.release (.lock l)) .intOff]
  | .signal cond _ _ =>
    [.called t (.signal cond) level, .called t (.acquire (.queueLock cond)) level]
  | .broadcast cond _ _ =>
    [.called t (.broadcast cond) level, .called t (.acquire (.queueLock cond)) level]
  | .down i _ => [.called t (.down i) level]
  | .up i _ => [.called t (.up i) level]
  | .yield _ => [.called t .yield level]
  | .setLevel now _ => [.called t (.setLevel now) level]
  | .oneTick _ => [.called t .oneTick level]
  | .fork _ _ => [.called t .fork level]
  | .finish => []
  | .skip _ => []

/-- What is seen of a `Wait`, `Signal` or `Broadcast` between the routines it calls, with the level
before and after. `Signal` and `Broadcast` return in such a stretch; `Wait` calls `Release` and
`Sleep` in one. -/
def Kont.levelEvents (t : Tid) (level level' : IntStatus) : Kont C → List LevelEvent
  | .client _ => []
  | .waitAcquire cond _ _ _ => [.called t (.acquire (.queueLock cond)) level]
  | .waitSleep cond _ _ _ => [.called t (.release (.queueLock cond)) level, .completed t level']
  | .waitReturn _ _ _ _ => []
  | .signalDequeue cond _ => [.called t (.release (.queueLock cond)) level]
  | .signalReady _ _ _ => [.completed t level']
  | .bcastDequeue cond _ _ => [.called t (.release (.queueLock cond)) level]
  | .bcastReady _ _ none _ => [.completed t level']
  | .bcastReady cond _ (some _) _ => [.called t (.acquire (.queueLock cond)) level]

/-- A `SWITCH` to a thread. A thread that runs for the first time enables interrupts. -/
def State.switchEvents (s : State C σ) (next : Tid) : List LevelEvent :=
  match s.loc next with
  | .fresh _ => [.switch s.level, .called next .enable s.level]
  | _ => [.switch s.level]

/-- What is seen of the running thread as it goes on, from `s` to `s'`. -/
def threadLevelEvents (K : Client C σ ι H) (input : ι) (s s' : State C σ) : List LevelEvent :=
  let t := s.currentThread
  match s.loc t with
  | .run (.client c) r =>
    match K.code input t c r s.shared with
    | .ok (_, call) => call.levelEvents t s.level
    | .error _ => []
  | .run k _ => k.levelEvents t s.level s'.level
  | .condAsleep _ l _ _ => [.called t (.acquire (.lock l)) s.level]
  | .ret _ _ _ => [.completed t s'.level]
  | .yield _ _ =>
    match s.readyList with
    | [] => []
    | next :: _ => s.switchEvents next
  | _ => []

/-- **The calls, the returns and the switches of a step.** `OneTick` calls `Yield` after it has
enabled interrupts; the `V` of an interrupt handler returns in the same step. -/
def levelEvents (K : Client C σ ι H) (ch : Choice ι H) (s : State C σ) : List LevelEvent :=
  match step K ch s with
  | .error _ => []
  | .ok (_, s') =>
    match ch with
    | .run input _ => threadLevelEvents K input s s'
    | .preempt =>
      match s.readyList with
      | [] => []
      | next :: _ => .called s.currentThread .tickYield .intOn :: s.switchEvents next
    | .interrupt h =>
      match K.handler h s.shared with
      | .ok (_, some i) =>
        [.called s.currentThread (.up i) s.level, .completed s.currentThread s'.level]
      | _ => []
    | .dispatch =>
      match s.readyList with
      | [] => []
      | next :: _ => s.switchEvents next

/-! ### Where a thread is in its calls -/

/-- The calls around a routine that returns to the continuation at this level. -/
def Kont.Outer (level : IntStatus) : Kont C → CallStack → Prop
  | .client _, calls => calls = []
  | .waitAcquire cond _ old _, calls => calls = [(.wait cond, old)]
  | .waitSleep cond _ old _, calls => calls = [(.wait cond, old)]
  | .waitReturn cond _ old _, calls => calls = [(.wait cond, old)]
  | .signalDequeue cond _, calls => calls = [(.signal cond, level)]
  | .signalReady cond _ _, calls => calls = [(.signal cond, level)]
  | .bcastDequeue cond _ _, calls => calls = [(.broadcast cond, level)]
  | .bcastReady cond _ _ _, calls => calls = [(.broadcast cond, level)]

/-- **The calls a thread is in, from its place** in the code: `oldLevel` is the level of the
caller. -/
def Loc.InCall (level : IntStatus) : Loc C → CallStack → Prop
  | .unborn, calls => calls = []
  | .fresh _, calls => calls = []
  | .finished, calls => calls = []
  | .run k _, calls => k.Outer level calls
  | .acquire l old k, calls => ∃ outer, calls = (.acquire l, old) :: outer ∧ k.Outer old outer
  | .lockAsleep l old k, calls => ∃ outer, calls = (.acquire l, old) :: outer ∧ k.Outer old outer
  | .release l old k, calls => ∃ outer, calls = (.release l, old) :: outer ∧ k.Outer old outer
  | .down i old _, calls => calls = [(.down i, old)]
  | .semAsleep i old _, calls => calls = [(.down i, old)]
  | .up i old _, calls => calls = [(.up i, old)]
  | .yield old _, calls => calls = [(.yield, old)]
  | .condAsleep cond _ old _, calls => calls = [(.wait cond, old)]
  | .ret old k _, calls => (popCall calls).1 ≠ [] ∧
      (∀ p ∈ (popCall calls).1, p.1.restores = true → p.2 = old) ∧ k.Outer old (popCall calls).2

/-- **Every thread is in the calls that its place says.** Only a running thread depends on the
level of the machine. -/
structure Disciplined (calls : Tid → CallStack) (s : State C σ) : Prop where
  running : s.mode = .running → (s.loc s.currentThread).InCall s.level (calls s.currentThread)
  others : ∀ u, (s.mode = .running → u ≠ s.currentThread) →
    ∀ level, (s.loc u).InCall level (calls u)

/-- All the events are as they should be, one after the other. -/
def RestoresAll (calls : Tid → CallStack) : List LevelEvent → Prop
  | [] => True
  | e :: es => e.Restores calls ∧ RestoresAll (callsAfter calls [e]) es

section Events

variable {calls : Tid → CallStack} {os es : List LevelEvent}

lemma callsAfter_append (t : Tid) :
    callsAfter calls (os ++ es) t = callsAfter (callsAfter calls os) es t :=
  List.foldl_append ..

/-- The thread whose calls an event changes. -/
def LevelEvent.thread : LevelEvent → Option Tid
  | .switch _ => none
  | .called t _ _ => some t
  | .completed t _ => some t

/-- The calls of a thread are changed by its own events only. -/
lemma callsAfter_of_ne {u : Tid} (h : ∀ e ∈ es, e.thread ≠ some u) :
    callsAfter calls es u = calls u := by
  induction es generalizing calls with
  | nil => rfl
  | cons e es ih =>
    have hu : callsAfter calls [e] u = calls u := by
      have he := h e List.mem_cons_self
      cases e with
      | switch level => rfl
      | called t routine level => exact if_neg fun ht => he (congrArg some ht)
      | completed t level => exact if_neg fun ht => he (congrArg some ht)
    exact (@ih (callsAfter calls [e]) fun e' he' => h e' (List.mem_cons_of_mem _ he')).trans
      hu

lemma popCall_cons {routine : Routine} {level : IntStatus} {rest : CallStack}
    (h : routine ≠ .tickYield) :
    popCall ((routine, level) :: rest) = ([(routine, level)], rest) :=
  if_neg h

/-- Events that are as they should be, after others that are. -/
lemma restores_append (h : ∀ pre e post, os = pre ++ e :: post → e.Restores (callsAfter calls pre))
    (hes : RestoresAll (callsAfter calls os) es) :
    ∀ pre e post, os ++ es = pre ++ e :: post → e.Restores (callsAfter calls pre) := by
  induction es generalizing os with
  | nil => rwa [List.append_nil]
  | cons e es ih =>
    obtain ⟨he, hes⟩ := hes
    have hafter : callsAfter (callsAfter calls os) [e] = callsAfter calls (os ++ [e]) :=
      funext fun t => (callsAfter_append t).symm
    rw [hafter] at hes
    have hnext := @ih (os ++ [e]) (fun pre e' post heq => ?_) hes
    · simpa using hnext
    · obtain ⟨mid, hos, -⟩ | ⟨rfl, rfl, -⟩ := Lib.concat_eq_append_cons heq
      · exact h pre e' mid hos
      · exact he

end Events

section Steps

variable {K : Client C σ ι H} {s s' : State C σ} {calls : Tid → CallStack}

/-! ### The running thread -/

/-- The running thread goes on, and shows events of its own. -/
lemma Disciplined.goOn (h : Disciplined calls s) {os : List LevelEvent}
    {l : Loc C} (hos : ∀ e ∈ os, ∀ t, e.thread = some t → t = s.currentThread)
    (hloc : s'.loc = Function.update s.loc s.currentThread l)
    (hcur : s'.currentThread = s.currentThread) (hm' : s'.mode = .running)
    (hl : l.InCall s'.level (callsAfter calls os s.currentThread)) :
    Disciplined (callsAfter calls os) s' := by
  refine ⟨fun _ => ?_, fun u hu level => ?_⟩
  · rw [hcur, hloc, Function.update_self]
    exact hl
  · have hne : u ≠ s.currentThread := hcur ▸ hu hm'
    rw [hloc, Function.update_of_ne hne,
      callsAfter_of_ne fun e he het => hne (hos e he u het)]
    exact h.others u (fun _ => hne) level

/-- The running thread sleeps. -/
lemma Disciplined.sleeps (h : Disciplined calls s) {os : List LevelEvent}
    {l : Loc C} (hos : ∀ e ∈ os, ∀ t, e.thread = some t → t = s.currentThread)
    (hloc : s'.loc = Function.update s.loc s.currentThread l)
    (hl : ∀ level, l.InCall level (callsAfter calls os s.currentThread)) (hm' : s'.mode ≠ .running) :
    Disciplined (callsAfter calls os) s' := by
  refine ⟨fun hm => absurd hm hm', fun u _ level => ?_⟩
  rw [hloc]
  by_cases hne : u = s.currentThread
  · subst hne
    rw [Function.update_self]
    exact hl level
  · rw [Function.update_of_ne hne, callsAfter_of_ne fun e he het => hne (hos e he u het)]
    exact h.others u (fun _ => hne) level

/-! ### Switches -/

lemma switchEvents_of_fresh {next : Tid} {c : C} (h : s.loc next = .fresh c) :
    s.switchEvents next = [.switch s.level, .called next .enable s.level] := by
  simp only [State.switchEvents, h]

lemma switchEvents_of_resumed {next : Tid} (h : ∀ c, s.loc next ≠ .fresh c) :
    s.switchEvents next = [.switch s.level] := by
  unfold State.switchEvents
  split
  next c hfresh => exact absurd hfresh (h c)
  next => rfl

/-- **A `SWITCH`**: the thread that goes on is where it was, and a thread that runs for the first
time enables interrupts. -/
lemma disciplined_runThread (h : ∀ u level, (s.loc u).InCall level (calls u))
    (hd : ∀ d, s.threadToBeDestroyed = some d → s.loc d = .finished) (hoff : s.level = .intOff)
    {next : Tid} (run : s.runThread next = .ok s') :
    RestoresAll calls (s.switchEvents next) ∧
      Disciplined (callsAfter calls (s.switchEvents next)) s' := by
  rcases runThread_cases run with ⟨c, hc, rfl⟩ | ⟨hc, -, rfl⟩ | ⟨d, hc, hdoom, hne, rfl⟩
  · rw [switchEvents_of_fresh hc]
    refine ⟨⟨hoff, trivial, trivial⟩, ?_⟩
    have hcalls : calls next = [] := by
      have hnext := h next .intOff
      rwa [hc] at hnext
    have hstack : callsAfter calls [.switch s.level, .called next .enable s.level] next =
        [(.enable, s.level)] := by
      simp [callsAfter, LevelEvent.onStack, hcalls]
    refine ⟨fun _ => ?_, fun u hu level => ?_⟩
    · show (((s.switchTo next).setLoc next _).loc next).InCall _ (callsAfter _ _ next)
      rw [setLoc_self, hstack]
      exact ⟨by simp [popCall], by simp [popCall, Routine.restores], by simp [popCall, Kont.Outer]⟩
    · have hun : u ≠ next := hu rfl
      rw [setLoc_of_ne _ _ hun, callsAfter_of_ne (by simp [LevelEvent.thread, hun.symm])]
      exact h u level
  · rw [switchEvents_of_resumed hc]
    exact ⟨⟨hoff, trivial⟩, fun _ => h next _, fun u _ level => h u level⟩
  · rw [switchEvents_of_resumed hc]
    have hall : ∀ u level, (((s.switchTo next).setLoc d .unborn).loc u).InCall level (calls u) := by
      intro u level
      by_cases hu : u = d
      · subst hu
        have hu := h u level
        rw [hd u hdoom] at hu
        rw [setLoc_self]
        exact hu
      · rw [setLoc_of_ne _ _ hu]
        exact h u level
    exact ⟨⟨hoff, trivial⟩, fun _ => hall next _, fun u _ level => hall u level⟩

/-! ### One step of the running thread -/

/-- What is to be shown of a step. -/
def Kept (calls : Tid → CallStack) (os : List LevelEvent) (s' : State C σ) : Prop :=
  RestoresAll calls os ∧ Disciplined (callsAfter calls os) s'

/-- A routine that ends its calls returns at the level it was called at. -/
lemma inCall_ret {calls : CallStack} {routine : Routine} {old level : IntStatus}
    {outer : CallStack} {k : Kont C} {r : Ret} (hne : routine ≠ .tickYield)
    (hcalls : calls = (routine, old) :: outer) (hk : k.Outer old outer) :
    (Loc.ret old k r).InCall level calls := by
  subst hcalls
  refine ⟨?_, ?_, ?_⟩ <;> rw [popCall_cons hne]
  · simp
  · simp
  · exact hk

/-- A new thread has made no call. -/
lemma Disciplined.forked (h : Disciplined calls s) {new : Tid} (unborn : s.loc new = .unborn)
    (hne : new ≠ s.currentThread) (first : C) : Disciplined calls (s.setLoc new (.fresh first)) := by
  refine ⟨fun hm => ?_, fun u hu level => ?_⟩
  · show ((s.setLoc new _).loc s.currentThread).InCall _ _
    rw [setLoc_of_ne _ _ hne.symm]
    exact h.running hm
  · have hold := h.others u hu level
    by_cases hun : u = new
    · subst hun
      rw [unborn] at hold
      rw [setLoc_self]
      exact hold
    · rw [setLoc_of_ne _ _ hun]
      exact hold

/-- A call of the client. -/
lemma Disciplined.enter (h : Disciplined calls s) (hm : s.mode = .running) {c : C} {r : Ret}
    (loc : s.loc s.currentThread = .run (.client c) r) {new : Tid} {shared : σ} {call : Call C}
    {es : List (Event C)}
    (hs : enter new { s with shared := shared } call = .ok (es, s')) :
    Kept calls (call.levelEvents s.currentThread s.level) s' := by
  have hcalls : calls s.currentThread = [] := by
    have hrun := h.running hm
    rwa [loc] at hrun
  have hone : ∀ (routine : Routine) (level : IntStatus) (e : LevelEvent),
      e ∈ [LevelEvent.called s.currentThread routine level] →
        ∀ t, e.thread = some t → t = s.currentThread := by
    simp [LevelEvent.thread]
  cases call with
  | acquire l c' | release l c' =>
    cases hs
    refine ⟨⟨trivial, trivial⟩, h.goOn (hone _ _) rfl rfl hm ⟨[], ?_, rfl⟩⟩
    simp [Call.levelEvents, callsAfter, LevelEvent.onStack, hcalls]
  | wait cond l c' =>
    simp only [Threads.enter] at hs
    split at hs
    next =>
      cases hs
      refine ⟨⟨trivial, trivial, trivial⟩, h.goOn ?_ rfl rfl hm ⟨[(.wait cond, s.level)], ?_, rfl⟩⟩
      · simp [Call.levelEvents, LevelEvent.thread]
      · simp [Call.levelEvents, callsAfter, LevelEvent.onStack, hcalls]
    next => cases hs
  | signal cond l c' =>
    simp only [Threads.enter] at hs
    split at hs
    next =>
      cases hs
      refine ⟨⟨trivial, trivial, trivial⟩,
        h.goOn ?_ rfl rfl hm ⟨[(.signal cond, s.level)], ?_, rfl⟩⟩
      · simp [Call.levelEvents, LevelEvent.thread]
      · simp [Call.levelEvents, callsAfter, LevelEvent.onStack, hcalls]
    next => cases hs
  | broadcast cond l c' =>
    simp only [Threads.enter] at hs
    split at hs
    next =>
      cases hs
      refine ⟨⟨trivial, trivial, trivial⟩,
        h.goOn ?_ rfl rfl hm ⟨[(.broadcast cond, s.level)], ?_, rfl⟩⟩
      · simp [Call.levelEvents, LevelEvent.thread]
      · simp [Call.levelEvents, callsAfter, LevelEvent.onStack, hcalls]
    next => cases hs
  | down i c' | up i c' | yield c' =>
    cases hs
    refine ⟨⟨trivial, trivial⟩, h.goOn (hone _ _) rfl rfl hm ?_⟩
    simp [Call.levelEvents, callsAfter, LevelEvent.onStack, hcalls, Loc.InCall]
  | setLevel now c' | oneTick c' =>
    cases hs
    refine ⟨⟨trivial, trivial⟩, h.goOn (hone _ _) rfl rfl hm ?_⟩
    simp [Call.levelEvents, callsAfter, LevelEvent.onStack, hcalls, Loc.InCall, popCall,
      Routine.restores, Kont.Outer]
  | fork first c' =>
    simp only [Threads.enter] at hs
    split at hs
    next unborn =>
      cases hs
      have hne : new ≠ s.currentThread := by
        rintro rfl
        rw [loc] at unborn
        cases unborn
      have hstack : callsAfter calls [.called s.currentThread .fork s.level] s.currentThread =
          [(.fork, s.level)] := by
        simp [callsAfter, LevelEvent.onStack, hcalls]
      exact ⟨⟨trivial, trivial⟩, (h.forked unborn hne first).goOn (hone _ _) rfl rfl hm
        (inCall_ret (by simp) hstack rfl)⟩
    next => cases hs
  | finish =>
    cases hs
    refine ⟨trivial, h.sleeps (by simp [Call.levelEvents]) rfl (fun _ => hcalls) fun hrunning => ?_⟩
    cases hrunning
  | skip c' =>
    cases hs
    exact ⟨trivial, h.goOn (by simp [Call.levelEvents]) rfl rfl hm hcalls⟩

/-- The running thread goes on, and neither calls nor returns. -/
lemma Disciplined.silent (h : Disciplined calls s) {l : Loc C}
    (hloc : s'.loc = Function.update s.loc s.currentThread l)
    (hcur : s'.currentThread = s.currentThread) (hm' : s'.mode = .running)
    (hl : l.InCall s'.level (calls s.currentThread)) : Kept calls [] s' :=
  ⟨trivial, @Disciplined.goOn _ _ _ _ _ h [] _ (by simp) hloc hcur hm' hl⟩

/-- The running thread sleeps, and neither calls nor returns. -/
lemma Disciplined.silentSleep (h : Disciplined calls s) {l : Loc C}
    (hloc : s'.loc = Function.update s.loc s.currentThread l) (hm' : s'.mode ≠ .running)
    (hl : ∀ level, l.InCall level (calls s.currentThread)) : Kept calls [] s' :=
  ⟨trivial, @Disciplined.sleeps _ _ _ _ _ h [] _ (by simp) hloc hl hm'⟩

lemma Disciplined.tryAcquire (h : Disciplined calls s) (hm : s.mode = .running) {l : LockId}
    {old : IntStatus} {k : Kont C} {es : List (Event C)}
    (hin : ∃ outer, calls s.currentThread = (.acquire l, old) :: outer ∧ k.Outer old outer)
    (hs : tryAcquire s l old k = .ok (es, s')) : Kept calls [] s' := by
  obtain ⟨outer, hcalls, hk⟩ := hin
  unfold Threads.tryAcquire at hs
  split at hs
  next =>
    cases hs
    exact h.silent rfl rfl hm (inCall_ret (by simp) hcalls hk)
  next =>
    obtain ⟨s₁, hsleep, hs⟩ := Lib.bind_eq_ok hs
    obtain ⟨-, rfl⟩ := sleep_eq_ok hsleep
    cases hs
    exact h.silentSleep rfl nofun fun _ => ⟨outer, hcalls, hk⟩

lemma Disciplined.tryDown (h : Disciplined calls s) (hm : s.mode = .running) {i : ℕ}
    {old : IntStatus} {c : C} {es : List (Event C)} (hin : calls s.currentThread = [(.down i, old)])
    (hs : tryDown s i old c = .ok (es, s')) : Kept calls [] s' := by
  unfold Threads.tryDown at hs
  split at hs
  next =>
    obtain ⟨s₁, hsleep, hs⟩ := Lib.bind_eq_ok hs
    obtain ⟨-, rfl⟩ := sleep_eq_ok hsleep
    cases hs
    exact h.silentSleep rfl nofun fun _ => hin
  next =>
    cases hs
    exact h.silent rfl rfl hm (inCall_ret (by simp) hin rfl)

/-- `queue->Remove()` moves no thread. -/
lemma dequeue_frame (cond : ℕ) :
    (s.dequeue cond).2.loc = s.loc ∧ (s.dequeue cond).2.currentThread = s.currentThread ∧
      (s.dequeue cond).2.mode = s.mode := by
  unfold State.dequeue
  split <;> exact ⟨rfl, rfl, rfl⟩

lemma callsAfter_self (t : Tid) (routine : Routine) (level : IntStatus) :
    callsAfter calls [.called t routine level] t = (routine, level) :: calls t := by
  simp [callsAfter, LevelEvent.onStack]

lemma callsAfter_return (t : Tid) (level : IntStatus) :
    callsAfter calls [.completed t level] t = (popCall (calls t)).2 := by
  simp [callsAfter, LevelEvent.onStack]

/-- The running thread makes a call. -/
lemma Disciplined.call (h : Disciplined calls s) {l : Loc C} {routine : Routine}
    {level : IntStatus} (hloc : s'.loc = Function.update s.loc s.currentThread l)
    (hcur : s'.currentThread = s.currentThread) (hm' : s'.mode = .running)
    (hl : l.InCall s'.level ((routine, level) :: calls s.currentThread)) :
    Kept calls [.called s.currentThread routine level] s' :=
  ⟨⟨trivial, trivial⟩, h.goOn (by simp [LevelEvent.thread]) hloc hcur hm'
    (by rwa [callsAfter_self])⟩

/-- The running thread returns from a call. -/
lemma Disciplined.return (h : Disciplined calls s) {l : Loc C}
    (hloc : s'.loc = Function.update s.loc s.currentThread l)
    (hcur : s'.currentThread = s.currentThread) (hm' : s'.mode = .running)
    (hne : (popCall (calls s.currentThread)).1 ≠ [])
    (hold : ∀ p ∈ (popCall (calls s.currentThread)).1, p.1.restores = true → p.2 = s'.level)
    (hl : l.InCall s'.level (popCall (calls s.currentThread)).2) :
    Kept calls [.completed s.currentThread s'.level] s' :=
  ⟨⟨⟨hne, hold⟩, trivial⟩, h.goOn (by simp [LevelEvent.thread]) hloc hcur hm'
    (by rwa [callsAfter_return])⟩

/-- `Signal` and `Broadcast` return at the level they find. -/
lemma Disciplined.returnOuter (h : Disciplined calls s) {routine : Routine} {c : C} {r : Ret}
    (hin : calls s.currentThread = [(routine, s.level)]) (hne : routine ≠ .tickYield)
    (hloc : s'.loc = Function.update s.loc s.currentThread (.run (.client c) r))
    (hcur : s'.currentThread = s.currentThread) (hm' : s'.mode = .running)
    (hlevel : s'.level = s.level) : Kept calls [.completed s.currentThread s'.level] s' := by
  refine h.return hloc hcur hm' ?_ ?_ ?_ <;> rw [hin, popCall_cons hne]
  · simp
  · simp [hlevel]
  · rfl

/-- The places between the routines that `Wait`, `Signal` and `Broadcast` call. -/
lemma Disciplined.resume (h : Disciplined calls s) (hm : s.mode = .running)
    {k : Kont C} {r : Ret} (loc : s.loc s.currentThread = .run k r)
    {es : List (Event C)} (hs : resume s k = .ok (es, s')) :
    Kept calls (k.levelEvents s.currentThread s.level s'.level) s' := by
  have hin : k.Outer s.level (calls s.currentThread) := by
    have hrun := h.running hm
    rwa [loc] at hrun
  cases k with
  | client c => cases hs
  | waitAcquire cond l old c =>
    cases hs
    exact h.call rfl rfl hm ⟨_, rfl, hin⟩
  | waitSleep cond l old c =>
    obtain ⟨s₁, hsleep, hs⟩ := Lib.bind_eq_ok hs
    obtain ⟨-, rfl⟩ := sleep_eq_ok hsleep
    cases hs
    have hlevel : (s.blockOnCond cond l old c).level = s.level :=
      (s.append (.cond cond)).releaseLock_level _
    have hcalls : callsAfter calls [.called s.currentThread (.release (.queueLock cond)) s.level,
        .completed s.currentThread (s.blockOnCond cond l old c).level] s.currentThread =
          calls s.currentThread := by
      simp [callsAfter, LevelEvent.onStack, popCall]
    refine ⟨⟨trivial, ⟨?_, ?_⟩, trivial⟩, h.sleeps ?_ (blockOnCond_loc cond l old c) ?_ nofun⟩
    · rw [callsAfter_self, popCall_cons (by simp)]
      simp
    · rw [callsAfter_self, popCall_cons (by simp)]
      intro p hp _
      rw [List.mem_singleton.1 hp]
      exact hlevel.symm
    · simp [Kont.levelEvents, LevelEvent.thread]
    · exact fun level => hcalls.trans hin
  | waitReturn cond l old c =>
    cases hs
    exact h.silent rfl rfl hm (inCall_ret (by simp) hin rfl)
  | signalDequeue cond c =>
    cases hs
    obtain ⟨hloc, hcur, hmode⟩ := dequeue_frame (s := s) cond
    exact h.call (congrArg (Function.update · _ _) hloc) hcur (hmode.trans hm) ⟨_, rfl, hin⟩
  | signalReady cond thread c =>
    cases thread with
    | none => cases hs; exact h.returnOuter hin (by simp) rfl rfl hm rfl
    | some x => cases hs; exact h.returnOuter hin (by simp) rfl rfl hm rfl
  | bcastDequeue cond i c =>
    cases hs
    obtain ⟨hloc, hcur, hmode⟩ := dequeue_frame (s := s) cond
    exact h.call (congrArg (Function.update · _ _) hloc) hcur (hmode.trans hm) ⟨_, rfl, hin⟩
  | bcastReady cond i thread c =>
    cases thread with
    | none => cases hs; exact h.returnOuter hin (by simp) rfl rfl hm rfl
    | some x => cases hs; exact h.call rfl rfl hm ⟨_, rfl, hin⟩

/-- A thread that gives up the processor, in `Yield`. -/
lemma disciplined_yieldTo (h : ∀ u level, (s.loc u).InCall level (calls u))
    (hd : ∀ d, s.threadToBeDestroyed = some d → s.loc d = .finished) (hoff : s.level = .intOff)
    {next : Tid} {rest : List Tid} (run : s.yieldTo next rest = .ok s') :
    Kept calls (s.switchEvents next) s' := by
  unfold State.yieldTo at run
  exact disciplined_runThread (s := { s with readyList := rest }.readyToRun s.currentThread) h hd
    hoff run

/-- `Yield`, when there is a thread to run. -/
lemma Disciplined.yields (h : Disciplined calls s) (hp : Placed s) (hm : s.mode = .running)
    {old : IntStatus} {c : C} (hin : calls s.currentThread = [(.yield, old)])
    (hoff : s.level = .intOff) {next : Tid} {rest : List Tid} (ready : s.readyList = next :: rest)
    (run : (s.setLoc s.currentThread (.ret old (.client c) .unit)).yieldTo next rest = .ok s') :
    Kept calls (s.switchEvents next) s' := by
  have hne : next ≠ s.currentThread := by
    rintro rfl
    exact (hp.running hm).2.1 (ready ▸ List.mem_cons_self)
  have hev : (s.setLoc s.currentThread (.ret old (.client c) .unit)).switchEvents next =
      s.switchEvents next := by
    unfold State.switchEvents
    rw [setLoc_of_ne _ _ hne]
    rfl
  rw [← hev]
  refine disciplined_yieldTo (fun u level => ?_)
    (hp.setLoc hm (l := .ret old (.client c) .unit) trivial (.inl rfl)).doomed hoff run
  by_cases hu : u = s.currentThread
  · rw [hu, setLoc_self]
    exact inCall_ret (by simp) hin rfl
  · rw [setLoc_of_ne _ _ hu]
    exact h.others u (fun _ => hu) level

/-- **The running thread goes on.** -/
theorem Disciplined.runStep (h : Disciplined calls s) (hp : Placed s) (hv : Leveled s)
    (hm : s.mode = .running) {input : ι} {new : Tid} {es : List (Event C)}
    (hs : runStep K input new s = .ok (es, s')) :
    Kept calls (threadLevelEvents K input s s') s' := by
  have hin := h.running hm
  have hone : ∀ (routine : Routine) (level : IntStatus) (e : LevelEvent),
      e ∈ [LevelEvent.called s.currentThread routine level] →
        ∀ t, e.thread = some t → t = s.currentThread := by
    simp [LevelEvent.thread]
  simp only [Threads.runStep] at hs
  simp only [threadLevelEvents]
  split at hs
  next c r loc =>
    rw [loc]
    dsimp only
    split at hs
    next => cases hs
    next shared call hcode =>
      rw [hcode]
      split at hs
      next => cases hs
      next he =>
        cases hs
        exact h.enter hm loc he
  next k r hk loc =>
    rw [loc]
    cases k with
    | client c => cases hs
    | _ => exact h.resume hm loc hs
  next l old k loc =>
    rw [loc] at hin ⊢
    exact h.tryAcquire hm hin hs
  next l old k loc =>
    rw [loc] at hin ⊢
    exact h.tryAcquire hm hin hs
  next l old k loc =>
    rw [loc] at hin ⊢
    obtain ⟨outer, hcalls, hk⟩ := hin
    cases hs
    exact h.silent (congrArg (Function.update · _ _) (s.releaseLock_loc l))
      (s.releaseLock_currentThread l) ((s.releaseLock_mode l).trans hm)
      (inCall_ret (by simp) hcalls hk)
  next i old c loc =>
    rw [loc] at hin ⊢
    exact h.tryDown hm hin hs
  next i old c loc =>
    rw [loc] at hin ⊢
    exact h.tryDown hm hin hs
  next i old c loc =>
    rw [loc] at hin ⊢
    cases hs
    exact h.silent (congrArg (Function.update · _ _) (s.wake_loc (.sem i)))
      (s.wake_currentThread (.sem i)) ((s.wake_mode (.sem i)).trans hm)
      (inCall_ret (by simp) hin rfl)
  next old c loc =>
    rw [loc] at hin ⊢
    split at hs
    next ready =>
      cases hs
      rw [show s.readyList = [] from ready]
      exact h.silent rfl rfl hm (inCall_ret (by simp) hin rfl)
    next next rest ready =>
      obtain ⟨s₁, run, hs⟩ := Lib.bind_eq_ok hs
      cases hs
      rw [show s.readyList = next :: rest from ready]
      exact h.yields hp hm hin (hv.running hm (loc ▸ trivial)) ready run
  next cond l old c loc =>
    rw [loc] at hin ⊢
    cases hs
    exact h.call rfl rfl hm ⟨_, rfl, hin⟩
  next old k r loc =>
    rw [loc] at hin ⊢
    obtain ⟨hne, hold, hk⟩ := hin
    cases hs
    exact h.return rfl rfl hm hne hold hk
  all_goals cases hs

/-- A device interrupts: its handler may call `V`, which returns at the level it was called at. -/
lemma Disciplined.handler (h : Disciplined calls s) {i : ℕ} (hloc : s'.loc = s.loc)
    (hcur : s'.currentThread = s.currentThread) (hlevel : s'.level = s.level)
    (hm : s.mode = .running ↔ s'.mode = .running) :
    Disciplined calls s' ∧ Kept calls
      [.called s.currentThread (.up i) s.level, .completed s.currentThread s'.level] s' := by
  have hafter : callsAfter calls [.called s.currentThread (.up i) s.level,
      .completed s.currentThread s'.level] = calls := by
    funext t
    by_cases ht : s.currentThread = t
    · subst ht
      simp [callsAfter, LevelEvent.onStack, popCall]
    · simp [callsAfter, LevelEvent.onStack, ht]
  have hkeep : Disciplined calls s' := by
    refine ⟨fun hm' => ?_, fun u hu level => ?_⟩
    · rw [hcur, hloc, hlevel]
      exact h.running (hm.2 hm')
    · rw [hloc]
      exact h.others u (fun hm' => hcur ▸ hu (hm.1 hm')) level
  refine ⟨hkeep, ⟨trivial, ⟨?_, ?_⟩, trivial⟩, hafter.symm ▸ hkeep⟩
  · rw [callsAfter_self, popCall_cons (by simp)]
    simp
  · rw [callsAfter_self, popCall_cons (by simp)]
    intro p hp _
    rw [List.mem_singleton.1 hp]
    exact hlevel.symm

/-- **Every step** keeps the discipline. -/
theorem Disciplined.step (h : Disciplined calls s) (hp : Placed s) (hv : Leveled s)
    {ch : Choice ι H} {es : List (Event C)} (hs : step K ch s = .ok (es, s')) :
    Kept calls (levelEvents K ch s) s' := by
  unfold levelEvents
  rw [hs]
  cases ch with
  | run input new =>
    simp only [Threads.step] at hs
    split at hs
    next hm => exact h.runStep hp hv hm hs
    next => cases hs
  | preempt =>
    simp only [Threads.step] at hs
    split at hs
    next next rest tick ready =>
      obtain ⟨hm, hoff, k, r, loc⟩ := inTick_iff.1 tick
      obtain ⟨s₁, run, hs⟩ := Lib.bind_eq_ok hs
      cases hs
      simp only [ready]
      have hin := h.running hm
      rw [loc] at hin
      -- one more `Yield` returns at the `SetLevel(IntOn)` that the thread is in
      have hcalled : ∀ u level,
          (s.loc u).InCall level (callsAfter calls [.called s.currentThread .tickYield .intOn] u) := by
        intro u level
        by_cases hu : u = s.currentThread
        · rw [hu, loc, callsAfter_self]
          obtain ⟨hne, hold, hk⟩ := hin
          exact ⟨by simp [popCall], by simpa [popCall] using hold, by simpa [popCall] using hk⟩
        · rw [callsAfter_of_ne (by simp [LevelEvent.thread, Ne.symm hu])]
          exact h.others u (fun _ => hu) level
      obtain ⟨hall, hd⟩ := disciplined_yieldTo hcalled hp.doomed hoff run
      exact ⟨⟨trivial, hall⟩, hd⟩
    next => cases hs
  | interrupt i =>
    simp only [Threads.step] at hs
    split at hs
    next allowed =>
      split at hs
      next => cases hs
      next shared v hhandler =>
        have hmode : s.mode = .running ↔ (s.handled shared).mode = .running := by
          by_cases hm : s.mode = .running <;> simp [State.handled, hm]
        simp only [hhandler]
        split at hs
        · cases hs
          exact ⟨trivial, (@Disciplined.handler _ _ _ (s.handled shared) _ h 0 rfl rfl rfl hmode).1⟩
        next i =>
          cases hs
          have hmode' : s.mode = .running ↔ ((s.handled shared).raise i).mode = .running :=
            hmode.trans (by rw [show ((s.handled shared).raise i).mode = (s.handled shared).mode from
              (s.handled shared).wake_mode (.sem i)])
          exact (@Disciplined.handler _ _ _ ((s.handled shared).raise i) _ h i
            ((s.handled shared).wake_loc (.sem i)) ((s.handled shared).wake_currentThread (.sem i))
            ((s.handled shared).wake_level (.sem i)) hmode').2
    next => cases hs
  | dispatch =>
    simp only [Threads.step] at hs
    split at hs
    next => cases hs
    next => cases hs
    next next rest ready hm =>
      obtain ⟨s₁, run, hs⟩ := Lib.bind_eq_ok hs
      cases hs
      simp only [ready]
      have hn : s.mode ≠ .running := hm
      exact disciplined_runThread (s := { s with readyList := rest })
        (fun u level => h.others u (fun hm' => absurd hm' hn) level) hp.doomed (hv.asleep hn) run

end Steps

/-! ### Runs -/

lemma disciplined_init (first : C) (value : ℕ → ℤ) (shared : σ) :
    Disciplined (fun _ => []) (State.init first value shared) := by
  have hall : ∀ u level, ((State.init first value shared).loc u).InCall level [] := by
    intro u level
    by_cases hu : u = 0
    · rw [hu]
      rfl
    · rw [init_loc_of_ne first value shared hu]
      rfl
  exact ⟨fun _ => hall _ _, fun u _ level => hall u level⟩

/-- **The interrupt level discipline**: in every run, `SWITCH` happens with interrupts disabled,
and every call returns at the interrupt level it was made at. -/
theorem levels_restored {K : Client C σ ι H} {first : C} {value : ℕ → ℤ} {shared : σ}
    {os : List LevelEvent} {s : State C σ}
    (h : Lib.Run (Lib.StepOf (Lib.observed (step K) (levelEvents K)))
      (State.init first value shared) os s) :
    ∀ pre e post, os = pre ++ e :: post → e.Restores (callsAfter (fun _ => []) pre) := by
  obtain ⟨-, -, -, -, hall⟩ := h.observed_invariant (I := fun os s =>
      Placed s ∧ Leveled s ∧ Disciplined (callsAfter (fun _ => []) os) s ∧
        ∀ pre e post, os = pre ++ e :: post → e.Restores (callsAfter (fun _ => []) pre))
    ⟨placed_init first value shared, leveled_init first value shared,
      disciplined_init first value shared, fun pre e post he => by cases pre <;> cases he⟩
    fun {tr os ch s es s'} hr hi hs => by
      obtain ⟨hp, hv, hd, hall⟩ := hi
      have hrule := step_rule hs
      obtain ⟨hos, hd'⟩ := hd.step hp hv hs
      refine ⟨hp.step hrule, hv.step hp hrule, ?_, restores_append hall hos⟩
      rwa [show callsAfter (fun _ => []) (os ++ levelEvents K ch s) =
        callsAfter (callsAfter (fun _ => []) os) (levelEvents K ch s) from
          funext fun t => callsAfter_append t]
  exact hall

/-- A thread waits in `Remove` until the other appends an item. -/
theorem levels_restored_wakeUp : ∃ os s,
    Lib.Run (Lib.StepOf (Lib.observed (step synchList) (levelEvents synchList)))
      (State.init .idle (fun _ => 0) []) os s ∧
    (.called 1 (.wait 0) .intOn ∈ os ∧ .switch .intOff ∈ os) ∧
    ∀ pre e post, os = pre ++ e :: post → e.Restores (callsAfter (fun _ => []) pre) := by
  obtain ⟨os, s, run, hos⟩ := Lib.run_of_passes
    (Lib.observed (step synchList) (levelEvents synchList)) wakeUp (State.init .idle (fun _ => 0) [])
    (fun os _ => decide (.called 1 (.wait 0) .intOn ∈ os) && decide (.switch .intOff ∈ os))
    (by decide +kernel)
  rw [Bool.and_eq_true, decide_eq_true_iff, decide_eq_true_iff] at hos
  exact ⟨os, s, run, hos, levels_restored run⟩

end Nachos.Threads
