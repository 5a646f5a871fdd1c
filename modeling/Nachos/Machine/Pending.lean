import Nachos.Machine.Interrupt

/-!
# What is pending fires in time

The queue is an agenda. `CheckIfDue` takes the earliest interrupt off the list, and either lets it
fire or puts it back; a handler schedules for later only. So `OneTick` comes to an end once what is
due has fired, and `Idle` turns the clock no further than to the earliest interrupt.
-/

namespace Nachos.Machine

open Lib

variable {H W : Type} {handlers : Handlers H W} {m m' : Hardware H W} {es : List (Event H)}

/-- The clock, and what is on the list. -/
def Hardware.agenda (m : Hardware H W) : Agenda (PendingInterrupt H) ℤ :=
  ⟨m.totalTicks, ((m.pending.map ListElement.item : List _) : Multiset _)⟩

/-- The list is sorted, by the times of the interrupts. -/
structure Hardware.Ok (m : Hardware H W) : Prop where
  sorted : Sorted m.pending
  keys : ∀ e ∈ m.pending, e.key = e.item.time

/-- What is due. -/
def Hardware.due (m : Hardware H W) : List (ListElement (PendingInterrupt H)) :=
  m.pending.filter (·.key ≤ m.totalTicks)

/-- From one machine to another, as an agenda. -/
def Agreed (m : Hardware H W) (es : List (Event H)) (m' : Hardware H W) : Prop :=
  Run (Agenda.Step PendingInterrupt.time) m.agenda es m'.agenda

lemma Hardware.Ok.insert {p : PendingInterrupt H} {l : List (ListElement (PendingInterrupt H))}
    {m : Hardware H W} (sorted : Sorted l) (keys : ∀ e ∈ l, e.key = e.item.time)
    (hp : m.pending = sortedInsert p p.time l) : m.Ok := by
  constructor
  · rw [hp]
    exact sorted.sortedInsert
  · intro e he
    rw [hp] at he
    rcases mem_sortedInsert.mp he with rfl | he
    · rfl
    · exact keys e he

lemma items_sortedInsert {p : PendingInterrupt H} {time : ℤ}
    {l : List (ListElement (PendingInterrupt H))} :
    (((sortedInsert p time l).map ListElement.item : List _) : Multiset (PendingInterrupt H)) =
      p ::ₘ ((l.map ListElement.item : List _) : Multiset _) :=
  Multiset.coe_eq_coe.mpr (sortedInsert_perm.map _)

/-! ### Handlers -/

/-- What `Schedule` does. -/
lemma schedule_eq_ok {r : Request H} (h : schedule r m = .ok (es, m')) :
    ∃ p : PendingInterrupt H, m.totalTicks < p.time ∧ es = [.scheduled p m.totalTicks] ∧
      m' = { m with pending := sortedInsert p p.time m.pending } := by
  unfold schedule addInt at h
  split at h
  next => cases h
  next time ht =>
    split at ht
    next =>
      obtain rfl : m.totalTicks + r.fromNow = time := by simpa using ht
      split at h
      next hpos =>
        cases h
        exact ⟨_, by simp only; omega, rfl, rfl⟩
      next => cases h
    next => cases ht

lemma schedule_eq_error {r : Request H} {f : Fault} (h : schedule r m = .error f) :
    f = .overflow ∨ f = .fromNow := by
  unfold schedule addInt at h
  split at h
  next f' hf =>
    split at hf
    next => cases hf
    next =>
      cases hf
      cases h
      exact .inl rfl
  next =>
    split at h
    next => cases h
    next =>
      cases h
      exact .inr rfl

/-- What a handler leaves as it is, and what it does to the queue. -/
structure Handled (m : Hardware H W) (es : List (Event H)) (m' : Hardware H W) : Prop where
  ok : m'.Ok
  agreed : Agreed m es m'
  fired : Agenda.fired es = []
  totalTicks : m'.totalTicks = m.totalTicks
  level : m'.level = m.level
  inHandler : m'.inHandler = m.inHandler
  status : m'.status = m.status
  halted : m'.halted = m.halted
  due : m'.due = m.due

lemma Handled.refl (hok : m.Ok) : Handled m [] m :=
  ⟨hok, .start, rfl, rfl, rfl, rfl, rfl, rfl, rfl⟩

lemma Handled.trans {m'' : Hardware H W} {es' : List (Event H)} (h : Handled m es m')
    (h' : Handled m' es' m'') : Handled m (es ++ es') m'' where
  ok := h'.ok
  agreed := h.agreed.trans h'.agreed
  fired := by rw [Agenda.fired_append, h.fired, h'.fired, List.append_nil]
  totalTicks := h'.totalTicks.trans h.totalTicks
  level := h'.level.trans h.level
  inHandler := h'.inHandler.trans h.inHandler
  status := h'.status.trans h.status
  halted := h'.halted.trans h.halted
  due := h'.due.trans h.due

lemma handled_of_schedule {r : Request H} (hok : m.Ok) (h : schedule r m = .ok (es, m')) :
    Handled m es m' := by
  obtain ⟨p, later, rfl, rfl⟩ := schedule_eq_ok h
  refine ⟨.insert hok.sorted hok.keys rfl, ?_, rfl, rfl, rfl, rfl, rfl, rfl, ?_⟩
  · have hstep : Agenda.Step PendingInterrupt.time m.agenda [.scheduled p m.totalTicks]
        { m.agenda with pending := p ::ₘ m.agenda.pending } := .schedule later
    have hend : ({ m with pending := sortedInsert p p.time m.pending } : Hardware H W).agenda =
        { m.agenda with pending := p ::ₘ m.agenda.pending } := by
      simp only [Hardware.agenda, items_sortedInsert]
    unfold Agreed
    rw [hend]
    exact Run.start.snoc hstep
  · exact filter_sortedInsert (by simpa using later)

lemma handled_of_handlerCall {c : HandlerCall H} (hok : m.Ok)
    (h : handlerCall c m = .ok (es, m')) : Handled m es m' := by
  cases c with
  | schedule r => exact handled_of_schedule hok h
  | yieldOnReturn =>
    simp only [handlerCall] at h
    split at h
    next =>
      cases h
      exact ⟨⟨hok.sorted, hok.keys⟩, .start, rfl, rfl, rfl, rfl, rfl, rfl, rfl⟩
    next => cases h

/-- What a handler does. -/
lemma handled_of_invoke {p : PendingInterrupt H} (hok : m.Ok)
    (h : invoke handlers p m = .ok (es, m')) : Handled m es m' := by
  have hr := run_of_exec h
  have h₀ : Handled m [] { m with kernel := (handlers p.handler p.arg m).2 } :=
    ⟨⟨hok.sorted, hok.keys⟩, .start, rfl, rfl, rfl, rfl, rfl, rfl, rfl⟩
  refine hr.invariant (I := fun es m' => Handled m es m') h₀ ?_
  rintro tr s es s' - hi ⟨c, hc⟩
  exact hi.trans (handled_of_handlerCall hi.ok hc)

/-- A handler stops only in `Schedule`. -/
lemma invoke_eq_error {p : PendingInterrupt H} {f : Fault} (hin : m.inHandler = true)
    (h : invoke handlers p m = .error f) : f = .overflow ∨ f = .fromNow := by
  unfold invoke at h
  simp only at h
  generalize hm : ({ m with kernel := (handlers p.handler p.arg m).2 } : Hardware H W) = m₁ at h
  have hin₁ : m₁.inHandler = true := by rw [← hm]; exact hin
  clear hm
  generalize (handlers p.handler p.arg m).1 = calls at h
  induction calls generalizing m₁ with
  | nil => cases h
  | cons c calls ih =>
    rw [exec] at h
    cases hc : handlerCall c m₁ with
    | error f' =>
      rw [hc] at h
      cases h
      cases c with
      | schedule r => exact schedule_eq_error hc
      | yieldOnReturn => simp [handlerCall, hin₁] at hc
    | ok q =>
      obtain ⟨es₁, m₂⟩ := q
      rw [hc] at h
      have hin₂ : m₂.inHandler = true := by
        cases c with
        | schedule r =>
          obtain ⟨p, -, -, rfl⟩ := schedule_eq_ok hc
          exact hin₁
        | yieldOnReturn =>
          simp only [handlerCall, hin₁, if_true] at hc
          cases hc
          rfl
      cases hcs : exec handlerCall calls m₂ with
      | error f' =>
        simp only [hcs] at h
        cases h
        exact ih m₂ hin₂ hcs
      | ok q => simp only [hcs] at h; cases h

/-! ### CheckIfDue -/

/-- What `CheckIfDue` does: the list is empty, the earliest interrupt is not due and is put back,
it is the time-slice daemon alone and is put back, or it fires. -/
inductive Checked (handlers : Handlers H W) (advanceClock : Bool) (m : Hardware H W) :
    Bool → List (Event H) → Hardware H W → Prop
  | empty (pending : m.pending = []) : Checked handlers advanceClock m false [] m
  | early {e rest} (pending : m.pending = e :: rest) (stay : advanceClock = false)
      (later : m.totalTicks < e.key) :
      Checked handlers advanceClock m false []
        { m with pending := sortedInsert e.item e.key rest }
  | alone {e} (pending : m.pending = [e]) (due : advanceClock = true ∨ e.key ≤ m.totalTicks)
      (idle : m.status = .idleMode) :
      Checked handlers advanceClock m false []
        { m with totalTicks := max m.totalTicks e.key, pending := [e] }
  | fire {e rest es m'} (pending : m.pending = e :: rest)
      (due : advanceClock = true ∨ e.key ≤ m.totalTicks)
      (h : invoke handlers e.item { m with
        totalTicks := max m.totalTicks e.key, pending := rest, inHandler := true,
        status := .systemMode } = .ok (es, m')) :
      Checked handlers advanceClock m true (.fired e.item (max m.totalTicks e.key) :: es)
        { m' with status := m.status, inHandler := false }

lemma clock_eq (t time : ℤ) : (if time > t then time else t) = max t time := by
  split <;> omega

lemma checked_of_checkIfDue {adv b : Bool} (h : checkIfDue handlers adv m = .ok (b, es, m')) :
    Checked handlers adv m b es m' := by
  unfold checkIfDue at h
  simp only [clock_eq] at h
  split at h
  next => cases h
  cases hpend : m.pending with
  | nil =>
    simp only [hpend, sortedRemove] at h
    cases h
    exact .empty hpend
  | cons e rest =>
    simp only [hpend, sortedRemove] at h
    split at h
    next hearly =>
      cases h
      exact .early hpend hearly.1 hearly.2
    next hdue =>
      have due : adv = true ∨ e.key ≤ m.totalTicks := by
        cases adv with
        | true => exact .inl rfl
        | false => exact .inr (by simpa using hdue)
      split at h
      next hal =>
        cases h
        obtain rfl : rest = [] := by simpa using hal.2.2
        exact .alone hpend due hal.1
      next =>
        split at h
        next => cases h
        next hi =>
          cases h
          exact .fire hpend due hi

/-- `CheckIfDue` stops only in a handler. -/
lemma checkIfDue_eq_error {adv : Bool} {f : Fault} (hlevel : m.level = .intOff)
    (h : checkIfDue handlers adv m = .error f) : f = .overflow ∨ f = .fromNow := by
  unfold checkIfDue at h
  simp only [hlevel, ne_eq, not_true_eq_false, if_false] at h
  split at h
  next => cases h
  next =>
    split at h
    next => cases h
    next =>
      split at h
      next => cases h
      next =>
        split at h
        next hi =>
          cases h
          exact invoke_eq_error rfl hi
        next => cases h

variable {adv b : Bool}

/-- What is left of a list without its first element. -/
lemma Hardware.Ok.rest {e : ListElement (PendingInterrupt H)}
    {rest : List (ListElement (PendingInterrupt H))} (hok : m.Ok) (hp : m.pending = e :: rest) :
    (∀ e' ∈ rest, e.key ≤ e'.key) ∧ Sorted rest ∧ (∀ e' ∈ rest, e'.key = e'.item.time) ∧
      e.key = e.item.time := by
  have hs := hok.sorted
  have hk := hok.keys
  rw [hp] at hs hk
  exact ⟨(List.pairwise_cons.mp hs).1, (List.pairwise_cons.mp hs).2,
    fun e' he' => hk e' (List.mem_cons_of_mem _ he'), hk e List.mem_cons_self⟩

/-- What `CheckIfDue` keeps. -/
structure Kept (m : Hardware H W) (es : List (Event H)) (m' : Hardware H W) : Prop where
  ok : m'.Ok
  agreed : Agreed m es m'
  level : m'.level = m.level
  status : m'.status = m.status
  halted : m'.halted = m.halted

lemma agreed_advance {t : ℤ} (forward : m.totalTicks ≤ t)
    (hm' : m'.agenda = { m.agenda with now := t }) : Agreed m [] m' := by
  unfold Agreed
  rw [hm']
  exact Run.start.snoc (.advance forward)

lemma Checked.kept (hok : m.Ok) (h : Checked handlers adv m b es m') : Kept m es m' := by
  cases h with
  | empty => exact ⟨hok, .start, rfl, rfl, rfl⟩
  | early pending =>
    obtain ⟨-, sorted, keys, hkey⟩ := hok.rest pending
    refine ⟨.insert sorted keys (by rw [hkey]), agreed_advance le_rfl ?_, rfl, rfl, rfl⟩
    simp only [Hardware.agenda, items_sortedInsert, pending, List.map_cons, Multiset.cons_coe]
  | @alone e pending =>
    have hclock : m.totalTicks ≤ max m.totalTicks e.key := le_max_left _ _
    refine ⟨⟨pending ▸ hok.sorted, pending ▸ hok.keys⟩, agreed_advance hclock ?_, rfl, rfl, rfl⟩
    simp only [Hardware.agenda, pending]
  | @fire e rest es m' pending due hi =>
    obtain ⟨earliest, sorted, keys, hkey⟩ := hok.rest pending
    have hh := handled_of_invoke ⟨sorted, keys⟩ hi
    refine ⟨⟨hh.ok.sorted, hh.ok.keys⟩, ?_, hh.level, rfl, hh.halted⟩
    -- the clock, the interrupt, its handler
    have hclock : Run (Agenda.Step PendingInterrupt.time) m.agenda []
        ⟨max m.totalTicks e.key, e.item ::ₘ ((rest.map ListElement.item : List _) :
          Multiset (PendingInterrupt H))⟩ := by
      have : Agreed m [] { m with totalTicks := max m.totalTicks e.key } :=
        agreed_advance (le_max_left m.totalTicks e.key) rfl
      simpa only [Agreed, Hardware.agenda, pending, List.map_cons, ← Multiset.cons_coe] using this
    have hfire : Agenda.Step PendingInterrupt.time
        ⟨max m.totalTicks e.key, e.item ::ₘ ((rest.map ListElement.item : List _) :
          Multiset (PendingInterrupt H))⟩ [.fired e.item (max m.totalTicks e.key)]
        ⟨max m.totalTicks e.key, ((rest.map ListElement.item : List _) : Multiset _)⟩ := by
      refine .fire (hkey ▸ le_max_right _ _) fun p hp => ?_
      obtain ⟨e', he', rfl⟩ := List.mem_map.mp (Multiset.mem_coe.mp hp)
      rw [← hkey, ← keys e' he']
      exact earliest e' he'
    exact (hclock.snoc hfire).trans hh.agreed

/-! ### OneTick -/

lemma Kept.trans {m'' : Hardware H W} {es' : List (Event H)} (h : Kept m es m')
    (h' : Kept m' es' m'') : Kept m (es ++ es') m'' :=
  ⟨h'.ok, h.agreed.trans h'.agreed, h'.level.trans h.level, h'.status.trans h.status,
    h'.halted.trans h.halted⟩

lemma kept_of_checkAll {fuel : ℕ} (hok : m.Ok) (h : checkAll handlers fuel m = .ok (es, m')) :
    Kept m es m' := by
  induction fuel generalizing m es with
  | zero => cases h
  | succ fuel ih =>
    rw [checkAll] at h
    split at h
    next => cases h
    next hc =>
      cases h
      exact (checked_of_checkIfDue hc).kept hok
    next es₁ m₁ hc =>
      have hk := (checked_of_checkIfDue hc).kept hok
      split at h
      next => cases h
      next es₂ m₂ ha =>
        cases h
        exact hk.trans (ih hk.ok ha)

/-- The earliest interrupt is due, or nothing is. -/
lemma Hardware.Ok.due_cons {e : ListElement (PendingInterrupt H)}
    {rest : List (ListElement (PendingInterrupt H))} (hok : m.Ok) (hp : m.pending = e :: rest) :
    m.due = if e.key ≤ m.totalTicks then e :: rest.filter (·.key ≤ m.totalTicks) else [] := by
  unfold Hardware.due
  rw [hp]
  split
  next hdue => rw [List.filter_cons_of_pos (by simpa using hdue)]
  next hlater =>
    rw [List.filter_eq_nil_iff]
    intro e' he'
    have : e.key ≤ e'.key := by
      rcases List.mem_cons.mp he' with rfl | he'
      · exact le_rfl
      · exact (hok.rest hp).1 e' he'
    simp only [decide_eq_true_eq]
    omega

/-- The interrupt that fires is the earliest; the clock stands at its time at least. -/
lemma Checked.due_of_fire (hok : m.Ok) (h : Checked handlers adv m true es m') :
    ∃ e rest, m.pending = e :: rest ∧ (adv = true ∨ e.key ≤ m.totalTicks) ∧
      Agenda.fired es = [e.item] ∧ m'.totalTicks = max m.totalTicks e.key ∧
      m'.due = rest.filter (·.key ≤ max m.totalTicks e.key) := by
  cases h with
  | @fire e rest es m' pending due hi =>
    obtain ⟨-, sorted, keys, -⟩ := hok.rest pending
    have hh := handled_of_invoke ⟨sorted, keys⟩ hi
    exact ⟨e, rest, pending, due, by rw [Agenda.fired_fired, hh.fired], hh.totalTicks, hh.due⟩

/-- When the clock stays, one interrupt that was due has fired and the others are due as before. -/
lemma Checked.due_cons_of_fire (hok : m.Ok) (h : Checked handlers false m true es m') :
    ∃ e, m.due = e :: m'.due ∧ Agenda.fired es = [e.item] ∧ m'.totalTicks = m.totalTicks := by
  obtain ⟨e, rest, pending, due, hf, ht, hd⟩ := h.due_of_fire hok
  have hdue : e.key ≤ m.totalTicks := by simpa using due
  rw [max_eq_left hdue] at ht hd
  exact ⟨e, by rw [hok.due_cons pending, if_pos hdue, hd], hf, ht⟩

lemma Checked.totalTicks_of_not_fire (h : Checked handlers false m false es m') :
    m'.totalTicks = m.totalTicks := by
  cases h with
  | empty => rfl
  | early => rfl
  | alone pending due => exact max_eq_left (by simpa using due)

/-- When nothing fires, and the machine is not idle, nothing is due. -/
lemma Checked.due_of_not_fire (hok : m.Ok) (hst : m.status ≠ .idleMode)
    (h : Checked handlers false m false es m') :
    m.due = [] ∧ m'.due = [] ∧ es = [] := by
  cases h with
  | empty pending =>
    have hd : m.due = [] := by rw [Hardware.due, pending, List.filter_nil]
    exact ⟨hd, hd, rfl⟩
  | early pending stay later =>
    have hd : m.due = [] := by rw [hok.due_cons pending, if_neg (not_le.mpr later)]
    have hperm := pending ▸ sortedInsert_perm
    refine ⟨hd, ?_, rfl⟩
    have := hperm.filter (·.key ≤ m.totalTicks)
    exact List.Perm.eq_nil (this.trans (by rw [← Hardware.due, hd]))
  | alone pending due idle => exact absurd idle hst

/-- What has fired at the end of the loop is what was due, in order, and nothing is due then. -/
lemma fired_of_checkAll {fuel : ℕ} (hok : m.Ok) (hst : m.status ≠ .idleMode)
    (h : checkAll handlers fuel m = .ok (es, m')) :
    Agenda.fired es = m.due.map ListElement.item ∧ m'.due = [] := by
  induction fuel generalizing m es with
  | zero => cases h
  | succ fuel ih =>
    rw [checkAll] at h
    split at h
    next => cases h
    next hc =>
      cases h
      obtain ⟨hd, hd', rfl⟩ := (checked_of_checkIfDue hc).due_of_not_fire hok hst
      exact ⟨by rw [hd]; rfl, hd'⟩
    next es₁ m₁ hc =>
      have hk := (checked_of_checkIfDue hc).kept hok
      obtain ⟨e, hd, hf, -⟩ := (checked_of_checkIfDue hc).due_cons_of_fire hok
      split at h
      next => cases h
      next es₂ m₂ ha =>
        cases h
        obtain ⟨hf', hd'⟩ := ih hk.ok (hk.status ▸ hst) ha
        refine ⟨?_, hd'⟩
        rw [Agenda.fired_append, hf, hf', hd, List.map_cons, List.singleton_append]

/-- The loop does not turn the clock. -/
lemma totalTicks_of_checkAll {fuel : ℕ} (hok : m.Ok) (h : checkAll handlers fuel m = .ok (es, m')) :
    m'.totalTicks = m.totalTicks := by
  induction fuel generalizing m es with
  | zero => cases h
  | succ fuel ih =>
    rw [checkAll] at h
    split at h
    next => cases h
    next hc =>
      cases h
      exact (checked_of_checkIfDue hc).totalTicks_of_not_fire
    next es₁ m₁ hc =>
      have hk := (checked_of_checkIfDue hc).kept hok
      obtain ⟨-, -, -, ht⟩ := (checked_of_checkIfDue hc).due_cons_of_fire hok
      split at h
      next => cases h
      next ha =>
        cases h
        exact (ih hk.ok ha).trans ht

/-- The loop comes to an end: each round fires one interrupt that is due, and no new one is. -/
lemma checkAll_eq_error {fuel : ℕ} {f : Fault} (hok : m.Ok) (hlevel : m.level = .intOff)
    (hfuel : m.due.length < fuel) (h : checkAll handlers fuel m = .error f) :
    f = .overflow ∨ f = .fromNow := by
  induction fuel generalizing m with
  | zero => omega
  | succ fuel ih =>
    rw [checkAll] at h
    split at h
    next hc =>
      cases h
      exact checkIfDue_eq_error hlevel hc
    next => cases h
    next es₁ m₁ hc =>
      have hk := (checked_of_checkIfDue hc).kept hok
      obtain ⟨e, hd, -, -⟩ := (checked_of_checkIfDue hc).due_cons_of_fire hok
      have hfuel₁ : m₁.due.length < fuel := by
        rw [hd, List.length_cons] at hfuel
        omega
      split at h
      next ha =>
        cases h
        exact ih hk.ok (hk.level.trans hlevel) hfuel₁ ha
      next => cases h

/-- The ticks by which `OneTick` advances the clock. -/
def Hardware.tick (m : Hardware H W) : ℤ := if m.status = .systemMode then systemTick else userTick

lemma addInt_eq_ok {a b c : ℤ} (h : addInt a b = .ok c) : c = a + b := by
  unfold addInt at h
  split at h
  · cases h; rfl
  · cases h

lemma addInt_eq_error {a b : ℤ} {f : Fault} (h : addInt a b = .error f) : f = .overflow := by
  unfold addInt at h
  split at h
  · cases h
  · cases h; rfl

lemma Hardware.tick_nonneg : 0 ≤ m.tick := by
  unfold Hardware.tick
  split <;> decide

/-- The machine when `OneTick` has advanced the clock. -/
def Hardware.ticked (m : Hardware H W) : Hardware H W :=
  { m with totalTicks := m.totalTicks + m.tick, level := .intOff }

lemma Hardware.Ok.ticked (hok : m.Ok) : m.ticked.Ok := ⟨hok.sorted, hok.keys⟩

/-- What `OneTick` does. -/
lemma oneTick_eq_ok {fuel : ℕ} (h : oneTick handlers fuel m = .ok (es, m')) :
    ∃ m₁, checkAll handlers fuel m.ticked = .ok (es, m₁) ∧ m'.totalTicks = m₁.totalTicks ∧
      m'.pending = m₁.pending ∧ m'.halted = m₁.halted ∧
      (m'.status = m₁.status ∨ m'.status = .systemMode) := by
  unfold oneTick at h
  split at h
  next => cases h
  next t ht =>
    obtain rfl := addInt_eq_ok ht
    split at h
    next => cases h
    next es₁ m₁ hc =>
      refine ⟨m₁, ?_⟩
      split at h
      · cases h
        exact ⟨hc, rfl, rfl, rfl, .inr rfl⟩
      · cases h
        exact ⟨hc, rfl, rfl, rfl, .inl rfl⟩

lemma oneTick_eq_error {fuel : ℕ} {f : Fault} (hok : m.Ok) (hfuel : m.pending.length < fuel)
    (h : oneTick handlers fuel m = .error f) : f = .overflow ∨ f = .fromNow := by
  unfold oneTick at h
  split at h
  next ht =>
    cases h
    exact .inl (addInt_eq_error ht)
  next t ht =>
    obtain rfl := addInt_eq_ok ht
    split at h
    next hc =>
      cases h
      have hle : m.ticked.due.length ≤ m.pending.length := List.length_filter_le _ _
      exact checkAll_eq_error hok.ticked rfl (by omega) hc
    next => split at h <;> cases h

end Nachos.Machine
