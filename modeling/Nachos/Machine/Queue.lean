import Nachos.Machine.Pending

/-!
# The interrupt queue over whole runs

Every step is a run of the agenda, keeps the list sorted by the times of the interrupts, and
leaves the machine in `IdleMode` only if it halts. From this follow the order in which interrupts
fire, and what `OneTick` and `Idle` do in every state that is reached.
-/

namespace Nachos.Machine

open Lib

variable {H W : Type} {handlers : Handlers H W} {m m' : Hardware H W} {es : List (Event H)}

/-- The interrupts that wait, in the order of the list. -/
def Hardware.interrupts (m : Hardware H W) : List (PendingInterrupt H) :=
  m.pending.map ListElement.item

/-- Between two calls: the list is in order, and the machine is not idle unless it has halted. -/
structure Hardware.Between (m : Hardware H W) : Prop where
  ok : m.Ok
  notIdle : m.halted = false → m.status ≠ .idleMode

/-- What a step keeps. -/
structure Stepped (m : Hardware H W) (es : List (Event H)) (m' : Hardware H W) : Prop where
  between : m'.Between
  agreed : Agreed m es m'

lemma stepped_of_quiet (hm : m.Between) (pending : m'.pending = m.pending)
    (totalTicks : m'.totalTicks = m.totalTicks)
    (notIdle : m'.halted = false → m'.status ≠ .idleMode) : Stepped m [] m' := by
  refine ⟨⟨⟨pending ▸ hm.ok.sorted, pending ▸ hm.ok.keys⟩, notIdle⟩, ?_⟩
  have : m'.agenda = m.agenda := by rw [Hardware.agenda, Hardware.agenda, pending, totalTicks]
  unfold Agreed
  rw [this]
  exact .start

lemma stepped_of_oneTick {fuel : ℕ} (hok : m.Ok) (notIdle : m.halted = false → m.status ≠ .idleMode)
    (h : oneTick handlers fuel m = .ok (es, m')) : Stepped m es m' := by
  obtain ⟨m₁, hc, ht, hp, hh, hst⟩ := oneTick_eq_ok h
  have hk := kept_of_checkAll hok.ticked hc
  refine ⟨⟨⟨hp ▸ hk.ok.sorted, hp ▸ hk.ok.keys⟩, fun hrun => ?_⟩, ?_⟩
  · rcases hst with hst | hst
    · rw [hst, hk.status]
      exact notIdle (by rw [hh, hk.halted] at hrun; exact hrun)
    · rw [hst]
      decide
  · have hadv : Agreed m [] m.ticked :=
      agreed_advance (by have := m.tick_nonneg; simp only [Hardware.ticked]; omega) rfl
    have hend : m'.agenda = m₁.agenda := by rw [Hardware.agenda, Hardware.agenda, hp, ht]
    unfold Agreed
    rw [hend]
    exact hadv.trans hk.agreed

/-- What `Idle` does. -/
lemma idle_eq_ok {fuel : ℕ} (h : idle handlers fuel m = .ok (es, m')) :
    (∃ m₁, Checked handlers true { m with status := .idleMode } false es m₁ ∧
      m' = { m₁ with halted := true }) ∨
    ∃ es₁ es₂ m₁ m₂, Checked handlers true { m with status := .idleMode } true es₁ m₁ ∧
      checkAll handlers fuel m₁ = .ok (es₂, m₂) ∧ es = es₁ ++ es₂ ∧
      m' = { m₂ with yieldOnReturn := false, status := .systemMode } := by
  unfold idle at h
  split at h
  next => cases h
  next hc =>
    cases h
    exact .inl ⟨_, checked_of_checkIfDue hc, rfl⟩
  next hc =>
    split at h
    next => cases h
    next ha =>
      cases h
      exact .inr ⟨_, _, _, _, checked_of_checkIfDue hc, ha, rfl, rfl⟩

lemma stepped_of_idle {fuel : ℕ} (hok : m.Ok) (h : idle handlers fuel m = .ok (es, m')) :
    Stepped m es m' := by
  have hok₀ : ({ m with status := .idleMode } : Hardware H W).Ok := ⟨hok.sorted, hok.keys⟩
  rcases idle_eq_ok h with ⟨m₁, hc, rfl⟩ | ⟨es₁, es₂, m₁, m₂, hc, ha, rfl, rfl⟩
  · have hk := hc.kept hok₀
    exact ⟨⟨⟨hk.ok.sorted, hk.ok.keys⟩, fun hrun => by cases hrun⟩, hk.agreed⟩
  · have hk := hc.kept hok₀
    have hk' := hk.trans (kept_of_checkAll hk.ok ha)
    exact ⟨⟨⟨hk'.ok.sorted, hk'.ok.keys⟩, fun _ h => by cases h⟩, hk'.agreed⟩

/-- **Every step** is a run of the agenda and keeps the list in order. -/
lemma stepped_of_step (hm : m.Between) (h : Step handlers m es m') : Stepped m es m' := by
  obtain ⟨c, hc⟩ := h
  unfold step at hc
  split at hc
  next => cases hc
  next running =>
    cases c with
    | schedule r =>
      have hh := handled_of_schedule hm.ok hc
      refine ⟨⟨hh.ok, fun hrun => ?_⟩, hh.agreed⟩
      rw [hh.status]
      exact hm.notIdle (hh.halted ▸ hrun)
    | setLevel fuel now =>
      simp only [setLevel] at hc
      split at hc
      next =>
        split at hc
        next =>
          have hst : Stepped { m with level := now } es m' :=
            stepped_of_oneTick ⟨hm.ok.sorted, hm.ok.keys⟩ hm.notIdle hc
          exact ⟨hst.between, hst.agreed⟩
        next =>
          cases hc
          exact stepped_of_quiet hm rfl rfl hm.notIdle
      next => cases hc
    | oneTick fuel => exact stepped_of_oneTick hm.ok hm.notIdle hc
    | idle fuel => exact stepped_of_idle hm.ok hc
    | setStatus user =>
      cases hc
      refine stepped_of_quiet hm rfl rfl fun _ => ?_
      cases user <;> exact fun h => by cases h
    | kernel k =>
      cases hc
      exact stepped_of_quiet hm rfl rfl hm.notIdle

/-- In every run, the list is in order, and the events are those of the agenda. -/
lemma between_of_run {kernel : W} (hr : Run (Step handlers) (.init kernel) es m) :
    m.Between ∧ Agenda.Kept PendingInterrupt.time es m.agenda := by
  have hstart : (Hardware.init kernel : Hardware H W).Between :=
    ⟨⟨List.Pairwise.nil, by simp [Hardware.init]⟩, fun _ h => by cases h⟩
  have hrun := hr.invariant
    (I := fun es m => m.Between ∧ Agreed (.init kernel) es m) ⟨hstart, .start⟩ (by
      intro tr s es s' _ hi hs
      have hst := stepped_of_step hi.1 hs
      exact ⟨hst.between, hi.2.trans hst.agreed⟩)
  exact ⟨hrun.1, Agenda.kept_of_run rfl hrun.2⟩

/-! ### OneTick and Idle -/

lemma filter_items {l : List (ListElement (PendingInterrupt H))} {t : ℤ}
    (keys : ∀ e ∈ l, e.key = e.item.time) :
    (l.filter (·.key ≤ t)).map ListElement.item =
      (l.map ListElement.item).filter (·.time ≤ t) := by
  rw [List.filter_map]
  congr 1
  refine List.filter_congr fun e he => ?_
  simp only [Function.comp, keys e he]

/-- `OneTick` advances the clock by a tick and lets fire exactly what is due then. It stops before
only where `Schedule` does, or where a time does not fit in an `int`. -/
def Ticks (handlers : Handlers H W) (fuel : ℕ) (m : Hardware H W) : Prop :=
  match oneTick handlers fuel m with
  | .ok (es, m') =>
    m'.totalTicks = m.totalTicks + m.tick ∧
      Agenda.fired es = m.interrupts.filter (·.time ≤ m'.totalTicks) ∧
      ∀ p ∈ m'.interrupts, m'.totalTicks < p.time
  | .error f => f = .overflow ∨ f = .fromNow

lemma Hardware.Between.ticks {fuel : ℕ} (hm : m.Between) (running : m.halted = false)
    (hfuel : m.pending.length < fuel) : Ticks handlers fuel m := by
  unfold Ticks
  split
  next es m' h =>
    obtain ⟨m₁, hc, ht, hp, -, -⟩ := oneTick_eq_ok h
    obtain ⟨hf, hd⟩ := fired_of_checkAll hm.ok.ticked (hm.notIdle running) hc
    have ht₁ := totalTicks_of_checkAll hm.ok.ticked hc
    have hk := kept_of_checkAll hm.ok.ticked hc
    have htime : m'.totalTicks = m.totalTicks + m.tick := ht.trans ht₁
    refine ⟨htime, ?_, fun p hp' => ?_⟩
    · rw [hf, htime]
      exact filter_items hm.ok.keys
    · obtain ⟨e, he, rfl⟩ := List.mem_map.mp hp'
      rw [hp] at he
      have := List.filter_eq_nil_iff.mp hd e he
      rw [← hk.ok.keys e he, ht]
      simpa using this
  next f h => exact oneTick_eq_error hm.ok hfuel h

/-- `Idle` turns the clock no further than to the earliest interrupt, and comes to an end as
`OneTick` does. -/
def Idles (handlers : Handlers H W) (fuel : ℕ) (m : Hardware H W) : Prop :=
  match idle handlers fuel m with
  | .ok (_, m') => m.totalTicks < m'.totalTicks → ∀ p ∈ m.interrupts, m'.totalTicks ≤ p.time
  | .error f => f = .overflow ∨ f = .fromNow

/-- The clock after a call of `CheckIfDue(TRUE)`. -/
lemma Checked.clock (hok : m.Ok) {b : Bool} (h : Checked handlers true m b es m') :
    m.totalTicks < m'.totalTicks → ∀ p ∈ m.interrupts, m'.totalTicks ≤ p.time := by
  have hclock : m'.totalTicks = m.totalTicks ∨
      ∃ e rest, m.pending = e :: rest ∧ m'.totalTicks = max m.totalTicks e.key := by
    cases h with
    | empty => exact .inl rfl
    | early => exact .inl rfl
    | @alone e pending => exact .inr ⟨e, [], pending, rfl⟩
    | @fire e rest es m' pending due hi =>
      obtain ⟨-, sorted, keys, -⟩ := hok.rest pending
      exact .inr ⟨e, rest, pending, (handled_of_invoke ⟨sorted, keys⟩ hi).totalTicks⟩
  intro hlt p hp
  rcases hclock with hc | ⟨e, rest, pending, hc⟩
  · omega
  · obtain ⟨e', he', rfl⟩ := List.mem_map.mp hp
    obtain ⟨earliest, -, -, -⟩ := hok.rest pending
    have hle : e.key ≤ e'.key := by
      rw [pending] at he'
      rcases List.mem_cons.mp he' with rfl | he'
      · exact le_rfl
      · exact earliest e' he'
    rw [← hok.keys e' he']
    omega

lemma Hardware.Between.idles {fuel : ℕ} (hm : m.Between) (hlevel : m.level = .intOff)
    (hfuel : m.pending.length < fuel) : Idles handlers fuel m := by
  have hok₀ : ({ m with status := .idleMode } : Hardware H W).Ok := ⟨hm.ok.sorted, hm.ok.keys⟩
  unfold Idles
  split
  next es m' h =>
    rcases idle_eq_ok h with ⟨m₁, hc, rfl⟩ | ⟨es₁, es₂, m₁, m₂, hc, ha, rfl, rfl⟩
    · have := hc.clock hok₀
      exact this
    · have hclock : m₂.totalTicks = m₁.totalTicks :=
        totalTicks_of_checkAll (hc.kept hok₀).ok ha
      have := hc.clock hok₀
      rw [← hclock] at this
      exact this
  next f h =>
    unfold idle at h
    split at h
    next hc =>
      cases h
      exact checkIfDue_eq_error (m := { m with status := .idleMode }) hlevel hc
    next => cases h
    next es₁ m₁ hc =>
      have hc' := checked_of_checkIfDue hc
      have hk := hc'.kept hok₀
      obtain ⟨e, rest, pending, -, -, -, hd⟩ := hc'.due_of_fire hok₀
      have hlen : m₁.due.length < fuel := by
        have hle : m₁.due.length ≤ rest.length := hd ▸ List.length_filter_le _ _
        have hcons : m.pending.length = rest.length + 1 := congrArg List.length pending
        omega
      split at h
      next ha =>
        cases h
        exact checkAll_eq_error hk.ok (hk.level.trans hlevel) hlen ha
      next => cases h

/-- **The interrupt queue.** In every run: what was scheduled has fired or is pending, each as
often as it was scheduled; nothing fires before its time, and what fires does so in the order of
the times; the clock never goes back; and in the state reached, `OneTick` and `Idle` come to an
end, `OneTick` having fired exactly what is due and `Idle` not having skipped what is pending. -/
theorem interrupt_queue {kernel : W} (hr : Run (Step handlers) (.init kernel) es m) :
    (Agenda.scheduled es : Multiset (PendingInterrupt H)) = Agenda.fired es + m.interrupts ∧
    (∀ p t, .fired p t ∈ es → p.time ≤ t) ∧
    (Agenda.fired es).Pairwise (fun p q => p.time ≤ q.time) ∧
    (es.map Agenda.Event.now).Pairwise (· ≤ ·) ∧
    (∀ es' m', Step handlers m es' m' → m.totalTicks ≤ m'.totalTicks) ∧
    (m.halted = false → ∀ fuel, m.pending.length < fuel → Ticks handlers fuel m) ∧
    (m.level = .intOff → ∀ fuel, m.pending.length < fuel → Idles handlers fuel m) := by
  obtain ⟨hm, hk⟩ := between_of_run hr
  refine ⟨hk.conserved, fun p t => hk.notEarly, hk.inOrder, hk.clock, fun es' m' hs => ?_,
    fun running fuel => hm.ticks running, fun hlevel fuel => hm.idles hlevel⟩
  exact Agenda.now_le_of_run (stepped_of_step hm hs).agreed

/-- A timer that starts itself again and asks for a context switch, and a disk. -/
def timerAndDisk : Handlers Bool Unit := fun isTimer _ _ =>
  if isTimer then ([.schedule ⟨true, 0, 100, .timerInt⟩, .yieldOnReturn], ()) else ([], ())

theorem interrupt_queue_timerAndDisk : ∃ es m,
    Run (Step timerAndDisk) (.init ()) es m ∧
      (Agenda.fired es).map (·.time) = [100, 150, 200] ∧
      (Agenda.scheduled es : Multiset (PendingInterrupt Bool)) =
        Agenda.fired es + m.interrupts ∧
      (m.level = .intOff → ∀ fuel, m.pending.length < fuel → Idles timerAndDisk fuel m) := by
  obtain ⟨es, m, hr, hp⟩ := run_of_passes (step timerAndDisk)
    [.schedule ⟨true, 0, 100, .timerInt⟩, .schedule ⟨false, 0, 150, .diskInt⟩, .idle 3,
      .setLevel 3 .intOn, .setStatus true, .setLevel 3 .intOff, .idle 3, .setLevel 3 .intOn,
      .schedule ⟨false, 0, 500, .diskInt⟩, .setLevel 3 .intOff, .idle 3] (.init ())
    (fun es _ => (Agenda.fired es).map (·.time) = [100, 150, 200]) (by decide +kernel)
  obtain ⟨hcons, -, -, -, -, -, hidle⟩ := interrupt_queue hr
  exact ⟨es, m, hr, by simpa using hp, hcons, hidle⟩

end Nachos.Machine
