import Nachos.Elevator.Capacity

/-!
# Where the persons get on and off

A person who is taken off the queue of a condition is at the floor of the elevator. When the
elevator moves only after everybody it woke has got on or off, he still is when `Wait` returns.
When not, the elevator gets its lock again before he does, and moves.
-/

namespace Nachos.Elevator

open Threads

variable {cfg : Config} {s s' : State Label Shared} {es tr : List (Event Label)}

/-- The elevator is at a floor. -/
def AtFloor (sh : Shared) (floor : ℕ) : Prop := ∃ e, sh.e = some e ∧ e.currentFloor = floor

/-- **A person whose `Wait` returns is at his floor**, and the two assertions of `hailElevator` do
not fail. -/
structure OnFloor (cfg : Config) (s : State Label Shared) : Prop where
  boarded : ∀ t ρ r, s.loc t = .run (.client (.boarded ρ)) r → AtFloor s.shared ρ.person.atFloor
  arrived : ∀ t ρ r, s.loc t = .run (.client (.arrived ρ)) r → AtFloor s.shared ρ.person.toFloor
  gotOn : ∀ t input ρ r, s.loc t = .run (.client (.gotOn ρ)) r →
    (client cfg).code input t (.gotOn ρ) r s.shared ≠ .error .assertion
  gotOff : ∀ t input ρ r, s.loc t = .run (.client (.gotOff ρ)) r →
    (client cfg).code input t (.gotOff ρ) r s.shared ≠ .error .assertion

/-- The person has been woken, and is still to get on or off. -/
def Roused (s : State Label Shared) (t : Tid) : Prop := stage s t ≠ .off ∧ ¬ Waiting s t

/-- The elevator is about to change `currentFloor`. -/
def Moves (s : State Label Shared) : Prop :=
  s.mode = .running ∧ ∃ frm dst r e, s.loc s.currentThread = .run (.client (.choose frm dst)) r ∧
    s.shared.e = some e ∧ (e.move frm dst).1 ≠ e.currentFloor

/-- **The condition**: whenever the elevator moves, nobody who was woken is still to get on or
off. -/
def SettledFirst (s : State Label Shared) (_ : List (Event Label)) (_ : State Label Shared) : Prop :=
  Moves s → ∀ t, ¬ Roused s t

/-- The floor of a stage. -/
def Stage.floor : Stage → Option ℕ
  | .off => none
  | .entering floor => some floor
  | .riding floor => some floor

/-- The floor at which the elevator has stopped, and signals. -/
def Label.stopped : Label → Option ℕ
  | .more floor .. | .signalled floor .. | .unlist _ floor .. | .alighted floor _ => some floor
  | _ => none

/-- **The invariant**: whoever is awake, and the elevator when it signals, is at the floor. -/
structure Floors (s : State Label Shared) : Prop where
  roused : ∀ t floor, (stage s t).floor = some floor → ¬ Waiting s t → AtFloor s.shared floor
  stopped : ∀ t floor, (s.loc t).label.bind Label.stopped = some floor → AtFloor s.shared floor

section Lemmas

variable {sh sh' : Shared} {r : Ret} {c : Label} {call : Call Label}

lemma atFloor_iff {floor : ℕ} : AtFloor sh floor ↔ ∃ o, sh.view = some (o, floor) := by
  simp only [AtFloor, Shared.view, Option.map_eq_some_iff, Prod.mk.injEq]
  constructor
  · rintro ⟨e, he, hf⟩
    exact ⟨e.occupancy, e, he, rfl, hf⟩
  · rintro ⟨o, e, he, -, hf⟩
    exact ⟨e, he, hf⟩

/-- The elevator signals with `elevatorLock`. -/
lemma holds_of_stopped (h : ElevatorRun cfg tr s) {t : Tid} {floor : ℕ}
    (ht : (s.loc t).label.bind Label.stopped = some floor) :
    (s.loc t).holds elevatorLock Label.locked = true := by
  obtain ⟨c, hl, hc⟩ := Option.bind_eq_some_iff.1 ht
  cases c with
  | more | signalled | unlist | alighted => exact h.holds hl rfl rfl (by simp) (by simp)
  | _ => cases hc

/-- Where the elevator goes on to signal, it has stopped. -/
lemma Quiet.stopped (h : Quiet r c call) {floor : ℕ}
    (hf : call.label.bind Label.stopped = some floor) : c.stopped = some floor := by
  cases h <;> first | exact hf | cases hf

lemma Act.fork_stopped {first c' : Label} (h : Act cfg sh r c sh' (.fork first c')) :
    first.stopped = none := by
  rcases h.fork_cases with ⟨-, -, rfl⟩ | ⟨p, rfl⟩ | ⟨-, rfl, -⟩ <;> rfl

/-- Only the creation of the elevator and a move change the floor. -/
lemma Act.atFloor (h : Act cfg sh r c sh' call) (hc : c ≠ .elevatorThread)
    (hm : ∀ e frm dst, c = .choose frm dst → sh.e = some e →
      (e.move frm dst).1 = e.currentFloor) {floor : ℕ} :
    AtFloor sh' floor ↔ AtFloor sh floor := by
  have hview : ∀ {e}, sh.e = some e → sh.view = some (e.occupancy, e.currentFloor) := by
    intro e he
    rw [Shared.view, he]
    rfl
  cases h with
  | quiet _ view | hailed _ view => rw [atFloor_iff, atFloor_iff, view]
  | create => exact absurd rfl hc
  | choose he view =>
    rw [atFloor_iff, atFloor_iff, view, hview he, hm _ _ _ rfl he]
  | seated he view | gotOff he view => simp [atFloor_iff, view, hview he]
  | _ => rfl

/-- A thread that goes on awake to get on or off was to do so before. -/
lemma Act.floor_stage (h : Act cfg sh r c sh' call) {floor : ℕ}
    (hf : (stageOf call.label).floor = some floor) (hw : call.isWait ≠ true) :
    c.stage.floor = some floor := by
  cases h with
  | quiet quiet => rwa [← quiet.stage]
  | @choose e _ frm dst => cases hs : (e.move frm dst).2 <;> rw [hs] at hf <;> cases hf
  | waits | seated => exact absurd rfl hw
  | _ => cases hf

/-- The elevator stops where it is. -/
lemma Act.stopped (h : Act cfg sh r c sh' call) {floor : ℕ}
    (hf : call.label.bind Label.stopped = some floor) :
    c.stopped = some floor ∨ AtFloor sh floor := by
  cases h with
  | quiet quiet => exact .inl (quiet.stopped hf)
  | @choose e _ frm dst => cases hs : (e.move frm dst).2 <;> rw [hs] at hf <;> cases hf
  | @board e dst he | @alight e dst he => exact .inr ⟨e, he, Option.some.inj hf⟩
  | _ => cases hf

end Lemmas

/-! ### The invariant is kept -/

section Step

/-- **The code keeps the invariant.** -/
lemma Floors.code (hr : ElevatorRun cfg tr s) (h : Floors s)
    (guard : Moves s → ∀ t, ¬ Roused s t) {new : Tid} {r : Ret} {c : Label} {call : Call Label}
    (mode : s.mode = .running) (loc : s.loc s.currentThread = .run (.client c) r)
    (act : Act cfg s.shared r c s'.shared call) (place : After s call (s'.loc s.currentThread))
    (waiting : ∀ t, Waiting s' t ↔
      if t = s.currentThread then call.isWait = true else Waiting s t)
    (other : ∀ t, t ≠ s.currentThread → s'.loc t = s.loc t ∨ (t = new ∧
      ∃ first c', call = .fork first c' ∧ s.loc t = .unborn ∧ s'.loc t = .fresh first)) :
    Floors s' := by
  have hself : stage s s.currentThread = c.stage := by rw [stage, loc]; rfl
  have hlabel : (s.loc s.currentThread).label = some c := by rw [loc]; rfl
  have hnw := not_waiting_of_run (.of_run hr) mode loc
  -- whoever is awake now was awake before
  have hroused : ∀ t floor, (stage s' t).floor = some floor → ¬ Waiting s' t →
      (stage s t).floor = some floor ∧ ¬ Waiting s t := by
    intro t floor hf hw
    rw [stage_after act place other] at hf
    rw [waiting] at hw
    by_cases ht : t = s.currentThread
    · subst ht
      rw [if_pos rfl] at hf hw
      rw [hself]
      exact ⟨act.floor_stage hf hw, hnw⟩
    · rw [if_neg ht] at hf hw
      exact ⟨hf, hw⟩
  have hstopped : ∀ t floor, (s'.loc t).label.bind Label.stopped = some floor →
      (t = s.currentThread ∧ call.label.bind Label.stopped = some floor) ∨
        (t ≠ s.currentThread ∧ (s.loc t).label.bind Label.stopped = some floor) := by
    intro t floor hf
    cases label_after place other t with
    | self current label => exact .inl ⟨current, label ▸ hf⟩
    | other ht loc => exact .inr ⟨ht, loc ▸ hf⟩
    | forked ht new hcall unborn fresh =>
      subst hcall
      rw [fresh] at hf
      have := act.fork_stopped.symm.trans hf
      cases this
  by_cases hc : c = .elevatorThread
  · -- the elevator is made: nobody is there
    subst hc
    have he := (hr.created.maker _ hlabel).1
    refine ⟨fun t floor hf hw => ?_, fun t floor hf => ?_⟩
    · have := (hroused t floor hf hw).1
      rw [hr.created.nobody he] at this
      cases this
    · rcases hstopped t floor hf with ⟨-, hf⟩ | ⟨-, hf⟩
      · cases act with
        | quiet quiet => cases quiet
        | create => cases hf
      · obtain ⟨c, hl, hc⟩ := Option.bind_eq_some_iff.1 hf
        have := hr.created.early he t c hl
        cases c <;> first | cases this; done | cases hc
  by_cases hm : Moves s
  · obtain ⟨-, frm, dst, r', e, hloc, -, -⟩ := id hm
    have hlock := holds_of_run hloc rfl
    refine ⟨fun t floor hf hw => ?_, fun t floor hf => ?_⟩
    · obtain ⟨hf, hw⟩ := hroused t floor hf hw
      refine absurd ⟨fun hoff => ?_, hw⟩ (guard hm t)
      rw [hoff] at hf
      cases hf
    · rcases hstopped t floor hf with ⟨rfl, hf⟩ | ⟨ht, hf⟩
      · rw [loc] at hloc
        cases hloc
        cases act with
        | quiet quiet => cases quiet
        | @choose e => cases hs : (e.move frm dst).2 <;> rw [hs] at hf <;> cases hf
      · exact absurd (hr.exclusive (holds_of_stopped hr hf) hlock) ht
  · have hfloor : ∀ floor, AtFloor s'.shared floor ↔ AtFloor s.shared floor := by
      intro floor
      refine act.atFloor hc fun e frm dst he hsh => ?_
      subst he
      by_contra hne
      exact hm ⟨mode, frm, dst, r, e, loc, hsh, hne⟩
    refine ⟨fun t floor hf hw => ?_, fun t floor hf => ?_⟩
    · obtain ⟨hf, hw⟩ := hroused t floor hf hw
      exact (hfloor floor).2 (h.roused t floor hf hw)
    · rw [hfloor]
      rcases hstopped t floor hf with ⟨-, hf⟩ | ⟨-, hf⟩
      · rcases act.stopped hf with hf | hf
        · exact h.stopped s.currentThread floor (by rw [hlabel]; exact hf)
        · exact hf
      · exact h.stopped t floor hf

/-- A person taken off a queue at the floor is at his floor. -/
lemma Floors.taken (h : Floors s) (shared : s'.shared = s.shared)
    (label : ∀ t, (s'.loc t).label = (s.loc t).label) {x : Tid} {floor : ℕ}
    (hx : (stage s x).floor = some floor)
    (caller : (s.loc s.currentThread).label.bind Label.stopped = some floor)
    (waiting : ∀ t, Waiting s' t ↔ Waiting s t ∧ t ≠ x) : Floors s' := by
  have hstage : ∀ t, stage s' t = stage s t := fun t => by rw [stage, label, stage]
  refine ⟨fun t floor' hf hw => ?_, fun t floor' hf => ?_⟩
  · rw [hstage] at hf
    rw [shared]
    by_cases ht : t = x
    · subst ht
      rw [hx] at hf
      cases hf
      exact h.stopped _ _ caller
    · rw [waiting, and_iff_left ht] at hw
      exact h.roused t floor' hf hw
  · rw [label] at hf
    rw [shared]
    exact h.stopped t floor' hf

/-- **Every step keeps the invariant.** -/
theorem Floors.step (hr : ElevatorRun cfg tr s) (h : Floors s)
    (guard : Moves s → ∀ t, ¬ Roused s t) (he : Effect cfg s s') : Floors s' := by
  cases he with
  | code mode loc act place waiting other => exact h.code hr guard mode loc act place waiting other
  | kernel shared label waiting took =>
    refine ⟨fun t floor hf hw => ?_, fun t floor hf => ?_⟩
    · rw [stage, label] at hf
      rw [waiting] at hw
      exact shared ▸ h.roused t floor hf hw
    · rw [label] at hf
      exact shared ▸ h.stopped t floor hf
  | signal shared label caller room person was waiting =>
    exact h.taken shared label (by rw [person]; rfl) (by rw [caller]; rfl) waiting
  | broadcast shared label caller person was waiting =>
    exact h.taken shared label (by rw [person]; rfl) (by rw [caller]; rfl) waiting

end Step

/-! ### Runs -/

/-- The runs in which everybody woken has got on or off when the elevator moves. -/
abbrev SettledRun (cfg : Config) : List (Event Label) → State Label Shared → Prop :=
  Lib.Run (Lib.Guarded SettledFirst (Lib.StepOf (step (client cfg)))) start

theorem SettledRun.floors (h : SettledRun cfg tr s) : Floors s := by
  refine h.invariant (I := fun _ s => Floors s) ⟨fun t floor hf => ?_, fun t floor hf => ?_⟩
    fun hr hi hs => hi.step hr.of_guarded hs.2 (ElevatorRun.effect hr.of_guarded hs.1)
  · rcases start_label t with h | h <;> rw [stage, h] at hf <;> cases hf
  · rcases start_label t with h | h <;> rw [h] at hf <;> cases hf

/-- A person who runs at a label of his stage is at the floor. -/
lemma Floors.atFloor_of_run (h : Floors s) (hr : ElevatorRun cfg tr s) {t : Tid} {c : Label}
    {r : Ret} {floor : ℕ} (hl : s.loc t = .run (.client c) r) (hc : c.stage.floor = some floor) :
    AtFloor s.shared floor := by
  refine h.roused t floor (by rw [stage, hl]; exact hc) ?_
  rintro (hj | ⟨cond, hq⟩)
  · rw [hl] at hj
    cases hj
  · have hs := (Placed.of_run hr).queued _ t hq
    rw [hl] at hs
    cases hs

/-- **Every person gets on and off at his floor**, in every run in which nobody who was woken is
still to get on or off when the elevator moves. -/
theorem on_floor (h : SettledRun cfg tr s) : OnFloor cfg s := by
  have hf := h.floors
  have hr : ElevatorRun cfg tr s := h.of_guarded
  refine ⟨fun t ρ r hl => hf.atFloor_of_run hr hl rfl, fun t ρ r hl => hf.atFloor_of_run hr hl rfl,
    fun t input ρ r hl => ?_, fun t input ρ r hl => ?_⟩
  · obtain ⟨e, he, hfl⟩ := hf.atFloor_of_run hr hl rfl
    show personCode s.shared r (.gotOn ρ) ≠ _
    simp only [personCode, withE, he, if_pos hfl.symm]
    nofun
  · obtain ⟨e, he, hfl⟩ := hf.atFloor_of_run hr hl rfl
    show personCode s.shared r (.gotOff ρ) ≠ _
    simp only [personCode, withE, he, if_pos hfl]
    nofun

/-! ### One person, and two -/

/-- The person rides to the other floor, and gets off. -/
def rideToTwo : List (Choice Input Empty) :=
  onePerson ++ [.dispatch] ++ go 34 ++ [.preempt] ++ go 11 ++ [.dispatch] ++ go 11

/-- A test for `SettledFirst`, of the first threads. -/
def settledFirst (n : ℕ) (s : State Label Shared) : Bool :=
  match s.loc s.currentThread with
  | .run (.client (.choose frm dst)) _ =>
    s.shared.e.all (fun e => (e.move frm dst).1 = e.currentFloor) ||
      (List.range n).all fun t => (stage s t).cond.all fun cond => t ∈ s.queue (.cond cond)
  | _ => true

lemma SettledFirst.of_test {n : ℕ} (hn : ∀ t, n ≤ t → s.loc t = .unborn)
    (h : settledFirst n s = true) : SettledFirst s es s' := by
  rintro ⟨-, frm, dst, r, e, hl, he, hne⟩ t ⟨hst, hw⟩
  have htn : t < n := by
    by_contra hge
    exact hst (by rw [stage, hn t (Nat.not_lt.1 hge)]; rfl)
  simp only [settledFirst, hl, he, Option.all_some, hne, decide_false, Bool.false_or,
    List.all_eq_true, List.mem_range] at h
  have := h t htn
  cases hs : stage s t with
  | off => exact hst hs
  | entering floor | riding floor =>
    rw [hs] at this
    exact hw (.inr ⟨_, of_decide_eq_true this⟩)

/-- The person gets off at floor 2. -/
theorem on_floor_one : ∃ tr s, SettledRun twoFloors tr s ∧ OnFloor twoFloors s ∧
    (s.loc 3).label = some (.gotOff ⟨⟨1, 1, 2⟩, .intOn, .intOff⟩) := by
  obtain ⟨tr, s, hr, hp⟩ : ∃ tr s, SettledRun twoFloors tr s ∧
      decide ((s.loc 3).label = some (.gotOff ⟨⟨1, 1, 2⟩, .intOn, .intOff⟩)) = true :=
    guarded_of_passes (n := 4) (by decide) SettledFirst.of_test rideToTwo (by decide +kernel)
  exact ⟨tr, s, hr, on_floor hr, of_decide_eq_true hp⟩

/-- A person waits on each floor; the elevator signals the one on floor 1, and moves to floor 2
before he runs. -/
def twoPersons : List (Choice Input Empty) :=
  opening ++ arrive 1 2 3 ++ arrive 2 1 4 ++ go 14 ++ [.dispatch, .preempt] ++ go 21 ++
    [.dispatch] ++ go 21 ++ [.dispatch] ++ go 72 ++ [.preempt] ++ go 18 ++ [.dispatch] ++ go 5

/-- Is the thread where its `Wait` has returned, with the elevator at another floor? -/
def lost (s : State Label Shared) (t : Tid) : Bool :=
  match s.loc t with
  | .run (.client (.boarded ρ)) _ => s.shared.e.all fun e => e.currentFloor ≠ ρ.person.atFloor
  | _ => false

lemma not_onFloor_of_lost {t : Tid} (h : lost s t = true) : ¬ OnFloor cfg s := by
  intro hon
  unfold lost at h
  split at h
  next ρ r hl =>
    obtain ⟨e, he, hf⟩ := hon.boarded t ρ r hl
    rw [he] at h
    exact of_decide_eq_true h hf
  next => cases h

/-- **A person is woken at floor 1, and gets on at floor 2.** -/
theorem not_on_floor : ¬ ∀ (cfg : Config) (tr : List (Event Label)) (s : State Label Shared),
    cfg.memory.occupancy = 0 → ElevatorRun cfg tr s → OnFloor cfg s := by
  intro h
  obtain ⟨tr, s, hr, hp⟩ := Lib.run_of_passes (step (client twoFloors)) twoPersons start
    (fun _ s => lost s 3) (by decide +kernel)
  exact not_onFloor_of_lost hp (h twoFloors tr s rfl hr)

end Nachos.Elevator
