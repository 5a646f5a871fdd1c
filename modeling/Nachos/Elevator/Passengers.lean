import Nachos.Elevator.Dispatch

/-!
# No passenger is forgotten

The threads on the queues of a floor, and those whose entries the elevator is still to remove, are
not more than the entries of the lists. So the elevator finds what it removes, and `getFloor` finds
a floor as long as somebody waits.
-/

namespace Nachos.Elevator

open Lib (Roll)
open Threads

variable {cfg : Config} {s s' : State Label Shared} {es tr : List (Event Label)} {e e' : ELEVATOR}
  {r : Ret} {c : Label} {floor : ℕ} {t : Tid}

/-! ### The statement -/

/-- Where the code removes a person from a list: `ASSERT(found)` and `ASSERT(success)`. -/
def Label.removes : Label → Bool
  | .signalled .. | .unlist .. | .clear .. | .unlistLeaving .. | .getOff .. => true
  | _ => false

/-- `getFloor` sees the floor, in the list of the floor, and does not return -1. -/
structure Visible (e : ELEVATOR) (pp : ℕ → Persons) (isAt : Bool) (floor : ℕ) : Prop where
  here : e.getFloorIn isAt (pp floor) = .ok floor
  somewhere : ∃ f : ℕ, (1 ≤ f ∧ f ≤ e.numFloors) ∧ e.getFloor pp isAt = .ok f

/-- **No passenger is forgotten.** -/
structure NotForgotten (cfg : Config) (s : State Label Shared) : Prop where
  /-- With `k` persons signalled whose entries are still to be removed. -/
  entering : ∀ e floor, s.shared.e = some e → cfg.IsFloor floor →
    ∃ k, Debt (fun t => enteringDebt floor (s.loc t)) k ∧
      (s.queue (.cond (entering floor))).length + k ≤ (entries (e.listEntering floor)).length
  /-- With `k` persons woken by `Broadcast` whose entries are. -/
  leaving : ∀ e floor, s.shared.e = some e → cfg.IsFloor floor →
    ∃ k, Debt (fun t => leavingDebt floor (e.isAt floor) (s.loc t)) k ∧
      (s.queue (.cond (leaving floor))).length + k ≤ (entries (e.listLeaving floor)).length
  /-- The code finds what it removes. -/
  asserts : ∀ t input c r, s.loc t = .run (.client c) r → c.removes = true →
    ∃ result, (client cfg).code input t c r s.shared = .ok result
  seenEntering : ∀ e floor t, s.shared.e = some e → cfg.IsFloor floor →
    t ∈ s.queue (.cond (Elevator.entering floor)) → Visible e e.listEntering true floor
  seenLeaving : ∀ e floor t, s.shared.e = some e → cfg.IsFloor floor →
    t ∈ s.queue (.cond (Elevator.leaving floor)) → Visible e e.listLeaving false floor

/-! ### The proof -/

section Queues

lemma ElevatorRun.listed_of_queue (h : ElevatorRun cfg tr s)
    (ht : t ∈ s.queue (.cond (entering floor))) : Belongs (Label.listed floor) s t := by
  have hstage := Stage.eq_entering (stage_of_queue (.of_run h) (Loc.From.of_run h) ht)
  obtain ⟨ρ, hl, hat⟩ := h.boarded_of_waiting hstage (.inr ⟨_, ht⟩)
  exact ⟨_, hl, hat, .inr ⟨_, ht⟩⟩

lemma ElevatorRun.bound_of_queue (h : ElevatorRun cfg tr s)
    (ht : t ∈ s.queue (.cond (leaving floor))) : Belongs (Label.bound floor) s t := by
  have hstage := Stage.eq_riding (stage_of_queue (.of_run h) (Loc.From.of_run h) ht)
  obtain ⟨ρ, hl, hto⟩ := h.arrived_of_waiting hstage (.inr ⟨_, ht⟩)
  exact ⟨_, hl, hto, .inr ⟨_, ht⟩⟩

/-- There is an `ELEVATOR` when its threads run. -/
lemma ElevatorRun.exists_e (h : ElevatorRun cfg tr s) (hl : (s.loc t).label = some c)
    (hc : c.early = false) : ∃ e, s.shared.e = some e := by
  cases he : s.shared.e with
  | some e => exact ⟨e, rfl⟩
  | none =>
    rw [(ElevatorRun.created h).early he t c hl] at hc
    cases hc

/-- Where the elevator has stopped, there is a floor. -/
lemma ElevatorRun.isFloor_of_stops (h : ElevatorRun cfg tr s) (he : s.shared.e = some e)
    (hl : (s.loc t).label = some c) (hc : c.stops = true) : cfg.IsFloor e.currentFloor :=
  h.onCourse.currentFloor (h.onCourse.stops t c hl hc) e he

lemma first_of_pos {pp : Persons} (hends : Ends pp) (h : 0 < (entries pp).length) :
    ∃ p, first pp = .ok (some p) := by
  rw [first_eq hends]
  obtain ⟨p, l, hp⟩ := List.exists_cons_of_length_pos h
  exact ⟨p, by rw [hp]; rfl⟩

/-- **The code finds what it removes.** -/
lemma ElevatorRun.removes (h : ElevatorRun cfg tr s) (input : Input)
    (hl : s.loc t = .run (.client c) r) (hc : c.removes = true) :
    ∃ result, (client cfg).code input t c r s.shared = .ok result := by
  have hlabel : (s.loc t).label = some c := by rw [hl]; rfl
  obtain ⟨e, he⟩ := h.exists_e hlabel (by cases c <;> first | rfl | cases hc)
  cases c with
  | signalled floor o dst =>
    show ∃ result, elevatorCode cfg s.shared r (.signalled floor o dst) = .ok result
    simp only [elevatorCode, withE, he]
    cases hthread : threadOf r with
    | none => exact ⟨_, rfl⟩
    | some x =>
      have hfloor := h.isFloor_of_stops he hlabel rfl
      have hlisted := h.listed hfloor he
      obtain ⟨e₀, he₀, hat⟩ : AtFloor s.shared floor := h.stopped (t := t) (by rw [hlabel]; rfl)
      rw [he] at he₀
      cases he₀
      obtain ⟨m, k, -, hk, hlen⟩ := hlisted.covered
      have hone : enteringDebt e.currentFloor (s.loc t) = 1 := by
        rw [hl]
        cases r <;> cases hthread
        exact if_pos hat.symm
      have hle := hk.le t
      obtain ⟨p, hp⟩ := first_of_pos hlisted.ends (by omega)
      exact ⟨_, by simp only [removeFromPPFirst, hp]; rfl⟩
  | unlist p floor o dst =>
    show ∃ result, elevatorCode cfg s.shared r (.unlist p floor o dst) = .ok result
    simp only [elevatorCode, withE, he]
    have hfloor := h.isFloor_of_stops he hlabel rfl
    have hlisted := h.listed hfloor he
    obtain ⟨e₀, he₀, hat⟩ : AtFloor s.shared floor := h.stopped (t := t) (by rw [hlabel]; rfl)
    rw [he] at he₀
    cases he₀
    obtain ⟨pp', hpp', -⟩ := removeFromPP_of_mem (hlisted.entry t p o dst (hat ▸ hlabel))
      hlisted.ends
    exact ⟨_, by rw [hpp']; rfl⟩
  | clear frm i j =>
    show ∃ result, elevatorCode cfg s.shared r (.clear frm i j) = .ok result
    simp only [elevatorCode, withE, he]
    by_cases hlt : j < i
    · have hfloor := h.isFloor_of_stops he hlabel rfl
      have hbound := h.bound hfloor he
      obtain ⟨m, u, -, hu, hentries⟩ := hbound.covered
      have howes : leavingDebt e.currentFloor (e.isAt e.currentFloor) (s.loc t) = i - j := by
        rw [hl]
        exact if_pos (decide_eq_true rfl)
      have hle := hu.le t
      have hcard := congrArg Multiset.card hentries
      rw [Multiset.coe_card, Multiset.card_add] at hcard
      obtain ⟨p, hp⟩ := first_of_pos hbound.ends (by omega)
      exact ⟨_, by simp only [if_pos hlt, removeFromPPFirst, hp]; rfl⟩
    · exact ⟨_, by rw [if_neg hlt]; rfl⟩
  | unlistLeaving p frm i j =>
    show ∃ result, elevatorCode cfg s.shared r (.unlistLeaving p frm i j) = .ok result
    simp only [elevatorCode, withE, he]
    have hfloor := h.isFloor_of_stops he hlabel rfl
    have hbound := h.bound hfloor he
    obtain ⟨pp', hpp', -⟩ := removeFromPP_of_mem
      (hbound.entry t p frm i j hlabel (decide_eq_true rfl)) hbound.ends
    exact ⟨_, by rw [hpp']; rfl⟩
  | getOff ρ =>
    show ∃ result, personCode s.shared r (.getOff ρ) = .ok result
    simp only [personCode, withE, he]
    obtain ⟨hends, hroll⟩ := h.personsOn he
    have hmem := hroll.mem ⟨_, hlabel, trivial⟩
    rw [personOf_eq hlabel rfl, Multiset.mem_coe] at hmem
    obtain ⟨pp', hpp', -⟩ := removeFromPP_of_mem hmem hends
    exact ⟨_, by rw [hpp']; rfl⟩
  | _ => cases hc

end Queues

/-- A floor with an entry that is looked for is visible. -/
lemma ElevatorRun.visible (h : ElevatorRun cfg tr s) (he : s.shared.e = some e)
    (hfloor : cfg.IsFloor floor) {pp : ℕ → Persons} {isAt : Bool}
    (hpp : ∀ f, cfg.IsFloor f → OfFloor (pp f) isAt f) (hsees : e.Sees (pp floor) isAt) :
    Visible e pp isAt floor := by
  have hnum := h.onCourse.numFloors e he
  have hcur := h.onCourse.currentFloor (Nat.le_trans hfloor.1 hfloor.2) e he
  refine ⟨getFloorIn_of_sees (hpp floor hfloor) hsees, ?_⟩
  obtain ⟨v, hv, ⟨f, hf, rfl⟩ | ⟨-, hnone⟩⟩ := @getFloor_spec e pp isAt (by rw [hnum]; exact hcur)
    (by rw [hnum]; exact hpp)
  · exact ⟨f, hf, hv⟩
  · exact absurd hsees (hnone floor (by rw [hnum]; exact hfloor))

/-- **No passenger is forgotten**, whatever the order in which the threads run. -/
theorem notForgotten (h : ElevatorRun cfg tr s) : NotForgotten cfg s where
  entering e floor he hfloor := by
    obtain ⟨m, k, hm, hk, hlen⟩ := (h.listed hfloor he).covered
    have hle : (s.queue (.cond (entering floor))).length ≤ m.card :=
      Roll.length_le hm ((Placed.of_run h).queue_nodup _) fun t ht => h.listed_of_queue ht
    exact ⟨k, hk, by omega⟩
  leaving e floor he hfloor := by
    obtain ⟨m, u, hm, hu, hentries⟩ := (h.bound hfloor he).covered
    have hle : (s.queue (.cond (leaving floor))).length ≤ m.card :=
      Roll.length_le hm ((Placed.of_run h).queue_nodup _) fun t ht => h.bound_of_queue ht
    have hcard := congrArg Multiset.card hentries
    rw [Multiset.coe_card, Multiset.card_add] at hcard
    exact ⟨u.card, hu, by omega⟩
  asserts t input c r hl hc := h.removes input hl hc
  seenEntering e floor t he hfloor ht := by
    refine h.visible he hfloor (fun f hf => h.ofFloor_entering he hf) ?_
    obtain ⟨m, k, hm, hk, hlen⟩ := (h.listed hfloor he).covered
    have hmem := Roll.mem hm (h.listed_of_queue ht)
    have hpos : 0 < m.card := Multiset.card_pos_iff_exists_mem.2 ⟨_, hmem⟩
    obtain ⟨p, hp⟩ := List.exists_mem_of_length_pos (l := entries (e.listEntering floor)) (by omega)
    exact ⟨p, hp, rfl⟩
  seenLeaving e floor t he hfloor ht := by
    refine h.visible he hfloor (fun f hf => h.ofFloor_leaving he hf) ?_
    obtain ⟨m, u, hm, -, hentries⟩ := (h.bound hfloor he).covered
    have hbelongs := h.bound_of_queue ht
    have hmem := Roll.mem hm hbelongs
    refine ⟨personOf s t, ?_, ?_⟩
    · rw [← Multiset.mem_coe, hentries]
      exact Multiset.mem_add.2 (.inl hmem)
    · -- who waits to get off is in `personsOn`
      obtain ⟨c, hl, hk⟩ := hbelongs
      have hon : Belongs Label.on s t := by
        refine ⟨c, hl, ?_⟩
        cases c <;> trivial
      rw [Bool.false_or, onElevator_iff, ← Multiset.mem_coe]
      exact Roll.mem (h.personsOn he).2 hon

/-- A person waits at floor 1, and then to get off at floor 2. -/
theorem notForgotten_one :
    (∃ tr s, ElevatorRun twoFloors tr s ∧ NotForgotten twoFloors s ∧
      3 ∈ s.queue (.cond (entering 1))) ∧
    ∃ tr s, ElevatorRun twoFloors tr s ∧ NotForgotten twoFloors s ∧
      3 ∈ s.queue (.cond (leaving 2)) := by
  refine ⟨?_, ?_⟩
  · obtain ⟨tr, s, hr, hp⟩ := Lib.run_of_passes (step (client twoFloors)) (rideToTwo.take 60) start
      (fun _ s => decide (3 ∈ s.queue (.cond (entering 1)))) (by decide +kernel)
    exact ⟨tr, s, hr, notForgotten hr, of_decide_eq_true hp⟩
  · obtain ⟨tr, s, hr, hp⟩ := Lib.run_of_passes (step (client twoFloors)) (rideToTwo.take 140) start
      (fun _ s => decide (3 ∈ s.queue (.cond (leaving 2)))) (by decide +kernel)
    exact ⟨tr, s, hr, notForgotten hr, of_decide_eq_true hp⟩

end Nachos.Elevator
