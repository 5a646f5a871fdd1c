import Mathlib.Data.Prod.Lex
import Nachos.Elevator.Stocked
import Nachos.Lib.Descent

/-!
# Everybody is delivered

Rounds with no new persons. A target of the elevator, unless it is -1, is a floor with somebody to
get in or out. The floor that is chosen stays chosen until the elevator is there, so that after a
round either fewer are undelivered, or the elevator is nearer to where it goes.
-/

namespace Nachos.Elevator

open Lib (ok_bind)
open StateTransition
open Threads

/-! ### Where the elevator goes -/

section Goal

variable {e : ELEVATOR} {frm dst v : ℤ} {cur : ℕ}

/-- The elevator prefers the floor where persons get in. -/
def ELEVATOR.Picks (e : ELEVATOR) (frm dst : ℤ) : Prop :=
  0 < frm ∧ (dst = -1 ∨ (dst - e.currentFloor).natAbs > (frm - e.currentFloor).natAbs) ∧
    e.occupancy < maxOccupancy

instance (e : ELEVATOR) (frm dst : ℤ) : Decidable (e.Picks frm dst) :=
  inferInstanceAs (Decidable (_ ∧ _))

/-- The floor that the elevator moves to. -/
def ELEVATOR.goal (e : ELEVATOR) (frm dst : ℤ) : ℤ :=
  if e.Picks frm dst then frm else if 0 < dst then dst else e.middle

lemma toward_near : ((ELEVATOR.toward v cur : ℤ) - cur).natAbs ≤ 1 := by
  unfold ELEVATOR.toward
  split_ifs <;> omega

lemma toward_nearer (hv : 0 ≤ v) (hne : v ≠ cur) :
    (v - ELEVATOR.toward v cur).natAbs < (v - cur).natAbs := by
  unfold ELEVATOR.toward
  split_ifs <;> omega

lemma toward_self (hv : v = cur) : ELEVATOR.toward v cur = cur := by
  unfold ELEVATOR.toward
  split_ifs <;> omega

lemma toward_within {n : ℕ} (hv : 1 ≤ v ∧ v ≤ n) (hcur : 1 ≤ cur ∧ cur ≤ n) :
    1 ≤ ELEVATOR.toward v cur ∧ ELEVATOR.toward v cur ≤ n := by
  unfold ELEVATOR.toward
  split_ifs <;> omega

/-- On its way, the elevator keeps its goal. -/
lemma goal_setFloor (hdst : dst = -1 ∨ 0 < dst) :
    (e.setFloor (ELEVATOR.toward (e.goal frm dst) e.currentFloor)).goal frm dst =
      e.goal frm dst := by
  by_cases hpicks : e.Picks frm dst
  · have hgoal : e.goal frm dst = frm := if_pos hpicks
    obtain ⟨hpos, hnear, hocc⟩ := hpicks
    rw [hgoal]
    refine if_pos ⟨hpos, hnear.imp_right fun hlt => ?_, hocc⟩
    simp only [ELEVATOR.setFloor, ELEVATOR.toward]
    split_ifs <;> omega
  · by_cases hpos : 0 < dst
    · have hgoal : e.goal frm dst = dst := (if_neg hpicks).trans (if_pos hpos)
      rw [hgoal]
      refine (if_neg fun h => hpicks ?_).trans (if_pos hpos)
      obtain ⟨hfrm, hnear, hocc⟩ := h
      refine ⟨hfrm, hnear.imp_right fun hlt => ?_, hocc⟩
      simp only [ELEVATOR.setFloor, ELEVATOR.toward] at hlt
      split_ifs at hlt <;> omega
    · have hgoal : e.goal frm dst = e.middle := (if_neg hpicks).trans (if_neg hpos)
      rw [hgoal]
      exact (if_neg fun h => hpicks ⟨h.1, .inl (hdst.resolve_right hpos), h.2.2⟩).trans
        (if_neg hpos)

/-- With a target, the elevator moves once. -/
lemma move_eq (h : ¬ (frm = -1 ∧ dst = -1)) : e.move frm dst =
    if e.Picks frm dst then (ELEVATOR.toward frm e.currentFloor,
      if frm = ELEVATOR.toward frm e.currentFloor then .board else .none)
    else if 0 < dst then (ELEVATOR.toward dst e.currentFloor,
      if dst = ELEVATOR.toward dst e.currentFloor then .alight else .none)
    else (e.currentFloor, .none) := by
  unfold ELEVATOR.move
  simp only [if_neg h]
  rfl

/-- The elevator stops at its goal, when there is one, and goes on towards it otherwise. -/
lemma move_cases (hfrm : frm = -1 ∨ 0 < frm) (hdst : dst = -1 ∨ 0 < dst)
    (hocc : dst = -1 → e.occupancy < maxOccupancy) :
    (e.occupancy < maxOccupancy ∧ 0 < frm ∧
        ∃ f : ℕ, frm = f ∧ e.goal frm dst = f ∧ e.move frm dst = (f, .board) ∧
          f = ELEVATOR.toward (e.goal frm dst) e.currentFloor) ∨
      (0 < dst ∧ ∃ f : ℕ, dst = f ∧ e.goal frm dst = f ∧ e.move frm dst = (f, .alight) ∧
          f = ELEVATOR.toward (e.goal frm dst) e.currentFloor) ∨
      (e.move frm dst = (ELEVATOR.toward (e.goal frm dst) e.currentFloor, .none) ∧
        (0 < frm ∨ 0 < dst → e.goal frm dst ≠ e.currentFloor)) := by
  by_cases hpicks : e.Picks frm dst
  · have hgoal : e.goal frm dst = frm := if_pos hpicks
    have hmove : e.move frm dst = (ELEVATOR.toward frm e.currentFloor,
        if frm = ELEVATOR.toward frm e.currentFloor then .board else .none) := by
      have hpos := hpicks.1
      rw [move_eq (by omega), if_pos hpicks]
    rw [hgoal, hmove]
    by_cases hstop : frm = ELEVATOR.toward frm e.currentFloor
    · exact .inl ⟨hpicks.2.2, hpicks.1, _, hstop, hstop, by rw [if_pos hstop], rfl⟩
    · refine .inr (.inr ⟨by rw [if_neg hstop], fun _ heq => hstop ?_⟩)
      rw [toward_self heq, heq]
  by_cases hpos : 0 < dst
  · have hgoal : e.goal frm dst = dst := (if_neg hpicks).trans (if_pos hpos)
    have hmove : e.move frm dst = (ELEVATOR.toward dst e.currentFloor,
        if dst = ELEVATOR.toward dst e.currentFloor then .alight else .none) := by
      rw [move_eq (by omega), if_neg hpicks, if_pos hpos]
    rw [hgoal, hmove]
    by_cases hstop : dst = ELEVATOR.toward dst e.currentFloor
    · exact .inr (.inl ⟨hpos, _, hstop, hstop, by rw [if_pos hstop], rfl⟩)
    · refine .inr (.inr ⟨by rw [if_neg hstop], fun _ heq => hstop ?_⟩)
      rw [toward_self heq, heq]
  -- there is no target
  obtain rfl := hdst.resolve_right hpos
  obtain rfl : frm = -1 := hfrm.resolve_right fun h => hpicks ⟨h, .inl rfl, hocc rfl⟩
  have hgoal : e.goal (-1) (-1) = e.middle := (if_neg hpicks).trans (if_neg hpos)
  refine .inr (.inr ⟨?_, by omega⟩)
  rw [hgoal]
  rfl

end Goal

/-! ### Between two iterations -/

/-- A target is -1, or a floor where somebody waits. -/
def Lineup.Valid (w : Lineup) (n : ℕ) (cond : ℕ → ℕ) (v : ℤ) : Prop :=
  v = -1 ∨ ∃ f : ℕ, (1 ≤ f ∧ f ≤ n) ∧ v = f ∧ w.queue (cond f) ≠ []

/-- **The invariant** between two iterations. -/
structure Car.Ready (k : Car) (e : ELEVATOR) : Prop where
  stocked : Stocked e k.lineup [] []
  fromFloor : k.lineup.Valid e.numFloors entering k.fromFloor
  toFloor : k.lineup.Valid e.numFloors leaving k.toFloor

/-- The targets of the elevator in the next iteration. -/
structure Car.Aims (k : Car) (e : ELEVATOR) (frm dst : ℤ) : Prop where
  fromFloor : e.target k.fromFloor e.listEntering true = .ok frm
  toFloor : e.target k.toFloor e.listLeaving false = .ok dst
  validFrom : k.lineup.Valid e.numFloors entering frm
  validTo : k.lineup.Valid e.numFloors leaving dst
  nobodyWaits : frm = -1 → k.lineup.waiting e.numFloors = 0
  nobodyRides : dst = -1 → k.lineup.riding e.numFloors = 0

section Aims

variable {cfg : Config} {t : Tid} {e e' : ELEVATOR} {w : Lineup} {k k' : Car} {frm dst v : ℤ}
  {cond : ℕ → ℕ} {pp : ℕ → Persons} {isAt : Bool} {n f : ℕ}

lemma Lineup.Valid.cases (h : w.Valid n cond v) : v = -1 ∨ 0 < v := by
  obtain h | ⟨f, hf, rfl, -⟩ := h <;> omega

lemma Lineup.total_eq_zero (h : ∀ f, 1 ≤ f ∧ f ≤ n → w.queue (cond f) = []) :
    w.total n cond List.length = 0 :=
  Finset.sum_eq_zero fun f hf => by rw [h f (Finset.mem_Icc.1 hf), List.length_nil]

/-- A target is kept, or looked for. -/
lemma target_cases (hcur : 1 ≤ e.currentFloor ∧ e.currentFloor ≤ e.numFloors)
    (hlists : ∀ f, 1 ≤ f ∧ f ≤ e.numFloors → OfFloor (pp f) isAt f)
    (hsees : ∀ f, 1 ≤ f ∧ f ≤ e.numFloors → (e.Sees (pp f) isAt ↔ w.queue (cond f) ≠ []))
    (hv : w.Valid e.numFloors cond v) :
    ∃ v', e.target v pp isAt = .ok v' ∧ w.Valid e.numFloors cond v' ∧
      (v' = -1 → w.total e.numFloors cond List.length = 0) := by
  obtain rfl | ⟨f, hf, rfl, hne⟩ := hv
  · rw [ELEVATOR.target, if_pos (by omega)]
    obtain ⟨f, hv, hnearest⟩ | ⟨hv, hnone⟩ := getFloor_cases hcur hlists
    · have hex := hnearest.exists_floor
      exact ⟨f, hv, .inr ⟨f, hex, rfl, (hsees f hex).1 hnearest.sees⟩, by omega⟩
    · exact ⟨-1, hv, .inl rfl, fun _ => Lineup.total_eq_zero fun f hf =>
        not_not.1 fun hne => hnone f hf ((hsees f hf).2 hne)⟩
  · exact ⟨f, if_neg (by omega), .inr ⟨f, hf, rfl, hne⟩, by omega⟩

lemma Car.Ready.aims (h : k.Ready e) : ∃ frm dst, k.Aims e frm dst := by
  have hs := h.stocked
  obtain ⟨frm, hfrm, hvalid, hnobody⟩ := target_cases hs.currentFloor
    (fun f hf => (hs.listEntering f hf).1) (fun f hf => hs.sees_entering hf) h.fromFloor
  obtain ⟨dst, hdst, hvalid', hnobody'⟩ := target_cases hs.currentFloor
    (fun f hf => hs.ofFloor_leaving hf) (fun f hf => hs.sees_leaving hf) h.toFloor
  exact ⟨frm, dst, hfrm, hdst, hvalid, hvalid', hnobody, hnobody'⟩

/-- On the way there are fewer than five persons, or one to get out. -/
lemma Car.Ready.occupancy_lt (h : k.Ready e) (ha : k.Aims e frm dst) (hdst : dst = -1) :
    e.occupancy < maxOccupancy := by
  have hocc := h.stocked.occupancy
  rw [ha.nobodyRides hdst] at hocc
  rw [hocc]
  decide

/-- The goal is a floor. -/
lemma Car.Ready.goal_within (h : k.Ready e) (ha : k.Aims e frm dst) :
    1 ≤ e.goal frm dst ∧ e.goal frm dst ≤ e.numFloors := by
  obtain ⟨hlow, hhigh⟩ := h.stocked.currentFloor
  unfold ELEVATOR.goal
  split_ifs with hpicks hpos
  · obtain hone | ⟨f, hf, rfl, -⟩ := ha.validFrom
    · exact absurd hpicks.1 (by omega)
    · omega
  · obtain hone | ⟨f, hf, rfl, -⟩ := ha.validTo <;> omega
  · unfold ELEVATOR.middle
    omega

/-- What an iteration comes to. -/
inductive Leg (cfg : Config) (t : Tid) (k : Car) (e : ELEVATOR) (frm dst : ℤ) : Prop
  | moves {f : ℕ} (floor : f = ELEVATOR.toward (e.goal frm dst) e.currentFloor)
      (away : 0 < frm ∨ 0 < dst → e.goal frm dst ≠ e.currentFloor)
      (iterates : k.Iterates cfg t [] ⟨k.lineup.setE (e.setFloor f), frm, dst⟩)
  | boards {f : ℕ} {got rest : List Waiter} {pp : Persons}
      (floor : f = ELEVATOR.toward (e.goal frm dst) e.currentFloor) (some_on : got ≠ [])
      (queue : k.lineup.queue (entering f) = got ++ rest)
      (stocked : Stocked ((e.setFloor f).setEntering f pp)
        ((k.lineup.setQueue (entering f) rest).setE ((e.setFloor f).setEntering f pp)) got [])
      (iterates : k.Iterates cfg t got
        ⟨(k.lineup.setQueue (entering f) rest).setE ((e.setFloor f).setEntering f pp), -1, dst⟩)
  | alights {f : ℕ} {pp : Persons}
      (floor : f = ELEVATOR.toward (e.goal frm dst) e.currentFloor)
      (some_off : k.lineup.queue (leaving f) ≠ [])
      (stocked : Stocked ((e.setFloor f).setLeaving f pp)
        ((k.lineup.setQueue (leaving f) []).setE ((e.setFloor f).setLeaving f pp)) []
          (k.lineup.queue (leaving f)))
      (iterates : k.Iterates cfg t (k.lineup.queue (leaving f))
        ⟨(k.lineup.setQueue (leaving f) []).setE ((e.setFloor f).setLeaving f pp), frm, -1⟩)

/-- **An iteration** of the loop comes to an end, and wakes somebody, or nobody and is on its way. -/
theorem Car.Ready.leg (h : k.Ready e) (ha : k.Aims e frm dst) : Leg cfg t k e frm dst := by
  have hs := h.stocked
  have hchoose : Reaches (Solo.step cfg t) (.on k.lineup [] (.start k.fromFloor k.toFloor) .unit)
      (.on k.lineup [] (.choose frm dst) .unit) :=
    reaches_choose hs.object ha.fromFloor ha.toFloor hs.active_ok
  obtain ⟨hocc, hpos, f, rfl, hgoal, hmove, hf⟩ | ⟨hpos, f, rfl, hgoal, hmove, hf⟩ |
    ⟨hmove, haway⟩ := move_cases ha.validFrom.cases ha.validTo.cases (h.occupancy_lt ha)
  · obtain hone | ⟨f', hfloor, heq, hne⟩ := ha.validFrom
    · omega
    obtain rfl : f = f' := by omega
    obtain ⟨hlist, hlength, -⟩ := hs.listEntering f hfloor
    obtain ⟨got, rest, pp, hq, hcap, hgot, hends, hlen, hle, hreach⟩ :=
      @reaches_board cfg t (k.lineup.setE (e.setFloor f)) [] (e.setFloor f) dst .unit f _ rfl rfl
        rfl hlist.ends hlength (by exact hocc.le)
    exact .boards hf (hgot hocc hne) hq ((hs.setFloor hfloor).board hfloor hq hends hlen hle hcap)
      (mem_eval.2 ⟨hchoose.trans (reaches_stop hs.object hmove hreach), rfl⟩)
  · obtain hone | ⟨f', hfloor, heq, hne⟩ := ha.validTo
    · omega
    obtain rfl : f = f' := by omega
    obtain ⟨hends, hentries, -⟩ := hs.listLeaving f hfloor
    have hlength := congrArg Multiset.card hentries
    rw [Multiset.coe_card, card_persons] at hlength
    obtain ⟨pp, hpp, hnone, hreach⟩ := @reaches_alight cfg t (k.lineup.setE (e.setFloor f)) []
      (e.setFloor f) frm .unit f rfl rfl hends hlength
    exact .alights hf hne ((hs.setFloor hfloor).alight hfloor hpp hnone)
      (mem_eval.2 ⟨hchoose.trans (reaches_stop hs.object hmove hreach), rfl⟩)
  · exact .moves rfl haway (mem_eval.2 ⟨hchoose.trans (reaches_stop hs.object hmove reaches_depart),
      rfl⟩)

lemma Lineup.Valid.mono {w' : Lineup} (h : w.Valid n cond v)
    (hq : ∀ f, w.queue (cond f) ≠ [] → w'.queue (cond f) ≠ []) : w'.Valid n cond v :=
  h.imp_right fun ⟨f, hf, hv, hne⟩ => ⟨f, hf, hv, hq f hne⟩

lemma iterates_unique {woken woken' : List Waiter} (h : k.Iterates cfg t woken k')
    {k'' : Car} (h' : k.Iterates cfg t woken' k'') : woken' = woken ∧ k'' = k' := by
  obtain ⟨_, _, _⟩ := k'
  obtain ⟨_, _, _⟩ := k''
  cases Part.mem_unique h h'
  exact ⟨rfl, rfl⟩

/-- How many calls for the elevator are ahead: a person who waits is served twice. -/
def Lineup.load (w : Lineup) (n : ℕ) : ℕ := 2 * w.waiting n + w.riding n

/-- What a round comes to. -/
structure Trip (k : Car) (e : ELEVATOR) (k' : Car) (e' : ELEVATOR) : Prop where
  ready : k'.Ready e'
  numFloors : e'.numFloors = e.numFloors
  near : ((e'.currentFloor : ℤ) - e.currentFloor).natAbs ≤ 1
  delivered : k'.lineup.shared.totalOut + k'.lineup.waiting e.numFloors +
    k'.lineup.riding e.numFloors = k.lineup.shared.totalOut + k.lineup.waiting e.numFloors +
      k.lineup.riding e.numFloors
  progress : k'.lineup.load e.numFloors < k.lineup.load e.numFloors ∨
    ∃ frm dst, k.Aims e frm dst ∧ (0 < frm ∨ 0 < dst → e.goal frm dst ≠ e.currentFloor) ∧
      e' = e.setFloor (ELEVATOR.toward (e.goal frm dst) e.currentFloor) ∧
        k' = ⟨k.lineup.setE e', frm, dst⟩

/-- After every iteration, those who have been woken can go on in any order. -/
theorem Car.Ready.served (h : k.Ready e) : ∃ woken k₁, k.Iterates cfg t woken k₁ ∧
    ∀ order : List Waiter, order.Perm woken → ∃ w, Serves cfg k₁.lineup order w := by
  obtain ⟨frm, dst, ha⟩ := h.aims
  cases (h.leg ha : Leg cfg t k e frm dst) with
  | moves _ _ hit =>
    refine ⟨_, _, hit, fun order hperm => ?_⟩
    rw [hperm.eq_nil]
    exact ⟨_, .nil⟩
  | boards _ _ _ hs hit =>
    exact ⟨_, _, hit, fun order hperm => (hs.perm hperm.symm (.refl _)).serves_on.1⟩
  | alights _ _ hs hit =>
    exact ⟨_, _, hit, fun order hperm => (hs.perm (.refl _) hperm.symm).serves_off.1⟩

/-- **A round.** -/
theorem Car.Ready.trip (h : k.Ready e) (hr : Round cfg t k k') : ∃ e', Trip k e k' e' := by
  obtain ⟨frm, dst, ha⟩ := h.aims
  have hs := h.stocked
  have hgoal := h.goal_within ha
  obtain ⟨woken, order, k₁, hit, hperm, hserves, hfrm', hdst'⟩ := hr
  obtain ⟨w', frm', dst'⟩ := k'
  cases (h.leg ha : Leg cfg t k e frm dst) with
  | moves hf haway hit' =>
    obtain ⟨rfl, rfl⟩ := iterates_unique hit' hit
    rw [hperm.eq_nil] at hserves
    cases hserves
    cases hfrm'
    cases hdst'
    subst hf
    refine ⟨_, ⟨hs.setFloor (toward_within hgoal hs.currentFloor), ha.validFrom, ha.validTo⟩, rfl,
      toward_near, rfl, .inr ⟨frm, dst, ha, haway, rfl, rfl⟩⟩
  | @boards f got rest pp hf hsome hq hs₁ hit' =>
    obtain ⟨rfl, rfl⟩ := iterates_unique hit' hit
    cases hfrm'
    cases hdst'
    have hfloor : 1 ≤ f ∧ f ≤ e.numFloors := hf ▸ toward_within hgoal hs.currentFloor
    obtain ⟨e', hs', hstays, hout, hriding⟩ :=
      (hs₁.perm hperm.symm (.refl _)).serves_on.2 _ hserves
    have hcount := k.lineup.waiting_setEntering (q := rest) hfloor
    have hwaiting : w'.waiting e.numFloors =
        (k.lineup.setQueue (entering f) rest).waiting e.numFloors := hstays.waiting _
    have hriding' : w'.riding e.numFloors = k.lineup.riding e.numFloors + woken.length :=
      hriding.trans (congrArg₂ (· + ·) Lineup.riding_setEntering hperm.length_eq)
    have hout' : w'.shared.totalOut = k.lineup.shared.totalOut := hout
    have hpos := List.length_pos_iff.2 hsome
    rw [hq, List.length_append] at hcount
    refine ⟨e', ⟨hs', .inl rfl, ?_⟩, hstays.numFloors, ?_, ?_, .inl ?_⟩
    · rw [hstays.numFloors]
      refine ha.validTo.mono fun g hne => hstays.rides g ?_
      rwa [Lineup.setE_queue, k.lineup.setQueue_of_ne rest (entering_ne_leaving _ _).symm]
    · rw [hstays.currentFloor]
      exact hf ▸ toward_near
    · simp only [hout', hriding']
      omega
    · simp only [Lineup.load, hriding']
      omega
  | @alights f pp hf hsome hs₁ hit' =>
    obtain ⟨rfl, rfl⟩ := iterates_unique hit' hit
    cases hfrm'
    cases hdst'
    have hfloor : 1 ≤ f ∧ f ≤ e.numFloors := hf ▸ toward_within hgoal hs.currentFloor
    obtain ⟨e', hs', hstays, hout, hriding⟩ :=
      (hs₁.perm (.refl _) hperm.symm).serves_off.2 _ hserves
    have hcount := k.lineup.riding_setLeaving (q := []) hfloor
    have hwaiting : w'.waiting e.numFloors = k.lineup.waiting e.numFloors :=
      (hstays.waiting _).trans Lineup.waiting_setLeaving
    have hriding' : w'.riding e.numFloors =
        (k.lineup.setQueue (leaving f) []).riding e.numFloors := hriding
    have hout' : w'.shared.totalOut =
        k.lineup.shared.totalOut + (k.lineup.queue (leaving f)).length :=
      hout.trans (congrArg _ hperm.length_eq)
    have hpos := List.length_pos_iff.2 hsome
    rw [List.length_nil] at hcount
    refine ⟨e', ⟨hs', ?_, .inl rfl⟩, hstays.numFloors, ?_, ?_, .inl ?_⟩
    · rw [hstays.numFloors]
      refine ha.validFrom.mono fun g hne => ?_
      rw [hstays.waits, Lineup.setE_queue, k.lineup.setQueue_of_ne [] (entering_ne_leaving _ _)]
      exact hne
    · rw [hstays.currentFloor]
      exact hf ▸ toward_near
    · simp only [hout', hwaiting]
      omega
    · simp only [Lineup.load, hwaiting]
      omega

end Aims

/-! ### All rounds -/

/-- Everybody has been delivered, and the elevator is in the middle. -/
structure Car.Settled (k : Car) (e : ELEVATOR) : Prop where
  nobodyWaits : k.lineup.waiting e.numFloors = 0
  nobodyRides : k.lineup.riding e.numFloors = 0
  middle : e.currentFloor = (e.numFloors + 1) / 2

/-- How far the elevator is from its goal. -/
def Car.way (k : Car) (e : ELEVATOR) : ℕ :=
  match e.target k.fromFloor e.listEntering true, e.target k.toFloor e.listLeaving false with
  | .ok frm, .ok dst => (e.goal frm dst - e.currentFloor).natAbs
  | _, _ => 0

/-- **The measure**: how much is ahead, and then how far the elevator is from its goal. -/
def Car.rank (k : Car) : ℕ ×ₗ ℕ :=
  match k.lineup.shared.e with
  | none => toLex (0, 0)
  | some e => toLex (k.lineup.load e.numFloors, k.way e)

/-- **What dispatch is for**: wherever the rounds lead, the elevator is at a floor, its next
iteration comes to an end, those it wakes can go on in any order, and it moves by one floor at most.
However the rounds go on, at last all who waited or rode at the start are out, and the elevator
stays in the middle. -/
structure Delivers (cfg : Config) (t : Tid) (k : Car) (e : ELEVATOR) : Prop where
  goes_on : ∀ k', Relation.ReflTransGen (Round cfg t) k k' →
    ∃ e', k'.lineup.shared.e = some e' ∧ (1 ≤ e'.currentFloor ∧ e'.currentFloor ≤ e.numFloors) ∧
      (∃ woken k₁, k'.Iterates cfg t woken k₁ ∧
        ∀ order : List Waiter, order.Perm woken → ∃ w, Serves cfg k₁.lineup order w) ∧
      ∀ k'' e'', Round cfg t k' k'' → k''.lineup.shared.e = some e'' →
        ((e''.currentFloor : ℤ) - e'.currentFloor).natAbs ≤ 1
  settles : ∀ f : ℕ → Car, f 0 = k → (∀ i, Round cfg t (f i) (f (i + 1))) →
    ∃ N, ∀ i, N ≤ i → ∃ e', (f i).lineup.shared.e = some e' ∧ e'.numFloors = e.numFloors ∧
      (f i).Settled e' ∧ entries e'.personsOn = [] ∧ (f i).lineup.shared.totalOut =
        k.lineup.shared.totalOut + k.lineup.waiting e.numFloors + k.lineup.riding e.numFloors

section Rounds

variable {cfg : Config} {t : Tid} {e e' : ELEVATOR} {w : Lineup} {k k' : Car} {frm dst v v' : ℤ}
  {cond : ℕ → ℕ} {pp : ℕ → Persons} {isAt : Bool} {n : ℕ}

lemma Car.way_eq (ha : k.Aims e frm dst) : k.way e = (e.goal frm dst - e.currentFloor).natAbs := by
  rw [Car.way, ha.fromFloor, ha.toFloor]

lemma Car.rank_eq (he : k.lineup.shared.e = some e) :
    k.rank = toLex (k.lineup.load e.numFloors, k.way e) := by
  rw [Car.rank, he]

/-- When nobody waits, there is no target. -/
lemma Lineup.Valid.eq_neg_one (h : w.Valid n cond v)
    (hnone : ∀ f, 1 ≤ f ∧ f ≤ n → (w.queue (cond f)).length ≤ 0) : v = -1 := by
  obtain h | ⟨f, hf, -, hne⟩ := h
  · exact h
  · exact absurd (List.length_eq_zero_iff.1 (Nat.le_zero.1 (hnone f hf))) hne

lemma Lineup.Valid.nobody_waits (h : w.Valid n entering v) (hnone : w.waiting n = 0) : v = -1 :=
  h.eq_neg_one fun _ hf => hnone ▸ Lineup.length_le_waiting hf

lemma Lineup.Valid.nobody_rides (h : w.Valid n leaving v) (hnone : w.riding n = 0) : v = -1 :=
  h.eq_neg_one fun _ hf => hnone ▸ Lineup.length_le_riding hf

/-- A target that is there is kept. -/
lemma target_kept (hv : 0 < v) (h : e.target v pp isAt = .ok v') : v' = v := by
  rw [ELEVATOR.target, if_neg (by omega)] at h
  exact (Except.ok.inj h).symm

/-- After a round in which nobody was served, the targets are the same. -/
lemma Car.Aims.again {f : ℕ} {frm' dst' : ℤ} (ha : k.Aims e frm dst)
    (ha' : Car.Aims ⟨k.lineup.setE (e.setFloor f), frm, dst⟩ (e.setFloor f) frm' dst') :
    frm' = frm ∧ dst' = dst := by
  constructor
  · obtain rfl | hpos := ha.validFrom.cases
    · exact ha'.validFrom.nobody_waits (ha.nobodyWaits rfl)
    · exact target_kept hpos ha'.fromFloor
  · obtain rfl | hpos := ha.validTo.cases
    · exact ha'.validTo.nobody_rides (ha.nobodyRides rfl)
    · exact target_kept hpos ha'.toFloor

lemma goal_middle : e.goal (-1) (-1) = e.middle :=
  (if_neg fun h => absurd h.1 (by omega)).trans (if_neg (by omega))

/-- **The descent**: a round before the end makes the measure smaller. -/
theorem Trip.descends (h : k.Ready e) (ht : Trip k e k' e') (hns : ¬ k.Settled e) :
    k'.rank < k.rank := by
  rw [Car.rank_eq h.stocked.object, Car.rank_eq ht.ready.stocked.object, ht.numFloors,
    Prod.Lex.toLex_lt_toLex]
  obtain hless | ⟨frm, dst, ha, haway, rfl, rfl⟩ := ht.progress
  · exact .inl hless
  refine .inr ⟨rfl, ?_⟩
  obtain ⟨frm', dst', ha'⟩ := ht.ready.aims
  obtain ⟨rfl, rfl⟩ := ha.again ha'
  have hgoal := h.goal_within ha
  have hne : e.goal frm' dst' ≠ e.currentFloor := by
    obtain rfl | hpos := ha.validFrom.cases
    · obtain rfl | hpos := ha.validTo.cases
      · -- nobody is left, and the elevator is not in the middle
        intro heq
        rw [goal_middle] at heq
        exact hns ⟨ha.nobodyWaits rfl, ha.nobodyRides rfl, (Int.ofNat.inj heq).symm⟩
      · exact haway (.inr hpos)
    · exact haway (.inl hpos)
  have hnear := toward_nearer (by omega) hne
  rw [Car.way_eq ha, Car.way_eq ha', goal_setFloor ha.validTo.cases]
  exact hnear

/-- At the end, the elevator stays where it is. -/
theorem Trip.settled (ht : Trip k e k' e') (hs : k.Settled e) : k'.Settled e' := by
  obtain hless | ⟨frm, dst, ha, haway, rfl, rfl⟩ := ht.progress
  · rw [Lineup.load, Lineup.load, hs.nobodyWaits, hs.nobodyRides] at hless
    omega
  · obtain rfl := ha.validFrom.nobody_waits hs.nobodyWaits
    obtain rfl := ha.validTo.nobody_rides hs.nobodyRides
    refine ⟨hs.nobodyWaits, hs.nobodyRides, ?_⟩
    have hmiddle : e.middle = e.currentFloor := hs.middle.symm
    rw [goal_middle, hmiddle, toward_self rfl]
    exact hs.middle

/-- What holds in all rounds: nobody is lost. -/
def Car.Underway (n total : ℕ) (k : Car) : Prop :=
  ∃ e, k.Ready e ∧ e.numFloors = n ∧
    k.lineup.shared.totalOut + k.lineup.waiting n + k.lineup.riding n = total

lemma Car.Underway.round {total : ℕ} (h : k.Underway n total) (hr : Round cfg t k k') :
    k'.Underway n total := by
  obtain ⟨e, hready, rfl, htotal⟩ := h
  obtain ⟨e', ht⟩ := hready.trip hr
  exact ⟨e', ht.ready, ht.numFloors, ht.delivered.trans htotal⟩

/-- The elevator has settled. -/
def Car.Done (k : Car) : Prop := ∃ e, k.lineup.shared.e = some e ∧ k.Settled e

lemma Car.Underway.rank_lt {total : ℕ} (h : k.Underway n total) (hnot : ¬ k.Done)
    (hr : Round cfg t k k') : k'.rank < k.rank := by
  obtain ⟨e, hready, -⟩ := h
  obtain ⟨e', ht⟩ := hready.trip hr
  exact ht.descends hready fun hs => hnot ⟨e, hready.stocked.object, hs⟩

lemma Car.Underway.done {total : ℕ} (h : k.Underway n total) (hdone : k.Done)
    (hr : Round cfg t k k') : k'.Done := by
  obtain ⟨e, hready, -⟩ := h
  obtain ⟨e', ht⟩ := hready.trip hr
  obtain ⟨e₁, he₁, hs⟩ := hdone
  cases he₁.symm.trans hready.stocked.object
  exact ⟨e', ht.ready.stocked.object, ht.settled hs⟩

/-- **Everybody is delivered**, and the elevator settles in the middle. -/
theorem Car.Ready.delivers (h : k.Ready e) : Delivers cfg t k e := by
  generalize htotal : k.lineup.shared.totalOut + k.lineup.waiting e.numFloors +
    k.lineup.riding e.numFloors = total
  have hstart : k.Underway e.numFloors total := ⟨e, h, rfl, htotal⟩
  refine ⟨fun k' hreach => ?_, fun f hzero hrounds => ?_⟩
  · have hunderway : k'.Underway e.numFloors total := by
      induction hreach with
      | refl => exact hstart
      | tail _ hr ih => exact ih.round hr
    obtain ⟨e', hready, hn, -⟩ := hunderway
    refine ⟨e', hready.stocked.object, hn ▸ hready.stocked.currentFloor, hready.served,
      fun k'' e'' hr he'' => ?_⟩
    obtain ⟨e₁, ht⟩ := hready.trip hr
    cases he''.symm.trans ht.ready.stocked.object
    exact ht.near
  · obtain ⟨N, hN⟩ := Lib.eventually_goal (I := Car.Underway e.numFloors total) (G := Car.Done)
      Car.rank (fun _ _ hi hr => hi.round hr) (fun _ _ hi hnot hr => hi.rank_lt hnot hr)
      (fun _ _ hi hdone hr => hi.done hdone hr) hrounds (hzero ▸ hstart)
    refine ⟨N, fun i hi => ?_⟩
    obtain ⟨⟨e', hready, hn, hsum⟩, e₁, he₁, hs⟩ := hN i hi
    cases he₁.symm.trans hready.stocked.object
    have hlength := hready.stocked.length_personsOn
    have hwaiting := hs.nobodyWaits
    have hriding := hs.nobodyRides
    rw [hriding] at hlength
    rw [hn] at hwaiting hriding
    exact ⟨e', hready.stocked.object, hn, hs, List.length_eq_zero_iff.1 hlength, by omega⟩

end Rounds

/-! ### One who waits, and one who rides -/

/-- A list with one entry. -/
def listOf (p : Person) : Persons := fun i => if i = 0 then .person p else .null

/-- A person waits on the first of three floors; the elevator is at the third, with a person for the
second. -/
def twoTrips : ELEVATOR where
  personsWaiting := fun _ => 0
  occupancy := 1
  numFloors := 3
  personsOn := listOf ⟨2, 3, 2⟩
  listEntering := fun f => if f = 1 then listOf ⟨1, 1, 3⟩ else fun _ => .null
  listLeaving := fun f => if f = 2 then listOf ⟨2, 3, 2⟩ else fun _ => .null
  currentFloor := 3

/-- The elevator is on its way to the person who waits. -/
def onItsWay : Car where
  lineup.shared := ⟨some twoTrips, 2, 0, 3⟩
  lineup.queue := fun cond =>
    if cond = 2 then [⟨2, .boarded ⟨⟨1, 1, 3⟩, .intOn, .intOff⟩, .waited 2 elevatorLock⟩]
    else if cond = 5 then [⟨3, .arrived ⟨⟨2, 3, 2⟩, .intOn, .intOff⟩, .waited 5 elevatorLock⟩]
    else []
  fromFloor := 1
  toFloor := -1

lemma ready_onItsWay : onItsWay.Ready twoTrips where
  stocked :=
    { object := rfl
      currentFloor := by decide
      listEntering := fun f _ => by
        by_cases hf : f = 1
        · subst hf
          refine ⟨⟨.inr (.inl rfl), fun p hp => ?_⟩, rfl, fun x hx => ?_⟩
          · rw [List.mem_singleton.1 hp]
            rfl
          · rw [List.mem_singleton.1 hx]
            exact ⟨_, rfl, rfl, by decide⟩
        · have hlist : twoTrips.listEntering f = fun _ => .null := if_neg hf
          have hqueue : onItsWay.lineup.queue (entering f) = [] := by
            simp only [onItsWay, entering]
            rw [if_neg (by omega), if_neg (by omega)]
          rw [hlist, hqueue]
          exact ⟨⟨.inl rfl, fun _ hp => absurd hp List.not_mem_nil⟩, rfl,
            fun _ hx => absurd hx List.not_mem_nil⟩
      listLeaving := fun f _ => by
        by_cases hf : f = 2
        · subst hf
          refine ⟨.inr (.inl rfl), rfl, fun x hx => ?_⟩
          rw [List.mem_singleton.1 hx]
          exact ⟨_, rfl, rfl⟩
        · have hlist : twoTrips.listLeaving f = fun _ => .null := if_neg hf
          have hqueue : onItsWay.lineup.queue (leaving f) = [] := by
            simp only [onItsWay, leaving]
            rw [if_neg (by omega), if_neg (by omega)]
          rw [hlist, hqueue]
          exact ⟨.inl rfl, rfl, fun _ hx => absurd hx List.not_mem_nil⟩
      personsOn := ⟨.inr (.inl rfl), by decide +kernel⟩
      occupancy := by decide +kernel
      capacity := by decide
      boarding := fun _ hx => absurd hx List.not_mem_nil
      alighting := fun _ hx => absurd hx List.not_mem_nil
      room := by decide +kernel }
  fromFloor := .inr ⟨1, by decide, rfl, List.cons_ne_nil _ _⟩
  toFloor := .inl rfl

/-- Both are delivered. -/
theorem delivers_onItsWay : Delivers ⟨3, 1, twoTrips⟩ 1 onItsWay twoTrips :=
  ready_onItsWay.delivers

end Nachos.Elevator
