import Nachos.Elevator.Leaving

/-!
# What `getFloor` sees

`getFloor` looks through the lists floor by floor, the near ones first. A list of a floor has only
entries of that floor, so that it finds a floor whenever there is a list with an entry it looks for;
and the elevator stays between the first floor and the last.
-/

namespace Nachos.Elevator

open Lib (ok_bind)
open Threads

variable {cfg : Config} {s s' : State Label Shared} {es tr : List (Event Label)} {e e' : ELEVATOR}
  {r : Ret} {c : Label} {call : Call Label} {floor : ℕ}

/-! ### The loop -/

section Loop

variable {pp : ℕ → Persons} {isAt : Bool}

/-- The list of the floor has an entry that `getFloor` looks for. -/
def ELEVATOR.Sees (e : ELEVATOR) (pp : Persons) (isAt : Bool) : Prop :=
  ∃ p ∈ entries pp, (isAt || e.onElevator p) = true

/-- All entries of the list are for the floor. -/
structure OfFloor (pp : Persons) (isAt : Bool) (floor : ℕ) : Prop where
  ends : Ends pp
  place : ∀ p ∈ entries pp, (if isAt then p.atFloor else p.toFloor) = floor

lemma getFloorIn_of_sees {list : Persons} (h : OfFloor list isAt floor) (hs : e.Sees list isAt) :
    e.getFloorIn isAt list = .ok floor := by
  rw [ELEVATOR.getFloorIn, find_eq h.ends]
  obtain ⟨p, hp, hpick⟩ := hs
  cases hfind : (entries list).find? fun p => isAt || e.onElevator p with
  | none => exact absurd hpick (List.find?_eq_none.1 hfind p hp)
  | some q =>
    have hq := h.place q (List.mem_of_find?_eq_some hfind)
    rw [← hq]
    cases isAt <;> rfl

lemma getFloorIn_of_not_sees {list : Persons} (h : OfFloor list isAt floor)
    (hs : ¬ e.Sees list isAt) : e.getFloorIn isAt list = .ok (-1) := by
  rw [ELEVATOR.getFloorIn, find_eq h.ends]
  cases hfind : (entries list).find? fun p => isAt || e.onElevator p with
  | none => rfl
  | some q =>
    exact absurd ⟨q, List.mem_of_find?_eq_some hfind, by simpa using List.find?_some hfind⟩ hs

/-- What a list of a floor that exists, or of no floor, gives. -/
lemma ELEVATOR.getFloorAt_cases (e : ELEVATOR) {exists_floor : Bool}
    (h : exists_floor = true → OfFloor (pp floor) isAt floor) :
    (e.getFloorAt pp isAt floor exists_floor = .ok floor ∧ exists_floor = true ∧
        e.Sees (pp floor) isAt) ∨
      (e.getFloorAt pp isAt floor exists_floor = .ok (-1) ∧
        (exists_floor = true → ¬ e.Sees (pp floor) isAt)) := by
  rw [ELEVATOR.getFloorAt]
  by_cases hx : exists_floor = true
  · rw [if_pos hx]
    by_cases hs : e.Sees (pp floor) isAt
    · exact .inl ⟨getFloorIn_of_sees (h hx) hs, hx, hs⟩
    · exact .inr ⟨getFloorIn_of_not_sees (h hx) hs, fun _ => hs⟩
  · rw [if_neg hx]
    exact .inr ⟨rfl, fun h => absurd h hx⟩

/-- How far the elevator is from a floor. -/
def ELEVATOR.distance (e : ELEVATOR) (floor : ℕ) : ℕ := (floor - e.currentFloor : ℤ).natAbs

/-- The floor is among the nearest with an entry that `getFloor` looks for, and the upper one of
two. -/
structure ELEVATOR.Nearest (e : ELEVATOR) (pp : ℕ → Persons) (isAt : Bool) (floor : ℕ) : Prop where
  exists_floor : 1 ≤ floor ∧ floor ≤ e.numFloors
  sees : e.Sees (pp floor) isAt
  least : ∀ f, 1 ≤ f ∧ f ≤ e.numFloors → e.Sees (pp f) isAt → e.distance floor ≤ e.distance f
  upper : ∀ f, 1 ≤ f ∧ f ≤ e.numFloors → e.Sees (pp f) isAt → e.distance f = e.distance floor →
    f ≤ floor

/-- The loop from `delta` finds the nearest floor, when nothing is nearer than `delta`. -/
lemma getFloorFrom_spec (hcur : 1 ≤ e.currentFloor ∧ e.currentFloor ≤ e.numFloors)
    (h : ∀ f, 1 ≤ f ∧ f ≤ e.numFloors → OfFloor (pp f) isAt f) {n delta : ℕ}
    (hn : n + delta = e.numFloors)
    (hnear : ∀ f, 1 ≤ f ∧ f ≤ e.numFloors → e.Sees (pp f) isAt → delta ≤ e.distance f) :
    (∃ floor : ℕ, e.getFloorFrom pp isAt n delta = .ok floor ∧ e.Nearest pp isAt floor) ∨
      (e.getFloorFrom pp isAt n delta = .ok (-1) ∧
        ∀ f, 1 ≤ f ∧ f ≤ e.numFloors → ¬ e.Sees (pp f) isAt) := by
  induction n generalizing delta with
  | zero =>
    refine .inr ⟨rfl, fun f hf hs => ?_⟩
    have hfar := hnear f hf hs
    unfold ELEVATOR.distance at hfar
    omega
  | succ n ih =>
    rw [ELEVATOR.getFloorFrom]
    have habove := e.getFloorAt_cases (h := fun hx : decide (e.currentFloor + delta ≤ e.numFloors) =
      true => h _ ⟨Nat.le_trans hcur.1 (Nat.le_add_right ..), of_decide_eq_true hx⟩)
    have hbelow := e.getFloorAt_cases (h := fun hx : decide (delta ≠ 0 ∧
      delta + 1 ≤ e.currentFloor) = true => h (e.currentFloor - delta) (by
        have := of_decide_eq_true hx
        omega))
    obtain ⟨habove, hex, hsees⟩ | ⟨habove, hnot⟩ := habove
    · have hle := of_decide_eq_true hex
      have hdist : e.distance (e.currentFloor + delta) = delta := by
        unfold ELEVATOR.distance
        omega
      refine .inl ⟨e.currentFloor + delta, ?_, ⟨by omega, hle⟩, hsees, fun f hf hs => ?_,
        fun f hf hs heq => ?_⟩
      · rw [habove, ok_bind, if_pos (by omega)]
      · rw [hdist]
        exact hnear f hf hs
      · rw [hdist] at heq
        unfold ELEVATOR.distance at heq
        omega
    rw [habove, ok_bind, if_neg (by simp)]
    -- nothing above at this distance
    have hupper : ∀ f, 1 ≤ f ∧ f ≤ e.numFloors → e.Sees (pp f) isAt →
        f ≠ e.currentFloor + delta := fun f hf hs heq =>
      hnot (decide_eq_true (heq ▸ hf.2)) (heq ▸ hs)
    obtain ⟨hbelow, hex, hsees⟩ | ⟨hbelow, hnot'⟩ := hbelow
    · have hle := of_decide_eq_true hex
      have hdist : e.distance (e.currentFloor - delta) = delta := by
        unfold ELEVATOR.distance
        omega
      refine .inl ⟨e.currentFloor - delta, ?_, ⟨by omega, by omega⟩, hsees, fun f hf hs => ?_,
        fun f hf hs heq => ?_⟩
      · rw [hbelow, ok_bind, if_pos (by omega)]
      · rw [hdist]
        exact hnear f hf hs
      · have hne := hupper f hf hs
        rw [hdist] at heq
        unfold ELEVATOR.distance at heq
        omega
    rw [hbelow, ok_bind, if_neg (by simp)]
    refine ih (by omega) fun f hf hs => ?_
    have hfar := hnear f hf hs
    have hne := hupper f hf hs
    have hne' : delta ≠ 0 ∧ delta + 1 ≤ e.currentFloor → f ≠ e.currentFloor - delta :=
      fun hx heq => hnot' (decide_eq_true hx) (heq ▸ hs)
    unfold ELEVATOR.distance at hfar ⊢
    omega

/-- `getFloor` finds the nearest floor, or there is none. -/
lemma getFloor_cases (hcur : 1 ≤ e.currentFloor ∧ e.currentFloor ≤ e.numFloors)
    (h : ∀ f, 1 ≤ f ∧ f ≤ e.numFloors → OfFloor (pp f) isAt f) :
    (∃ floor : ℕ, e.getFloor pp isAt = .ok floor ∧ e.Nearest pp isAt floor) ∨
      (e.getFloor pp isAt = .ok (-1) ∧ ∀ f, 1 ≤ f ∧ f ≤ e.numFloors → ¬ e.Sees (pp f) isAt) :=
  getFloorFrom_spec hcur h (Nat.add_zero e.numFloors) fun _ _ _ => Nat.zero_le _

/-- **`getFloor`** finds a floor if and only if a list has an entry that it looks for. -/
theorem getFloor_spec (hcur : 1 ≤ e.currentFloor ∧ e.currentFloor ≤ e.numFloors)
    (h : ∀ f, 1 ≤ f ∧ f ≤ e.numFloors → OfFloor (pp f) isAt f) :
    ∃ v : ℤ, e.getFloor pp isAt = .ok v ∧
      ((∃ f : ℕ, (1 ≤ f ∧ f ≤ e.numFloors) ∧ v = f) ∨
        (v = -1 ∧ ∀ f, 1 ≤ f ∧ f ≤ e.numFloors → ¬ e.Sees (pp f) isAt)) := by
  obtain ⟨floor, hv, hnearest⟩ | ⟨hv, hnone⟩ := getFloor_cases hcur h
  · exact ⟨_, hv, .inl ⟨floor, hnearest.exists_floor, rfl⟩⟩
  · exact ⟨_, hv, .inr ⟨rfl, hnone⟩⟩

/-- **`getFloor` picks the nearest candidate**: -1 exactly when no list has an entry that it looks
for, and otherwise the nearest floor with one, the upper one of two. -/
theorem getFloor_nearest (hcur : 1 ≤ e.currentFloor ∧ e.currentFloor ≤ e.numFloors)
    (h : ∀ f, 1 ≤ f ∧ f ≤ e.numFloors → OfFloor (pp f) isAt f) :
    ∃ v : ℤ, e.getFloor pp isAt = .ok v ∧
      (v = -1 ↔ ∀ f, 1 ≤ f ∧ f ≤ e.numFloors → ¬ e.Sees (pp f) isAt) ∧
      (v ≠ -1 → ∃ floor : ℕ, v = floor ∧ e.Nearest pp isAt floor) := by
  obtain ⟨floor, hv, hnearest⟩ | ⟨hv, hnone⟩ := getFloor_cases hcur h
  · refine ⟨floor, hv, ⟨fun heq => by omega, fun hnone => ?_⟩, fun _ => ⟨floor, rfl, hnearest⟩⟩
    exact absurd hnearest.sees (hnone floor hnearest.exists_floor)
  · exact ⟨-1, hv, iff_of_true rfl hnone, fun hne => absurd rfl hne⟩

/-- Behind a tombstone, a person waits on the second floor and one on the fourth. -/
def twoWait (floor : ℕ) : Persons := fun i =>
  if i = 0 then .removed
  else if i = 1 ∧ (floor = 2 ∨ floor = 4) then .person ⟨floor, floor, 1⟩
  else .null

/-- An elevator between them. -/
def between : ELEVATOR where
  personsWaiting := fun _ => 0
  occupancy := 0
  numFloors := 5
  personsOn := fun _ => .null
  listEntering := twoWait
  listLeaving := fun _ _ => .null
  currentFloor := 3

lemma ofFloor_twoWait : OfFloor (twoWait floor) true floor := by
  refine ⟨.inr (.inr (.inl rfl)), fun p hp => ?_⟩
  by_cases hf : floor = 2 ∨ floor = 4
  · have hentries : entries (twoWait floor) = [⟨floor, floor, 1⟩] := by
      simp [entries, tp, entriesFrom, twoWait, hf]
    rw [hentries, List.mem_singleton] at hp
    rw [hp]
    rfl
  · have hentries : entries (twoWait floor) = [] := by
      simp [entries, tp, entriesFrom, twoWait, hf]
    rw [hentries] at hp
    cases hp

/-- Two persons are equally near. -/
theorem getFloor_nearest_between : ∃ v : ℤ, between.getFloor twoWait true = .ok v ∧
    (v = -1 ↔ ∀ f, 1 ≤ f ∧ f ≤ 5 → ¬ between.Sees (twoWait f) true) ∧
    (v ≠ -1 → ∃ floor : ℕ, v = floor ∧ between.Nearest twoWait true floor) :=
  getFloor_nearest (e := between) (by decide) fun _ _ => ofFloor_twoWait

example : between.getFloor twoWait true = .ok 4 := by decide +kernel

end Loop

/-! ### The course of the elevator -/

/-- The floors that the elevator is on its way to, or -1. -/
def Label.targets : Label → List ℤ
  | .start frm dst | .awake frm dst | .scan frm dst | .spin frm dst _ | .choose frm dst
  | .depart frm dst | .rest frm dst _ => [frm, dst]
  | .board dst | .more _ _ dst | .signalled _ _ dst | .unlist _ _ _ dst => [dst]
  | .alight frm | .alighted _ frm | .clear frm _ _ | .unlistLeaving _ frm _ _ => [frm]
  | _ => []

/-- Where the elevator has stopped at a floor. -/
def Label.stops : Label → Bool
  | .board .. | .more .. | .signalled .. | .unlist .. | .alight .. | .alighted .. | .clear ..
  | .unlistLeaving .. => true
  | _ => false

/-- **The invariant**: the elevator is at a floor, if there is one, and on its way to floors. -/
structure OnCourse (cfg : Config) (s : State Label Shared) : Prop where
  numFloors : ∀ e, s.shared.e = some e → e.numFloors = cfg.numFloors
  currentFloor : 1 ≤ cfg.numFloors → ∀ e, s.shared.e = some e → cfg.IsFloor e.currentFloor
  targets : ∀ t c, (s.loc t).label = some c → ∀ v ∈ c.targets, v ≤ cfg.numFloors
  stops : ∀ t c, (s.loc t).label = some c → c.stops = true → 1 ≤ cfg.numFloors

section Course

lemma ElevatorRun.ofFloor_entering (h : ElevatorRun cfg tr s) (he : s.shared.e = some e)
    (hfloor : cfg.IsFloor floor) : OfFloor (e.listEntering floor) true floor :=
  ⟨(h.listed hfloor he).ends, (h.listed hfloor he).place⟩

lemma ElevatorRun.ofFloor_leaving (h : ElevatorRun cfg tr s) (he : s.shared.e = some e)
    (hfloor : cfg.IsFloor floor) : OfFloor (e.listLeaving floor) false floor :=
  ⟨(h.bound hfloor he).ends, (h.bound hfloor he).place⟩

lemma move_within {frm dst : ℤ} (hn : e.numFloors = cfg.numFloors)
    (hcur : cfg.IsFloor e.currentFloor) (hfrm : frm ≤ cfg.numFloors) (hdst : dst ≤ cfg.numFloors) :
    cfg.IsFloor (e.move frm dst).1 := by
  obtain ⟨hlow, hhigh⟩ := hcur
  have hmiddle : cfg.IsFloor (if frm = -1 ∧ dst = -1 then ELEVATOR.toward e.middle e.currentFloor
      else e.currentFloor) := by
    simp only [ELEVATOR.toward, ELEVATOR.middle, hn]
    constructor <;> split_ifs <;> omega
  unfold ELEVATOR.move
  generalize (if frm = -1 ∧ dst = -1 then ELEVATOR.toward e.middle e.currentFloor
      else e.currentFloor) = floor at hmiddle
  obtain ⟨hlow', hhigh'⟩ := hmiddle
  dsimp only
  split
  · simp only [ELEVATOR.toward]
    constructor <;> split_ifs <;> omega
  · split
    · simp only [ELEVATOR.toward]
      constructor <;> split_ifs <;> omega
    · exact ⟨hlow', hhigh'⟩

lemma target_le {pp : ℕ → Persons} {isAt : Bool} {frm frm' : ℤ}
    (hn : e.numFloors = cfg.numFloors) (hcur : 1 ≤ cfg.numFloors → cfg.IsFloor e.currentFloor)
    (h : ∀ f, cfg.IsFloor f → OfFloor (pp f) isAt f) (hfrm : frm ≤ cfg.numFloors)
    (ht : e.target frm pp isAt = .ok frm') : frm' ≤ cfg.numFloors := by
  rw [ELEVATOR.target] at ht
  split at ht
  · obtain hzero | hpos := Nat.eq_zero_or_pos cfg.numFloors
    · rw [ELEVATOR.getFloor, hn, hzero] at ht
      cases ht
      omega
    have hcur := hcur hpos
    obtain ⟨v, hv, hcases⟩ := @getFloor_spec e pp isAt (by rw [hn]; exact hcur)
      (by rw [hn]; exact h)
    rw [hv] at ht
    cases ht
    obtain ⟨f, ⟨-, hf⟩, rfl⟩ | ⟨rfl, -⟩ := hcases <;> omega
  · cases ht
    exact hfrm

/-- The code goes on with the targets it had, or with none. -/
lemma Quiet.targets (h : Quiet r c call) (posts : c.posts = false) {c' : Label}
    (hc' : call.label = some c') {v : ℤ} (hv : v ∈ c'.targets) : v ∈ c.targets ∨ v = -1 := by
  cases h with
  | arrive | pause | leave | arriving | scanActive | scan | nobody | signalled | unlist | alighted
  | clear | cleared | unlistLeaving | enlist | getOn | gotOn | press | getOff => cases posts
  | full =>
    cases hc'
    simp only [Label.targets, List.mem_cons, List.not_mem_nil, or_false] at hv ⊢
    exact hv.symm
  | _ =>
    cases hc'
    try exact .inl hv

/-- The elevator goes on at a label. -/
lemma OnCourse.label (h : OnCourse cfg s) (hr : ElevatorRun cfg tr s) (he : s.shared.e = some e)
    (hl : (s.loc s.currentThread).label = some c)
    (hdeed : Deed cfg r c (some e) (some e') call) (hc : c ≠ .elevatorThread) {c' : Label}
    (hc' : call.label = some c') {v : ℤ} (hv : v ∈ c'.targets) : v ≤ cfg.numFloors := by
  have hbefore : ∀ v ∈ c.targets, v ≤ cfg.numFloors := h.targets _ c hl
  have hone : (-1 : ℤ) ≤ cfg.numFloors := by omega
  cases hdeed with
  | quiet quiet posts =>
    obtain hv | rfl := quiet.targets posts hc' hv
    · exact hbefore v hv
    · exact hone
  | @scan _ frm dst frm' dst' n entering leaving active =>
    have hfrm : frm' ≤ cfg.numFloors := target_le (h.numFloors e he) (h.currentFloor · e he)
      (fun f hf => hr.ofFloor_entering he hf) (hbefore frm (by simp [Label.targets])) entering
    have hdst : dst' ≤ cfg.numFloors := target_le (h.numFloors e he) (h.currentFloor · e he)
      (fun f hf => hr.ofFloor_leaving he hf) (hbefore dst (by simp [Label.targets])) leaving
    have hv' : v = frm' ∨ v = dst' := by
      split at hc' <;> cases hc' <;> simpa [Label.targets] using hv
    obtain rfl | rfl := hv'
    · exact hfrm
    · exact hdst
  | @choose _ frm dst =>
    refine hbefore v ?_
    cases hs : (e.move frm dst).2 <;> rw [hs] at hc' <;> cases hc' <;>
      simp only [Label.atStop, Label.targets, List.mem_cons, List.not_mem_nil, or_false] at hv ⊢
    · exact .inr hv
    · exact .inl hv
    · exact hv
  | create => exact absurd rfl hc
  | nobody =>
    cases hc'
    obtain rfl | hv := List.mem_cons.1 hv
    · exact hone
    · exact hbefore v hv
  | @cleared _ frm =>
    cases hc'
    obtain rfl | hv := List.mem_cons.1 hv
    · exact hbefore v (.head _)
    · rw [List.mem_singleton.1 hv]
      exact hone
  | _ => cases hc' <;> exact hbefore v hv

/-- The elevator stops at floors. -/
lemma OnCourse.stop (h : OnCourse cfg s) (hl : (s.loc s.currentThread).label = some c)
    (hdeed : Deed cfg r c (some e) (some e') call) {c' : Label} (hc' : call.label = some c')
    (hstops : c'.stops = true) : 1 ≤ cfg.numFloors := by
  have hbefore := h.stops _ c hl
  have htargets := h.targets _ c hl
  cases hdeed with
  | quiet quiet posts =>
    cases quiet with
    | arrive | pause | leave | arriving | scanActive | scan | nobody | signalled | unlist | alighted
    | clear | cleared | unlistLeaving | enlist | getOn | gotOn | press | getOff => cases posts
    | _ => cases hc' <;> first | exact hbefore rfl | cases hstops
  | scan => split at hc' <;> cases hc' <;> cases hstops
  | @choose _ frm dst =>
    have hpos : 0 < frm ∨ 0 < dst := by
      by_contra hnot
      have hnone : (e.move frm dst).2 = .none := by
        unfold ELEVATOR.move
        rw [if_neg fun h => hnot (.inl h.1), if_neg fun h => hnot (.inr h)]
      rw [hnone] at hc'
      cases hc'
      cases hstops
    have hfrm := htargets frm (.head _)
    have hdst := htargets dst (.tail _ (.head _))
    omega
  | _ => cases hc' <;> first | exact hbefore rfl | cases hstops

theorem ElevatorRun.onCourse (h : ElevatorRun cfg tr s) : OnCourse cfg s := by
  refine h.invariant (I := fun _ s => OnCourse cfg s) ⟨fun e he => ?_, fun _ e he => ?_,
    fun t c hl v hv => ?_, fun t c hl hstops => ?_⟩ fun {tr s es s'} hr hi hs => ?_
  · cases he
  · cases he
  · rcases start_label t with h | h <;> rw [h] at hl <;> cases hl
    cases hv
  · rcases start_label t with h | h <;> rw [h] at hl <;> cases hl
    cases hstops
  rcases ElevatorRun.turn hr hs with ⟨new, r, c, call, hran⟩ | ⟨hshared, hlabel, -⟩
  · have hobject : ∀ e', s'.shared.e = some e' →
        e'.numFloors = cfg.numFloors ∧ (1 ≤ cfg.numFloors → cfg.IsFloor e'.currentFloor) := by
      intro e' he'
      rcases hran.shared_cases he' with ⟨-, rfl⟩ | ⟨e, he, hc, hdeed⟩
      · exact ⟨rfl, fun hn => ⟨Nat.le_refl 1, hn⟩⟩
      · have hnum := hi.numFloors e he
        have hcur := (hi.currentFloor · e he)
        have htargets := hi.targets _ c hran.label
        cases hdeed with
        | choose =>
          exact ⟨hnum, fun hn => move_within hnum (hcur hn) (htargets _ (.head _))
            (htargets _ (.tail _ (.head _)))⟩
        | create => exact absurd rfl hc
        | _ => exact ⟨hnum, hcur⟩
    -- where the running thread goes on
    have hself : ∀ c₁, call.label = some c₁ → (∀ v ∈ c₁.targets, v ≤ cfg.numFloors) ∧
        (c₁.stops = true → 1 ≤ cfg.numFloors) := by
      intro c₁ hl
      cases he' : s'.shared.e with
      | some e' =>
        rcases hran.shared_cases he' with ⟨rfl, -⟩ | ⟨e, he, hc, hdeed⟩
        · have hdeed := hran.deed
          generalize s.shared.e = oe at hdeed
          generalize s'.shared.e = oe' at hdeed
          cases hdeed with
          | quiet quiet => cases quiet
          | create =>
            cases hl
            refine ⟨fun v hv => ?_, nofun⟩
            simp only [Label.targets, List.mem_cons, List.not_mem_nil, or_false, or_self] at hv
            omega
        · exact ⟨fun v hv => hi.label hr he hran.label hdeed hc hl hv,
            hi.stop hran.label hdeed hl⟩
      | none =>
        -- there is no elevator yet
        have hearly := (ElevatorRun.created (.snoc hr hs)).early he' s.currentThread c₁
          (hran.label'.trans hl)
        refine ⟨fun v hv => ?_, fun hstops => ?_⟩
        · cases c₁ <;> first | cases hearly; done | cases hv
        · cases c₁ <;> first | cases hearly; done | cases hstops
    have hlabel : ∀ t c₁, (s'.loc t).label = some c₁ → (∀ v ∈ c₁.targets, v ≤ cfg.numFloors) ∧
        (c₁.stops = true → 1 ≤ cfg.numFloors) := by
      intro t c₁ hl
      cases label_after hran.place hran.other t with
      | self current label => exact hself c₁ (label ▸ hl)
      | other ht loc => exact ⟨hi.targets t c₁ (loc ▸ hl), hi.stops t c₁ (loc ▸ hl)⟩
      | forked ht hnew hcall unborn fresh =>
        subst hcall
        rw [fresh] at hl
        cases hl
        rcases hran.act.fork_cases with ⟨-, -, rfl⟩ | ⟨p, rfl⟩ | ⟨-, rfl, -⟩ <;>
          exact ⟨fun v hv => absurd hv List.not_mem_nil, nofun⟩
    exact ⟨fun e' he' => (hobject e' he').1, fun hn e' he' => (hobject e' he').2 hn,
      fun t c₁ hl => (hlabel t c₁ hl).1, fun t c₁ hl => (hlabel t c₁ hl).2⟩
  · exact ⟨fun e he => hi.numFloors e (hshared ▸ he),
      fun hn e he => hi.currentFloor hn e (hshared ▸ he),
      fun t c hl => hi.targets t c (hlabel t ▸ hl), fun t c hl => hi.stops t c (hlabel t ▸ hl)⟩

end Course

end Nachos.Elevator
