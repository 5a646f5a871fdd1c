import Nachos.Elevator.Passengers

/-!
# What the counters say when the persons are at rest

The constructor sets neither `occupancy` nor `personsWaiting`. What the memory held there stays in
them, and in what `active` adds up: the counters say who is there if and only if it was zero.
-/

namespace Nachos.Elevator

open Lib (Roll ok_bind)
open Threads

variable {cfg : Config} {s s' : State Label Shared} {es tr : List (Event Label)} {e e' : ELEVATOR}
  {r : Ret} {c : Label} {call : Call Label} {floor : ℕ} {t : Tid}

/-! ### The statement -/

/-- The person has got out of the elevator, and is counted out. -/
def Label.gone : Label → Bool
  | .left .. | .home .. | .done => true
  | _ => false

/-- **Every person has left, or is in one of the two calls of `Wait`.** -/
def AtRest (s : State Label Shared) : Prop :=
  ∀ t c, (s.loc t).label = some c → c.role = .person →
    c.gone = true ∨ (∃ ρ, c = .boarded ρ) ∨ ∃ ρ, c = .arrived ρ

/-- Every person has left. -/
def AllLeft (s : State Label Shared) : Prop :=
  ∀ t c, (s.loc t).label = some c → c.role = .person → c.gone = true

/-- **The counters say who is there.** -/
structure Faithful (cfg : Config) (s : State Label Shared) (e : ELEVATOR) : Prop where
  occupancy : e.occupancy = (entries e.personsOn).length
  personsWaiting : ∀ floor, cfg.IsFloor floor → ∃ ts : Finset Tid,
    (∀ t, t ∈ ts ↔ Belongs (Label.hailing floor) s t) ∧ e.personsWaiting floor = ts.card
  active : e.active = .ok 0 ↔ AllLeft s

/-- The memory that the constructor leaves in the counters is zero. -/
structure Config.Zeroed (cfg : Config) : Prop where
  occupancy : cfg.memory.occupancy = 0
  personsWaiting : ∀ floor, cfg.IsFloor floor → cfg.memory.personsWaiting floor = 0

/-! ### Who the elevator has woken -/

/-- The person has been signalled, and has not got on. -/
def Label.called (floor : ℕ) (c : Label) (waiting : Prop) : Prop :=
  match c with
  | .boarded ρ => ρ.person.atFloor = floor ∧ ¬ waiting
  | _ => False

/-- The person has been woken, and has not got off. -/
def Label.roused (floor : ℕ) (c : Label) (waiting : Prop) : Prop :=
  match c with
  | .arrived ρ => ρ.person.toFloor = floor ∧ ¬ waiting
  | _ => False

lemma ofRiders_called (floor : ℕ) : OfRiders (Label.called floor) := by
  intro c w hk
  cases c <;> first | exact ⟨_, rfl⟩ | cases hk

lemma ofRiders_roused (floor : ℕ) : OfRiders (Label.roused floor) := by
  intro c w hk
  cases c <;> first | exact ⟨_, rfl⟩ | cases hk

/-- **The invariant**: as long as the elevator is to remove an entry, it has woken somebody who is
still there, since he needs the lock that the elevator has. -/
structure Accompanied (s : State Label Shared) : Prop where
  entering : ∀ t floor, enteringDebt floor (s.loc t) ≠ 0 → ∃ x, Belongs (Label.called floor) s x
  leaving : ∀ e t floor, s.shared.e = some e → leavingDebt floor (e.isAt floor) (s.loc t) ≠ 0 →
    ∃ x, Belongs (Label.roused floor) s x

section Accompanied

lemma stops_of_enteringDebt (hl : (s.loc t).label = some c)
    (ht : enteringDebt floor (s.loc t) ≠ 0) : c.stops = true := by
  rw [enteringDebt, hl] at ht
  cases c <;> first | rfl | exact absurd rfl ht

lemma stops_of_leavingDebt {here : Bool} (hl : (s.loc t).label = some c)
    (ht : leavingDebt floor here (s.loc t) ≠ 0) : c.stops = true ∧ c.leaves = true := by
  rw [leavingDebt, hl] at ht
  cases c <;> first | exact ⟨rfl, rfl⟩ | exact absurd rfl ht

/-- Who was woken stays, while another thread has the lock. -/
lemma Ran.still_belongs {K : Label → Prop → Prop} {new : Tid} (h : Ran cfg s s' new r c call)
    (hr : ElevatorRun cfg tr s) (hK : OfRiders K)
    (hlocked : ∀ c, K c False → c.locked = true ∧ c.stops = false)
    (ht : (s.loc t).holds elevatorLock Label.locked = true)
    (hstops : ∀ c, (s.loc t).label = some c → c.stops = true)
    (hx : ∃ x, Belongs K s x) : ∃ x, Belongs K s' x := by
  obtain ⟨x, hx⟩ := hx
  have hne : x ≠ s.currentThread := by
    rintro rfl
    have hk := (h.belongs hr).1 hx
    obtain ⟨hlock, hnot⟩ := hlocked c hk
    have heq := hr.exclusive ht (holds_of_run h.loc hlock)
    rw [hstops c (heq ▸ h.label)] at hnot
    cases hnot
  exact ⟨x, (h.belongs_other hK hne).2 hx⟩

/-- The code of a thread before the elevator is made, or that makes it, leaves it nothing to
remove. -/
lemma Ran.unstopped {new : Tid} (h : Ran cfg s s' new r c call) (hr : ElevatorRun cfg tr s)
    (hr' : ElevatorRun cfg (tr ++ es) s') (hc : s'.shared.e = none ∨ c = .elevatorThread)
    {c₁ : Label} (hl : (s'.loc t).label = some c₁) : c₁.stops = false := by
  have hearly : c₁.early = true → c₁.stops = false := by
    intro he
    cases c₁ <;> first | rfl | cases he
  obtain he' | rfl := hc
  · exact hearly ((ElevatorRun.created hr').early he' t c₁ hl)
  · have he : s.shared.e = none := ((ElevatorRun.created hr).maker _ h.label).1
    cases label_after h.place h.other t with
    | self current label =>
      rw [label] at hl
      have hdeed := h.deed
      generalize s.shared.e = oe at hdeed
      generalize s'.shared.e = oe' at hdeed
      cases hdeed with
      | quiet quiet => cases quiet
      | create =>
        cases hl
        rfl
    | other ht loc => exact hearly ((ElevatorRun.created hr).early he t c₁ (loc ▸ hl))
    | forked ht hnew hcall unborn fresh =>
      subst hcall
      rw [fresh] at hl
      cases hl
      rcases h.act.fork_cases with ⟨-, -, rfl⟩ | ⟨p, rfl⟩ | ⟨-, rfl, -⟩ <;> rfl

/-- What the elevator is to remove after the code has run, it was to remove before. -/
lemma Ran.enteringDebt_before {new : Tid} (h : Ran cfg s s' new r c call)
    (hr : ElevatorRun cfg tr s) (hr' : ElevatorRun cfg (tr ++ es) s')
    (hdebt : enteringDebt floor (s'.loc t) ≠ 0) : enteringDebt floor (s.loc t) ≠ 0 := by
  by_cases ht : t = s.currentThread
  · subst ht
    have hafter := hdebt
    rw [h.enteringDebt_self] at hafter
    cases hl : call.label with
    | none =>
      rw [hl] at hafter
      exact absurd rfl hafter
    | some c₁ =>
      have hl' : (s'.loc s.currentThread).label = some c₁ := h.label'.trans hl
      have hstops := stops_of_enteringDebt hl' hdebt
      have hnot : ¬ (s'.shared.e = none ∨ c = .elevatorThread) := fun hc => by
        rw [h.unstopped hr hr' hc hl'] at hstops
        cases hstops
      obtain ⟨e', he'⟩ := Option.ne_none_iff_exists'.1 fun he => hnot (.inl he)
      obtain ⟨hc, -⟩ | ⟨e, he, hc, hdeed⟩ := h.shared_cases he'
      · exact absurd (.inr hc) hnot
      by_cases hunlist : ∃ p floor o dst, c = .unlist p floor o dst
      · obtain ⟨p, floor', o, dst, rfl⟩ := hunlist
        cases hdeed with
        | quiet quiet posts => cases posts
        | unlist => exact absurd rfl hafter
      · rw [hdeed.enteringDebt fun p floor o dst hc => hunlist ⟨p, floor, o, dst, hc⟩] at hafter
        rw [enteringDebt, h.loc]
        exact hafter
  · rwa [h.enteringDebt_other ht] at hdebt

lemma Ran.leavingDebt_before {new : Tid} (h : Ran cfg s s' new r c call)
    (hr : ElevatorRun cfg tr s) (hr' : ElevatorRun cfg (tr ++ es) s') (he' : s'.shared.e = some e')
    (hdebt : leavingDebt floor (e'.isAt floor) (s'.loc t) ≠ 0) :
    ∃ e, s.shared.e = some e ∧ leavingDebt floor (e.isAt floor) (s.loc t) ≠ 0 := by
  have hnot : c ≠ .elevatorThread := by
    intro hc
    cases hl : (s'.loc t).label with
    | none => exact hdebt (leavingDebt_eq_zero fun c hl' => by rw [hl] at hl'; cases hl')
    | some c₁ =>
      have hstops := (stops_of_leavingDebt hl hdebt).1
      rw [h.unstopped hr hr' (.inr hc) hl] at hstops
      cases hstops
  obtain ⟨hc, -⟩ | ⟨e, he, hc, hdeed⟩ := h.shared_cases he'
  · exact absurd hc hnot
  refine ⟨e, he, ?_⟩
  by_cases ht : t = s.currentThread
  · subst ht
    rw [leavingDebt, h.label', h.place.woken] at hdebt
    by_cases hunlist : ∃ p frm i j, c = .unlistLeaving p frm i j
    · obtain ⟨p, frm, i, j, rfl⟩ := hunlist
      have hlt := hr.more h.label
      cases hdeed with
      | quiet quiet posts => cases posts
      | unlistLeaving =>
        by_cases hf : e.isAt floor = true
        · rw [leavingDebt, h.label]
          refine fun hzero => ?_
          have : i - j = 0 := (if_pos hf).symm.trans hzero
          omega
        · exact absurd (if_neg hf) hdebt
    · have hat := hr.at_alighted he h.label
      rw [hdeed.leavingDebt hat (fun p frm i j hc => hunlist ⟨p, frm, i, j, hc⟩) hc] at hdebt
      rw [leavingDebt, h.loc]
      exact hdebt
  · rwa [h.leavingDebt_other hr hc hdeed ht] at hdebt

lemma called_locked {c : Label} (hk : c.called floor False) :
    c.locked = true ∧ c.stops = false := by
  cases c <;> first | exact ⟨rfl, rfl⟩ | cases hk

lemma roused_locked {c : Label} (hk : c.roused floor False) :
    c.locked = true ∧ c.stops = false := by
  cases c <;> first | exact ⟨rfl, rfl⟩ | cases hk

lemma Accompanied.ran {new : Tid} (hi : Accompanied s) (h : Ran cfg s s' new r c call)
    (hr : ElevatorRun cfg tr s) (hr' : ElevatorRun cfg (tr ++ es) s') : Accompanied s' := by
  refine ⟨fun t floor hdebt => ?_, fun e' t floor he' hdebt => ?_⟩
  · have hbefore := h.enteringDebt_before hr hr' hdebt
    exact h.still_belongs hr (ofRiders_called floor) (fun c => called_locked)
      (holds_of_enteringDebt hr hbefore) (fun c hl => stops_of_enteringDebt hl hbefore)
      (hi.entering t floor hbefore)
  · obtain ⟨e, he, hbefore⟩ := h.leavingDebt_before hr hr' he' hdebt
    have hlock : (s.loc t).holds elevatorLock Label.locked = true := by
      cases hl : (s.loc t).label with
      | none => exact absurd (leavingDebt_eq_zero fun c hl' => by rw [hl] at hl'; cases hl') hbefore
      | some c₁ => exact hr.holds_of_leaves hl (stops_of_leavingDebt hl hbefore).2
    exact h.still_belongs hr (ofRiders_roused floor) (fun c => roused_locked) hlock
      (fun c hl => (stops_of_leavingDebt hl hbefore).1) (hi.leaving e t floor he hbefore)

lemma Accompanied.shift (hi : Accompanied s) (hr : ElevatorRun cfg tr s)
    (shared : s'.shared = s.shared) (label : ∀ t, (s'.loc t).label = (s.loc t).label)
    (hs : Shift s s') : Accompanied s' := by
  -- nobody comes to a queue
  have hkeep : (∀ t, Waiting s' t → Waiting s t) →
      (∀ floor, (∃ x, Belongs (Label.called floor) s x) → ∃ x, Belongs (Label.called floor) s' x) ∧
        ∀ floor, (∃ x, Belongs (Label.roused floor) s x) → ∃ x, Belongs (Label.roused floor) s' x := by
    intro hw
    refine ⟨?_, ?_⟩
    · rintro floor ⟨x, c, hl, hk⟩
      refine ⟨x, c, (label x).trans hl, ?_⟩
      cases c <;> first | exact ⟨hk.1, fun h => hk.2 (hw x h)⟩ | exact hk.elim
    · rintro floor ⟨x, c, hl, hk⟩
      refine ⟨x, c, (label x).trans hl, ?_⟩
      cases c <;> first | exact ⟨hk.1, fun h => hk.2 (hw x h)⟩ | exact hk.elim
  have hentering : ∀ {t floor}, (s'.loc t).took = (s.loc t).took →
      enteringDebt floor (s'.loc t) ≠ 0 → ∃ x, Belongs (Label.called floor) s x := by
    intro t floor ht hdebt
    rw [enteringDebt, label, ht] at hdebt
    exact hi.entering t floor hdebt
  have hleaving : ∀ {e t floor}, s'.shared.e = some e → (s'.loc t).woken = (s.loc t).woken →
      leavingDebt floor (e.isAt floor) (s'.loc t) ≠ 0 → ∃ x, Belongs (Label.roused floor) s x := by
    intro e t floor he ht hdebt
    rw [leavingDebt, label, ht] at hdebt
    exact hi.leaving e t floor (shared ▸ he) hdebt
  cases hs with
  | stays waiting took woken | ends _ _ waiting took woken =>
    obtain ⟨hcalled, hroused⟩ := hkeep fun t => (waiting t).1
    exact ⟨fun t floor hd => hcalled floor (hentering (took t) hd),
      fun e t floor he hd => hroused floor (hleaving he (woken t) hd)⟩
  | @signal x floor' o dst caller person was waiting before after took woken =>
    obtain ⟨hcalled, hroused⟩ := hkeep fun t hw => ((waiting t).1 hw).1
    refine ⟨fun t floor hd => ?_, fun e t floor he hd => hroused floor (hleaving he (woken t) hd)⟩
    by_cases ht : t = s.currentThread
    · subst ht
      rw [enteringDebt, label, caller] at hd
      have hf : floor' = floor := by
        by_contra hf
        exact hd (if_neg hf)
      obtain ⟨ρ, hl, hat⟩ := hr.boarded_of_waiting person was
      exact ⟨x, _, (label x).trans hl, hat.trans hf, fun hw => ((waiting x).1 hw).2 rfl⟩
    · exact hcalled floor (hentering (took t ht) hd)
  | @broadcast x floor' frm caller person was waiting took one woken =>
    obtain ⟨hcalled, hroused⟩ := hkeep fun t hw => ((waiting t).1 hw).1
    refine ⟨fun t floor hd => hcalled floor (hentering (took t) hd), fun e t floor he hd => ?_⟩
    by_cases ht : t = s.currentThread
    · subst ht
      rw [leavingDebt, label, caller] at hd
      have hf : floor' = floor := by
        by_contra hf
        exact hd (if_neg hf)
      obtain ⟨ρ, hl, hto⟩ := hr.arrived_of_waiting person was
      exact ⟨x, _, (label x).trans hl, hto.trans hf, fun hw => ((waiting x).1 hw).2 rfl⟩
    · exact hroused floor (hleaving he (woken t ht) hd)

theorem ElevatorRun.accompanied (h : ElevatorRun cfg tr s) : Accompanied s := by
  refine h.invariant (I := fun _ s => Accompanied s) ⟨fun t floor hd => ?_, fun e t floor he => ?_⟩
    fun {tr s es s'} hr hi hs => ?_
  · rcases start_label t with hl | hl <;> rw [enteringDebt, hl] at hd <;> exact absurd rfl hd
  · cases he
  · rcases ElevatorRun.turn hr hs with ⟨new, r, c, call, hran⟩ | ⟨hshared, hlabel, hshift⟩
    · exact hi.ran hran hr (.snoc hr hs)
    · exact hi.shift hr hshared hlabel hshift

end Accompanied

/-! ### At rest -/

section AtRest

variable {K : Label → Prop → Prop} {k : ℕ}

/-- What `active` adds up, where the lists end. -/
lemma activeTo_spec (on : Ends e.personsOn)
    (hf : ∀ floor, 1 ≤ floor → floor ≤ k → Ends (e.listLeaving floor) ∧
      Ends (e.listEntering floor) ∧ 0 ≤ e.personsWaiting floor) :
    ∃ n, e.activeTo k = .ok n ∧ 0 ≤ n ∧ (n = 0 ↔ entries e.personsOn = [] ∧
      ∀ floor, 1 ≤ floor → floor ≤ k → e.personsWaiting floor = 0 ∧
        entries (e.listLeaving floor) = [] ∧ entries (e.listEntering floor) = []) := by
  induction k with
  | zero =>
    refine ⟨(entries e.personsOn).length, ?_, Int.natCast_nonneg _, ?_⟩
    · rw [ELEVATOR.activeTo, personCount_eq on]
      rfl
    · rw [Int.natCast_eq_zero, List.length_eq_zero_iff]
      refine ⟨fun h => ⟨h, fun floor h₁ h₂ => ?_⟩, fun h => h.1⟩
      omega
  | succ k ih =>
    obtain ⟨n, hn, hpos, hzero⟩ := ih fun floor h₁ h₂ => hf floor h₁ (Nat.le_succ_of_le h₂)
    obtain ⟨hleaving, hentering, hwaiting⟩ := hf (k + 1) (Nat.succ_pos k) (Nat.le_refl _)
    refine ⟨n + e.personsWaiting (k + 1) + (entries (e.listLeaving (k + 1))).length +
      (entries (e.listEntering (k + 1))).length, ?_, by omega, ?_⟩
    · rw [ELEVATOR.activeTo, hn, personCount_eq hleaving, personCount_eq hentering]
      rfl
    · constructor
      · intro h
        obtain ⟨hon, hbelow⟩ := hzero.1 (by omega)
        refine ⟨hon, fun floor h₁ h₂ => ?_⟩
        rcases Nat.lt_or_ge k floor with hlt | hle
        · obtain rfl : floor = k + 1 := by omega
          exact ⟨by omega, List.length_eq_zero_iff.1 (by omega),
            List.length_eq_zero_iff.1 (by omega)⟩
        · exact hbelow floor h₁ hle
      · rintro ⟨hon, hall⟩
        have hbelow := hzero.2 ⟨hon, fun floor h₁ h₂ => hall floor h₁ (Nat.le_succ_of_le h₂)⟩
        obtain ⟨hw, hl, he⟩ := hall (k + 1) (Nat.succ_pos k) (Nat.le_refl _)
        rw [hbelow, hw, hl, he]
        rfl

lemma role_of_rider {ρ : Rider} (h : c.rider = some ρ) : c.role = .person := by
  cases c <;> first | rfl | cases h

/-- At rest, who is in a class is in one of the calls of `Wait`, or has left. -/
lemma AtRest.belongs (h : AtRest s) (hK : OfRiders K) (ht : Belongs K s t) :
    ∃ c, (s.loc t).label = some c ∧ K c (Waiting s t) ∧
      (c.gone = true ∨ (∃ ρ, c = .boarded ρ) ∨ ∃ ρ, c = .arrived ρ) := by
  obtain ⟨c, hl, hk⟩ := ht
  obtain ⟨ρ, hρ⟩ := hK c _ hk
  exact ⟨c, hl, hk, h t c hl (role_of_rider hρ)⟩

/-- At rest, the persons who count in `occupancy` are those in `personsOn`. -/
lemma AtRest.counted_iff (h : AtRest s) : Belongs Label.counted s t ↔ Belongs Label.on s t := by
  constructor
  · intro ht
    obtain ⟨c, hl, hk, hc | ⟨ρ, rfl⟩ | ⟨ρ, rfl⟩⟩ := h.belongs ofRiders_counted ht
    · cases c <;> first | exact hk.elim | cases hc
    · exact hk.elim
    · exact ⟨_, hl, trivial⟩
  · intro ht
    obtain ⟨c, hl, hk, hc | ⟨ρ, rfl⟩ | ⟨ρ, rfl⟩⟩ := h.belongs ofRiders_on ht
    · cases c <;> first | exact hk.elim | cases hc
    · exact hk.elim
    · exact ⟨_, hl, trivial⟩

/-- When every person has left, nobody is in a class that does not have those who have. -/
lemma AllLeft.not_belongs (h : AllLeft s) (hK : OfRiders K)
    (hgone : ∀ c w, c.gone = true → ¬ K c w) (t : Tid) : ¬ Belongs K s t := by
  rintro ⟨c, hl, hk⟩
  obtain ⟨ρ, hρ⟩ := hK c _ hk
  exact hgone c _ (h t c hl (role_of_rider hρ)) hk

variable (h : ElevatorRun cfg tr s) (he : s.shared.e = some e)

include h he

/-- `occupancy` is what the memory held, and those in `personsOn`. -/
lemma ElevatorRun.occupancy_at_rest (hrest : AtRest s) :
    e.occupancy = cfg.memory.occupancy + (entries e.personsOn).length := by
  obtain ⟨m, hm, ho⟩ := h.occupancy he
  have hon := Roll.congr (h.personsOn he).2 (fun t => hrest.counted_iff (t := t)) fun t _ => rfl
  rw [ho, Roll.unique hm hon, Multiset.coe_card]

/-- Who has to be removed from the lists is there. -/
lemma ElevatorRun.lists_empty (hall : AllLeft s) {floor : ℕ} (hfloor : cfg.IsFloor floor) :
    entries (e.listLeaving floor) = [] ∧ entries (e.listEntering floor) = [] := by
  constructor
  · obtain ⟨m, u, hm, ⟨t, ht, -⟩, hentries⟩ := (h.bound hfloor he).covered
    have hm0 := Roll.eq_zero hm <| hall.not_belongs (ofRiders_bound floor) fun c w hc hk => by
      cases c <;> first | exact hk.elim | cases hc
    have hu0 : u = 0 := by
      rw [← Multiset.card_eq_zero, ← ht]
      by_contra hdebt
      obtain ⟨x, hx⟩ := h.accompanied.leaving e t floor he hdebt
      refine hall.not_belongs (ofRiders_roused floor) (fun c w hc hk => ?_) x hx
      cases c <;> first | exact hk.elim | cases hc
    rwa [hm0, hu0, Multiset.zero_add, Multiset.coe_eq_zero] at hentries
  · obtain ⟨m, k, hm, ⟨t, ht, -⟩, hlen⟩ := (h.listed hfloor he).covered
    have hm0 := Roll.eq_zero hm <| hall.not_belongs (ofRiders_listed floor) fun c w hc hk => by
      cases c <;> first | exact hk.elim | cases hc
    have hk0 : k = 0 := by
      rw [← ht]
      by_contra hdebt
      obtain ⟨x, hx⟩ := h.accompanied.entering t floor hdebt
      refine hall.not_belongs (ofRiders_called floor) (fun c w hc hk => ?_) x hx
      cases c <;> first | exact hk.elim | cases hc
    rwa [hm0, hk0, Multiset.card_zero, Nat.zero_add, List.length_eq_zero_iff] at hlen

/-- **`active` is zero when every person has left, and not before.** -/
lemma ElevatorRun.active_at_rest (hrest : AtRest s)
    (hzero : ∀ floor, cfg.IsFloor floor → cfg.memory.personsWaiting floor = 0) :
    e.active = .ok 0 ↔ AllLeft s := by
  have hnum := h.onCourse.numFloors e he
  obtain ⟨hends, hon⟩ := h.personsOn he
  have hwaiting : ∀ floor, cfg.IsFloor floor →
      ∃ m, RollOf (Label.hailing floor) s m ∧ e.personsWaiting floor = m.card := by
    intro floor hfloor
    obtain ⟨m, hm, hw⟩ := h.personsWaiting he floor
    exact ⟨m, hm, by rw [hw, hzero floor hfloor, Int.zero_add]⟩
  obtain ⟨n, hn, -, hiff⟩ := @activeTo_spec e e.numFloors hends fun floor h₁ h₂ => by
    have hfloor : cfg.IsFloor floor := ⟨h₁, hnum ▸ h₂⟩
    obtain ⟨m, -, hw⟩ := hwaiting floor hfloor
    exact ⟨(h.bound hfloor he).ends, (h.listed hfloor he).ends, hw ▸ Int.natCast_nonneg _⟩
  rw [ELEVATOR.active, hn, Except.ok.injEq, hiff]
  constructor
  · rintro ⟨hempty, hfloors⟩ t c hl hperson
    rcases hrest t c hl hperson with hgone | ⟨ρ, rfl⟩ | ⟨ρ, rfl⟩
    · exact hgone
    · -- who has not boarded is counted at his floor
      have hat := (h.within hl rfl).1
      obtain ⟨m, hm, hw⟩ := hwaiting ρ.person.atFloor hat
      have hmem := Roll.mem hm ⟨_, hl, rfl⟩
      have hzero := (hfloors _ hat.1 (hnum ▸ hat.2)).1
      rw [hw, Int.natCast_eq_zero, Multiset.card_eq_zero] at hzero
      rw [hzero] at hmem
      exact absurd hmem (Multiset.notMem_zero _)
    · have hmem := Roll.mem hon ⟨_, hl, trivial⟩
      rw [hempty] at hmem
      exact absurd hmem (Multiset.notMem_zero _)
  · intro hall
    have hon0 := Roll.eq_zero hon <| hall.not_belongs ofRiders_on fun c w hc hk => by
      cases c <;> first | exact hk.elim | cases hc
    refine ⟨(Multiset.coe_eq_zero _).1 hon0, fun floor h₁ h₂ => ?_⟩
    · have hfloor : cfg.IsFloor floor := ⟨h₁, hnum ▸ h₂⟩
      obtain ⟨m, hm, hw⟩ := hwaiting floor hfloor
      have hm0 := Roll.eq_zero hm <| hall.not_belongs (ofRiders_hailing floor) fun c w hc hk => by
        cases c <;> first | exact hk.elim | cases hc
      exact ⟨by rw [hw, hm0]; rfl, h.lists_empty he hall hfloor⟩

end AtRest

/-- **When the persons are at rest, the counters say who is there if and only if the memory that
the constructor leaves in them was zero.** -/
theorem faithful_iff (h : ElevatorRun cfg tr s) (he : s.shared.e = some e) (hrest : AtRest s) :
    Faithful cfg s e ↔ cfg.Zeroed := by
  have hoccupancy := h.occupancy_at_rest he hrest
  constructor
  · intro hfaithful
    refine ⟨?_, fun floor hfloor => ?_⟩
    · have := hfaithful.occupancy
      omega
    · obtain ⟨ts, hts, hcard⟩ := hfaithful.personsWaiting floor hfloor
      obtain ⟨m, hm, hw⟩ := h.personsWaiting he floor
      obtain ⟨ts', hts', hcard'⟩ := Roll.card_eq hm
      have hsame : ts = ts' := Finset.ext fun t => (hts t).trans (hts' t).symm
      rw [hcard, hsame, hcard'] at hw
      omega
  · intro hzero
    refine ⟨?_, fun floor hfloor => ?_, h.active_at_rest he hrest hzero.personsWaiting⟩
    · rw [hoccupancy, hzero.occupancy, Int.zero_add]
    · obtain ⟨m, hm, hw⟩ := h.personsWaiting he floor
      obtain ⟨ts, hts, hcard⟩ := Roll.card_eq hm
      exact ⟨ts, hts, by rw [hw, hzero.personsWaiting floor hfloor, Int.zero_add, hcard]⟩

/-! ### Runs -/

/-- A test for `AtRest`, of the first threads. -/
def atRest (n : ℕ) (s : State Label Shared) : Bool :=
  (List.range n).all fun t => (s.loc t).label.all fun c =>
    c.role ≠ .person || c.gone || match c with
      | .boarded _ | .arrived _ => true
      | _ => false

lemma AtRest.of_test {n : ℕ} (hn : ∀ t, n ≤ t → s.loc t = .unborn) (h : atRest n s = true) :
    AtRest s := by
  intro t c hl hperson
  have htn : t < n := by
    by_contra hge
    rw [hn t (Nat.not_lt.1 hge)] at hl
    cases hl
  have hc := List.all_eq_true.1 h t (List.mem_range.2 htn)
  rw [hl, Option.all_some, hperson] at hc
  cases c <;> first | exact .inl rfl | exact .inr (.inl ⟨_, rfl⟩) | exact .inr (.inr ⟨_, rfl⟩) |
    cases hc

/-- An evaluation that ends at rest, with an `ELEVATOR`. -/
lemma exists_run_atRest {n : ℕ} (hn : 0 < n) {p : State Label Shared → Bool}
    (cs : List (Choice Input Empty))
    (h : Lib.passesAll (step (client cfg)) (fun ch _ => ch.new.all (· < n) && true)
      (fun s => s.shared.e.isSome && atRest n s && p s) cs start = true) :
    ∃ tr s e, ElevatorRun cfg tr s ∧ s.shared.e = some e ∧ AtRest s ∧ p s = true := by
  obtain ⟨tr, s, hr, hunborn, hs⟩ := unborn_of_passes (G := fun _ _ _ => True) hn
    (fun _ _ => trivial) cs h
  rw [Bool.and_eq_true, Bool.and_eq_true] at hs
  obtain ⟨⟨hsome, hrest⟩, hp⟩ := hs
  obtain ⟨e, he⟩ := Option.isSome_iff_exists.1 hsome
  exact ⟨tr, s, e, Lib.Run.of_guarded hr, he, .of_test hunborn hrest, hp⟩

/-- A person waits at floor 1. -/
theorem faithful_iff_one : ∃ tr s e, ElevatorRun twoFloors tr s ∧ s.shared.e = some e ∧
    AtRest s ∧ 3 ∈ s.queue (.cond (entering 1)) ∧ Faithful twoFloors s e := by
  obtain ⟨tr, s, e, hr, he, hrest, hp⟩ := @exists_run_atRest twoFloors 4 (by decide)
    (fun s => decide (3 ∈ s.queue (.cond (entering 1)))) (rideToTwo.take 60) (by decide +kernel)
  exact ⟨tr, s, e, hr, he, hrest, of_decide_eq_true hp,
    (faithful_iff hr he hrest).2 ⟨rfl, fun _ _ => rfl⟩⟩

/-- Two floors, and memory with a 3 where `occupancy` comes to lie. -/
def usedMemory : Config :=
  { twoFloors with memory := { twoFloors.memory with occupancy := 3 } }

/-- **The elevator is new, and three persons are aboard.** -/
theorem not_faithful : ¬ ∀ (cfg : Config) (tr : List (Event Label)) (s : State Label Shared)
    (e : ELEVATOR), 1 ≤ cfg.numFloors → ElevatorRun cfg tr s → s.shared.e = some e → AtRest s →
      Faithful cfg s e := by
  intro h
  obtain ⟨tr, s, e, hr, he, hrest, hp⟩ := @exists_run_atRest usedMemory 3 (by decide)
    (fun s => s.shared.e.all fun (e : ELEVATOR) =>
      decide (e.occupancy = 3 ∧ entries e.personsOn = [])) opening (by decide +kernel)
  have hfaithful := h usedMemory tr s e (by decide) hr he hrest
  rw [he, Option.all_some, decide_eq_true_iff] at hp
  have hoccupancy := hfaithful.occupancy
  rw [hp.1, hp.2] at hoccupancy
  cases hoccupancy

end Nachos.Elevator
