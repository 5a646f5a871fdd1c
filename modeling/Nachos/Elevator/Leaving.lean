import Nachos.Elevator.Entering

/-!
# Who waits to get off, and `listLeaving`

A person gets into the list and waits without giving `elevatorLock` up between, so that `Broadcast`
wakes all who are in the list. The elevator removes as many entries as it woke persons, with the
lock, and leaves the list empty.
-/

namespace Nachos.Elevator

open Lib (Roll)
open Threads

variable {cfg : Config} {s s' : State Label Shared} {es tr : List (Event Label)} {e e' : ELEVATOR}
  {r : Ret} {c : Label} {call : Call Label} {floor : ℕ}

/-! ### The debt of the elevator -/

/-- Is the elevator at the floor? -/
def ELEVATOR.isAt (e : ELEVATOR) (floor : ℕ) : Bool := e.currentFloor = floor

/-- At a floor: the persons woken by `Broadcast` whose entries the elevator has not removed. -/
def leavingDebtOf (floor : ℕ) (here : Bool) (c : Option Label) (woken : ℕ) : ℕ :=
  match c with
  | some (.alighted floor' _) => if floor' = floor then woken else 0
  | some (.clear _ i j) | some (.unlistLeaving _ _ i j) => if here then i - j else 0
  | _ => 0

def leavingDebt (floor : ℕ) (here : Bool) (l : Loc Label) : ℕ :=
  leavingDebtOf floor here l.label l.woken

/-- `Broadcast` has found the queue of the floor empty. -/
def clearsOf (floor : ℕ) (here : Bool) (c : Option Label) (broadcasting : Bool) : Prop :=
  match c with
  | some (.alighted floor' _) => floor' = floor ∧ broadcasting = false
  | some (.clear ..) | some (.unlistLeaving ..) => here = true
  | _ => False

def Clears (floor : ℕ) (here : Bool) (l : Loc Label) : Prop :=
  clearsOf floor here l.label l.broadcasting

/-- The person is in `listLeaving`, and has not been woken. -/
def Label.bound (floor : ℕ) (c : Label) (waiting : Prop) : Prop :=
  match c with
  | .seated ρ => ρ.person.toFloor = floor
  | .arrived ρ => ρ.person.toFloor = floor ∧ waiting
  | _ => False

lemma ofRiders_bound (floor : ℕ) : OfRiders (Label.bound floor) := by
  intro c w hk
  cases c <;> first | exact ⟨_, rfl⟩ | cases hk

/-- **The invariant** of a floor. -/
structure Bound (floor : ℕ) (s : State Label Shared) (e : ELEVATOR) : Prop where
  ends : Ends (e.listLeaving floor)
  covered : ∃ m u, RollOf (Label.bound floor) s m ∧
    Debt (fun t => leavingDebt floor (e.isAt floor) (s.loc t)) u.card ∧
      (entries (e.listLeaving floor) : Multiset Person) = m + u
  cleared : ∀ t, Clears floor (e.isAt floor) (s.loc t) → ∀ x, ¬ Belongs (Label.bound floor) s x
  entry : ∀ t p frm i j, (s.loc t).label = some (.unlistLeaving p frm i j) →
    e.isAt floor = true → p ∈ entries (e.listLeaving floor)
  place : ∀ p ∈ entries (e.listLeaving floor), p.toFloor = floor

/-- From `Broadcast` to the end of the loop after it. -/
def Label.leaves : Label → Bool
  | .alighted .. | .clear .. | .unlistLeaving .. => true
  | _ => false

section Lemmas

variable {t : Tid} {new : Tid}

lemma leavingDebt_eq_zero {here : Bool} {l : Loc Label}
    (h : ∀ c, l.label = some c → c.leaves = false) : leavingDebt floor here l = 0 := by
  unfold leavingDebt
  cases hl : l.label with
  | none => rfl
  | some c =>
    have hc := h c hl
    cases c <;> first | rfl | cases hc

lemma Clears.leaves {here : Bool} {l : Loc Label} (h : Clears floor here l) :
    ∃ c, l.label = some c ∧ c.leaves = true := by
  unfold Clears at h
  cases hl : l.label with
  | none =>
    rw [hl] at h
    exact h.elim
  | some c =>
    rw [hl] at h
    cases c <;> first | exact ⟨_, rfl, rfl⟩ | exact h.elim

lemma ElevatorRun.holds_of_leaves (h : ElevatorRun cfg tr s) (hl : (s.loc t).label = some c)
    (hc : c.leaves = true) : (s.loc t).holds elevatorLock Label.locked = true := by
  cases c with
  | alighted | clear | unlistLeaving => exact h.holds hl rfl rfl (by simp) (by simp)
  | _ => cases hc

/-- A person between `addToPP(listLeaving[toFloor], p)` and `Wait` has `elevatorLock`. -/
lemma ElevatorRun.holds_of_seated (h : ElevatorRun cfg tr s) {ρ : Rider}
    (hl : (s.loc t).label = some (.seated ρ)) :
    (s.loc t).holds elevatorLock Label.locked = true := by
  refine holds_of_label (Loc.From.of_run h t) ((WaitInv.of_run h).good t) hl rfl (fun hm => ?_)
    fun cond n hm => ?_
  · rcases makes_acquire hm with ⟨frm, dst, he⟩ | ⟨ρ, he⟩ <;> cases he
  · rcases makes_wait hm with ⟨ρ, he⟩ | ⟨ρ, he⟩ <;> cases he

/-- Without `elevatorLock`, the code changes neither the floor nor a list for leaving. -/
lemma Deed.unlocked (h : Deed cfg r c (some e) (some e') call) (hc : c ≠ .elevatorThread)
    (hl : c.locked = false) :
    e'.currentFloor = e.currentFloor ∧ e'.listLeaving = e.listLeaving := by
  cases h with
  | create => exact absurd rfl hc
  | quiet | main | arrive | pause | leave | arriving | hailed | enlist => exact ⟨rfl, rfl⟩
  | _ => cases hl

/-- Beside a thread that clears the list, nothing happens to it. -/
lemma Ran.leaving_other (h : Ran cfg s s' new r c call) (hr : ElevatorRun cfg tr s)
    (hc : c ≠ .elevatorThread) (hdeed : Deed cfg r c (some e) (some e') call)
    (ht : t ≠ s.currentThread) {c₁ : Label} (hl : (s'.loc t).label = some c₁)
    (hleaves : c₁.leaves = true) :
    s'.loc t = s.loc t ∧ e'.currentFloor = e.currentFloor ∧ e'.listLeaving = e.listLeaving := by
  rcases h.other t ht with he | ⟨-, first, c', rfl, hu, he⟩
  · refine ⟨he, hdeed.unlocked hc ?_⟩
    rw [he] at hl
    by_contra hlocked
    exact ht (hr.exclusive (hr.holds_of_leaves hl hleaves)
      (holds_of_run h.loc (Bool.eq_true_of_not_eq_false hlocked)))
  · rw [he] at hl
    cases hl
    rcases h.act.fork_cases with ⟨-, -, rfl⟩ | ⟨p, rfl⟩ | ⟨-, rfl, -⟩ <;> cases hleaves

lemma ElevatorRun.leavingDebt_alone (h : ElevatorRun cfg tr s) {here : Bool}
    (ht : (s.loc t).holds elevatorLock Label.locked = true) {u : Tid} (hu : u ≠ t) :
    leavingDebt floor here (s.loc u) = 0 := by
  refine leavingDebt_eq_zero fun c hl => ?_
  by_contra hc
  exact hu (h.exclusive (h.holds_of_leaves hl (Bool.eq_true_of_not_eq_false hc)) ht)

lemma Ran.leavingDebt_other (h : Ran cfg s s' new r c call) (hr : ElevatorRun cfg tr s)
    (hc : c ≠ .elevatorThread) (hdeed : Deed cfg r c (some e) (some e') call)
    (ht : t ≠ s.currentThread) : leavingDebt floor (e'.isAt floor) (s'.loc t) =
      leavingDebt floor (e.isAt floor) (s.loc t) := by
  by_cases hl : ∃ c₁, (s'.loc t).label = some c₁ ∧ c₁.leaves = true
  · obtain ⟨c₁, hl, hleaves⟩ := hl
    obtain ⟨hloc, hfloor, -⟩ := h.leaving_other hr hc hdeed ht hl hleaves
    rw [hloc, ELEVATOR.isAt, ELEVATOR.isAt, hfloor]
  · have hnot : ∀ c₁, (s'.loc t).label = some c₁ → c₁.leaves = false := fun c₁ hl' =>
      Bool.eq_false_of_not_eq_true fun hc₁ => hl ⟨c₁, hl', hc₁⟩
    rw [leavingDebt_eq_zero hnot, leavingDebt_eq_zero fun c₁ hl' => ?_]
    rcases h.label_other ht with he | ⟨c', -, -, hnone⟩
    · exact hnot c₁ (he.trans hl')
    · rw [hnone] at hl'
      cases hl'

/-- The debt is as it was, but for the removal of an entry. -/
lemma Deed.leavingDebt (h : Deed cfg r c (some e) (some e') call)
    (hat : ∀ floor' frm, c = .alighted floor' frm → e.currentFloor = floor')
    (hc : ∀ p frm i j, c ≠ .unlistLeaving p frm i j) (hc' : c ≠ .elevatorThread) :
    leavingDebtOf floor (e'.isAt floor) call.label 0 =
      leavingDebtOf floor (e.isAt floor) (some c) (Loc.run (.client c) r : Loc Label).woken := by
  cases h with
  | quiet quiet posts =>
    cases quiet with
    | arrive | pause | leave | arriving | scanActive | scan | nobody | signalled | unlist | alighted
    | clear | cleared | unlistLeaving | enlist | getOn | gotOn | press | getOff => cases posts
    | _ => rfl
  | alight => simp [leavingDebtOf, Call.label]
  | @alighted _ floor' frm =>
    have hwoken : (Loc.run (.client (.alighted floor' frm)) r : Loc Label).woken = countOf r := by
      cases r <;> rfl
    rw [hwoken]
    simp [leavingDebtOf, Call.label, ELEVATOR.isAt, hat floor' frm rfl]
  | cleared done =>
    have hzero := Nat.sub_eq_zero_of_le (Nat.not_lt.1 done)
    simp [leavingDebtOf, Call.label, hzero]
  | scan => split <;> rfl
  | @choose _ frm dst => cases hs : (e.move frm dst).2 <;> rfl
  | unlistLeaving => exact absurd rfl (hc _ _ _ _)
  | create => exact absurd rfl hc'
  | _ => rfl

/-- Where the list is cleared, it was so before. -/
lemma Deed.clears (h : Deed cfg r c (some e) (some e') call)
    (hat : ∀ floor' frm, c = .alighted floor' frm → e.currentFloor = floor')
    (hc' : c ≠ .elevatorThread) {broadcasting : Bool}
    (hb : (∃ cond n c, call = .broadcast cond n c) → broadcasting = true)
    (hclears : clearsOf floor (e'.isAt floor) call.label broadcasting) :
    clearsOf floor (e.isAt floor) (some c) false := by
  cases h with
  | quiet quiet posts =>
    cases quiet with
    | arrive | pause | leave | arriving | scanActive | scan | nobody | signalled | unlist | alighted
    | clear | cleared | unlistLeaving | enlist | getOn | gotOn | press | getOff => cases posts
    | _ => exact hclears.elim
  | alight =>
    rw [hb ⟨_, _, _, rfl⟩] at hclears
    cases hclears.2
  | @alighted _ floor' frm =>
    have hfloor : e.currentFloor = floor := of_decide_eq_true hclears
    exact ⟨(hat floor' frm rfl).symm.trans hfloor, rfl⟩
  | clear | unlistLeaving => exact hclears
  | scan => split at hclears <;> exact hclears.elim
  | @choose _ frm dst => cases hs : (e.move frm dst).2 <;> rw [hs] at hclears <;> exact hclears.elim
  | create => exact absurd rfl hc'
  | _ => exact hclears.elim

/-- The class is as it was. -/
lemma Ran.belongs_iff (h : Ran cfg s s' new r c call) (hr : ElevatorRun cfg tr s)
    {K : Label → Prop → Prop} (hK : OfRiders K)
    (same : K c False ↔ ∃ c', call.label = some c' ∧ K c' (call.isWait = true)) (x : Tid) :
    Belongs K s' x ↔ Belongs K s x := by
  by_cases hx : x = s.currentThread
  · rw [hx, h.belongs hr, h.belongs', same]
  · exact h.belongs_other hK hx

end Lemmas

/-- Where the loop removes an entry, it is not at its end. -/
theorem ElevatorRun.more (h : ElevatorRun cfg tr s) {t : Tid} {p : Person} {frm : ℤ} {i j : ℕ}
    (hl : (s.loc t).label = some (.unlistLeaving p frm i j)) : j < i := by
  refine h.invariant (I := fun _ s => ∀ t p frm i j,
    (s.loc t).label = some (.unlistLeaving p frm i j) → j < i) (fun t p frm i j hl => ?_)
    (fun {tr s es s'} hr hi hs t p frm i j hl => ?_) t p frm i j hl
  · rcases start_label t with h | h <;> rw [h] at hl <;> cases hl
  · rcases ElevatorRun.turn hr hs with ⟨new, r, c, call, hran⟩ | ⟨-, hlabel, -⟩
    · cases label_after hran.place hran.other t with
      | other ht loc => exact hi t p frm i j (loc ▸ hl)
      | forked ht hnew hcall unborn fresh =>
        subst hcall
        rw [fresh] at hl
        cases hl
        rcases hran.act.fork_cases with ⟨-, -, hf⟩ | ⟨p, hf⟩ | ⟨-, hf, -⟩ <;> cases hf
      | self current label =>
        rw [label] at hl
        have hdeed := hran.deed
        generalize s.shared.e = oe at hdeed
        generalize s'.shared.e = oe' at hdeed
        cases hdeed with
        | quiet quiet posts => cases quiet <;> first | cases posts; done | cases hl
        | clear more =>
          cases hl
          exact more
        | scan => split at hl <;> cases hl
        | @choose e frm dst => cases hs : (e.move frm dst).2 <;> rw [hs] at hl <;> cases hl
        | _ => cases hl
    · exact hi t p frm i j (hlabel t ▸ hl)

/-! ### The invariant is kept -/

section Step

/-- The list is made. -/
lemma Bound.new {new : Tid} (h : Ran cfg s s' new r .elevatorThread call)
    (hr : ElevatorRun cfg tr s) (hfloor : cfg.IsFloor floor) :
    Bound floor s' (.new cfg.numFloors cfg.memory) := by
  have hlist : (ELEVATOR.new cfg.numFloors cfg.memory).listLeaving floor =
      ELEVATOR.empty (cfg.memory.listLeaving floor) :=
    if_pos ⟨hfloor.1, Nat.lt_succ_of_le hfloor.2⟩
  have he : s.shared.e = none := ((ElevatorRun.created hr).maker _ h.label).1
  have hleaves : ∀ t c, (s'.loc t).label = some c → c.leaves = false := by
    intro t c hl
    cases label_after h.place h.other t with
    | self current label =>
      rw [label] at hl
      have hdeed := h.deed
      generalize s.shared.e = oe at hdeed
      generalize s'.shared.e = oe' at hdeed
      cases hdeed with
      | quiet quiet => cases quiet
      | create =>
        cases hl
        rfl
    | other ht loc =>
      rw [loc] at hl
      have hearly := (ElevatorRun.created hr).early he t c hl
      cases c <;> first | rfl | cases hearly
    | forked ht hnew hcall unborn fresh =>
      subst hcall
      rw [fresh] at hl
      cases hl
      rcases h.act.fork_cases with ⟨-, -, rfl⟩ | ⟨p, rfl⟩ | ⟨-, rfl, -⟩ <;> rfl
  refine ⟨hlist ▸ ends_empty _,
    ⟨0, 0, h.rollOf_new hr (ofRiders_bound floor), .of_zero fun t => leavingDebt_eq_zero (hleaves t),
      ?_⟩,
    fun t hclears => ?_, fun t p frm i j hl => ?_, fun p hp => ?_⟩
  · rw [hlist, entries_empty]
    rfl
  · obtain ⟨c, hl, hc⟩ := hclears.leaves
    rw [hleaves t c hl] at hc
    cases hc
  · cases hleaves t _ hl
  · rw [hlist, entries_empty] at hp
    cases hp

/-- The elevator is at the floor where it has broadcast. -/
lemma ElevatorRun.at_alighted (hr : ElevatorRun cfg tr s) (he : s.shared.e = some e)
    (hl : (s.loc s.currentThread).label = some c) :
    ∀ floor' frm, c = .alighted floor' frm → e.currentFloor = floor' := by
  rintro floor' frm rfl
  obtain ⟨e₀, he₀, hat⟩ : AtFloor s.shared floor' :=
    hr.stopped (t := s.currentThread) (by rw [hl]; rfl)
  rw [he] at he₀
  cases he₀
  exact hat

/-- Nobody of the class is there, where the list is cleared. -/
lemma Bound.cleared_ran (h : Bound floor s e) (hr : ElevatorRun cfg tr s) (he : s.shared.e = some e)
    {new : Tid} (hran : Ran cfg s s' new r c call) (hc : c ≠ .elevatorThread)
    (hdeed : Deed cfg r c (some e) (some e') call)
    (hsub : ∀ x, Belongs (Label.bound floor) s' x → Belongs (Label.bound floor) s x) (t : Tid)
    (hclears : Clears floor (e'.isAt floor) (s'.loc t)) (x : Tid) :
    ¬ Belongs (Label.bound floor) s' x := by
  intro hx
  by_cases ht : t = s.currentThread
  · subst ht
    unfold Clears at hclears
    rw [hran.label'] at hclears
    have hbefore := hdeed.clears (hr.at_alighted he hran.label) hc hran.place.broadcasting.2 hclears
    refine h.cleared s.currentThread ?_ x (hsub x hx)
    rw [Clears, hran.loc]
    exact hbefore
  · obtain ⟨c₁, hl, hleaves⟩ := hclears.leaves
    obtain ⟨hloc, hfloor, -⟩ := hran.leaving_other hr hc hdeed ht hl hleaves
    rw [hloc, ELEVATOR.isAt, hfloor] at hclears
    exact h.cleared t hclears x (hsub x hx)

/-- The elevator removes an entry; everybody who was in the list has been woken. -/
lemma Bound.unlist (h : Bound floor s e) (hr : ElevatorRun cfg tr s) (he : s.shared.e = some e)
    {new : Tid} {p : Person} {frm : ℤ} {i j : ℕ}
    (hran : Ran cfg s s' new r (.unlistLeaving p frm i j) call)
    (hdeed : Deed cfg r (.unlistLeaving p frm i j) (some e) (some e') call) : Bound floor s' e' := by
  have hlock := holds_of_run hran.loc rfl
  obtain ⟨m, u, hm, hu, hentries⟩ := h.covered
  have hlt := hr.more hran.label
  have hself : leavingDebt floor (e.isAt floor) (s.loc s.currentThread) = u.card :=
    hu.eq_of_alone fun t ht => hr.leavingDebt_alone hlock ht
  rw [leavingDebt, hran.label] at hself
  have hsame : Label.bound floor (.unlistLeaving p frm i j) False ↔
      ∃ c', call.label = some c' ∧ Label.bound floor c' (call.isWait = true) := by
    cases hdeed with
    | quiet quiet posts => cases posts
    | unlistLeaving => simp [Label.bound, Call.label]
  have hsub := fun x => (hran.belongs_iff hr (ofRiders_bound floor) hsame x).1
  have hcleared := h.cleared_ran hr he hran (by simp) hdeed hsub
  have hm' : RollOf (Label.bound floor) s' m :=
    hm.keep hran hr (ofRiders_bound floor) hsame fun hk => hk.elim
  have hdebt : Debt (fun t => leavingDebt floor (e'.isAt floor) (s'.loc t))
      (leavingDebt floor (e'.isAt floor) (s'.loc s.currentThread)) :=
    @Debt.of_alone (fun t => leavingDebt floor (e'.isAt floor) (s'.loc t)) _ fun t ht => by
      rw [hran.leavingDebt_other hr (by simp) hdeed ht, hr.leavingDebt_alone hlock ht]
  have hafter : leavingDebt floor (e'.isAt floor) (s'.loc s.currentThread) =
      leavingDebtOf floor (e'.isAt floor) call.label 0 := by
    rw [leavingDebt, hran.label', hran.place.woken]
  -- nobody else is at such a label
  have hothers : ∀ t q frm i j, (s'.loc t).label ≠ some (.unlistLeaving q frm i j) := by
    intro t q frm' i' j' hl
    by_cases ht : t = s.currentThread
    · subst ht
      rw [hran.label'] at hl
      cases hdeed with
      | quiet quiet posts => cases posts
      | unlistLeaving => cases hl
    · obtain ⟨hloc, -, -⟩ := hran.leaving_other hr (by simp) hdeed ht hl rfl
      exact ht (hr.exclusive (hr.holds_of_leaves (hloc ▸ hl) rfl) hlock)
  cases hdeed with
  | quiet quiet posts => cases posts
  | @unlistLeaving _ _ pp _ _ _ removed =>
    by_cases hf : e.isAt floor = true
    · have hfloor : e.currentFloor = floor := of_decide_eq_true hf
      have hmem := h.entry _ _ _ _ _ hran.label hf
      rw [hfloor] at removed
      obtain ⟨pp', hpp', hends, hremoved⟩ := removeFromPP_of_mem hmem h.ends
      rw [removed] at hpp'
      cases hpp'
      have hzero : m = 0 := by
        refine hm.eq_zero (h.cleared s.currentThread ?_)
        rw [Clears, hran.label]
        exact hf
      have hcard : (entries pp : Multiset Person).card + 1 = u.card := by
        have := congrArg Multiset.card hremoved
        rw [hentries, hzero, Multiset.zero_add, Multiset.card_cons] at this
        exact this.symm
      have hj : i - j = u.card := (if_pos hf).symm.trans hself
      refine ⟨?_, ⟨m, entries pp, hm', ?_, ?_⟩, hcleared,
        fun t q frm i j hl => absurd hl (hothers t q frm i j), fun q hq => h.place q ?_⟩
      · simpa only [hfloor, Function.update_self] using hends
      · have hvalue : leavingDebt floor (e.isAt floor) (s'.loc s.currentThread) =
            (entries pp : Multiset Person).card := by
          refine hafter.trans ((if_pos hf).trans ?_)
          omega
        rw [← hvalue]
        exact hdebt
      · simp only [hfloor, Function.update_self, hzero, Multiset.zero_add]
      · simp only [hfloor, Function.update_self] at hq
        have : q ∈ (entries (e.listLeaving floor) : Multiset Person) := by
          rw [hremoved]
          exact Multiset.mem_cons_of_mem (Multiset.mem_coe.2 hq)
        exact Multiset.mem_coe.1 this
    · have hne : floor ≠ e.currentFloor := fun heq => hf (decide_eq_true heq.symm)
      have hlist : Function.update e.listLeaving e.currentFloor pp floor = e.listLeaving floor :=
        Function.update_of_ne hne ..
      refine ⟨?_, ⟨m, u, hm', ?_, ?_⟩, hcleared,
        fun t q frm i j hl => absurd hl (hothers t q frm i j), fun q hq => h.place q ?_⟩
      · simpa only [hlist] using h.ends
      · have hvalue : leavingDebt floor (e.isAt floor) (s'.loc s.currentThread) = u.card :=
          (hafter.trans (if_neg hf)).trans ((if_neg hf).symm.trans hself)
        rw [← hvalue]
        exact hdebt
      · simp only [hlist]
        exact hentries
      · simpa only [hlist] using hq

/-- A person comes to the list, or the list is as it was. -/
lemma Bound.ran (h : Bound floor s e) (hr : ElevatorRun cfg tr s) (he : s.shared.e = some e)
    (he' : s'.shared.e = some e') {new : Tid} (hran : Ran cfg s s' new r c call)
    (hc : c ≠ .elevatorThread) : Bound floor s' e' := by
  have hdeed : Deed cfg r c (some e) (some e') call := he ▸ he' ▸ hran.deed
  by_cases hunlist : ∃ p frm i j, c = .unlistLeaving p frm i j
  · obtain ⟨p, frm, i, j, rfl⟩ := hunlist
    exact h.unlist hr he hran hdeed
  have hnot : ∀ p frm i j, c ≠ .unlistLeaving p frm i j := fun p frm i j hc =>
    hunlist ⟨p, frm, i, j, hc⟩
  have hat := hr.at_alighted he hran.label
  obtain ⟨m, u, hm, hu, hentries⟩ := h.covered
  have hu' : Debt (fun t => leavingDebt floor (e'.isAt floor) (s'.loc t)) u.card := by
    refine hu.congr fun t => ?_
    by_cases ht : t = s.currentThread
    · subst ht
      rw [leavingDebt, hran.label', hran.place.woken, hdeed.leavingDebt hat hnot hc, leavingDebt,
        hran.loc]
      rfl
    · exact hran.leavingDebt_other hr hc hdeed ht
  have hentry : (∀ p ∈ entries (e.listLeaving floor), p ∈ entries (e'.listLeaving floor)) →
      ∀ t p frm i j, (s'.loc t).label = some (.unlistLeaving p frm i j) → e'.isAt floor = true →
        p ∈ entries (e'.listLeaving floor) := by
    intro hsub t p frm i j hl hfloor
    by_cases ht : t = s.currentThread
    · subst ht
      rw [hran.label'] at hl
      refine hsub p ?_
      cases hdeed with
      | quiet quiet posts => cases quiet <;> first | cases posts; done | cases hl
      | clear more first =>
        cases hl
        rw [show e.currentFloor = floor from of_decide_eq_true hfloor] at first
        exact mem_of_first h.ends first
      | scan => split at hl <;> cases hl
      | @choose _ frm dst => cases hs : (e.move frm dst).2 <;> rw [hs] at hl <;> cases hl
      | _ => cases hl
    · obtain ⟨hloc, hsame, -⟩ := hran.leaving_other hr hc hdeed ht hl rfl
      refine hsub p (h.entry t p frm i j (hloc ▸ hl) ?_)
      rw [ELEVATOR.isAt, hsame] at hfloor
      exact hfloor
  have hkeep : e'.listLeaving floor = e.listLeaving floor →
      (Label.bound floor c False ↔
        ∃ c', call.label = some c' ∧ Label.bound floor c' (call.isWait = true)) →
      (Label.bound floor c False → ∀ c', call.label = some c' → c'.rider = c.rider) →
        Bound floor s' e' := by
    intro hlist same rider
    refine ⟨hlist ▸ h.ends, ⟨m, u, hm.keep hran hr (ofRiders_bound floor) same rider, hu', ?_⟩,
      h.cleared_ran hr he hran hc hdeed fun x =>
        (hran.belongs_iff hr (ofRiders_bound floor) same x).1,
      hentry fun p hp => hlist ▸ hp, fun p hp => h.place p (hlist ▸ hp)⟩
    rw [hlist, hentries]
  rcases hdeed.rider hc with hd | hd
  · cases hd with
    | @press ρ pp added =>
      by_cases hf : ρ.person.toFloor = floor
      · subst hf
        obtain ⟨hends, hadded⟩ := addToPP_eq_ok added h.ends
        have hmem : ∀ p, p ∈ entries pp ↔
            p = ρ.person ∨ p ∈ entries (e.listLeaving ρ.person.toFloor) := by
          intro p
          rw [← Multiset.mem_coe, hadded, Multiset.mem_cons, Multiset.mem_coe]
        refine ⟨?_, ⟨_, u, hm.join hran hr (ofRiders_bound _) id rfl rfl rfl, hu', ?_⟩,
          fun t hclears => ?_, hentry fun p hp => ?_, fun p hp => ?_⟩
        · simpa only [Function.update_self] using hends
        · simp only [Function.update_self]
          rw [hadded, hentries, Multiset.cons_add]
        · -- the person has the lock
          obtain ⟨c₁, hl, hleaves⟩ := hclears.leaves
          by_cases ht : t = s.currentThread
          · subst ht
            rw [hran.label'] at hl
            cases hl
            cases hleaves
          · obtain ⟨hloc, -, -⟩ := hran.leaving_other hr hc hdeed ht hl hleaves
            exact absurd (hr.exclusive (hr.holds_of_leaves (hloc ▸ hl) hleaves)
              (holds_of_run hran.loc rfl)) ht
        · simp only [Function.update_self]
          exact (hmem p).2 (.inr hp)
        · simp only [Function.update_self] at hp
          rcases (hmem p).1 hp with rfl | hp
          · rfl
          · exact h.place p hp
      · exact hkeep (Function.update_of_ne (Ne.symm hf) ..)
          (by simp [Label.bound, Call.label, hf]) fun hk => hk.elim
    | seated =>
      refine hkeep rfl (by simp [Label.bound, Call.label, Call.isWait]) fun _ c' hc' => ?_
      cases hc'
      rfl
    | arrived => exact hkeep rfl (by simp [Label.bound, Call.label]) fun hk => (hk.2).elim
    | _ => exact hkeep rfl (by simp [Label.bound, Call.label]) fun hk => hk.elim
  · have hno : ∀ {c w}, c.rider = none → ¬ Label.bound floor c w := by
      intro c w hnone hk
      obtain ⟨ρ, hρ⟩ := ofRiders_bound floor c w hk
      rw [hnone] at hρ
      cases hρ
    refine hkeep (congrFun (hd.listLeaving hnot) floor) (iff_of_false (hno hd.before) ?_) fun hk =>
      absurd hk (hno hd.before)
    rintro ⟨c', hc', hk⟩
    exact hno (hd.after c' hc') hk

/-- `Broadcast` wakes a person, or finds the queue empty, or the kernel does something else. -/
lemma Bound.shift (h : Bound floor s e) (hr : ElevatorRun cfg tr s)
    (label : ∀ t, (s'.loc t).label = (s.loc t).label) (hs : Shift s s') : Bound floor s' e := by
  obtain ⟨m, u, hm, hu, hentries⟩ := h.covered
  have hentry : ∀ t p frm i j, (s'.loc t).label = some (.unlistLeaving p frm i j) →
      e.isAt floor = true → p ∈ entries (e.listLeaving floor) := fun t p frm i j hl =>
    h.entry t p frm i j (label t ▸ hl)
  have hdebt : ∀ {t}, (s'.loc t).woken = (s.loc t).woken →
      leavingDebt floor (e.isAt floor) (s'.loc t) = leavingDebt floor (e.isAt floor) (s.loc t) := by
    intro t ht
    rw [leavingDebt, leavingDebt, label, ht]
  have hclears : ∀ {t}, (s'.loc t).broadcasting = (s.loc t).broadcasting →
      Clears floor (e.isAt floor) (s'.loc t) → Clears floor (e.isAt floor) (s.loc t) := by
    intro t ht hc
    rwa [Clears, label, ht] at hc
  -- who is in the class now was so before
  have hbelongs : (∀ t, Waiting s' t → Waiting s t) → ∀ t, Belongs (Label.bound floor) s' t →
      Belongs (Label.bound floor) s t := by
    rintro hw t ⟨c, hl, hk⟩
    refine ⟨c, label t ▸ hl, ?_⟩
    cases c with
    | seated => exact hk
    | arrived => exact ⟨hk.1, hw t hk.2⟩
    | _ => exact hk.elim
  cases hs with
  | stays waiting took woken going =>
    refine ⟨h.ends, ⟨m, u, hm.shift label fun t c _ => ?_, hu.congr fun t => hdebt (woken t),
      hentries⟩, fun t hc x hx => ?_, hentry, h.place⟩
    · rw [show Waiting s' t = Waiting s t from propext (waiting t)]
    · exact h.cleared t (hclears (going t) hc) x (hbelongs (fun t => (waiting t).1) x hx)
  | @ends floor' frm caller nobody waiting took woken going =>
    have hlock := hr.holds_of_leaves caller rfl
    refine ⟨h.ends, ⟨m, u, hm.shift label fun t c _ => ?_, hu.congr fun t => hdebt (woken t),
      hentries⟩, fun t hc x hx => ?_, hentry, h.place⟩
    · rw [show Waiting s' t = Waiting s t from propext (waiting t)]
    · obtain ⟨c, hl, hk⟩ := hbelongs (fun t => (waiting t).1) x hx
      by_cases ht : t = s.currentThread
      · subst ht
        rw [Clears, label, caller] at hc
        obtain ⟨rfl, -⟩ := hc
        cases c with
        | seated ρ =>
          have heq := hr.exclusive (hr.holds_of_seated hl) hlock
          rw [heq, caller] at hl
          cases hl
        | arrived ρ =>
          obtain ⟨hto, hw⟩ := hk
          exact nobody x (by rw [stage, hl, ← hto]; rfl) hw
        | _ => exact hk.elim
      · exact h.cleared t (hclears (going t ht) hc) x ⟨c, hl, hk⟩
  | @signal x floor' o dst caller person was waiting before after took woken going =>
    obtain ⟨ρ, hl, -⟩ := hr.boarded_of_waiting person was
    refine ⟨h.ends, ⟨m, u, hm.shift label fun t c hl' => ?_, hu.congr fun t => hdebt (woken t),
      hentries⟩, fun t hc y hy => ?_, hentry, h.place⟩
    · by_cases ht : t = x
      · subst ht
        rw [hl] at hl'
        cases hl'
        exact Iff.rfl
      · rw [show Waiting s' t = Waiting s t from propext ((waiting t).trans (and_iff_left ht))]
    · exact h.cleared t (hclears (going t) hc) y (hbelongs (fun t hw => ((waiting t).1 hw).1) y hy)
  | @broadcast x floor' frm caller person was waiting took one woken going =>
    obtain ⟨ρ, hl, hto⟩ := hr.arrived_of_waiting person was
    have hcleared : ∀ t, Clears floor (e.isAt floor) (s'.loc t) →
        ∀ y, ¬ Belongs (Label.bound floor) s' y := fun t hc y hy =>
      h.cleared t (hclears (going t) hc) y (hbelongs (fun t hw => ((waiting t).1 hw).1) y hy)
    by_cases hf : floor' = floor
    · subst hf
      have hlock := hr.holds_of_leaves caller rfl
      have hself : leavingDebt floor' (e.isAt floor') (s.loc s.currentThread) = u.card :=
        hu.eq_of_alone fun t ht => hr.leavingDebt_alone hlock ht
      have hone : leavingDebt floor' (e.isAt floor') (s'.loc s.currentThread) = u.card + 1 := by
        rw [← hself, leavingDebt, leavingDebt, label, caller, one]
        exact (if_pos rfl).trans (congrArg (· + 1) (if_pos rfl).symm)
      obtain ⟨m', rfl, hm'⟩ := hm.wake label waiting hl rfl ⟨hto, was⟩ fun h => h.2
      refine ⟨h.ends, ⟨m', ρ.person ::ₘ u, hm', ?_, ?_⟩, hcleared, hentry, h.place⟩
      · rw [Multiset.card_cons, ← hone]
        refine @Debt.of_alone (fun t => leavingDebt floor' (e.isAt floor') (s'.loc t)) _
          fun t ht => ?_
        rw [hdebt (woken t ht)]
        exact hr.leavingDebt_alone hlock ht
      · rw [hentries, Multiset.cons_add, Multiset.add_cons]
    · have hu' : Debt (fun t => leavingDebt floor (e.isAt floor) (s'.loc t)) u.card := by
        refine hu.congr fun t => ?_
        by_cases ht : t = s.currentThread
        · subst ht
          rw [leavingDebt, leavingDebt, label, caller]
          exact (if_neg hf).trans (if_neg hf).symm
        · exact hdebt (woken t ht)
      refine ⟨h.ends, ⟨m, u, hm.shift label fun t c hl' => ?_, hu', hentries⟩, hcleared, hentry,
        h.place⟩
      by_cases ht : t = x
      · subst ht
        rw [hl] at hl'
        cases hl'
        have hne : ρ.person.toFloor ≠ floor := hto ▸ hf
        exact iff_of_false (fun hk => hne hk.1) fun hk => hne hk.1
      · rw [show Waiting s' t = Waiting s t from propext ((waiting t).trans (and_iff_left ht))]

end Step

/-- **`listLeaving`, in every run.** -/
theorem ElevatorRun.bound (h : ElevatorRun cfg tr s) (hfloor : cfg.IsFloor floor)
    (he : s.shared.e = some e) : Bound floor s e := by
  refine h.invariant (I := fun _ s => ∀ e, s.shared.e = some e → Bound floor s e)
    (fun e he => ?_) (fun {tr s es s'} hr hi hs e' he' => ?_) e he
  · cases he
  · rcases ElevatorRun.turn hr hs with ⟨new, r, c, call, hran⟩ | ⟨hshared, hlabel, hshift⟩
    · rcases hran.shared_cases he' with ⟨rfl, rfl⟩ | ⟨e, he, hc, -⟩
      · exact .new hran hr hfloor
      · exact (hi e he).ran hr he he' hran hc
    · exact (hi e' (hshared ▸ he')).shift hr hlabel hshift

end Nachos.Elevator
