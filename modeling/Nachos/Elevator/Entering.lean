import Nachos.Elevator.Riders

/-!
# Who waits to get on, and `listEntering`

A person is in the list before he waits. The elevator takes a person off the queue of `entering`
and then the first one out of the list, who need not be the same. What stays true is the number:
there are as many in the list as are still to be signalled, and one more between the two.
-/

namespace Nachos.Elevator

open Lib (Roll)
open Threads

variable {cfg : Config} {s s' : State Label Shared} {es tr : List (Event Label)} {e e' : ELEVATOR}
  {r : Ret} {c : Label} {call : Call Label} {floor : ℕ}

/-! ### Debts -/

/-- One thread at most owes something, and it is `k`. -/
def Debt (owes : Tid → ℕ) (k : ℕ) : Prop := ∃ t, owes t = k ∧ ∀ u, u ≠ t → owes u = 0

section Debt

variable {owes owes' : Tid → ℕ} {k : ℕ} {t : Tid}

lemma Debt.of_zero (h : ∀ t, owes t = 0) : Debt owes 0 := ⟨0, h 0, fun u _ => h u⟩

lemma Debt.congr (h : Debt owes k) (same : ∀ t, owes' t = owes t) : Debt owes' k := by
  rw [show owes' = owes from funext same]
  exact h

/-- The debt is that of a thread besides which nobody owes anything. -/
lemma Debt.eq_of_alone (h : Debt owes k) (alone : ∀ u, u ≠ t → owes u = 0) : owes t = k := by
  obtain ⟨t₀, rfl, hothers⟩ := h
  by_cases ht : t = t₀
  · rw [ht]
  · rw [hothers t ht, alone t₀ (Ne.symm ht)]

lemma Debt.of_alone (alone : ∀ u, u ≠ t → owes u = 0) : Debt owes (owes t) := ⟨t, rfl, alone⟩

lemma Debt.le (h : Debt owes k) (t : Tid) : owes t ≤ k := by
  obtain ⟨t₀, rfl, hothers⟩ := h
  by_cases ht : t = t₀
  · rw [ht]
  · rw [hothers t ht]
    exact Nat.zero_le _

end Debt

/-! ### The debt of the elevator -/

/-- At a floor: a person was signalled whose entry the elevator has not removed. -/
def enteringDebtOf (floor : ℕ) (c : Option Label) (took : Option Tid) : ℕ :=
  match c with
  | some (.signalled floor' _ _) => if floor' = floor then took.toList.length else 0
  | some (.unlist _ floor' _ _) => if floor' = floor then 1 else 0
  | _ => 0

def enteringDebt (floor : ℕ) (l : Loc Label) : ℕ := enteringDebtOf floor l.label l.took

/-- The person is in `listEntering`, and has not been signalled. -/
def Label.listed (floor : ℕ) (c : Label) (waiting : Prop) : Prop :=
  match c with
  | .enlisted ρ | .waits ρ => ρ.person.atFloor = floor
  | .boarded ρ => ρ.person.atFloor = floor ∧ waiting
  | _ => False

lemma ofRiders_listed (floor : ℕ) : OfRiders (Label.listed floor) := by
  intro c w hk
  cases c <;> first | exact ⟨_, rfl⟩ | cases hk

/-- **The invariant** of a floor. -/
structure Listed (floor : ℕ) (s : State Label Shared) (e : ELEVATOR) : Prop where
  ends : Ends (e.listEntering floor)
  covered : ∃ m k, RollOf (Label.listed floor) s m ∧
    Debt (fun t => enteringDebt floor (s.loc t)) k ∧
      (entries (e.listEntering floor)).length = m.card + k
  entry : ∀ t p o dst, (s.loc t).label = some (.unlist p floor o dst) →
    p ∈ entries (e.listEntering floor)
  place : ∀ p ∈ entries (e.listEntering floor), p.atFloor = floor

section Lemmas

lemma mem_of_first {pp : Persons} {p : Person} (he : Ends pp) (h : first pp = .ok (some p)) :
    p ∈ entries pp := by
  rw [first_eq he] at h
  exact List.mem_of_head? (Except.ok.inj h)

/-- Who is on a queue for entering is a person before `entering->Wait` has returned. -/
lemma ElevatorRun.boarded_of_waiting (h : ElevatorRun cfg tr s) {x : Tid}
    (hst : stage s x = .entering floor) (hw : Waiting s x) :
    ∃ ρ, (s.loc x).label = some (.boarded ρ) ∧ ρ.person.atFloor = floor := by
  obtain ⟨ρ, hl | hl⟩ := h.label_of_waiting hw
  · rw [stage, hl] at hst
    exact ⟨ρ, hl, Stage.entering.inj hst⟩
  · rw [stage, hl] at hst
    cases hst

lemma ElevatorRun.arrived_of_waiting (h : ElevatorRun cfg tr s) {x : Tid}
    (hst : stage s x = .riding floor) (hw : Waiting s x) :
    ∃ ρ, (s.loc x).label = some (.arrived ρ) ∧ ρ.person.toFloor = floor := by
  obtain ⟨ρ, hl | hl⟩ := h.label_of_waiting hw
  · rw [stage, hl] at hst
    cases hst
  · rw [stage, hl] at hst
    exact ⟨ρ, hl, Stage.riding.inj hst⟩

/-- Who owes something has `elevatorLock`. -/
lemma holds_of_enteringDebt (h : ElevatorRun cfg tr s) {t : Tid}
    (ht : enteringDebt floor (s.loc t) ≠ 0) :
    (s.loc t).holds elevatorLock Label.locked = true := by
  cases hl : (s.loc t).label with
  | none => exact absurd (by rw [enteringDebt, hl]; rfl) ht
  | some c =>
    cases c with
    | signalled | unlist => exact h.holds hl rfl rfl (by simp) (by simp)
    | _ => exact absurd (by rw [enteringDebt, hl]; rfl) ht

/-- Beside a thread with `elevatorLock`, nobody owes anything. -/
lemma ElevatorRun.enteringDebt_alone (h : ElevatorRun cfg tr s) {t : Tid}
    (ht : (s.loc t).holds elevatorLock Label.locked = true) {u : Tid} (hu : u ≠ t) :
    enteringDebt floor (s.loc u) = 0 := by
  by_contra hne
  exact hu (h.exclusive (holds_of_enteringDebt h hne) ht)

lemma Ran.enteringDebt_other {new : Tid} (h : Ran cfg s s' new r c call) {t : Tid}
    (ht : t ≠ s.currentThread) : enteringDebt floor (s'.loc t) = enteringDebt floor (s.loc t) := by
  rcases h.other t ht with he | ⟨-, first, c', rfl, hu, he⟩
  · rw [he]
  · rw [he, hu]
    rcases h.act.fork_cases with ⟨-, -, rfl⟩ | ⟨p, rfl⟩ | ⟨-, rfl, -⟩ <;> rfl

lemma Ran.enteringDebt_self {new : Tid} (h : Ran cfg s s' new r c call) :
    enteringDebt floor (s'.loc s.currentThread) = enteringDebtOf floor call.label none := by
  rw [enteringDebt, h.place.label]
  by_cases hf : ∃ first c', call = .fork first c'
  · obtain ⟨first, c', rfl⟩ := hf
    have hact := h.act
    generalize s'.shared = sh' at hact
    cases hact with
    | quiet quiet => cases quiet; rfl
    | main | create => rfl
  · rw [h.place.took fun first c' he => hf ⟨first, c', he⟩]

/-- The debt is as it was, but for the removal of the entry. -/
lemma Deed.enteringDebt (h : Deed cfg r c (some e) (some e') call)
    (hc : ∀ p floor o dst, c ≠ .unlist p floor o dst) :
    enteringDebtOf floor call.label none =
      enteringDebtOf floor (some c) (Loc.run (.client c) r : Loc Label).took := by
  cases h with
  | quiet quiet posts =>
    cases quiet with
    | arrive | pause | leave | arriving | scanActive | scan | nobody | signalled | unlist | alighted
    | clear | cleared | unlistLeaving | enlist | getOn | gotOn | press | getOff => cases posts
    | more => simp [enteringDebtOf, Call.label]
    | _ => rfl
  | signalled hthread =>
    cases r <;> cases hthread
    rfl
  | @nobody _ floor' o dst hthread =>
    have htook : (Loc.run (.client (.signalled floor' o dst)) r : Loc Label).took = none := by
      cases r <;> first | rfl | exact hthread
    rw [htook]
    simp [enteringDebtOf, Call.label]
  | scan => split <;> rfl
  | @choose _ frm dst => cases hs : (e.move frm dst).2 <;> rfl
  | unlist => exact absurd rfl (hc _ _ _ _)
  | _ => rfl

end Lemmas

/-! ### The invariant is kept -/

section Step

/-- The list is made. -/
lemma Listed.new {new : Tid} (h : Ran cfg s s' new r .elevatorThread call)
    (hr : ElevatorRun cfg tr s) (hfloor : cfg.IsFloor floor) :
    Listed floor s' (.new cfg.numFloors cfg.memory) := by
  have hlist : (ELEVATOR.new cfg.numFloors cfg.memory).listEntering floor =
      ELEVATOR.empty (cfg.memory.listEntering floor) :=
    if_pos ⟨hfloor.1, Nat.lt_succ_of_le hfloor.2⟩
  have he : s.shared.e = none := ((ElevatorRun.created hr).maker _ h.label).1
  have hlabel : ∀ t c, (s'.loc t).label = some c → (∀ p floor o dst, c ≠ .unlist p floor o dst) ∧
      ∀ floor o dst, c ≠ .signalled floor o dst := by
    intro t c hl
    cases label_after h.place h.other t with
    | self current label =>
      rw [label] at hl
      have hdeed := h.deed
      generalize s.shared.e = oe at hdeed
      generalize s'.shared.e = oe' at hdeed
      cases hdeed with
      | quiet quiet => cases quiet
      | create =>
        cases hl
        exact ⟨nofun, nofun⟩
    | other ht loc =>
      rw [loc] at hl
      have hearly := (ElevatorRun.created hr).early he t c hl
      refine ⟨?_, ?_⟩
      · rintro _ _ _ _ rfl
        cases hearly
      · rintro _ _ _ rfl
        cases hearly
    | forked ht hnew hcall unborn fresh =>
      subst hcall
      rw [fresh] at hl
      cases hl
      rcases h.act.fork_cases with ⟨-, -, rfl⟩ | ⟨p, rfl⟩ | ⟨-, rfl, -⟩ <;> exact ⟨nofun, nofun⟩
  have hdebt : ∀ t, enteringDebt floor (s'.loc t) = 0 := by
    intro t
    cases hl : (s'.loc t).label with
    | none => rw [enteringDebt, hl]; rfl
    | some c =>
      obtain ⟨hunlist, hsignalled⟩ := hlabel t c hl
      rw [enteringDebt, hl]
      cases c with
      | signalled => exact absurd rfl (hsignalled _ _ _)
      | unlist => exact absurd rfl (hunlist _ _ _ _)
      | _ => rfl
  refine ⟨hlist ▸ ends_empty _, ⟨0, 0, h.rollOf_new hr (ofRiders_listed floor), .of_zero hdebt, ?_⟩,
    fun t p o dst hl => absurd rfl ((hlabel t _ hl).1 _ _ _ _), fun p hp => ?_⟩
  · rw [hlist, entries_empty]
    rfl
  · rw [hlist, entries_empty] at hp
    cases hp

/-- The elevator removes an entry. -/
lemma Listed.unlist (h : Listed floor s e) (hr : ElevatorRun cfg tr s) (he : s.shared.e = some e)
    {new : Tid} {p : Person} {floor' : ℕ} {o dst : ℤ}
    (hran : Ran cfg s s' new r (.unlist p floor' o dst) call)
    (hdeed : Deed cfg r (.unlist p floor' o dst) (some e) (some e') call) : Listed floor s' e' := by
  have hfloor : e.currentFloor = floor' := by
    obtain ⟨e₀, he₀, hat⟩ : AtFloor s.shared floor' :=
      hr.stopped (t := s.currentThread) (by rw [hran.label]; rfl)
    rw [he] at he₀
    cases he₀
    exact hat
  have hlock := holds_of_run hran.loc rfl
  obtain ⟨m, k, hm, hk, hlen⟩ := h.covered
  have hself : enteringDebt floor (s.loc s.currentThread) = k :=
    hk.eq_of_alone fun u hu => hr.enteringDebt_alone hlock hu
  have hk' : Debt (fun t => enteringDebt floor (s'.loc t)) 0 := by
    have hdebt : enteringDebt floor (s'.loc s.currentThread) = 0 := by
      rw [hran.enteringDebt_self]
      cases hdeed with
      | quiet quiet posts => cases posts
      | unlist => rfl
    refine .of_zero fun t => ?_
    by_cases ht : t = s.currentThread
    · rw [ht, hdebt]
    · rw [hran.enteringDebt_other ht, hr.enteringDebt_alone hlock ht]
  have hm' : RollOf (Label.listed floor) s' m := by
    refine hm.keep hran hr (ofRiders_listed floor) ?_ fun hk => hk.elim
    cases hdeed with
    | quiet quiet posts => cases posts
    | unlist => simp [Label.listed, Call.label]
  -- nobody else is at such a label
  have hothers : ∀ t p o dst, (s'.loc t).label ≠ some (.unlist p floor o dst) := by
    intro t q o' dst' hl
    by_cases ht : t = s.currentThread
    · subst ht
      rw [hran.label'] at hl
      cases hdeed with
      | quiet quiet posts => cases posts
      | unlist => cases hl
    · have hdebt : enteringDebt floor (s'.loc t) ≠ 0 := by
        rw [enteringDebt, hl]
        simp [enteringDebtOf]
      rw [hran.enteringDebt_other ht] at hdebt
      exact hdebt (hr.enteringDebt_alone hlock ht)
  cases hdeed with
  | quiet quiet posts => cases posts
  | @unlist _ _ pp _ _ _ removed =>
    rw [hfloor] at removed ⊢
    by_cases hf : floor' = floor
    · subst hf
      have hmem := h.entry _ _ _ _ hran.label
      obtain ⟨pp', hpp', hends, hentries⟩ := removeFromPP_of_mem hmem h.ends
      rw [removed] at hpp'
      cases hpp'
      refine ⟨?_, ⟨m, 0, hm', hk', ?_⟩, fun t q o' dst' hl => absurd hl (hothers t q o' dst'),
        fun q hq => h.place q ?_⟩
      · simpa only [Function.update_self] using hends
      · have hcard := congrArg Multiset.card hentries
        rw [Multiset.card_cons, Multiset.coe_card, Multiset.coe_card] at hcard
        have hone : k = 1 := by
          rw [← hself, enteringDebt, hran.label]
          exact if_pos rfl
        simp only [Function.update_self]
        omega
      · simp only [Function.update_self] at hq
        have : q ∈ (entries (e.listEntering floor') : Multiset Person) := by
          rw [hentries]
          exact Multiset.mem_cons_of_mem (Multiset.mem_coe.2 hq)
        exact Multiset.mem_coe.1 this
    · have hzero : k = 0 := by
        rw [← hself, enteringDebt, hran.label]
        exact if_neg hf
      have hlist : Function.update e.listEntering floor' pp floor = e.listEntering floor :=
        Function.update_of_ne (Ne.symm hf) ..
      refine ⟨?_, ⟨m, 0, hm', hk', ?_⟩, fun t q o' dst' hl => absurd hl (hothers t q o' dst'),
        fun q hq => h.place q ?_⟩
      · simpa only [hlist] using h.ends
      · simp only [hlist]
        rw [hlen, hzero]
      · simpa only [hlist] using hq

/-- A person comes to the list, or the list is as it was. -/
lemma Listed.ran (h : Listed floor s e) (hr : ElevatorRun cfg tr s) (he : s.shared.e = some e)
    (he' : s'.shared.e = some e') {new : Tid} (hran : Ran cfg s s' new r c call)
    (hc : c ≠ .elevatorThread) : Listed floor s' e' := by
  have hdeed : Deed cfg r c (some e) (some e') call := he ▸ he' ▸ hran.deed
  by_cases hunlist : ∃ p floor o dst, c = .unlist p floor o dst
  · obtain ⟨p, floor', o, dst, rfl⟩ := hunlist
    exact h.unlist hr he hran hdeed
  have hnot : ∀ p floor o dst, c ≠ .unlist p floor o dst := fun p floor o dst hc =>
    hunlist ⟨p, floor, o, dst, hc⟩
  obtain ⟨m, k, hm, hk, hlen⟩ := h.covered
  have hk' : Debt (fun t => enteringDebt floor (s'.loc t)) k := by
    refine hk.congr fun t => ?_
    by_cases ht : t = s.currentThread
    · subst ht
      rw [hran.enteringDebt_self, hdeed.enteringDebt hnot, enteringDebt, hran.loc]
      rfl
    · exact hran.enteringDebt_other ht
  -- a thread that comes to remove an entry has found it
  have hentry : (∀ p ∈ entries (e.listEntering floor), p ∈ entries (e'.listEntering floor)) →
      ∀ t p o dst, (s'.loc t).label = some (.unlist p floor o dst) →
        p ∈ entries (e'.listEntering floor) := by
    intro hsub t p o dst hl
    cases label_after hran.place hran.other t with
    | other ht loc => exact hsub p (h.entry t p o dst (loc ▸ hl))
    | forked ht hnew hcall unborn fresh =>
      subst hcall
      rw [fresh] at hl
      cases hl
      rcases hran.act.fork_cases with ⟨-, -, hf⟩ | ⟨p, hf⟩ | ⟨-, hf, -⟩ <;> cases hf
    | self current label =>
      rw [label] at hl
      refine hsub p ?_
      cases hdeed with
      | quiet quiet posts => cases quiet <;> first | cases posts; done | cases hl
      | signalled thread first =>
        cases hl
        obtain ⟨e₀, he₀, hat⟩ : AtFloor s.shared floor :=
          hr.stopped (t := s.currentThread) (by rw [hran.label]; rfl)
        rw [he] at he₀
        cases he₀
        rw [hat] at first
        exact mem_of_first h.ends first
      | scan => split at hl <;> cases hl
      | @choose _ frm dst =>
        cases hs : (e.move frm dst).2 <;> rw [hs] at hl <;> cases hl
      | _ => cases hl
  have hsame : e'.listEntering floor = e.listEntering floor →
      Changes (Label.listed floor) c call
        (fun m => (entries (e'.listEntering floor)).length = m.card + k) m →
          Listed floor s' e' := by
    intro hlist hch
    obtain ⟨m', hm', hlen'⟩ := hm.changes hran hr (ofRiders_listed floor) hch
    exact ⟨hlist ▸ h.ends, ⟨m', k, hm', hk', hlen'⟩, hentry fun p hp => hlist ▸ hp,
      fun p hp => h.place p (hlist ▸ hp)⟩
  rcases hdeed.rider hc with hd | hd
  · cases hd with
    | @enlist ρ pp added =>
      by_cases hf : ρ.person.atFloor = floor
      · subst hf
        obtain ⟨hends, hentries⟩ := addToPP_eq_ok added h.ends
        have hcard := congrArg Multiset.card hentries
        rw [Multiset.card_cons, Multiset.coe_card, Multiset.coe_card] at hcard
        have hmem : ∀ p, p ∈ entries pp ↔
            p = ρ.person ∨ p ∈ entries (e.listEntering ρ.person.atFloor) := by
          intro p
          rw [← Multiset.mem_coe, hentries, Multiset.mem_cons, Multiset.mem_coe]
        refine ⟨?_, ⟨_, k, hm.join hran hr (ofRiders_listed _) id rfl rfl rfl, hk', ?_⟩,
          hentry fun p hp => ?_, fun p hp => ?_⟩
        · simpa only [Function.update_self] using hends
        · simp only [Function.update_self, Multiset.card_cons]
          omega
        · simp only [Function.update_self]
          exact (hmem p).2 (.inr hp)
        · simp only [Function.update_self] at hp
          rcases (hmem p).1 hp with rfl | hp
          · rfl
          · exact h.place p hp
      · have hlist : Function.update e.listEntering ρ.person.atFloor pp floor =
            e.listEntering floor := Function.update_of_ne (Ne.symm hf) ..
        refine hsame hlist (.stay (by simp [Label.listed, Call.label, hf]) (fun hk => hk.elim) ?_)
        simp only [hlist]
        exact hlen
    | hailed => exact hsame rfl (.stay (by simp [Label.listed, Call.label]) (fun hk => hk.elim) hlen)
    | left => exact hsame rfl (.stay (by simp [Label.listed, Call.label]) (fun hk => hk.elim) hlen)
    | waits =>
      refine hsame rfl (.keep rfl rfl ?_ hlen)
      simp [Label.listed, Call.isWait]
    | boarded =>
      refine hsame rfl (.keep rfl rfl ?_ hlen)
      simp [Label.listed]
    | _ => exact hsame rfl (.keep rfl rfl Iff.rfl hlen)
  · have hlist := congrFun (hd.listEntering hnot) floor
    exact hsame hlist (.none (ofRiders_listed floor) hd.before hd.after (hlist.symm ▸ hlen))

/-- The elevator signals, or the kernel does something else. -/
lemma Listed.shift (h : Listed floor s e) (hr : ElevatorRun cfg tr s)
    (label : ∀ t, (s'.loc t).label = (s.loc t).label) (hs : Shift s s') : Listed floor s' e := by
  obtain ⟨m, k, hm, hk, hlen⟩ := h.covered
  have hentry : ∀ t p o dst, (s'.loc t).label = some (.unlist p floor o dst) →
      p ∈ entries (e.listEntering floor) := fun t p o dst hl => h.entry t p o dst (label t ▸ hl)
  have hdebt : ∀ {t}, (s'.loc t).took = (s.loc t).took →
      enteringDebt floor (s'.loc t) = enteringDebt floor (s.loc t) := by
    intro t ht
    rw [enteringDebt, enteringDebt, label, ht]
  have hstill : (∀ t, (s'.loc t).took = (s.loc t).took) →
      (∀ t c, (s.loc t).label = some c →
        (c.listed floor (Waiting s' t) ↔ c.listed floor (Waiting s t))) → Listed floor s' e :=
    fun took same => ⟨h.ends, ⟨m, k, hm.shift label same, hk.congr fun t => hdebt (took t), hlen⟩,
      hentry, h.place⟩
  cases hs with
  | stays waiting took | ends _ _ waiting took =>
    refine hstill took fun t c _ => ?_
    rw [show Waiting s' t = Waiting s t from propext (waiting t)]
  | @broadcast x floor' frm caller person was waiting took =>
    refine hstill took fun t c hl => ?_
    by_cases ht : t = x
    · subst ht
      obtain ⟨ρ, hl', -⟩ := hr.arrived_of_waiting person was
      rw [hl] at hl'
      cases hl'
      exact Iff.rfl
    · rw [show Waiting s' t = Waiting s t from propext ((waiting t).trans (and_iff_left ht))]
  | @signal x floor' o dst caller person was waiting before after took =>
    obtain ⟨ρ, hl, hat⟩ := hr.boarded_of_waiting person was
    by_cases hf : floor' = floor
    · subst hf
      have hlock : (s.loc s.currentThread).holds elevatorLock Label.locked = true :=
        holds_of_stopped hr (by rw [caller]; rfl)
      have hself : enteringDebt floor' (s.loc s.currentThread) = k :=
        hk.eq_of_alone fun u hu => hr.enteringDebt_alone hlock hu
      have hzero : k = 0 := by
        rw [← hself, enteringDebt, caller, before]
        exact if_pos rfl
      have hone : enteringDebt floor' (s'.loc s.currentThread) = 1 := by
        rw [enteringDebt, label, caller, after]
        exact if_pos rfl
      obtain ⟨m', rfl, hm'⟩ := hm.wake label waiting hl rfl ⟨hat, was⟩ fun h => h.2
      refine ⟨h.ends, ⟨m', 1, hm', ?_, ?_⟩, hentry, h.place⟩
      · rw [← hone]
        refine @Debt.of_alone (fun t => enteringDebt floor' (s'.loc t)) _ fun u hu => ?_
        rw [hdebt (took u hu)]
        exact hr.enteringDebt_alone hlock hu
      · rw [hlen, hzero, Multiset.card_cons]
    · have hk' : Debt (fun t => enteringDebt floor (s'.loc t)) k := by
        refine hk.congr fun t => ?_
        by_cases ht : t = s.currentThread
        · subst ht
          rw [enteringDebt, enteringDebt, label, caller]
          exact (if_neg hf).trans (if_neg hf).symm
        · exact hdebt (took t ht)
      refine ⟨h.ends, ⟨m, k, hm.shift label fun t c hl' => ?_, hk', hlen⟩, hentry, h.place⟩
      by_cases ht : t = x
      · subst ht
        rw [hl] at hl'
        cases hl'
        have hne : ρ.person.atFloor ≠ floor := hat ▸ hf
        exact iff_of_false (fun hk => hne hk.1) fun hk => hne hk.1
      · rw [show Waiting s' t = Waiting s t from propext ((waiting t).trans (and_iff_left ht))]

end Step

/-- **`listEntering`, in every run.** -/
theorem ElevatorRun.listed (h : ElevatorRun cfg tr s) (hfloor : cfg.IsFloor floor)
    (he : s.shared.e = some e) : Listed floor s e := by
  refine h.invariant (I := fun _ s => ∀ e, s.shared.e = some e → Listed floor s e)
    (fun e he => ?_) (fun {tr s es s'} hr hi hs e' he' => ?_) e he
  · cases he
  · rcases ElevatorRun.turn hr hs with ⟨new, r, c, call, hran⟩ | ⟨hshared, hlabel, hshift⟩
    · rcases hran.shared_cases he' with ⟨rfl, rfl⟩ | ⟨e, he, hc, -⟩
      · exact .new hran hr hfloor
      · exact (hi e he).ran hr he he' hran hc
    · exact (hi e' (hshared ▸ he')).shift hr hlabel hshift

end Nachos.Elevator
