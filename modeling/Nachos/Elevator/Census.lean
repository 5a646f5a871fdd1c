import Nachos.Elevator.Floors
import Nachos.Elevator.Turn
import Nachos.Lib.Roll

/-!
# Who is where

Which persons a list or a counter stands for is a class of labels, some of them only as long as the
person waits. A roll is the multiset of the persons of a class; here is how it changes in a step.
-/

namespace Nachos.Elevator

open Lib (Roll)
open Threads

variable {cfg : Config} {s s' : State Label Shared} {es tr : List (Event Label)}

/-! ### Persons -/

/-- The `Rider` of a label. -/
def Label.rider : Label → Option Rider
  | .enlist ρ | .enlisted ρ | .waits ρ | .boarded ρ | .getOn ρ | .gotOn ρ | .press ρ | .seated ρ
  | .arrived ρ | .getOff ρ | .gotOff ρ | .left ρ => some ρ
  | _ => none

/-- The person of a label; the main thread has the floors of one before there is a person. -/
def Label.person : Label → Option Person
  | .arriving a b => some ⟨0, a, b⟩
  | .numbering _ p | .numbered _ p | .personThread p | .hail p | .hailed p _ => some p
  | c => c.rider.map Rider.person

/-- The person of a thread in `hailElevator`. -/
def personOf (s : State Label Shared) (t : Tid) : Person :=
  (((s.loc t).label.bind Label.rider).map Rider.person).getD ⟨0, 0, 0⟩

lemma personOf_eq {t : Tid} {c : Label} {ρ : Rider} (hl : (s.loc t).label = some c)
    (hρ : c.rider = some ρ) : personOf s t = ρ.person := by
  rw [personOf, hl, Option.bind_some, hρ]
  rfl

/-- A person goes from a floor to a floor. -/
def Person.Within (cfg : Config) (p : Person) : Prop :=
  cfg.IsFloor p.atFloor ∧ cfg.IsFloor p.toFloor

/-- The code goes on with the person it had. -/
lemma Deed.person {r : Ret} {c c' : Label} {call : Call Label} {oe oe' : Option ELEVATOR}
    (h : Deed cfg r c oe oe' call) (hc : ∀ p, c.person = some p → p.Within cfg)
    (hc' : call.label = some c' ∨ ∃ first c'', call = .fork first c'' ∧ c' = first) {p : Person}
    (hp : c'.person = some p) : p.Within cfg := by
  rcases hc' with hc' | ⟨first, c'', rfl, rfl⟩
  · cases h with
    | quiet quiet posts =>
      cases quiet <;> cases hc' <;>
        first | (cases posts; done) | exact hc p hp | cases hp
    | arrive atFloor toFloor =>
      cases hc'
      cases hp
      exact ⟨atFloor, toFloor⟩
    | arriving =>
      cases hc'
      cases hp
      exact hc ⟨0, _, _⟩ rfl
    | scan =>
      split at hc' <;> cases hc' <;> cases hp
    | @choose e frm dst => cases hs : (e.move frm dst).2 <;> rw [hs] at hc' <;> cases hc' <;> cases hp
    | _ => cases hc' <;> first | exact hc p hp | cases hp
  · cases h with
    | quiet quiet => cases quiet; exact hc p hp
    | main | create => cases hp

theorem ElevatorRun.within (h : ElevatorRun cfg tr s) {t : Tid} {c : Label} {p : Person}
    (hl : (s.loc t).label = some c) (hp : c.person = some p) : p.Within cfg := by
  refine h.invariant (I := fun _ s => ∀ t c p, (s.loc t).label = some c → c.person = some p →
    p.Within cfg) (fun t c p hl hp => ?_) (fun {tr s es s'} hr hi hs t c p hl hp => ?_) t c p hl hp
  · rcases start_label t with h | h <;> rw [h] at hl <;> cases hl
    cases hp
  · rcases ElevatorRun.turn hr hs with ⟨new, r, c₀, call, hran⟩ | ⟨-, hlabel, -⟩
    · have hcur : ∀ p, c₀.person = some p → p.Within cfg := fun p =>
        hi s.currentThread c₀ p (by rw [hran.loc]; rfl)
      cases label_after hran.place hran.other t with
      | self current label => exact hran.deed.person hcur (.inl (label ▸ hl)) hp
      | other ht loc => exact hi t c p (loc ▸ hl) hp
      | forked ht hnew hcall unborn fresh =>
        rw [fresh] at hl
        cases hl
        exact hran.deed.person hcur (.inr ⟨_, _, hcall, rfl⟩) hp
    · exact hi t c p (hlabel t ▸ hl) hp

/-! ### The elevator is where it stopped -/

theorem ElevatorRun.stopped (h : ElevatorRun cfg tr s) {t : Tid} {floor : ℕ}
    (ht : (s.loc t).label.bind Label.stopped = some floor) : AtFloor s.shared floor := by
  refine h.invariant (I := fun _ s => ∀ t floor, (s.loc t).label.bind Label.stopped = some floor →
    AtFloor s.shared floor) (fun t floor ht => ?_) (fun {tr s es s'} hr hi hs t floor ht => ?_)
    t floor ht
  · rcases start_label t with h | h <;> rw [h] at ht <;> cases ht
  · rcases ElevatorRun.turn hr hs with ⟨new, r, c, call, hran⟩ | ⟨hshared, hlabel, -⟩
    swap
    · rw [hlabel] at ht
      rw [hshared]
      exact hi t floor ht
    have hcur : (s.loc s.currentThread).label = some c := by
      rw [hran.loc]
      rfl
    -- another thread at such a label has the lock, so that the code does not move the elevator
    have hother : ∀ u, u ≠ s.currentThread → (s.loc u).label.bind Label.stopped = some floor →
        AtFloor s'.shared floor := by
      intro u hu hstop
      refine (hran.act.atFloor (fun hc => ?_) fun e frm dst hc _ => ?_).2 (hi u floor hstop)
      · subst hc
        obtain ⟨e, he, -⟩ := hi u floor hstop
        rw [(ElevatorRun.created hr).maker _ hcur |>.1] at he
        cases he
      · subst hc
        exact absurd (ElevatorRun.exclusive hr (holds_of_stopped hr hstop)
          (holds_of_run hran.loc rfl)) hu
    cases label_after hran.place hran.other t with
    | other hne loc => exact hother t hne (loc ▸ ht)
    | forked hne hnew hcall unborn fresh =>
      have hact := hran.act
      rw [hcall] at hact
      rw [fresh] at ht
      exact absurd (hact.fork_stopped.symm.trans ht) (by simp)
    | self current label =>
      rw [label] at ht
      have hnot : c ≠ .elevatorThread ∧ ∀ frm dst, c ≠ .choose frm dst := by
        have hdeed := hran.deed
        refine ⟨?_, ?_⟩
        · rintro rfl
          generalize s.shared.e = oe at hdeed
          generalize s'.shared.e = oe' at hdeed
          cases hdeed with
          | quiet quiet => cases quiet
          | create => cases ht
        · rintro frm dst rfl
          generalize s.shared.e = oe at hdeed
          generalize s'.shared.e = oe' at hdeed
          cases hdeed with
          | quiet quiet => cases quiet
          | @choose e => cases hs : (e.move frm dst).2 <;> rw [hs] at ht <;> cases ht
      refine (hran.act.atFloor hnot.1 fun e frm dst hc _ => absurd hc (hnot.2 frm dst)).2 ?_
      rcases hran.act.stopped ht with hstop | hat
      · exact hi s.currentThread floor (by rw [hcur]; exact hstop)
      · exact hat

/-! ### Classes -/

/-- The thread is at a label of the class; whether it waits may matter. -/
def Belongs (K : Label → Prop → Prop) (s : State Label Shared) (t : Tid) : Prop :=
  ∃ c, (s.loc t).label = some c ∧ K c (Waiting s t)

/-- The labels of the class have a `Rider`. -/
def OfRiders (K : Label → Prop → Prop) : Prop := ∀ c w, K c w → ∃ ρ, c.rider = some ρ

/-- `m` are the persons of the class. -/
def RollOf (K : Label → Prop → Prop) (s : State Label Shared) (m : Multiset Person) : Prop :=
  Roll (Belongs K s) (personOf s) m

section Ran

variable {K : Label → Prop → Prop} {new : Tid} {r : Ret} {c c' : Label} {call : Call Label}
  {m : Multiset Person} {t : Tid} {ρ : Rider}

lemma Ran.label (h : Ran cfg s s' new r c call) : (s.loc s.currentThread).label = some c := by
  rw [h.loc]
  rfl

lemma Ran.label' (h : Ran cfg s s' new r c call) :
    (s'.loc s.currentThread).label = call.label := h.place.label

lemma Ran.not_waiting (h : Ran cfg s s' new r c call) (hr : ElevatorRun cfg tr s) :
    ¬ Waiting s s.currentThread :=
  not_waiting_of_run (.of_run hr) h.mode h.loc

lemma Ran.belongs (h : Ran cfg s s' new r c call) (hr : ElevatorRun cfg tr s) :
    Belongs K s s.currentThread ↔ K c False := by
  have hw : Waiting s s.currentThread = False := eq_false (h.not_waiting hr)
  simp only [Belongs, h.label, Option.some_inj, hw, exists_eq_left']

lemma Ran.belongs' (h : Ran cfg s s' new r c call) : Belongs K s' s.currentThread ↔
    ∃ c', call.label = some c' ∧ K c' (call.isWait = true) := by
  have hw : Waiting s' s.currentThread = (call.isWait = true) :=
    propext ((h.waiting _).trans (by rw [if_pos rfl]))
  simp only [Belongs, h.label', hw]

/-- The other threads stay where they are; a new one is nowhere. -/
lemma Ran.label_other (h : Ran cfg s s' new r c call) (ht : t ≠ s.currentThread) :
    (s'.loc t).label = (s.loc t).label ∨
      ∃ c', (s'.loc t).label = some c' ∧ c'.rider = none ∧ (s.loc t).label = none := by
  rcases h.other t ht with he | ⟨-, first, c', rfl, hu, he⟩
  · exact .inl (by rw [he])
  · refine .inr ⟨first, by rw [he]; rfl, ?_, by rw [hu]; rfl⟩
    rcases h.act.fork_cases with ⟨-, -, rfl⟩ | ⟨p, rfl⟩ | ⟨-, rfl, -⟩ <;> rfl

lemma Ran.belongs_other (h : Ran cfg s s' new r c call) (hK : OfRiders K)
    (ht : t ≠ s.currentThread) : Belongs K s' t ↔ Belongs K s t := by
  have hw : Waiting s' t = Waiting s t := propext ((h.waiting t).trans (by rw [if_neg ht]))
  rcases h.label_other ht with he | ⟨c', hl', hnone, hl⟩
  · rw [Belongs, Belongs, he, hw]
  · refine iff_of_false ?_ ?_
    · rintro ⟨c'', hl'', hk⟩
      rw [hl'] at hl''
      cases hl''
      obtain ⟨ρ, hρ⟩ := hK _ _ hk
      rw [hnone] at hρ
      cases hρ
    · rintro ⟨c'', hl'', -⟩
      rw [hl] at hl''
      cases hl''

lemma Ran.personOf_other (h : Ran cfg s s' new r c call) (ht : t ≠ s.currentThread) :
    personOf s' t = personOf s t := by
  rcases h.label_other ht with he | ⟨c', hl', hnone, hl⟩
  · rw [personOf, he, personOf]
  · rw [personOf, personOf, hl', hl, Option.bind_some, hnone]
    rfl

/-- The person stays in the class, or outside. -/
lemma RollOf.keep (hm : RollOf K s m) (h : Ran cfg s s' new r c call) (hr : ElevatorRun cfg tr s)
    (hK : OfRiders K)
    (same : K c False ↔ ∃ c', call.label = some c' ∧ K c' (call.isWait = true))
    (rider : K c False → ∀ c', call.label = some c' → c'.rider = c.rider) : RollOf K s' m := by
  refine Roll.congr hm (fun t => ?_) fun t ht => ?_
  · by_cases htc : t = s.currentThread
    · rw [htc, h.belongs hr, h.belongs', same]
    · exact h.belongs_other hK htc
  · by_cases htc : t = s.currentThread
    · subst htc
      have hin := (h.belongs hr).1 ht
      obtain ⟨c', hl', -⟩ := same.1 hin
      rw [personOf, personOf, h.label, h.label', hl', Option.bind_some, Option.bind_some,
        rider hin c' hl']
    · exact h.personOf_other htc

/-- The person comes into the class. -/
lemma RollOf.join (hm : RollOf K s m) (h : Ran cfg s s' new r c call) (hr : ElevatorRun cfg tr s)
    (hK : OfRiders K) (out : ¬ K c False) (label : call.label = some c')
    (into : K c' (call.isWait = true)) (rider : c'.rider = some ρ) :
    RollOf K s' (ρ.person ::ₘ m) := by
  rw [← personOf_eq (h.label'.trans label) rider]
  have hcur : ¬ Belongs K s s.currentThread := fun hb => out ((h.belongs hr).1 hb)
  refine Roll.insert hm hcur (fun t => ?_) fun t ht => ?_
  · by_cases htc : t = s.currentThread
    · rw [htc]
      exact iff_of_true (h.belongs'.2 ⟨c', label, into⟩) (.inl rfl)
    · rw [h.belongs_other hK htc, or_iff_right htc]
  · exact h.personOf_other fun htc => hcur (htc ▸ ht)

/-- The person leaves the class. -/
lemma RollOf.leave (hm : RollOf K s m) (h : Ran cfg s s' new r c call) (hr : ElevatorRun cfg tr s)
    (hK : OfRiders K) (into : K c False) (rider : c.rider = some ρ)
    (out : ∀ c', call.label = some c' → ¬ K c' (call.isWait = true)) :
    ∃ m', m = ρ.person ::ₘ m' ∧ RollOf K s' m' := by
  rw [← personOf_eq h.label rider]
  have hcur : ¬ Belongs K s' s.currentThread := fun hb => by
    obtain ⟨c', hl', hk⟩ := h.belongs'.1 hb
    exact out c' hl' hk
  refine Roll.erase hm ((h.belongs hr).2 into) (fun t => ?_) fun t ht => ?_
  · by_cases htc : t = s.currentThread
    · rw [htc]
      exact iff_of_false hcur fun hb => hb.2 rfl
    · rw [h.belongs_other hK htc, and_iff_left htc]
  · exact h.personOf_other fun htc => hcur (htc ▸ ht)

end Ran

section Shift

variable {K : Label → Prop → Prop} {m : Multiset Person} {x : Tid} {c : Label} {ρ : Rider}

lemma personOf_congr (label : ∀ t, (s'.loc t).label = (s.loc t).label) (t : Tid) :
    personOf s' t = personOf s t := by
  rw [personOf, label, personOf]

/-- The kernel goes on, and wakes nobody of the class. -/
lemma RollOf.shift (hm : RollOf K s m) (label : ∀ t, (s'.loc t).label = (s.loc t).label)
    (same : ∀ t c, (s.loc t).label = some c → (K c (Waiting s' t) ↔ K c (Waiting s t))) :
    RollOf K s' m := by
  refine Roll.congr hm (fun t => ?_) fun t _ => personOf_congr label t
  rw [Belongs, Belongs, label]
  exact exists_congr fun c => and_congr_right fun hl => same t c hl

/-- A person of the class is woken, and leaves it. -/
lemma RollOf.wake (hm : RollOf K s m) (label : ∀ t, (s'.loc t).label = (s.loc t).label)
    (waiting : ∀ t, Waiting s' t ↔ Waiting s t ∧ t ≠ x) (hx : (s.loc x).label = some c)
    (rider : c.rider = some ρ) (into : K c (Waiting s x)) (out : ¬ K c False) :
    ∃ m', m = ρ.person ::ₘ m' ∧ RollOf K s' m' := by
  rw [← personOf_eq hx rider]
  refine Roll.erase hm ⟨c, hx, into⟩ (fun t => ?_) fun t _ => personOf_congr label t
  rw [Belongs, label]
  by_cases ht : t = x
  · subst ht
    refine iff_of_false ?_ fun hb => hb.2 rfl
    rintro ⟨c', hl', hk⟩
    rw [hx] at hl'
    cases hl'
    rw [show Waiting s' t = False from eq_false fun hw => ((waiting t).1 hw).2 rfl] at hk
    exact out hk
  · rw [and_iff_left ht, Belongs, show Waiting s' t = Waiting s t from
      propext ((waiting t).trans (and_iff_left ht))]

end Shift

end Nachos.Elevator
