import Nachos.Elevator.Census

/-!
# The counters

`occupancy` and `personsWaiting` are changed by the persons, each by one and each at another point
of `hailElevator`; `personsOn` is the list of those in between. What the constructor found in the
memory is never taken out of the counters.
-/

namespace Nachos.Elevator

open Lib (Roll)
open Threads

variable {cfg : Config} {s s' : State Label Shared} {es tr : List (Event Label)} {e e' : ELEVATOR}
  {r : Ret} {c : Label} {call : Call Label}

/-! ### What the persons do -/

/-- **`hailElevator`**, with the object before and after. -/
inductive RiderDeed (e : ELEVATOR) : Label → ELEVATOR → Call Label → Prop
  | hailed {p old hail} :
      RiderDeed e (.hailed p old)
        { e with
          personsWaiting :=
            Function.update e.personsWaiting p.atFloor (e.personsWaiting p.atFloor + 1) }
        (.acquire personLock (.enlist ⟨p, old, hail⟩))
  | enlist {ρ pp} (added : addToPP (e.listEntering ρ.person.atFloor) ρ.person = .ok pp) :
      RiderDeed e (.enlist ρ)
        { e with listEntering := Function.update e.listEntering ρ.person.atFloor pp }
        (.release personLock (.enlisted ρ))
  | enlisted {ρ} : RiderDeed e (.enlisted ρ) e (.acquire elevatorLock (.waits ρ))
  | waits {ρ} :
      RiderDeed e (.waits ρ) e (.wait (entering ρ.person.atFloor) elevatorLock (.boarded ρ))
  | boarded {ρ} : RiderDeed e (.boarded ρ) e (.acquire personLock (.getOn ρ))
  | getOn {ρ pp} (added : addToPP e.personsOn ρ.person = .ok pp) :
      RiderDeed e (.getOn ρ) { e with personsOn := pp } (.release personLock (.gotOn ρ))
  | gotOn {ρ} :
      RiderDeed e (.gotOn ρ)
        { e with
          personsWaiting := Function.update e.personsWaiting ρ.person.atFloor
            (e.personsWaiting ρ.person.atFloor - 1) }
        (.acquire personLock (.press ρ))
  | press {ρ pp} (added : addToPP (e.listLeaving ρ.person.toFloor) ρ.person = .ok pp) :
      RiderDeed e (.press ρ)
        { e with listLeaving := Function.update e.listLeaving ρ.person.toFloor pp }
        (.release personLock (.seated ρ))
  | seated {ρ} :
      RiderDeed e (.seated ρ) { e with occupancy := e.occupancy + 1 }
        (.wait (leaving ρ.person.toFloor) elevatorLock (.arrived ρ))
  | arrived {ρ} : RiderDeed e (.arrived ρ) e (.acquire personLock (.getOff ρ))
  | getOff {ρ pp} (removed : removeFromPP e.personsOn ρ.person = .ok pp) :
      RiderDeed e (.getOff ρ) { e with personsOn := pp } (.release personLock (.gotOff ρ))
  | gotOff {ρ} :
      RiderDeed e (.gotOff ρ) { e with occupancy := e.occupancy - 1 }
        (.release elevatorLock (.left ρ))
  | left {ρ level} : RiderDeed e (.left ρ) e (.setLevel level (.home ρ.oldLevel))

/-- The code of the other threads, and of a person outside `hailElevator`. -/
structure OtherDeed (e : ELEVATOR) (c : Label) (e' : ELEVATOR) (call : Call Label) : Prop where
  before : c.rider = none
  after : ∀ c', call.label = some c' → c'.rider = none
  personsOn : e'.personsOn = e.personsOn
  occupancy : e'.occupancy = e.occupancy
  personsWaiting : e'.personsWaiting = e.personsWaiting
  listEntering : (∀ p floor o dst, c ≠ .unlist p floor o dst) → e'.listEntering = e.listEntering
  listLeaving : (∀ p frm i j, c ≠ .unlistLeaving p frm i j) → e'.listLeaving = e.listLeaving

lemma Quiet.rider (h : Quiet r c call) (posts : c.posts = false) :
    RiderDeed e c e call ∨ OtherDeed e c e call := by
  cases h with
  | enlisted => exact .inl .enlisted
  | boarded => exact .inl .boarded
  | arrived => exact .inl .arrived
  | left => exact .inl .left
  | arrive | pause | leave | arriving | scanActive | scan | nobody | signalled | unlist | alighted
  | clear | cleared | unlistLeaving | enlist | getOn | gotOn | press | getOff => cases posts
  | _ =>
    refine .inr ⟨rfl, fun c' hc' => ?_, rfl, rfl, rfl, fun _ => rfl, fun _ => rfl⟩
    cases hc'
    try rfl

/-- **The code is that of a person in `hailElevator`, or it leaves the counters alone.** -/
lemma Deed.rider (h : Deed cfg r c (some e) (some e') call) (hc : c ≠ .elevatorThread) :
    RiderDeed e c e' call ∨ OtherDeed e c e' call := by
  cases h with
  | quiet quiet posts => exact quiet.rider posts
  | hailed => exact .inl .hailed
  | enlist added => exact .inl (.enlist added)
  | waits => exact .inl .waits
  | getOn added => exact .inl (.getOn added)
  | gotOn => exact .inl .gotOn
  | press added => exact .inl (.press added)
  | seated => exact .inl .seated
  | getOff removed => exact .inl (.getOff removed)
  | gotOff => exact .inl .gotOff
  | create => exact absurd rfl hc
  | scan =>
    refine .inr ⟨rfl, fun c' hc' => ?_, rfl, rfl, rfl, fun _ => rfl, fun _ => rfl⟩
    split at hc' <;> cases hc' <;> rfl
  | unlist =>
    refine .inr ⟨rfl, fun c' hc' => ?_, rfl, rfl, rfl, fun h => absurd rfl (h _ _ _ _), fun _ => rfl⟩
    cases hc'
    rfl
  | unlistLeaving =>
    refine .inr ⟨rfl, fun c' hc' => ?_, rfl, rfl, rfl, fun _ => rfl, fun h => absurd rfl (h _ _ _ _)⟩
    cases hc'
    rfl
  | @choose _ frm dst =>
    refine .inr ⟨rfl, fun c' hc' => ?_, rfl, rfl, rfl, fun _ => rfl, fun _ => rfl⟩
    cases hs : (e.move frm dst).2 <;> rw [hs] at hc' <;> cases hc' <;> rfl
  | _ =>
    refine .inr ⟨rfl, fun c' hc' => ?_, rfl, rfl, rfl, fun _ => rfl, fun _ => rfl⟩
    cases hc'
    try rfl

/-! ### The roll of a class in a step of the code -/

/-- What the code does to a class of persons: the person stays in it or outside, joins, or leaves;
and what then holds of the roll. -/
inductive Changes (K : Label → Prop → Prop) (c : Label) (call : Call Label)
    (W : Multiset Person → Prop) (m : Multiset Person) : Prop
  | stay (same : K c False ↔ ∃ c', call.label = some c' ∧ K c' (call.isWait = true))
      (rider : K c False → ∀ c', call.label = some c' → c'.rider = c.rider) (value : W m)
  | join {c' ρ} (out : ¬ K c False) (label : call.label = some c')
      (into : K c' (call.isWait = true)) (rider : c'.rider = some ρ)
      (value : W (ρ.person ::ₘ m))
  | leave {ρ} (into : K c False) (rider : c.rider = some ρ)
      (out : ∀ c', call.label = some c' → ¬ K c' (call.isWait = true))
      (value : ∀ m', m = ρ.person ::ₘ m' → W m')

section Changes

variable {K : Label → Prop → Prop} {W : Multiset Person → Prop} {m : Multiset Person} {c' : Label}

/-- The person keeps his `Rider`. -/
lemma Changes.keep (label : call.label = some c') (rider : c'.rider = c.rider)
    (same : K c False ↔ K c' (call.isWait = true)) (value : W m) : Changes K c call W m := by
  refine .stay ?_ (fun _ c'' hc'' => ?_) value
  · rw [label, same]
    simp
  · rw [label] at hc''
    cases hc''
    exact rider

/-- There is no person. -/
lemma Changes.none (hK : OfRiders K) (before : c.rider = none)
    (after : ∀ c', call.label = some c' → c'.rider = none) (value : W m) : Changes K c call W m := by
  have hnot : ∀ {c₀ w}, c₀.rider = .none → ¬ K c₀ w := by
    intro c₀ w hnone hk
    obtain ⟨ρ, hρ⟩ := hK _ _ hk
    rw [hnone] at hρ
    cases hρ
  refine .stay (iff_of_false (hnot before) ?_) (fun hk => absurd hk (hnot before)) value
  rintro ⟨c', hc', hk⟩
  exact hnot (after c' hc') hk

lemma RollOf.changes (hm : RollOf K s m) {new : Tid} (h : Ran cfg s s' new r c call)
    (hr : ElevatorRun cfg tr s) (hK : OfRiders K) (hc : Changes K c call W m) :
    ∃ m', RollOf K s' m' ∧ W m' := by
  cases hc with
  | stay same rider value => exact ⟨m, hm.keep h hr hK same rider, value⟩
  | join out label into rider value => exact ⟨_, hm.join h hr hK out label into rider, value⟩
  | leave into rider out value =>
    obtain ⟨m', heq, hm'⟩ := hm.leave h hr hK into rider out
    exact ⟨m', hm', value m' heq⟩

/-- Nobody is in a class before there is an `ELEVATOR`. -/
lemma Created.not_belongs (h : Created s) (he : s.shared.e = .none) (hK : OfRiders K) (t : Tid) :
    ¬ Belongs K s t := by
  rintro ⟨c, hl, hk⟩
  obtain ⟨ρ, hρ⟩ := hK _ _ hk
  have hearly := h.early he t c hl
  cases c <;> first | cases hearly; done | cases hρ

/-- The `ELEVATOR` is made: nobody is in a class. -/
lemma Ran.rollOf_new {new : Tid} (h : Ran cfg s s' new r .elevatorThread call)
    (hr : ElevatorRun cfg tr s) (hK : OfRiders K) : RollOf K s' 0 := by
  have he : s.shared.e = .none := ((ElevatorRun.created hr).maker _ h.label).1
  refine Roll.of_empty fun t => ?_
  by_cases ht : t = s.currentThread
  · subst ht
    rw [h.belongs']
    rintro ⟨c', hc', hk⟩
    obtain ⟨ρ, hρ⟩ := hK _ _ hk
    have hdeed := h.deed
    generalize s.shared.e = oe at hdeed
    generalize s'.shared.e = oe' at hdeed
    cases hdeed with
    | quiet quiet => cases quiet
    | create =>
      cases hc'
      cases hρ
  · rw [h.belongs_other hK ht]
    exact (ElevatorRun.created hr).not_belongs he hK t

/-- The `ELEVATOR` was there, or it is made. -/
lemma Ran.shared_cases {new : Tid} (h : Ran cfg s s' new r c call)
    (he' : s'.shared.e = some e') :
    (c = .elevatorThread ∧ e' = .new cfg.numFloors cfg.memory) ∨
      ∃ e, s.shared.e = some e ∧ c ≠ .elevatorThread ∧ Deed cfg r c (some e) (some e') call := by
  have hdeed := h.deed
  rw [he'] at hdeed
  by_cases hc : c = .elevatorThread
  · subst hc
    left
    generalize s.shared.e = oe at hdeed
    cases hdeed with
    | quiet quiet => cases quiet
    | create => exact ⟨rfl, rfl⟩
  · cases he : s.shared.e with
    | none =>
      rw [(h.act.e_eq_none_iff hc).2 he] at he'
      cases he'
    | some e => exact .inr ⟨e, rfl, hc, he ▸ hdeed⟩

/-- **The roll of a class that waiting does not matter for**, with what the `ELEVATOR` says of it. -/
theorem ElevatorRun.roll (hK : OfRiders K) (hwait : ∀ c w, K c w ↔ K c False)
    {V : ELEVATOR → Multiset Person → Prop} (new : V (.new cfg.numFloors cfg.memory) 0)
    (rider : ∀ {e e' c call m}, RiderDeed e c e' call → V e m → Changes K c call (V e') m)
    (other : ∀ {e e' c call m}, OtherDeed e c e' call → V e m → V e' m)
    (h : ElevatorRun cfg tr s) (he : s.shared.e = some e) : ∃ m, RollOf K s m ∧ V e m := by
  refine h.invariant (I := fun _ s => ∀ e, s.shared.e = some e → ∃ m, RollOf K s m ∧ V e m)
    (fun e he => ?_) (fun {tr s es s'} hr hi hs e' he' => ?_) e he
  · cases he
  · rcases ElevatorRun.turn hr hs with ⟨new', r, c, call, hran⟩ | ⟨hshared, hlabel, -⟩
    · rcases hran.shared_cases he' with ⟨rfl, rfl⟩ | ⟨e, he, hc, hdeed⟩
      · exact ⟨0, hran.rollOf_new hr hK, new⟩
      · obtain ⟨m, hm, hv⟩ := hi e he
        rcases hdeed.rider hc with hd | hd
        · exact hm.changes hran hr hK (rider hd hv)
        · exact hm.changes hran hr hK (.none hK hd.before hd.after (other hd hv))
    · obtain ⟨m, hm, hv⟩ := hi e' (hshared ▸ he')
      refine ⟨m, hm.shift hlabel fun t c _ => ?_, hv⟩
      rw [hwait, hwait c (Waiting s t)]

end Changes

/-! ### The counters and `personsOn` -/

/-- The person has hailed at the floor, and has not boarded. -/
def Label.hailing (floor : ℕ) (c : Label) (_ : Prop) : Prop :=
  match c with
  | .enlist ρ | .enlisted ρ | .waits ρ | .boarded ρ | .getOn ρ | .gotOn ρ =>
    ρ.person.atFloor = floor
  | _ => False

/-- The person is in `personsOn`. -/
def Label.on (c : Label) (_ : Prop) : Prop :=
  match c with
  | .gotOn _ | .press _ | .seated _ | .arrived _ | .getOff _ => True
  | _ => False

/-- The person counts in `occupancy`. -/
def Label.counted (c : Label) (_ : Prop) : Prop :=
  match c with
  | .arrived _ | .getOff _ | .gotOff _ => True
  | _ => False

lemma ofRiders_hailing (floor : ℕ) : OfRiders (Label.hailing floor) := by
  intro c w hk
  cases c <;> first | exact ⟨_, rfl⟩ | cases hk

lemma ofRiders_on : OfRiders Label.on := by
  intro c w hk
  cases c <;> first | exact ⟨_, rfl⟩ | cases hk

lemma ofRiders_counted : OfRiders Label.counted := by
  intro c w hk
  cases c <;> first | exact ⟨_, rfl⟩ | cases hk

/-- **`personsOn` are the persons who got on.** -/
theorem ElevatorRun.personsOn (h : ElevatorRun cfg tr s) (he : s.shared.e = some e) :
    Ends e.personsOn ∧ RollOf Label.on s (entries e.personsOn : Multiset Person) := by
  suffices hroll : ∃ m, RollOf Label.on s m ∧
      Ends e.personsOn ∧ (entries e.personsOn : Multiset Person) = m by
    obtain ⟨m, hm, hends, rfl⟩ := hroll
    exact ⟨hends, hm⟩
  refine ElevatorRun.roll (K := Label.on)
    (V := fun e m => Ends e.personsOn ∧ (entries e.personsOn : Multiset Person) = m)
    ofRiders_on (fun _ _ => Iff.rfl) ?_ (fun {e e' c call m} hd hv => ?_)
    (fun {e e' c call m} hd hv => ?_) h he
  · exact ⟨ends_empty _, congrArg _ (entries_empty _)⟩
  · obtain ⟨hends, rfl⟩ := hv
    cases hd with
    | hailed => exact .stay (by simp [Label.on, Call.label]) (fun hk => hk.elim) ⟨hends, rfl⟩
    | getOn added =>
      obtain ⟨hends', hentries⟩ := addToPP_eq_ok added hends
      exact .join id rfl trivial rfl ⟨hends', hentries⟩
    | getOff removed =>
      refine .leave trivial rfl (fun c' hc' hk => ?_) fun m' hm' => ?_
      · cases hc'
        exact hk
      · have hmem : _ ∈ entries e.personsOn := Multiset.mem_coe.1 (hm' ▸ Multiset.mem_cons_self ..)
        obtain ⟨pp', hpp', hends', hentries⟩ := removeFromPP_of_mem hmem hends
        rw [removed] at hpp'
        cases hpp'
        exact ⟨hends', (Multiset.cons_inj_right _).1 (hentries.symm.trans hm')⟩
    | left => exact .stay (by simp [Label.on, Call.label]) (fun hk => hk.elim) ⟨hends, rfl⟩
    | _ => exact .keep rfl rfl Iff.rfl ⟨hends, rfl⟩
  · rw [hd.personsOn]
    exact hv

/-- **`occupancy`** counts on from what was in the memory. -/
theorem ElevatorRun.occupancy (h : ElevatorRun cfg tr s) (he : s.shared.e = some e) :
    ∃ m, RollOf Label.counted s m ∧ e.occupancy = cfg.memory.occupancy + m.card := by
  refine ElevatorRun.roll (K := Label.counted)
    (V := fun e m => e.occupancy = cfg.memory.occupancy + m.card)
    ofRiders_counted (fun _ _ => Iff.rfl) ?_ (fun {e e' c call m} hd hv => ?_)
    (fun {e e' c call m} hd hv => ?_) h he
  · simp [ELEVATOR.new]
  · cases hd with
    | hailed => exact .stay (by simp [Label.counted, Call.label]) (fun hk => hk.elim) hv
    | seated =>
      refine .join id rfl trivial rfl ?_
      rw [Multiset.card_cons, hv]
      push_cast
      omega
    | gotOff =>
      refine .leave trivial rfl (fun c' hc' hk => ?_) fun m' hm' => ?_
      · cases hc'
        exact hk
      · rw [hv, hm', Multiset.card_cons]
        push_cast
        omega
    | left => exact .stay (by simp [Label.counted, Call.label]) (fun hk => hk.elim) hv
    | _ => exact .keep rfl rfl Iff.rfl hv
  · rw [hd.occupancy]
    exact hv

/-- **`personsWaiting`** does too. -/
theorem ElevatorRun.personsWaiting (h : ElevatorRun cfg tr s) (he : s.shared.e = some e)
    (floor : ℕ) : ∃ m, RollOf (Label.hailing floor) s m ∧
      e.personsWaiting floor = cfg.memory.personsWaiting floor + m.card := by
  refine ElevatorRun.roll (K := Label.hailing floor)
    (V := fun e m => e.personsWaiting floor = cfg.memory.personsWaiting floor + m.card)
    (ofRiders_hailing floor) (fun _ _ => Iff.rfl) ?_ (fun {e e' c call m} hd hv => ?_)
    (fun {e e' c call m} hd hv => ?_) h he
  · simp [ELEVATOR.new]
  · cases hd with
    | @hailed p old hail =>
      by_cases hf : p.atFloor = floor
      · subst hf
        refine .join id rfl rfl rfl ?_
        simp only [Function.update_self, Multiset.card_cons, hv]
        push_cast
        omega
      · refine .stay (by simp [Label.hailing, Call.label, hf]) (fun hk => hk.elim) ?_
        simp only [Function.update_of_ne (Ne.symm hf)]
        exact hv
    | @gotOn ρ =>
      by_cases hf : ρ.person.atFloor = floor
      · subst hf
        refine .leave rfl rfl (fun c' hc' hk => ?_) fun m' hm' => ?_
        · cases hc'
          exact hk
        · simp only [Function.update_self, hv, hm', Multiset.card_cons]
          push_cast
          omega
      · refine .stay (by simp [Label.hailing, Call.label, hf]) (fun hk => absurd hk hf) ?_
        simp only [Function.update_of_ne (Ne.symm hf)]
        exact hv
    | left => exact .stay (by simp [Label.hailing, Call.label]) (fun hk => hk.elim) hv
    | _ => exact .keep rfl rfl Iff.rfl hv
  · rw [hd.personsWaiting]
    exact hv

end Nachos.Elevator
