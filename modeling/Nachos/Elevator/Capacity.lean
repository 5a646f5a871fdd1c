import Mathlib.Data.List.Perm.Subperm
import Nachos.Elevator.Effect

/-!
# How many are aboard

The elevator signals persons while it counts them in `o`, which starts at `occupancy`; a person
counts himself in `occupancy` when he runs again. When every person signalled earlier has done so
before the elevator reads `occupancy`, `o` counts who is aboard or on his way, and at most
`maxOccupancy` are. When not, the elevator signals too many.
-/

namespace Nachos.Elevator

open Threads

variable {cfg : Config} {s s' : State Label Shared} {es tr : List (Event Label)}

/-- Between the two messages "got into the elevator" and "got out of the elevator". -/
def Label.aboard : Label → Bool
  | .press .. | .seated .. | .arrived .. | .getOff .. | .gotOff .. => true
  | _ => false

/-- The thread is a person aboard. -/
def Aboard (s : State Label Shared) (t : Tid) : Prop :=
  ∃ c, (s.loc t).label = some c ∧ c.aboard = true

lemma aboard_iff {t : Tid} : Aboard s t ↔ (s.loc t).label.any Label.aboard = true := by
  rw [Option.any_eq_true, Aboard]

/-- The person has been signalled, and is still to count himself in `occupancy`. -/
def Boarding (s : State Label Shared) (t : Tid) : Prop :=
  (∃ floor, stage s t = .entering floor) ∧ ¬ Waiting s t

/-- The person counts in `occupancy`. -/
def Riding (s : State Label Shared) (t : Tid) : Prop := ∃ floor, stage s t = .riding floor

/-- The elevator is about to read `occupancy` into `o`. -/
def Counts (s : State Label Shared) : Prop :=
  s.mode = .running ∧ ∃ dst r, s.loc s.currentThread = .run (.client (.board dst)) r

/-- **The condition**: whenever the elevator reads `occupancy`, nobody who was signalled is still
to board. -/
def BoardedFirst (s : State Label Shared) (_ : List (Event Label)) (_ : State Label Shared) : Prop :=
  Counts s → ∀ t, ¬ Boarding s t

/-- The number that a thread in the loop that signals has counted: `o`, and the person it has
signalled and not counted yet. -/
def tallyOf (c : Option Label) (took : Option Tid) : Option ℤ :=
  match c with
  | some (.more _ o _) => some o
  | some (.signalled _ o _) => some (o + took.toList.length)
  | some (.unlist _ _ o _) => some (o + 1)
  | _ => none

def tally (l : Loc Label) : Option ℤ := tallyOf l.label l.took

/-- `A` are the persons who count in `occupancy`, `P` those on their way to it. -/
structure Counted (s : State Label Shared) (A P : List Tid) : Prop where
  nodupA : A.Nodup
  nodupP : P.Nodup
  memA : ∀ t, t ∈ A ↔ Riding s t
  memP : ∀ t, t ∈ P ↔ Boarding s t
  occupancy : ∀ o floor, s.shared.view = some (o, floor) → o = A.length
  bound : (A.length + P.length : ℤ) ≤ maxOccupancy
  counts : ∀ t n, tally (s.loc t) = some n → n = A.length + P.length

/-- **The invariant**: the persons aboard or on their way are at most `maxOccupancy`, and counted. -/
def Capacity (s : State Label Shared) : Prop := ∃ A P, Counted s A P

section Lemmas

variable {A P : List Tid} {sh sh' : Shared} {r : Ret} {c : Label} {call : Call Label}

/-- The persons are the same. -/
lemma Counted.of_same (h : Counted s A P) (riding : ∀ t, Riding s' t ↔ Riding s t)
    (boarding : ∀ t, Boarding s' t ↔ Boarding s t)
    (occupancy : ∀ o floor, s'.shared.view = some (o, floor) → o = A.length)
    (counts : ∀ t n, tally (s'.loc t) = some n → n = A.length + P.length) :
    Counted s' A P where
  nodupA := h.nodupA
  nodupP := h.nodupP
  memA t := by rw [h.memA, riding]
  memP t := by rw [h.memP, boarding]
  occupancy := occupancy
  bound := h.bound
  counts := counts

/-- A thread that counts has `elevatorLock`. -/
lemma holds_of_tally (h : ElevatorRun cfg tr s) {t : Tid} {n : ℤ}
    (ht : tally (s.loc t) = some n) : (s.loc t).holds elevatorLock Label.locked = true := by
  cases hl : (s.loc t).label with
  | none => rw [tally, hl] at ht; cases ht
  | some c =>
    rw [tally, hl] at ht
    cases c with
    | more | signalled | unlist => exact h.holds hl rfl rfl (by simp) (by simp)
    | _ => cases ht

lemma Quiet.tally (h : Quiet r c call) {n : ℤ} (hn : tallyOf call.label none = some n) :
    tallyOf (some c) (Loc.run (.client c) r).took = some n := by
  cases h with
  | more room =>
    obtain rfl : _ = n := Option.some.inj hn
    simp [tallyOf]
  | unlist => exact hn
  | signalled hx =>
    rw [← hn]
    cases r <;> cases hx
    rfl
  | _ => cases hn

lemma tally_after {s₀ : State Label Shared} {l : Loc Label} (place : After s₀ call l)
    (act : Act cfg sh r c sh' call) {n : ℤ} (hn : tally l = some n) :
    tallyOf call.label none = some n := by
  rw [tally, place.label] at hn
  by_cases hf : ∃ first c', call = .fork first c'
  · obtain ⟨first, c', rfl⟩ := hf
    cases act with
    | quiet h => cases h; cases hn
    | main | create => cases hn
  · rwa [place.took fun first c' he => hf ⟨first, c', he⟩] at hn

/-- The code of a thread leaves the counts of the others alone. -/
lemma tally_other {new : Tid} (act : Act cfg sh r c sh' call)
    (place : After s call (s'.loc s.currentThread))
    (other : ∀ t, t ≠ s.currentThread → s'.loc t = s.loc t ∨ (t = new ∧
      ∃ first c', call = .fork first c' ∧ s.loc t = .unborn ∧ s'.loc t = .fresh first))
    {t : Tid} (ht : t ≠ s.currentThread) {n : ℤ} (hn : tally (s'.loc t) = some n) :
    tally (s.loc t) = some n := by
  cases label_after place other t with
  | self current label => exact absurd current ht
  | other ht loc => rwa [loc] at hn
  | forked ht new hcall unborn fresh =>
    subst hcall
    rw [fresh] at hn
    rcases act.fork_cases with ⟨-, -, rfl⟩ | ⟨p, rfl⟩ | ⟨-, rfl, -⟩ <;> cases hn

/-- Before the elevator is made, nobody is aboard. -/
lemma Created.nobody (h : Created s) (he : s.shared.e = none) (t : Tid) : stage s t = .off := by
  cases hl : (s.loc t).label with
  | none => rw [stage, hl]; rfl
  | some c =>
    have := h.early he t c hl
    rw [stage, hl]
    cases c <;> first | rfl | cases this

end Lemmas

/-! ### The invariant is kept -/

section Step

variable {A P : List Tid}

/-- **The code keeps the invariant.** -/
lemma Counted.code (hr : ElevatorRun cfg tr s) (h : Counted s A P)
    (hmem : cfg.memory.occupancy = 0) (guard : Counts s → ∀ t, ¬ Boarding s t) {new : Tid}
    {sh' : Shared} {r : Ret} {c : Label} {call : Call Label} (shared : s'.shared = sh')
    (mode : s.mode = .running) (loc : s.loc s.currentThread = .run (.client c) r)
    (act : Act cfg s.shared r c sh' call) (place : After s call (s'.loc s.currentThread))
    (waiting : ∀ t, Waiting s' t ↔
      if t = s.currentThread then call.isWait = true else Waiting s t)
    (other : ∀ t, t ≠ s.currentThread → s'.loc t = s.loc t ∨ (t = new ∧
      ∃ first c', call = .fork first c' ∧ s.loc t = .unborn ∧ s'.loc t = .fresh first)) :
    Capacity s' := by
  have hself : stage s s.currentThread = c.stage := by rw [stage, loc]; rfl
  have hnw := not_waiting_of_run (.of_run hr) mode loc
  have hstage := stage_after act place other
  have hother : ∀ t, t ≠ s.currentThread →
      (Riding s' t ↔ Riding s t) ∧ (Boarding s' t ↔ Boarding s t) := fun t ht => by
    simp only [Riding, Boarding, hstage, waiting, if_neg ht, and_self]
  have hcounts : (∀ n, tallyOf call.label none = some n → n = A.length + P.length) →
      ∀ t n, tally (s'.loc t) = some n → n = A.length + P.length := by
    intro hcur t n hn
    by_cases ht : t = s.currentThread
    · subst ht
      exact hcur n (tally_after place act hn)
    · exact h.counts t n (tally_other act place other ht hn)
  have hsame : stageOf call.label = c.stage → call.isWait = false →
      (∀ o floor, sh'.view = some (o, floor) → o = A.length) →
      (∀ n, tallyOf call.label none = some n → n = A.length + P.length) → Capacity s' := by
    intro hst hw hocc hcur
    have hsets : ∀ t, (Riding s' t ↔ Riding s t) ∧ (Boarding s' t ↔ Boarding s t) := fun t => by
      by_cases ht : t = s.currentThread
      · subst ht
        simp [Riding, Boarding, hstage, waiting, hst, hw, hself, hnw]
      · exact hother t ht
    exact ⟨A, P, h.of_same (fun t => (hsets t).1) (fun t => (hsets t).2) (shared ▸ hocc)
      (hcounts hcur)⟩
  have hview : ∀ {e}, s.shared.e = some e → e.occupancy = A.length := fun {e} he =>
    h.occupancy e.occupancy e.currentFloor (by rw [Shared.view, he]; rfl)
  cases act with
  | quiet quiet view =>
    refine hsame quiet.stage (by cases quiet <;> rfl) (view ▸ h.occupancy) fun n hn => ?_
    exact h.counts s.currentThread n (by rw [tally, loc]; exact quiet.tally hn)
  | main => exact hsame rfl rfl h.occupancy (by simp [Call.label, tallyOf])
  | create view =>
    have hnone : s.shared.e = none := (hr.created.maker _ (by rw [loc]; rfl)).1
    have hA : A = [] := List.eq_nil_iff_forall_not_mem.2 fun t ht => by
      obtain ⟨floor, hf⟩ := (h.memA t).1 ht
      rw [hr.created.nobody hnone] at hf
      cases hf
    refine hsame rfl rfl (fun o floor ho => ?_) (by simp [Call.label, tallyOf])
    rw [view] at ho
    cases ho
    rw [hmem, hA]
    rfl
  | hailed exists_e view =>
    exact hsame rfl rfl (view ▸ h.occupancy) (by simp [Call.label, tallyOf])
  | @choose e _ frm dst he view =>
    refine hsame ?_ rfl (fun o floor ho => ?_) ?_
    · cases (e.move frm dst).2 <;> rfl
    · rw [view] at ho
      cases ho
      exact hview he
    · cases (e.move frm dst).2 <;> simp [Call.label, Label.atStop, tallyOf]
  | board he =>
    refine hsame rfl rfl h.occupancy fun n hn => ?_
    -- everybody who was signalled has boarded
    have hP : P = [] := List.eq_nil_iff_forall_not_mem.2 fun t ht =>
      guard ⟨mode, _, _, loc⟩ t ((h.memP t).1 ht)
    cases hn
    rw [hview he, hP]
    simp
  | alight he => exact hsame rfl rfl h.occupancy (by simp [Call.label, tallyOf])
  | waits =>
    have hsets : ∀ t, (Riding s' t ↔ Riding s t) ∧ (Boarding s' t ↔ Boarding s t) := fun t => by
      by_cases ht : t = s.currentThread
      · subst ht
        simp [Riding, Boarding, hstage, waiting, hself, Call.label, stageOf, Label.stage, Call.isWait]
      · exact hother t ht
    exact ⟨A, P, h.of_same (fun t => (hsets t).1) (fun t => (hsets t).2) (shared ▸ h.occupancy)
      (hcounts (by simp [Call.label, tallyOf]))⟩
  | @seated e _ ρ he view =>
    have hP : s.currentThread ∈ P := (h.memP _).2 ⟨⟨_, hself⟩, hnw⟩
    have hA : s.currentThread ∉ A := fun ht => by
      obtain ⟨floor, hf⟩ := (h.memA _).1 ht
      rw [hself] at hf
      cases hf
    have hlen : (P.erase s.currentThread).length + 1 = P.length := List.length_erase_add_one hP
    have hsum : ((s.currentThread :: A).length + (P.erase s.currentThread).length : ℤ) =
        A.length + P.length := by
      rw [List.length_cons]
      omega
    refine ⟨s.currentThread :: A, P.erase s.currentThread, ?_, h.nodupP.erase _, fun t => ?_,
      fun t => ?_, fun o floor ho => ?_, hsum ▸ h.bound, ?_⟩
    · exact List.nodup_cons.2 ⟨hA, h.nodupA⟩
    · by_cases ht : t = s.currentThread
      · subst ht
        exact iff_of_true List.mem_cons_self ⟨ρ.person.toFloor, by rw [hstage, if_pos rfl]; rfl⟩
      · rw [List.mem_cons, (hother t ht).1, h.memA, or_iff_right ht]
    · rw [h.nodupP.mem_erase_iff, h.memP]
      by_cases ht : t = s.currentThread
      · subst ht
        refine iff_of_false (fun hn => hn.1 rfl) fun hb => hb.2 ((waiting _).2 ?_)
        rw [if_pos rfl]
        rfl
      · rw [(hother t ht).2, and_iff_right ht]
    · rw [shared, view] at ho
      cases ho
      rw [hview he, List.length_cons]
      push_cast
      rfl
    · rw [hsum]
      exact hcounts (by simp [Call.label, tallyOf])
  | @gotOff e _ ρ he view =>
    have hA : s.currentThread ∈ A := (h.memA _).2 ⟨_, hself⟩
    have hlen : (A.erase s.currentThread).length + 1 = A.length := List.length_erase_add_one hA
    have hbound := h.bound
    have act : Act cfg s.shared r (.gotOff ρ) sh' (.release elevatorLock (.left ρ)) :=
      .gotOff he view
    refine ⟨A.erase s.currentThread, P, h.nodupA.erase _, h.nodupP, fun t => ?_, fun t => ?_,
      fun o floor ho => ?_, by omega, fun t n hn => ?_⟩
    · rw [h.nodupA.mem_erase_iff, h.memA]
      by_cases ht : t = s.currentThread
      · subst ht
        refine iff_of_false (fun hn => hn.1 rfl) ?_
        rintro ⟨floor, hf⟩
        rw [hstage, if_pos rfl] at hf
        cases hf
      · rw [(hother t ht).1, and_iff_right ht]
    · by_cases ht : t = s.currentThread
      · subst ht
        simp [h.memP, Boarding, hstage, hself, Call.label, stageOf, Label.stage]
      · rw [h.memP, (hother t ht).2]
    · rw [shared, view] at ho
      cases ho
      rw [hview he]
      omega
    · by_cases ht : t = s.currentThread
      · subst ht
        exact absurd (tally_after place act hn) (by simp [Call.label, tallyOf])
      · -- whoever counts has the lock, and so has this person
        have hholds := holds_of_tally hr (tally_other act place other ht hn)
        exact absurd (hr.exclusive hholds (holds_of_run loc rfl)) ht

/-- **Every step keeps the invariant.** -/
theorem Counted.step (hr : ElevatorRun cfg tr s) (h : Counted s A P)
    (hmem : cfg.memory.occupancy = 0) (guard : Counts s → ∀ t, ¬ Boarding s t)
    (he : Effect cfg s s') : Capacity s' := by
  cases he with
  | code mode loc act place waiting other =>
    exact h.code hr hmem guard rfl mode loc act place waiting other
  | kernel shared label waiting took =>
    have hst : ∀ t, stage s' t = stage s t := fun t => by rw [stage, label, stage]
    refine ⟨A, P, h.of_same (fun t => ?_) (fun t => ?_) (shared ▸ h.occupancy) fun t n hn => ?_⟩
    · simp only [Riding, hst]
    · simp only [Boarding, hst, waiting]
    · rw [tally, label, took] at hn
      exact h.counts t n hn
  | broadcast shared label caller person was waiting took =>
    have hst : ∀ t, stage s' t = stage s t := fun t => by rw [stage, label, stage]
    refine ⟨A, P, h.of_same (fun t => ?_) (fun t => ?_) (shared ▸ h.occupancy) fun t n hn => ?_⟩
    · simp only [Riding, hst]
    · -- the person gets off
      simp only [Boarding, hst, waiting]
      refine and_congr_right ?_
      rintro ⟨floor, hf⟩
      rw [not_congr (and_iff_left ?_)]
      rintro rfl
      rw [person] at hf
      cases hf
    · rw [tally, label, took] at hn
      exact h.counts t n hn
  | @signal x floor o dst shared label caller room person was waiting before after took =>
    have hst : ∀ t, stage s' t = stage s t := fun t => by rw [stage, label, stage]
    have hcaller : tally (s.loc s.currentThread) = some o := by
      rw [tally, caller, before]
      simp [tallyOf]
    have ho := h.counts _ _ hcaller
    have hP : x ∉ P := fun hx => ((h.memP x).1 hx).2 was
    refine ⟨A, x :: P, h.nodupA, List.nodup_cons.2 ⟨hP, h.nodupP⟩, fun t => ?_, fun t => ?_,
      shared ▸ h.occupancy, ?_, fun t n hn => ?_⟩
    · simp only [h.memA, Riding, hst]
    · rw [List.mem_cons, h.memP]
      simp only [Boarding, hst, waiting]
      by_cases ht : t = x
      · subst ht
        simp [person]
      · simp [ht]
    · rw [List.length_cons]
      push_cast
      omega
    · rw [List.length_cons]
      rw [tally, label] at hn
      by_cases ht : t = s.currentThread
      · subst ht
        rw [caller, after] at hn
        cases hn
        simp only [Option.toList_some, List.length_cons, List.length_nil]
        omega
      · rw [took t ht] at hn
        exact absurd (hr.exclusive (holds_of_tally hr hn) (holds_of_tally hr hcaller)) ht

end Step

/-! ### Runs -/

/-- The runs in which everybody signalled has boarded when the elevator counts. -/
abbrev BoardedRun (cfg : Config) : List (Event Label) → State Label Shared → Prop :=
  Lib.Run (Lib.Guarded BoardedFirst (Lib.StepOf (step (client cfg)))) start

lemma Counted.start : Counted start [] [] := by
  have hstage : ∀ t, stage Elevator.start t = .off := by
    intro t
    rcases start_label t with h | h <;> rw [stage, h] <;> rfl
  refine ⟨List.nodup_nil, List.nodup_nil, fun t => ?_, fun t => ?_, ?_, by decide, fun t n hn => ?_⟩
  · simp [Riding, hstage]
  · simp [Boarding, hstage]
  · intro o floor h
    cases h
  · rw [tally] at hn
    rcases start_label t with h | h <;> rw [h] at hn <;> cases hn

theorem BoardedRun.capacity (hmem : cfg.memory.occupancy = 0) (h : BoardedRun cfg tr s) :
    Capacity s :=
  h.invariant (I := fun _ s => Capacity s) ⟨[], [], .start⟩ fun hr ⟨_, _, hi⟩ hs =>
    hi.step hr.of_guarded hmem hs.2 (ElevatorRun.effect hr.of_guarded hs.1)

/-- Who is aboard is counted. -/
lemma riding_or_boarding_of_aboard (h : ElevatorRun cfg tr s) {t : Tid} (ht : Aboard s t) :
    Riding s t ∨ Boarding s t := by
  obtain ⟨c, hl, hc⟩ := ht
  have hstage : stage s t = c.stage := by rw [stage, hl]; rfl
  cases c with
  | press ρ | seated ρ =>
    refine .inr ⟨⟨_, hstage⟩, fun hw => ?_⟩
    obtain ⟨ρ, hw | hw⟩ := h.label_of_waiting hw <;> rw [hl] at hw <;> cases hw
  | arrived | getOff | gotOff => exact .inl ⟨_, hstage⟩
  | _ => cases hc

/-- **At most `maxOccupancy` persons are aboard**, in every run in which nobody signalled is still
to board when the elevator reads `occupancy`. -/
theorem aboard_le_maxOccupancy (hmem : cfg.memory.occupancy = 0) (h : BoardedRun cfg tr s)
    {ts : List Tid} (hts : ts.Nodup) (ha : ∀ t ∈ ts, Aboard s t) :
    (ts.length : ℤ) ≤ maxOccupancy := by
  obtain ⟨A, P, hc⟩ := h.capacity hmem
  have hsub : ts ⊆ A ++ P := fun t ht => by
    rw [List.mem_append, hc.memA, hc.memP]
    exact riding_or_boarding_of_aboard h.of_guarded (ha t ht)
  have hle : ts.length ≤ A.length + P.length := by
    simpa using (List.subperm_of_subset hts hsub).length_le
  have hbound := hc.bound
  omega

/-! ### One person, and six -/

/-- The elevator of two floors, without a delay, in memory that is zero. -/
def twoFloors : Config where
  numFloors := 2
  elevatorDelay := 0
  memory := ⟨fun _ => 0, 0, 0, fun _ => .null, fun _ _ => .null, fun _ _ => .null, 0⟩

/-- The running thread takes steps. -/
def go (n : ℕ) : List (Choice Input Empty) := List.replicate n (.run .pause 0)

/-- A person arrives, with a new thread. -/
def arrive (atFloor toFloor : ℕ) (new : Tid) : List (Choice Input Empty) :=
  List.replicate 12 (.run (.arrive atFloor toFloor) new)

/-- The three threads of the program are made, and the main thread is next. -/
def opening : List (Choice Input Empty) :=
  [.run .pause 1, .preempt, .run .pause 2, .run .pause 2, .preempt, .run .pause 0]

/-- One person waits, is signalled, and gets aboard. -/
def onePerson : List (Choice Input Empty) :=
  opening ++ arrive 1 2 3 ++ go 14 ++ [.dispatch, .preempt] ++ go 21 ++ [.dispatch] ++ go 37 ++
    [.preempt] ++ go 11 ++ [.dispatch] ++ go 24

/-- A test for `BoardedFirst`, of the first threads. -/
def boardedFirst (n : ℕ) (s : State Label Shared) : Bool :=
  match s.loc s.currentThread with
  | .run (.client (.board _)) _ => (List.range n).all fun t =>
    match stage s t with
    | .entering floor => t ∈ s.queue (.cond (entering floor))
    | _ => true
  | _ => true

lemma BoardedFirst.of_test {n : ℕ} (hn : ∀ t, n ≤ t → s.loc t = .unborn)
    (h : boardedFirst n s = true) : BoardedFirst s es s' := by
  rintro ⟨-, dst, r, hl⟩ t ⟨⟨floor, hst⟩, hw⟩
  have htn : t < n := by
    by_contra hge
    rw [stage, hn t (Nat.not_lt.1 hge)] at hst
    cases hst
  simp only [boardedFirst, hl, List.all_eq_true, List.mem_range] at h
  have := h t htn
  rw [hst] at this
  exact hw (.inr ⟨_, of_decide_eq_true this⟩)

/-- One person gets aboard. -/
theorem aboard_le_maxOccupancy_one : ∃ tr s, BoardedRun twoFloors tr s ∧ Aboard s 3 ∧
    ((([3] : List Tid).length : ℤ) ≤ maxOccupancy) := by
  obtain ⟨tr, s, hr, hp⟩ : ∃ tr s, BoardedRun twoFloors tr s ∧
      (s.loc 3).label.any Label.aboard = true :=
    guarded_of_passes (n := 4) (by decide) BoardedFirst.of_test onePerson (by decide +kernel)
  have ha : Aboard s 3 := aboard_iff.2 hp
  exact ⟨tr, s, hr, ha, aboard_le_maxOccupancy rfl hr (by simp) (by simpa using ha)⟩

/-- Six persons wait; the elevator signals five of them, and the sixth before they are aboard. -/
def sixPersons : List (Choice Input Empty) :=
  opening ++ [3, 4, 5, 6, 7, 8].flatMap (arrive 1 2) ++ go 2 ++ [.preempt, .preempt] ++
    (List.replicate 6 (go 21 ++ [.dispatch])).flatten ++ go 15 ++ [.dispatch] ++ go 114 ++
    [.preempt] ++ go 18 ++ (List.replicate 6 (.dispatch :: go 24)).flatten

/-- **The elevator takes six persons.** -/
theorem not_aboard_le_maxOccupancy : ¬ ∀ (cfg : Config) (tr : List (Event Label))
    (s : State Label Shared), cfg.memory.occupancy = 0 → ElevatorRun cfg tr s →
      ∀ ts : List Tid, ts.Nodup → (∀ t ∈ ts, Aboard s t) → (ts.length : ℤ) ≤ maxOccupancy := by
  intro h
  obtain ⟨tr, s, hr, hp⟩ := Lib.run_of_passes (step (client twoFloors)) sixPersons start
    (fun _ s => [3, 4, 5, 6, 7, 8].all fun t => (s.loc t).label.any Label.aboard)
    (by decide +kernel)
  have ha : ∀ t ∈ [3, 4, 5, 6, 7, 8], Aboard s t := fun t ht =>
    aboard_iff.2 (List.all_eq_true.1 hp t ht)
  exact absurd (h twoFloors tr s rfl hr _ (by decide) ha) (by decide)

end Nachos.Elevator
