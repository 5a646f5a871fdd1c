import Nachos.Elevator.Deeds
import Nachos.Elevator.Effect
import Nachos.Threads.Signalled

/-!
# What a step does to the persons and the lists

As in `Effect`, with the whole object: a step runs the code at a label, or it moves a thread inside
a routine. Of the latter, those count that take a person off the queue of a condition, and the one
in which `Broadcast` finds the queue empty.
-/

namespace Nachos.Elevator

open Threads

variable {cfg : Config} {s s' : State Label Shared} {es tr : List (Event Label)}

/-- The code at the label of the running thread runs. -/
structure Ran (cfg : Config) (s s' : State Label Shared) (new : Tid) (r : Ret) (c : Label)
    (call : Call Label) : Prop where
  mode : s.mode = .running
  loc : s.loc s.currentThread = .run (.client c) r
  act : Act cfg s.shared r c s'.shared call
  deed : Deed cfg r c s.shared.e s'.shared.e call
  place : After s call (s'.loc s.currentThread)
  waiting : ∀ t, Waiting s' t ↔ if t = s.currentThread then call.isWait = true else Waiting s t
  other : ∀ t, t ≠ s.currentThread → s'.loc t = s.loc t ∨ (t = new ∧
    ∃ first c', call = .fork first c' ∧ s.loc t = .unborn ∧ s'.loc t = .fresh first)

/-- What the kernel does between. -/
inductive Shift (s s' : State Label Shared) : Prop
  | stays (waiting : ∀ t, Waiting s' t ↔ Waiting s t)
      (took : ∀ t, (s'.loc t).took = (s.loc t).took)
      (woken : ∀ t, (s'.loc t).woken = (s.loc t).woken)
      (going : ∀ t, (s'.loc t).broadcasting = (s.loc t).broadcasting)
  /-- `Broadcast` finds the queue empty. -/
  | ends {floor frm} (caller : (s.loc s.currentThread).label = some (.alighted floor frm))
      (nobody : ∀ t, stage s t = .riding floor → ¬ Waiting s t)
      (waiting : ∀ t, Waiting s' t ↔ Waiting s t)
      (took : ∀ t, (s'.loc t).took = (s.loc t).took)
      (woken : ∀ t, (s'.loc t).woken = (s.loc t).woken)
      (going : ∀ t, t ≠ s.currentThread → (s'.loc t).broadcasting = (s.loc t).broadcasting)
  /-- `Signal` takes a person off a queue. -/
  | signal {x floor o dst} (caller : (s.loc s.currentThread).label = some (.signalled floor o dst))
      (person : stage s x = .entering floor) (was : Waiting s x)
      (waiting : ∀ t, Waiting s' t ↔ Waiting s t ∧ t ≠ x)
      (before : (s.loc s.currentThread).took = none)
      (after : (s'.loc s.currentThread).took = some x)
      (took : ∀ t, t ≠ s.currentThread → (s'.loc t).took = (s.loc t).took)
      (woken : ∀ t, (s'.loc t).woken = (s.loc t).woken)
      (going : ∀ t, (s'.loc t).broadcasting = (s.loc t).broadcasting)
  /-- `Broadcast` does. -/
  | broadcast {x floor frm} (caller : (s.loc s.currentThread).label = some (.alighted floor frm))
      (person : stage s x = .riding floor) (was : Waiting s x)
      (waiting : ∀ t, Waiting s' t ↔ Waiting s t ∧ t ≠ x)
      (took : ∀ t, (s'.loc t).took = (s.loc t).took)
      (one : (s'.loc s.currentThread).woken = (s.loc s.currentThread).woken + 1)
      (woken : ∀ t, t ≠ s.currentThread → (s'.loc t).woken = (s.loc t).woken)
      (going : ∀ t, (s'.loc t).broadcasting = (s.loc t).broadcasting)

/-- The calls use `elevatorLock`. -/
lemma makes_usesLock (cond : ℕ) (call : Call Label) (h : (client cfg).Makes call) :
    call.UsesLock cond elevatorLock := by
  obtain ⟨sh, r, c, sh', hact⟩ := makes_act h
  cases hact with
  | quiet quiet =>
    cases quiet with
    | more => exact fun _ => rfl
    | _ => trivial
  | waits | seated | alight => exact fun _ => rfl
  | _ => trivial

lemma ElevatorRun.condInv (h : ElevatorRun cfg tr s) (cond : ℕ) :
    CondInv cond elevatorLock tr s :=
  CondInv.of_run h (usesLock_of_run (makes_usesLock cond) h)

/-- Only the running thread is on its way to the queue of a condition. -/
lemma ElevatorRun.joining (h : ElevatorRun cfg tr s) {t : Tid} (hj : (s.loc t).joining = true) :
    t = s.currentThread := by
  have hpart : ∃ cond l, (s.loc t).part cond = .gap l := by
    generalize s.loc t = l at hj
    cases l with
    | run k | acquire _ _ k | lockAsleep _ _ k | release _ _ k | ret _ k =>
      cases k with
      | waitAcquire cond | waitSleep cond => exact ⟨cond, _, if_pos rfl⟩
      | _ => cases hj
    | _ => cases hj
  obtain ⟨cond, l, hg⟩ := hpart
  exact ((h.condInv cond).gap t l hg).2.current

/-- **Every step is one of these.** -/
theorem ElevatorRun.turn (h : ElevatorRun cfg tr s)
    (hstep : Lib.StepOf (step (client cfg)) s es s') :
    (∃ new r c call, Ran cfg s s' new r c call) ∨
      (s'.shared = s.shared ∧ (∀ t, (s'.loc t).label = (s.loc t).label) ∧ Shift s s') := by
  have hp : Placed s := .of_run h
  have hf := Loc.From.of_run h
  obtain ⟨ch, hch⟩ := hstep
  have hs := step_rule hch
  rcases hs.client_or_kernel with ⟨input, new, c, r, call, hc⟩ | hk
  · exact .inl ⟨new, r, c, call, hc.mode, hc.loc, code_act hc.code, code_deed hc.code, hc.place,
      hc.waiting hp, hc.other⟩
  right
  have hother : ∀ t, (s.mode = .running → t ≠ s.currentThread) →
      (s'.loc t).woken = (s.loc t).woken ∧ (s'.loc t).broadcasting = (s.loc t).broadcasting :=
    fun t ht => ⟨(hs.moved hp ht).woken, (hs.moved hp ht).broadcasting⟩
  have hwait := hs.waiting hp hk
  -- away from `queue->Remove()` in `Broadcast`, nothing is counted
  have hstill : (s.mode = .running →
      ∀ cond i c r, s.loc s.currentThread ≠ .run (.bcastDequeue cond i c) r) → ∀ t,
      (s'.loc t).woken = (s.loc t).woken ∧ (s'.loc t).broadcasting = (s.loc t).broadcasting := by
    intro hnot t
    by_cases ht : s.mode = .running ∧ t = s.currentThread
    · obtain ⟨hm, rfl⟩ := ht
      rcases (hs.goes hp hm).broadcasts hk with ⟨hw, hb, -⟩ | ⟨cond, i, c, r, hl, -⟩
      · exact ⟨hw, hb⟩
      · exact absurd hl (hnot hm cond i c r)
    · exact hother t fun hm he => ht ⟨hm, he⟩
  have hcall : ∀ {cond i c r}, s.loc s.currentThread = .run (.bcastDequeue cond i c) r →
      ∃ floor frm, c = .alighted floor frm ∧ cond = leaving floor := by
    intro cond i c r hl
    have hfrom := hf s.currentThread
    rw [hl] at hfrom
    obtain ⟨l, hm⟩ := hfrom
    obtain ⟨sh, r', c', sh', hact⟩ := makes_act hm
    exact hact.broadcast_label
  cases Elevator.effect hp hf hs with
  | code mode loc =>
    obtain ⟨e, he, hr⟩ := hs.ran_of_client hp mode loc
    exact absurd hr (hk e he)
  | kernel shared label waiting took =>
    refine ⟨shared, label, ?_⟩
    by_cases hat : s.mode = .running ∧
        ∃ cond i c r, s.loc s.currentThread = .run (.bcastDequeue cond i c) r
    · obtain ⟨hm, cond, i, c, r, hl⟩ := hat
      obtain ⟨floor, frm, rfl, rfl⟩ := hcall hl
      have hempty : (s.queue (.cond (leaving floor))).head? = none := by
        refine Option.eq_none_iff_forall_ne_some.2 fun x hx => ?_
        have hwas : Waiting s x := .inr ⟨_, List.mem_of_head? hx⟩
        refine ((hwait x).1 ((waiting x).2 hwas)).2 (leaving floor) ⟨hm, ?_, hx⟩
        rw [hl]
        exact if_pos rfl
      have hwoken : ∀ t, (s'.loc t).woken = (s.loc t).woken := by
        intro t
        by_cases ht : t = s.currentThread
        · subst ht
          rcases (hs.goes hp hm).broadcasts hk with ⟨hw, -⟩ | ⟨cond, i, c, r, hl', hw, -⟩
          · exact hw
          · rw [hl] at hl'
            cases hl'
            rw [hw, hempty]
            rfl
        · exact (hother t fun _ => ht).1
      refine @Shift.ends s s' floor frm (by rw [hl]; rfl) (fun t ht hw => ?_) waiting took
        hwoken fun t ht => (hother t fun _ => ht).2
      rcases hw with hj | ⟨cond, hq⟩
      · obtain rfl := h.joining hj
        rw [hl] at hj
        cases hj
      · have hst := stage_of_queue hp hf hq
        rw [ht] at hst
        obtain rfl : leaving floor = cond := Option.some.inj hst
        rw [List.head?_eq_none_iff.1 hempty] at hq
        cases hq
    · have hnot := hstill fun hm cond i c r hl => hat ⟨hm, cond, i, c, r, hl⟩
      exact .stays waiting took (fun t => (hnot t).1) fun t => (hnot t).2
  | signal shared label caller room person was waiting before after took =>
    have hnot := hstill fun hm cond i c r hl => by
      obtain ⟨floor, frm, rfl, rfl⟩ := hcall hl
      rw [hl] at caller
      cases caller
    exact ⟨shared, label, .signal caller person was waiting before after took
      (fun t => (hnot t).1) fun t => (hnot t).2⟩
  | @broadcast x floor frm shared label caller person was waiting took =>
    obtain ⟨cond, hx⟩ : ∃ cond, Taken s cond x := by
      by_contra hn
      have := (hwait x).2 ⟨was, fun cond hx => hn ⟨cond, hx⟩⟩
      exact ((waiting x).1 this).2 rfl
    rcases caller_of_taken hf hx with ⟨floor', o, dst, r, hl, -⟩ | ⟨floor', frm', i, r, hl, hcond⟩
    · rw [hl] at caller
      cases caller
    · obtain ⟨hw, hb⟩ : (s'.loc s.currentThread).woken = (s.loc s.currentThread).woken + 1 ∧
          (s'.loc s.currentThread).broadcasting = (s.loc s.currentThread).broadcasting := by
        rcases (hs.goes hp hx.1).broadcasts hk with ⟨-, -, hne⟩ | ⟨cond', i', c, r', hl', hw, hb⟩
        · exact absurd hl (hne _ _ _ _)
        · rw [hl] at hl'
          cases hl'
          rw [hw, hb, hx.2.2, hl]
          exact ⟨rfl, rfl⟩
      refine ⟨shared, label, .broadcast caller person was waiting took hw
        (fun t ht => (hother t fun _ => ht).1) fun t => ?_⟩
      by_cases ht : t = s.currentThread
      · rw [ht, hb]
      · exact (hother t fun _ => ht).2

end Nachos.Elevator
