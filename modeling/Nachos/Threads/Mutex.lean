import Nachos.Threads.Semaphore

/-!
# Semaphores as locks

A semaphore with the initial value 1 excludes threads from each other when its `P` and `V` stand
around the code that is to be excluded. A client whose labels say where a thread has the unit of
the semaphore has it exactly there.
-/

namespace Nachos.Threads

variable {C σ ι H : Type}

/-- A call that satisfies `U` has led into `P` or `V`. -/
def Loc.FromSem (U : Call C → Prop) : Loc C → Prop
  | .down i _ c => U (.down i c)
  | .semAsleep i _ c => U (.down i c)
  | .up i _ c => U (.up i c)
  | _ => True

/-- How a call may change whether the caller has the unit of the semaphore `i`: `inside` says where
it has. -/
def Call.Brackets (i : ℕ) (inside : C → Bool) (c : C) : Call C → Prop
  | .down j c' => if j = i then inside c = false ∧ inside c' = true else inside c' = inside c
  | .up j c' => if j = i then inside c = true ∧ inside c' = false else inside c' = inside c
  | .fork first c' => inside first = false ∧ inside c' = inside c
  | .finish => inside c = false
  | call => ∀ c', call.label = some c' → inside c' = inside c

/-- The client's labels say where it has the unit, and no interrupt handler gives one back. -/
structure Client.Brackets (K : Client C σ ι H) (i : ℕ) (inside : C → Bool) : Prop where
  code : ∀ {input t c r shared shared' call}, K.code input t c r shared = .ok (shared', call) →
    call.Brackets i inside c
  handler : ∀ {d shared shared'}, K.handler d shared ≠ .ok (shared', some i)

/-- In `V` of the semaphore. -/
def Loc.gives (i : ℕ) : Loc C → Bool
  | .up j _ _ => j = i
  | _ => false

/-- Where a thread has the unit, in the client and in the routines. -/
def Loc.hasUnit (i : ℕ) (inside : C → Bool) (l : Loc C) : Bool :=
  l.gives i || (!l.tests i && l.label.any inside)

section FromSem

variable {K : Client C σ ι H} {s s' : State C σ} {es : List (Event C)} {l l' : Loc C}
  {U : Call C → Prop}

lemma Goes.fromSem (h : Goes s es l l') (hk : ∀ e ∈ es, ¬ e.IsRan) (hl : l.FromSem U) :
    l'.FromSem U := by
  cases h with
  | call | fork | finish => exact absurd trivial (hk _ List.mem_cons_self)
  | semWait | semWaitAgain => exact hl
  | _ => trivial

lemma Moved.fromSem (h : Moved l l') (hl : l.FromSem U) : l'.FromSem U := by
  cases h with
  | stays => exact hl
  | _ => trivial

lemma After.fromSem {call : Call C} (h : After s call l) (hu : U call) : l.FromSem U := by
  cases h with
  | entry h =>
    cases h with
    | down | up => exact hu
    | _ => trivial
  | fork | finish => trivial

/-- A thread in `P` or `V` has called it. -/
lemma Step.fromSem (hp : Placed s) (hs : Step K s es s') (h : ∀ t, (s.loc t).FromSem K.Makes)
    (t : Tid) : (s'.loc t).FromSem K.Makes := by
  rcases hs.client_or_kernel with ⟨input, new, c, r, call, hc⟩ | hk
  · by_cases ht : t = s.currentThread
    · subst ht
      exact hc.place.fromSem ⟨input, _, c, r, _, _, hc.code⟩
    · rcases hc.other t ht with he | ⟨-, first, c', -, -, he⟩
      · exact he ▸ h t
      · exact he ▸ trivial
  · by_cases ht : s.mode = .running ∧ t = s.currentThread
    · obtain ⟨hm, rfl⟩ := ht
      exact (hs.goes hp hm).fromSem hk (h _)
    · exact (hs.moved hp fun hm he => ht ⟨hm, he⟩).fromSem (h t)

theorem Loc.FromSem.of_run {first : C} {value : ℕ → ℤ} {shared : σ} {tr : List (Event C)}
    (h : KernelRun K (State.init first value shared) tr s) (t : Tid) :
    (s.loc t).FromSem K.Makes := by
  refine h.invariant (I := fun _ s => ∀ t, (s.loc t).FromSem K.Makes) (fun t => ?_)
    (fun hr hi ⟨_, hc⟩ => (step_rule hc).fromSem (.of_run hr) hi) t
  rcases init_loc first value shared t with h | h <;> rw [h] <;> trivial

end FromSem

section Units

variable {K : Client C σ ι H} {s s' : State C σ} {es : List (Event C)} {l l' : Loc C} {i : ℕ}
  {inside : C → Bool}

lemma After.hasUnit {call : Call C} {c : C} (h : After s call l) (hb : call.Brackets i inside c) :
    l.hasUnit i inside = inside c := by
  cases h with
  | entry h =>
    cases h with
    | down j c' | up j c' =>
      by_cases hj : j = i
      · rw [Call.Brackets, if_pos hj] at hb
        simp [Loc.hasUnit, Loc.gives, Loc.tests, hj, hb.1]
      · rw [Call.Brackets, if_neg hj] at hb
        simp [Loc.hasUnit, Loc.gives, Loc.tests, Loc.label, hj, hb]
    | _ =>
      have hlabel := hb _ rfl
      simpa [Loc.hasUnit, Loc.gives, Loc.tests, Loc.label, Kont.label] using hlabel
  | fork => simpa [Loc.hasUnit, Loc.gives, Loc.tests, Loc.label, Kont.label] using hb.2
  | finish => exact hb.symm

lemma Moved.gives (h : Moved l l') : l'.gives i = l.gives i := by cases h <;> rfl

/-- The kernel does not call `V`. -/
lemma Goes.gives (h : Goes s es l l') (hk : ∀ e ∈ es, ¬ e.IsRan) : l'.gives i = false := by
  cases h with
  | call | fork | finish => exact absurd trivial (hk _ List.mem_cons_self)
  | _ => rfl

/-- **The unit of the semaphore**: somebody has it, or it is in the semaphore. -/
def UnitInv (i : ℕ) (inside : C → Bool) (s : State C σ) : Prop :=
  ∃ o : Option Tid, (∀ t, (s.loc t).hasUnit i inside = true ↔ o = some t) ∧
    s.value i = if o.isSome then 0 else 1

/-- The code of the client leaves the semaphores alone. -/
lemma Step.value_of_ran (hs : Step K s es s') (hran : ¬ ∀ e ∈ es, ¬ e.IsRan) :
    s'.value = s.value := by
  cases hs with
  | call | fork | finish => rfl
  | _ => exact absurd (by simp [Event.IsRan]) hran

/-- Code of the kernel outside `V`. -/
lemma UnitInv.kernel (h : UnitInv i inside s) (hb : K.Brackets i inside) (hp : Placed s)
    (hf : ∀ t, (s.loc t).FromSem K.Makes) (hs : Step K.quiet s es s')
    (hk : ∀ e ∈ es, ¬ e.IsRan)
    (hup : s.mode = .running → ∀ j old c, s.loc s.currentThread ≠ .up j old c) :
    UnitInv i inside s' := by
  obtain ⟨o, hhas, hvalue⟩ := h
  have hlabel : ∀ t, (s'.loc t).label = (s.loc t).label := by
    intro t
    by_cases ht : s.mode = .running ∧ t = s.currentThread
    · obtain ⟨hm, rfl⟩ := ht
      exact (hs.goes hp hm).label hk
    · exact hs.label_other hp hk fun hm he => ht ⟨hm, he⟩
  have hgives : ∀ t, (s'.loc t).gives i = (s.loc t).gives i := by
    intro t
    by_cases ht : s.mode = .running ∧ t = s.currentThread
    · obtain ⟨hm, rfl⟩ := ht
      have hnot : (s.loc s.currentThread).gives i = false := by
        have hup' := hup hm
        generalize s.loc s.currentThread = l at hup'
        cases l with
        | up j old c => exact absurd rfl (hup' j old c)
        | _ => rfl
      rw [hnot, (hs.goes hp hm).gives hk]
    · exact (hs.moved hp fun hm he => ht ⟨hm, he⟩).gives
  have hsame : ∀ t, (s'.loc t).tests i = (s.loc t).tests i →
      (s'.loc t).hasUnit i inside = (s.loc t).hasUnit i inside := by
    intro t ht
    rw [Loc.hasUnit, hgives, ht, hlabel]
    rfl
  rcases hs.tests (i := i) hp hk hup with
    ⟨hv, htests⟩ | ⟨hm, htests, hne, hv, htests', hother⟩
  · exact ⟨o, fun t => by rw [hsame t (htests t)]; exact hhas t, hv.trans hvalue⟩
  · -- the running thread takes the unit
    obtain rfl : o = none := by
      cases o with
      | none => rfl
      | some u => exact absurd hvalue hne
    have hinside : (s'.loc s.currentThread).hasUnit i inside = true := by
      obtain ⟨old, c, hloc⟩ := Loc.tests_iff.1 htests
      have hmakes : K.Makes (.down i c) := by
        have hfrom := hf s.currentThread
        rcases hloc with hloc | hloc <;> rw [hloc] at hfrom <;> exact hfrom
      obtain ⟨_, _, _, _, _, _, hcode⟩ := hmakes
      have hbracket := hb.code hcode
      rw [Call.Brackets, if_pos rfl] at hbracket
      have hc : (s.loc s.currentThread).label = some c := by
        rcases hloc with hloc | hloc <;> rw [hloc] <;> rfl
      simp [Loc.hasUnit, htests', hlabel, hc, hbracket.2]
    refine ⟨some s.currentThread, fun t => ?_, by rw [hv, hvalue]; rfl⟩
    by_cases ht : t = s.currentThread
    · subst ht
      exact iff_of_true hinside rfl
    · rw [hsame t (hother t ht), hhas]
      exact iff_of_false (by simp) fun he => ht (Option.some.inj he).symm

/-- `V`. -/
lemma UnitInv.up (h : UnitInv i inside s) (hb : K.Brackets i inside)
    (hf : ∀ t, (s.loc t).FromSem K.Makes) (hs : Step K.quiet s es s') (hm : s.mode = .running)
    {j : ℕ} {old : IntStatus} {c : C} (hloc : s.loc s.currentThread = .up j old c) :
    UnitInv i inside s' := by
  obtain ⟨o, hhas, hvalue⟩ := h
  have hs' : s' = (s.raise j).setLoc s.currentThread (.ret old (.client c) .unit) := by
    cases hs with
    | up mode loc =>
      rw [hloc] at loc
      cases loc
      rfl
    | take mode loc | lockWait mode loc | down mode loc | semWait mode loc =>
      rcases loc with loc | loc <;> rw [hloc] at loc <;> cases loc
    | interrupt allowed handler | interruptUp allowed handler => cases handler
    | dispatch mode => exact absurd hm mode
    | _ mode loc =>
      rw [hloc] at loc
      cases loc
  have hmakes : K.Makes (.up j c) := by
    have hfrom := hf s.currentThread
    rw [hloc] at hfrom
    exact hfrom
  obtain ⟨_, _, _, _, _, _, hcode⟩ := hmakes
  have hbracket := hb.code hcode
  have hother : ∀ t, t ≠ s.currentThread → s'.loc t = s.loc t := fun t ht => by
    rw [hs', setLoc_of_ne _ _ ht]
    exact congrFun (s.wake_loc _) t
  have hself : (s'.loc s.currentThread).hasUnit i inside = inside c := by
    rw [hs', setLoc_self]
    simp [Loc.hasUnit, Loc.gives, Loc.tests, Loc.label, Kont.label]
  have hv : s'.value i = if i = j then s.value j + 1 else s.value i := by
    rw [hs']
    refine (congrFun (raise_value j) i).trans ?_
    rw [Function.update_apply]
  by_cases hj : j = i
  · subst hj
    rw [Call.Brackets, if_pos rfl] at hbracket
    obtain rfl : o = some s.currentThread := by
      rw [← hhas, hloc]
      simp [Loc.hasUnit, Loc.gives]
    refine ⟨none, fun t => ?_, by rw [hv, if_pos rfl, hvalue]; rfl⟩
    by_cases ht : t = s.currentThread
    · subst ht
      rw [hself, hbracket.2]
      simp
    · rw [hother t ht, hhas]
      exact iff_of_false (fun he => ht (Option.some.inj he).symm) (by simp)
  · refine ⟨o, fun t => ?_, by rw [hv, if_neg (Ne.symm hj), hvalue]⟩
    by_cases ht : t = s.currentThread
    · subst ht
      rw [hself, ← hhas, hloc]
      simp [Loc.hasUnit, Loc.gives, Loc.tests, Loc.label, hj]
    · rw [hother t ht, hhas]

/-- **Every step** leaves the unit with somebody, or in the semaphore. -/
theorem UnitInv.step (h : UnitInv i inside s) (hb : K.Brackets i inside) (hp : Placed s)
    (hf : ∀ t, (s.loc t).FromSem K.Makes) {ch : Choice ι H}
    (hstep : step K ch s = .ok (es, s')) : UnitInv i inside s' := by
  rcases step_interrupt_or hstep with ⟨d, shared, v, rfl, -, handler, rfl⟩ | ⟨-, hs⟩
  · obtain ⟨o, hhas, hvalue⟩ := h
    cases v with
    | none => exact ⟨o, hhas, hvalue⟩
    | some j =>
      have hj : j ≠ i := by
        rintro rfl
        exact hb.handler handler
      have hloc : ((s.handled shared).raise j).loc = s.loc := (s.handled shared).wake_loc _
      refine ⟨o, fun t => by rw [Option.elim_some, hloc]; exact hhas t, ?_⟩
      exact ((congrFun (raise_value j) i).trans (Function.update_of_ne hj.symm ..)).trans hvalue
  · by_cases hk : ∀ e ∈ es, ¬ e.IsRan
    · by_cases hup : s.mode = .running ∧ ∃ j old c, s.loc s.currentThread = .up j old c
      · obtain ⟨hm, j, old, c, hloc⟩ := hup
        exact h.up hb hf hs hm hloc
      · exact h.kernel hb hp hf hs hk fun hm j old c he => hup ⟨hm, j, old, c, he⟩
    · obtain ⟨o, hhas, hvalue⟩ := h
      have hvalue' := hs.value_of_ran hk
      obtain ⟨input, new, c, r, call, hc⟩ := (step_rule hstep).client_or_kernel.resolve_right hk
      have hbracket := hb.code hc.code
      refine ⟨o, fun t => ?_, by rw [hvalue', hvalue]⟩
      rw [← hhas]
      by_cases ht : t = s.currentThread
      · subst ht
        rw [hc.place.hasUnit hbracket, hc.loc]
        simp [Loc.hasUnit, Loc.gives, Loc.tests, Loc.label, Kont.label]
      · rcases hc.other t ht with he | ⟨-, first, c', rfl, hu, he⟩
        · rw [he]
        · rw [he, hu]
          simp [Loc.hasUnit, Loc.gives, Loc.tests, Loc.label, hbracket.1]

theorem UnitInv.of_run (hb : K.Brackets i inside) {first : C} (hfirst : inside first = false)
    {value : ℕ → ℤ} (hvalue : value i = 1) {shared : σ} {tr : List (Event C)}
    (h : KernelRun K (State.init first value shared) tr s) : UnitInv i inside s := by
  refine h.invariant (I := fun _ s => UnitInv i inside s) ⟨none, fun t => ?_, hvalue⟩
    fun hr hi ⟨_, hstep⟩ => hi.step hb (.of_run hr) (.of_run hr) hstep
  refine iff_of_false ?_ (by simp)
  rcases init_loc first value shared t with h | h <;> rw [h]
  · simp [Loc.hasUnit, Loc.gives, Loc.tests, Loc.label]
  · simp [Loc.hasUnit, Loc.gives, Loc.tests, Loc.label, Kont.label, hfirst]

/-- **Mutual exclusion**: two threads do not both have the unit of a semaphore that began with 1. -/
theorem Client.Brackets.exclusive (hb : K.Brackets i inside) {first : C}
    (hfirst : inside first = false) {value : ℕ → ℤ} (hvalue : value i = 1) {shared : σ}
    {tr : List (Event C)} (h : KernelRun K (State.init first value shared) tr s) {t u : Tid}
    (ht : (s.loc t).hasUnit i inside = true) (hu : (s.loc u).hasUnit i inside = true) : t = u := by
  obtain ⟨o, hhas, -⟩ := UnitInv.of_run hb hfirst hvalue h
  have ho := (hhas t).1 ht
  rw [(hhas u).1 hu] at ho
  exact (Option.some.inj ho).symm

/-- A thread that goes on where it has the unit has it now, if it is not about to get it. -/
lemma hasUnit_of_label {U : Call C → Prop} {c : C} (hf : l.FromSem U) (hl : l.label = some c)
    (hc : inside c = true) (hd : ¬ U (.down i c)) : l.hasUnit i inside = true := by
  have htests : l.tests i = false := by
    by_contra htrue
    obtain ⟨old, c', hloc⟩ := Loc.tests_iff.1 (Bool.not_eq_false _ ▸ htrue)
    rcases hloc with rfl | rfl <;> cases hl <;> exact hd hf
  simp [Loc.hasUnit, htests, hl, hc]

end Units

end Nachos.Threads
