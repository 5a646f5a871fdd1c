import Mathlib.Tactic.Common

/-!
# Runs of a labelled transition system

A step takes a state to a state and emits a list of events. A run is a finite sequence of steps;
its trace is what the steps emitted, oldest first. Safety is proved of runs by one induction,
stated here once: what holds at the start and is kept by every step holds of every run, together
with the trace.

Where the system is a function of a choice, a list of choices is evaluated to a run.
-/

namespace Nachos.Lib

variable {S E : Type}

/-- The runs from `s₀`, with their traces. -/
inductive Run (Step : S → List E → S → Prop) (s₀ : S) : List E → S → Prop
  | start : Run Step s₀ [] s₀
  | snoc {tr es : List E} {s s' : S} :
      Run Step s₀ tr s → Step s es s' → Run Step s₀ (tr ++ es) s'

/-- The steps that meet a condition. -/
def Guarded (G : S → List E → S → Prop) (Step : S → List E → S → Prop) : S → List E → S → Prop :=
  fun s es s' => Step s es s' ∧ G s es s'

namespace Run

variable {Step Step' : S → List E → S → Prop} {s₀ s : S} {tr : List E}

/-- **The invariant rule.** -/
theorem invariant {I : List E → S → Prop} (start : I [] s₀)
    (step : ∀ {tr s es s'}, Run Step s₀ tr s → I tr s → Step s es s' → I (tr ++ es) s')
    (h : Run Step s₀ tr s) : I tr s := by
  induction h with
  | start => exact start
  | snoc hr hs ih => exact step hr ih hs

/-- The invariant rule for a property of the state alone. -/
theorem invariant_state {I : S → Prop} (start : I s₀)
    (step : ∀ {s es s'}, I s → Step s es s' → I s') (h : Run Step s₀ tr s) : I s :=
  h.invariant (I := fun _ s => I s) start fun _ hi hs => step hi hs

/-- More steps, more runs. -/
theorem mono (hsub : ∀ {s es s'}, Step s es s' → Step' s es s') (h : Run Step s₀ tr s) :
    Run Step' s₀ tr s := by
  induction h with
  | start => exact .start
  | snoc _ hs ih => exact ih.snoc (hsub hs)

/-- **The simulation rule.** When related states take steps that show the same to related states,
every run has a run of the other system with its trace. -/
theorem simulation {T : Type} {Spec : T → List E → T → Prop} {R : S → T → Prop} {t₀ : T}
    (start : R s₀ t₀)
    (step : ∀ {s t es s'}, R s t → Step s es s' → ∃ t', Spec t es t' ∧ R s' t')
    (h : Run Step s₀ tr s) : ∃ t, Run Spec t₀ tr t ∧ R s t := by
  induction h with
  | start => exact ⟨t₀, .start, start⟩
  | snoc _ hs ih =>
    obtain ⟨t, hr, hR⟩ := ih
    obtain ⟨t', ht, hR'⟩ := step hR hs
    exact ⟨t', hr.snoc ht, hR'⟩

/-- One run after another. -/
theorem trans {s' : S} {tr' : List E} (h : Run Step s₀ tr s) (h' : Run Step s tr' s') :
    Run Step s₀ (tr ++ tr') s' := by
  induction h' with
  | start => rwa [List.append_nil]
  | snoc _ hs ih => exact List.append_assoc _ _ _ ▸ ih.snoc hs

/-- **The simulation rule**, when a step may be several steps of the other system. -/
theorem simulation_run {T : Type} {Spec : T → List E → T → Prop} {abs : S → T}
    (step : ∀ {tr s es s'}, Run Step s₀ tr s → Step s es s' → Run Spec (abs s) es (abs s'))
    (h : Run Step s₀ tr s) : Run Spec (abs s₀) tr (abs s) := by
  induction h with
  | start => exact .start
  | snoc hr hs ih => exact ih.trans (step hr hs)

/-- A guarded run is a run. -/
theorem of_guarded {G : S → List E → S → Prop} (h : Run (Guarded G Step) s₀ tr s) :
    Run Step s₀ tr s :=
  h.mono And.left

end Run

/-! ### Traces -/

/-- An event of a trace that goes on is in its first part, or in what is new. -/
lemma append_eq_append_cons {tr es pre post : List E} {e : E} (h : tr ++ es = pre ++ e :: post) :
    (∃ mid, tr = pre ++ e :: mid ∧ post = mid ++ es) ∨
      ∃ mid, pre = tr ++ mid ∧ es = mid ++ e :: post := by
  obtain ⟨mid, hpre, hes⟩ | ⟨mid, htr, hpost⟩ := List.append_eq_append_iff.mp h
  · exact .inr ⟨mid, hpre, hes⟩
  · cases mid with
    | nil => exact .inr ⟨[], by simpa using htr.symm, hpost.symm⟩
    | cons x mid =>
      cases hpost
      exact .inl ⟨mid, htr, rfl⟩

/-- An event of a trace with one more is in the trace, or is the new one. -/
lemma concat_eq_append_cons {tr pre post : List E} {x e : E} (h : tr ++ [x] = pre ++ e :: post) :
    (∃ mid, tr = pre ++ e :: mid ∧ post = mid ++ [x]) ∨ (pre = tr ∧ x = e ∧ post = []) := by
  obtain hold | ⟨mid, hpre, hx⟩ := append_eq_append_cons h
  · exact .inl hold
  · cases mid with
    | nil =>
      cases hx
      exact .inr ⟨by rw [hpre, List.append_nil], rfl, rfl⟩
    | cons y mid =>
      obtain ⟨-, hnil⟩ := List.cons.inj hx
      exact absurd hnil.symm (by simp)

/-- What is shown of some of the events is a part of what is shown of more of them. -/
lemma filterMap_sublist {O : Type} {f g : E → Option O} {tr : List E}
    (h : ∀ e ∈ tr, f e = none ∨ f e = g e) : (tr.filterMap f).Sublist (tr.filterMap g) := by
  induction tr with
  | nil => exact .slnil
  | cons e tr ih =>
    have htail := ih fun e' he' => h e' (List.mem_cons_of_mem _ he')
    rw [List.filterMap_cons, List.filterMap_cons]
    rcases h e List.mem_cons_self with hf | hf
    · rw [hf]
      cases g e with
      | none => exact htail
      | some o => exact htail.cons o
    · rw [hf]
      cases g e with
      | none => exact htail
      | some o => exact htail.cons₂ o

/-! ### Evaluation -/

section Exec

variable {C F : Type}

/-- The system takes the choices in order. -/
def exec (step : C → S → Except F (List E × S)) : List C → S → Except F (List E × S)
  | [], s => .ok ([], s)
  | c :: cs, s =>
    match step c s with
    | .error f => .error f
    | .ok (es, s') =>
      match exec step cs s' with
      | .error f => .error f
      | .ok (tr, s'') => .ok (es ++ tr, s'')

/-- The step relation of a function of a choice. -/
def StepOf (step : C → S → Except F (List E × S)) : S → List E → S → Prop :=
  fun s es s' => ∃ c, step c s = .ok (es, s')

variable {step : C → S → Except F (List E × S)}

/-- A run goes on with an evaluation. -/
theorem Run.append_exec {s₀ : S} {tr : List E} {cs : List C} :
    ∀ {tr' : List E} {s s' : S}, Run (StepOf step) s₀ tr s → exec step cs s = .ok (tr', s') →
      Run (StepOf step) s₀ (tr ++ tr') s' := by
  induction cs generalizing tr with
  | nil =>
    intro tr' s s' h he
    cases he
    rwa [List.append_nil]
  | cons c cs ih =>
    intro tr' s s' h he
    rw [exec] at he
    cases hc : step c s with
    | error f => rw [hc] at he; cases he
    | ok p =>
      obtain ⟨es, s₁⟩ := p
      rw [hc] at he
      cases hcs : exec step cs s₁ with
      | error f => simp only [hcs] at he; cases he
      | ok q =>
        obtain ⟨tr₁, s₂⟩ := q
        simp only [hcs] at he
        cases he
        rw [← List.append_assoc]
        exact ih (h.snoc ⟨c, hc⟩) hcs

/-- What is evaluated is a run. -/
theorem run_of_exec {cs : List C} {tr : List E} {s s' : S} (h : exec step cs s = .ok (tr, s')) :
    Run (StepOf step) s tr s' := by
  simpa using Run.append_exec .start h

/-- Does the evaluation of the choices go through, with a trace and a last state that pass the
test? -/
def passes (step : C → S → Except F (List E × S)) (cs : List C) (s : S)
    (p : List E → S → Bool) : Bool :=
  match exec step cs s with
  | .error _ => false
  | .ok (tr, s') => p tr s'

/-- What passes a test is a run that does. -/
theorem run_of_passes (step : C → S → Except F (List E × S)) (cs : List C) (s : S)
    (p : List E → S → Bool) (h : passes step cs s p = true) :
    ∃ tr s', Run (StepOf step) s tr s' ∧ p tr s' = true := by
  unfold passes at h
  split at h
  next => cases h
  next tr s' he => exact ⟨tr, s', run_of_exec he, h⟩

/-- Does the evaluation go through, with every choice and the last state passing a test? -/
def passesAll (step : C → S → Except F (List E × S)) (ok : C → S → Bool) (p : S → Bool) :
    List C → S → Bool
  | [], s => p s
  | c :: cs, s =>
    ok c s && match step c s with
      | .error _ => false
      | .ok (_, s') => passesAll step ok p cs s'

/-- What passes the tests is a guarded run, when an invariant and the test give the guard. -/
theorem run_of_passesAll {G : S → List E → S → Prop} {ok : C → S → Bool} {p : S → Bool}
    (I : S → Prop)
    (hok : ∀ {c s es s'}, I s → ok c s = true → step c s = .ok (es, s') → I s' ∧ G s es s')
    {s₀ : S} {cs : List C} : ∀ {tr : List E} {s : S}, Run (Guarded G (StepOf step)) s₀ tr s → I s →
      passesAll step ok p cs s = true →
        ∃ tr' s', Run (Guarded G (StepOf step)) s₀ tr' s' ∧ I s' ∧ p s' = true := by
  induction cs with
  | nil => exact fun hr hi hp => ⟨_, _, hr, hi, hp⟩
  | cons c cs ih =>
    intro tr s hr hi hp
    simp only [passesAll, Bool.and_eq_true] at hp
    obtain ⟨hc, hp⟩ := hp
    split at hp
    next => cases hp
    next es s' hs =>
      obtain ⟨hi', hg⟩ := hok hi hc hs
      exact ih (hr.snoc ⟨⟨c, hs⟩, hg⟩) hi' hp

/-- Does a start go through, and the evaluation from it, with every choice and the last state
passing a test? -/
def startPasses (start : Except F S) (step : C → S → Except F (List E × S)) (ok : C → Bool)
    (p : S → Bool) (cs : List C) : Bool :=
  match start with
  | .error _ => false
  | .ok s => passesAll step (fun c _ => ok c) p cs s

/-- What passes the tests is a guarded run, when the test of the choices gives the guard. -/
theorem run_of_startPasses {start : Except F S} {G : S → List E → S → Prop} {ok : C → Bool}
    {p : S → Bool} {cs : List C}
    (hok : ∀ {c s es s'}, ok c = true → step c s = .ok (es, s') → G s es s')
    (h : startPasses start step ok p cs = true) :
    ∃ s₀ tr s, start = .ok s₀ ∧ Run (Guarded G (StepOf step)) s₀ tr s ∧ p s = true := by
  unfold startPasses at h
  split at h
  next => cases h
  next s₀ =>
    have hstart : Run (Guarded G (StepOf step)) s₀ [] s₀ := .start
    have hguard : ∀ {c s es s'}, True → ok c = true → step c s = .ok (es, s') →
        True ∧ G s es s' := fun _ hc hs => ⟨trivial, hok hc hs⟩
    obtain ⟨tr, s, hr, -, hp⟩ := @run_of_passesAll _ _ _ _ step G (fun c _ => ok c) p (fun _ => True)
      hguard s₀ cs [] s₀ hstart trivial h
    exact ⟨s₀, tr, s, rfl, hr, hp⟩

section Observed

variable {O : Type} {see : C → S → List O}

/-- The system, showing something else of its steps. -/
def observed (step : C → S → Except F (List E × S)) (see : C → S → List O) (c : C) (s : S) :
    Except F (List O × S) :=
  match step c s with
  | .error f => .error f
  | .ok (_, s') => .ok (see c s, s')

lemma observed_eq_ok {c : C} {s s' : S} {os : List O} (h : observed step see c s = .ok (os, s')) :
    os = see c s ∧ ∃ es, step c s = .ok (es, s') := by
  unfold observed at h
  split at h
  next => cases h
  next es s'' hs =>
    cases h
    exact ⟨rfl, es, hs⟩

/-- **The invariant rule** for what is shown otherwise: the steps are those of the system. -/
theorem Run.observed_invariant {s₀ s : S} {os : List O} {I : List O → S → Prop} (start : I [] s₀)
    (keep : ∀ {tr os c s es s'}, Run (StepOf step) s₀ tr s → I os s → step c s = .ok (es, s') →
      I (os ++ see c s) s') (h : Run (StepOf (observed step see)) s₀ os s) :
    (∃ tr, Run (StepOf step) s₀ tr s) ∧ I os s := by
  induction h with
  | start => exact ⟨⟨[], .start⟩, start⟩
  | snoc _ hs ih =>
    obtain ⟨⟨tr, hr⟩, hi⟩ := ih
    obtain ⟨c, hc⟩ := hs
    obtain ⟨rfl, es, hstep⟩ := observed_eq_ok hc
    exact ⟨⟨_, hr.snoc ⟨c, hstep⟩⟩, keep hr hi hstep⟩

end Observed

end Exec

end Nachos.Lib
