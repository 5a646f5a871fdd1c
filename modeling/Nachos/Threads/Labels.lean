import Nachos.Threads.Mutex

/-!
# Properties of the labels of a client

The code of a client says to which labels a thread can come. A property that the code keeps holds
of the label of every thread in every run; labels that the code gives to one thread at a time are
the labels of one thread at a time.
-/

namespace Nachos.Threads

variable {C σ ι H : Type}

/-- The labels at which a call lets a thread go on: the caller, or the one that it forks. -/
def Call.Leads (call : Call C) (c : C) : Prop := call.label = some c ∨ ∃ c', call = .fork c c'

/-- The code keeps a property of labels. -/
def Client.Labels (K : Client C σ ι H) (Q : C → Prop) : Prop :=
  ∀ {input t c r shared shared' call}, K.code input t c r shared = .ok (shared', call) → Q c →
    ∀ c', call.Leads c' → Q c'

/-- The code leads one thread at a time to the labels that are `one`. -/
structure Client.Single (K : Client C σ ι H) (one : C → Bool) : Prop where
  stays : ∀ {input t c r shared shared' call},
    K.code input t c r shared = .ok (shared', call) → one c = false → ∀ c', call.Leads c' →
      one c' = false
  fork : ∀ {input t c r shared shared' first c'},
    K.code input t c r shared = .ok (shared', .fork first c') → one first = true → one c' = false

section Steps

variable {K : Client C σ ι H} {s s' : State C σ} {es : List (Event C)} {t u : Tid}

/-- In a step of the kernel the threads keep their labels. -/
lemma Step.label_of_kernel (hp : Placed s) (hs : Step K s es s') (hk : ∀ e ∈ es, ¬ e.IsRan)
    (t : Tid) : (s'.loc t).label = (s.loc t).label := by
  by_cases ht : s.mode = .running ∧ t = s.currentThread
  · obtain ⟨hm, rfl⟩ := ht
    exact (hs.goes hp hm).label hk
  · exact hs.label_other hp hk fun hm he => ht ⟨hm, he⟩

section Client

variable {input : ι} {new : Tid} {c c' : C} {r : Ret} {call : Call C}

/-- The label of the thread that runs. -/
lemma ClientStep.label_self (hc : ClientStep K s s' input new c r call) :
    (s.loc s.currentThread).label = some c := by
  rw [hc.loc]
  rfl

/-- Another thread keeps its label, or it is forked. -/
lemma ClientStep.label_other (hc : ClientStep K s s' input new c r call)
    (ht : t ≠ s.currentThread) : (s'.loc t).label = (s.loc t).label ∨
      (s.loc t).label = none ∧ ∃ first c', call = .fork first c' ∧
        (s'.loc t).label = some first := by
  rcases hc.other t ht with he | ⟨-, first, c', hcall, hu, he⟩
  · exact .inl (congrArg Loc.label he)
  · exact .inr ⟨congrArg Loc.label hu, first, c', hcall, congrArg Loc.label he⟩

/-- A label after a step of the client: it was there before, or the call leads to it. -/
lemma ClientStep.label_cases (hc : ClientStep K s s' input new c r call)
    (h : (s'.loc t).label = some c') :
    (t ≠ s.currentThread ∧ (s.loc t).label = some c') ∨
      (t = s.currentThread ∧ call.label = some c') ∨
      (t = new ∧ t ≠ s.currentThread ∧ ∃ c'', call = .fork c' c'') := by
  by_cases ht : t = s.currentThread
  · subst ht
    rw [hc.place.label] at h
    exact .inr (.inl ⟨rfl, h⟩)
  · rcases hc.other t ht with he | ⟨hn, first, c'', hcall, -, he⟩
    · exact .inl ⟨ht, he ▸ h⟩
    · rw [he] at h
      obtain rfl := Option.some.inj h
      exact .inr (.inr ⟨hn, ht, c'', hcall⟩)

/-- What is new leads from the call. -/
lemma leads_of_new {call : Call C} {c' : C} (h : (t = s.currentThread ∧ call.label = some c') ∨
    (t = new ∧ t ≠ s.currentThread ∧ ∃ c'', call = .fork c' c'')) : call.Leads c' :=
  h.imp And.right fun h => h.2.2

/-- In a call that forks nobody the other threads keep their labels. -/
lemma ClientStep.label_other_of_ne (hc : ClientStep K s s' input new c r call)
    (hf : ∀ first c', call ≠ .fork first c') (ht : t ≠ s.currentThread) :
    (s'.loc t).label = (s.loc t).label :=
  (hc.label_other ht).resolve_right fun ⟨_, first, c', hcall, _⟩ => hf first c' hcall

/-- The labels of a kind stay where they were, when the caller neither had one nor leads to one. -/
lemma ClientStep.label_iff (hc : ClientStep K s s' input new c r call) {D : C → Prop}
    (hself : ¬ D c) (hleads : ∀ c', call.Leads c' → ¬ D c') {c' : C} (hc' : D c') (t : Tid) :
    (s'.loc t).label = some c' ↔ (s.loc t).label = some c' := by
  constructor
  · intro hl
    rcases hc.label_cases hl with ⟨-, hold⟩ | hnew
    · exact hold
    · exact absurd hc' (hleads c' (leads_of_new hnew))
  · intro hl
    have ht : t ≠ s.currentThread := by
      rintro rfl
      obtain rfl := Option.some.inj (hl.symm.trans hc.label_self)
      exact hself hc'
    rcases hc.label_other ht with he | ⟨hnone, -⟩
    · exact he.trans hl
    · rw [hnone] at hl
      cases hl

/-- Another thread is in `P` when it was. -/
lemma ClientStep.tests_other (hc : ClientStep K s s' input new c r call) (i : ℕ)
    (ht : t ≠ s.currentThread) : (s'.loc t).tests i = (s.loc t).tests i := by
  rcases hc.other t ht with he | ⟨-, first, c', -, hu, he⟩
  · rw [he]
  · rw [he, hu]
    rfl

/-- A thread that runs the client's code is in no `P`. -/
lemma ClientStep.tests_self (hc : ClientStep K s s' input new c r call) (i : ℕ) :
    (s.loc s.currentThread).tests i = false := by
  rw [hc.loc]
  rfl

/-- A step of the client leaves the semaphores alone. -/
lemma ClientStep.value (hc : ClientStep K.quiet s s' input new c r call)
    (hs : Step K.quiet s es s') (i : ℕ) : s'.value i = s.value i := by
  refine (hs.sem_frame fun _ hat => ?_).1
  obtain ⟨old, c', hl⟩ := hat
  rw [hc.loc] at hl
  rcases hl with hl | hl | hl <;> cases hl

end Client

/-! ### Interrupts -/

/-- An interrupt moves no thread. -/
lemma loc_of_interrupt (s : State C σ) (shared : σ) (v : Option ℕ) :
    (v.elim (s.handled shared) (s.handled shared).raise).loc = s.loc := by
  cases v with
  | none => rfl
  | some i => exact State.wake_loc _ _

/-- The data is what the handler leaves. -/
lemma shared_of_interrupt (s : State C σ) (shared : σ) (v : Option ℕ) :
    (v.elim (s.handled shared) (s.handled shared).raise).shared = shared := by
  cases v with
  | none => rfl
  | some i => exact State.wake_shared _ _

/-! ### The input of a step -/

/-- The client when the environment chooses this input. -/
def Client.given (K : Client C σ ι H) (input : ι) : Client C σ ι H :=
  { K with code := fun _ => K.code input }

/-- **A step of the machine**: an interrupt, a step of the client with the input that was chosen, or
a step of the kernel. -/
theorem step_interrupt_client_kernel {ch : Choice ι H} (h : step K ch s = .ok (es, s')) :
    (∃ d shared v, ch = .interrupt d ∧ K.handler d s.shared = .ok (shared, v) ∧
      s' = v.elim (s.handled shared) (s.handled shared).raise) ∨
    (Step K.quiet s es s' ∧ ∃ input new new' c r call, ch = .run input new ∧
      ClientStep K.quiet s s' input new' c r call) ∨
    (Step K.quiet s es s' ∧ (∀ e ∈ es, ¬ e.IsRan) ∧ ∀ d, ch ≠ .interrupt d) := by
  rcases step_interrupt_or h with ⟨d, shared, v, hch, -, handler, hs'⟩ | ⟨hd, hs⟩
  · exact .inl ⟨d, shared, v, hch, handler, hs'⟩
  right
  cases ch with
  | run input new =>
    have hgiven : step (K.given input).quiet (.run input new) s = .ok (es, s') := h
    rcases (step_rule hgiven).client_or_kernel with ⟨input', new', c, r, call, hc⟩ | hk
    · refine .inl ⟨hs, input, new, new', c, r, call, rfl, ?_⟩
      exact ⟨hc.mode, hc.loc, hc.code, hc.place, hc.queue, hc.lock, hc.other⟩
    · exact .inr ⟨hs, hk, hd⟩
  | preempt | dispatch =>
    refine .inr ⟨hs, fun e he => ?_, hd⟩
    have hnil : es = [] := by
      simp only [step] at h
      split at h
      all_goals first
        | cases h
        | obtain ⟨s₁, -, h⟩ := Lib.bind_eq_ok h
          cases h
          rfl
    rw [hnil] at he
    cases he
  | interrupt d => exact absurd rfl (hd d)

end Steps

/-! ### Runs -/

section Runs

variable {K : Client C σ ι H} {s : State C σ} {first : C} {value : ℕ → ℤ} {shared : σ}
  {tr : List (Event C)}

/-- The label of a thread at the start. -/
lemma init_label {t : Tid} {c : C} (h : ((State.init first value shared).loc t).label = some c) :
    t = 0 ∧ c = first := by
  by_cases ht : t = 0
  · subst ht
    exact ⟨rfl, (Option.some.inj h).symm⟩
  · have hloc : (State.init first value shared).loc t = .unborn := by simp [State.init, ht]
    rw [hloc] at h
    cases h

/-- **What the code keeps of its labels** holds of every thread in every run. -/
theorem Client.Labels.of_run {Q : C → Prop} (hK : K.Labels Q) (hfirst : Q first)
    (h : KernelRun K (State.init first value shared) tr s) {t : Tid} {c : C}
    (hc : (s.loc t).label = some c) : Q c := by
  refine h.invariant (I := fun _ s => ∀ t c, (s.loc t).label = some c → Q c) (fun t c hc => ?_)
    (fun hr hi ⟨_, hstep⟩ t c hc => ?_) t c hc
  · rw [(init_label hc).2]
    exact hfirst
  · have hs := step_rule hstep
    rcases hs.client_or_kernel with ⟨input, new, c₀, r, call, hclient⟩ | hk
    · rcases hclient.label_cases hc with ⟨-, hold⟩ | hnew
      · exact hi t c hold
      · exact hK hclient.code (hi _ _ hclient.label_self) c (leads_of_new hnew)
    · rw [hs.label_of_kernel (.of_run hr) hk] at hc
      exact hi t c hc

/-- **A client that forks nobody** is the main thread alone. -/
theorem main_of_run (hK : ∀ first' c, ¬ K.Makes (.fork first' c))
    (h : KernelRun K (State.init first value shared) tr s) {t : Tid} {c : C}
    (hc : (s.loc t).label = some c) : t = 0 := by
  refine h.invariant (I := fun _ s => ∀ t c, (s.loc t).label = some c → t = 0)
    (fun t c hc => (init_label hc).1) (fun hr hi ⟨_, hstep⟩ t c hc => ?_) t c hc
  have hs := step_rule hstep
  rcases hs.client_or_kernel with ⟨input, new, c₀, r, call, hclient⟩ | hk
  · rcases hclient.label_cases hc with ⟨-, hold⟩ | ⟨rfl, -⟩ | ⟨-, -, c', rfl⟩
    · exact hi t c hold
    · exact hi _ c₀ hclient.label_self
    · exact absurd ⟨_, _, _, _, _, _, hclient.code⟩ (hK c c')
  · rw [hs.label_of_kernel (.of_run hr) hk] at hc
    exact hi t c hc

/-- What the code and the handlers keep of the shared data holds in every run. -/
theorem shared_of_run {I : σ → Prop}
    (hcode : ∀ {input t c r shared shared' call}, K.code input t c r shared = .ok (shared', call) →
      I shared → I shared')
    (hhandler : ∀ {d shared shared' v}, K.handler d shared = .ok (shared', v) → I shared → I shared')
    (hshared : I shared) (h : KernelRun K (State.init first value shared) tr s) : I s.shared := by
  refine h.invariant_state (I := fun s => I s.shared) hshared fun hi ⟨_, hstep⟩ => ?_
  have hs := step_rule hstep
  rcases hs.client_or_kernel with ⟨input, new, c, r, call, hc⟩ | hk
  · exact hcode hc.code hi
  · rcases hs.shared hk with he | ⟨d, v, handler⟩
    · rw [he]
      exact hi
    · exact hhandler handler hi

/-- **Labels of one thread at a time**, in every run. -/
theorem Client.Single.of_run {one : C → Bool} (hK : K.Single one)
    (h : KernelRun K (State.init first value shared) tr s) {t u : Tid} {c c' : C}
    (ht : (s.loc t).label = some c) (hu : (s.loc u).label = some c') (hc : one c = true)
    (hc' : one c' = true) : t = u := by
  refine h.invariant (I := fun _ s => ∀ t u c c', (s.loc t).label = some c →
    (s.loc u).label = some c' → one c = true → one c' = true → t = u)
    (fun t u c c' ht hu _ _ => ?_) (fun hr hi ⟨_, hstep⟩ t u c c' ht hu hc hc' => ?_)
    t u c c' ht hu hc hc'
  · rw [(init_label ht).1, (init_label hu).1]
  have hs := step_rule hstep
  rcases hs.client_or_kernel with ⟨input, new, c₀, r, call, hclient⟩ | hk
  swap
  · rw [hs.label_of_kernel (.of_run hr) hk] at ht hu
    exact hi t u c c' ht hu hc hc'
  -- a call that leads to such a label is made at one
  have hone : ∀ c', call.Leads c' → one c' = true → one c₀ = true := by
    intro c' hleads hc'
    by_contra hn
    rw [hK.stays hclient.code (Bool.eq_false_iff.mpr hn) c' hleads] at hc'
    cases hc'
  rcases hclient.label_cases ht with ⟨hne, hold⟩ | hnew <;>
    rcases hclient.label_cases hu with ⟨hne', hold'⟩ | hnew'
  · exact hi t u c c' hold hold' hc hc'
  · exact absurd (hi t _ c c₀ hold hclient.label_self hc (hone c' (leads_of_new hnew') hc')) hne
  · exact absurd (hi u _ c' c₀ hold' hclient.label_self hc' (hone c (leads_of_new hnew) hc)) hne'
  · rcases hnew with ⟨rfl, hl⟩ | ⟨hn, -, c₁, hfork⟩ <;>
      rcases hnew' with ⟨hu', hl'⟩ | ⟨hn', -, c₁', hfork'⟩
    · exact hu'.symm
    · subst hfork'
      obtain rfl := Option.some.inj hl
      rw [hK.fork hclient.code hc'] at hc
      cases hc
    · subst hfork
      obtain rfl := Option.some.inj hl'
      rw [hK.fork hclient.code hc] at hc'
      cases hc'
    · rw [hn, hn']

end Runs

end Nachos.Threads
