import Nachos.Threads.Labels

/-!
# A device that announces what has come

A device keeps one thing that has come from outside and announces it with a `V`; one thread waits in
`P` and takes it. The device is full exactly as long as the unit is there, or the thread has it and
has not taken the thing yet: what has come is not overwritten, and the thread never finds nothing.
-/

namespace Nachos.Threads

variable {C σ ι H : Type}

/-- A client with such a device: `i` is the semaphore, `takes` are the labels after `P`. -/
structure Client.Announces (K : Client C σ ι H) (i : ℕ) (takes : C → Bool) (full : σ → Bool) :
    Prop where
  down : ∀ {c}, K.Makes (.down i c) → takes c = true
  leads : ∀ {input t c r shared shared' call c'}, K.code input t c r shared = .ok (shared', call) →
    call.Leads c' → takes c' = true → call = .down i c'
  take : ∀ {input t c r shared shared' call}, K.code input t c r shared = .ok (shared', call) →
    takes c = true → full shared' = false
  other : ∀ {input t c r shared shared' call}, K.code input t c r shared = .ok (shared', call) →
    takes c = false → full shared' = full shared
  noUp : ∀ {j c}, ¬ K.Makes (.up j c)

/-- **The invariant.** -/
structure Announced (i : ℕ) (takes : C → Bool) (full : σ → Bool) (s : State C σ) : Prop where
  empty : full s.shared = false → s.value i = 0 ∧
    ∀ t c, (s.loc t).label = some c → takes c = true → (s.loc t).tests i = true
  full : full s.shared = true →
    (s.value i = 1 ∧
      ∀ t c, (s.loc t).label = some c → takes c = true → (s.loc t).tests i = true) ∨
    (s.value i = 0 ∧
      ∃ t c, (s.loc t).label = some c ∧ takes c = true ∧ (s.loc t).tests i = false)

section Steps

variable {K : Client C σ ι H} {i : ℕ} {takes : C → Bool} {full : σ → Bool} {s s' : State C σ}
  {es : List (Event C)} {t : Tid}

/-- Who is in `P` waits for the device. -/
lemma Client.Announces.takes_of_tests (hK : K.Announces i takes full)
    (hf : (s.loc t).FromSem K.Makes) (ht : (s.loc t).tests i = true) :
    ∃ c, (s.loc t).label = some c ∧ takes c = true := by
  obtain ⟨old, c, hl⟩ := Loc.tests_iff.1 ht
  refine ⟨c, by rcases hl with hl | hl <;> rw [hl] <;> rfl, hK.down ?_⟩
  rcases hl with hl | hl <;> rw [hl] at hf <;> exact hf

/-- The thread that is about to take something finds it. -/
lemma Announced.full_of_takes (h : Announced i takes full s) {c : C}
    (hl : (s.loc t).label = some c) (hc : takes c = true) (ht : (s.loc t).tests i = false) :
    full s.shared = true := by
  by_contra hn
  rw [(h.empty (Bool.eq_false_iff.mpr hn)).2 t c hl hc] at ht
  cases ht

/-- The invariant, for the same labels. -/
lemma Announced.congr (h : Announced i takes full s) (hfull : full s'.shared = full s.shared)
    (hvalue : s'.value i = s.value i)
    (hlabel : ∀ t c, takes c = true → ((s'.loc t).label = some c ↔ (s.loc t).label = some c))
    (htests : ∀ t c, takes c = true → (s.loc t).label = some c →
      (s'.loc t).tests i = (s.loc t).tests i) : Announced i takes full s' := by
  have hall : (∀ t c, (s.loc t).label = some c → takes c = true → (s.loc t).tests i = true) →
      ∀ t c, (s'.loc t).label = some c → takes c = true → (s'.loc t).tests i = true := by
    intro hall t c hl hc
    have hl' := (hlabel t c hc).1 hl
    rw [htests t c hc hl']
    exact hall t c hl' hc
  refine ⟨fun hf => ?_, fun hf => ?_⟩
  · rw [hvalue]
    exact (h.empty (hfull ▸ hf)).imp_right hall
  · rw [hvalue]
    refine (h.full (hfull ▸ hf)).imp (And.imp_right hall) (And.imp_right ?_)
    rintro ⟨t, c, hl, hc, ht⟩
    exact ⟨t, c, (hlabel t c hc).2 hl, hc, (htests t c hc hl).trans ht⟩

/-- An interrupt. -/
lemma Announced.interrupt (h : Announced i takes full s) {shared : σ} {v : Option ℕ}
    (hv : if v = some i then full s.shared = false ∧ full shared = true
      else full shared = full s.shared) :
    Announced i takes full (v.elim (s.handled shared) (s.handled shared).raise) := by
  by_cases hi : v = some i
  · subst hi
    rw [if_pos rfl] at hv
    obtain ⟨hvalue, hall⟩ := h.empty hv.1
    have hloc : ((s.handled shared).raise i).loc = s.loc := State.wake_loc _ _
    have hshared : ((s.handled shared).raise i).shared = shared := State.wake_shared _ _
    have hone : ((s.handled shared).raise i).value i = 1 := by
      rw [raise_value, Function.update_self]
      exact congrArg (· + 1) hvalue
    change Announced i takes full ((s.handled shared).raise i)
    refine ⟨fun hf => ?_, fun _ => .inl ⟨hone, ?_⟩⟩
    · rw [hshared, hv.2] at hf
      cases hf
    · rw [hloc]
      exact hall
  · rw [if_neg hi] at hv
    cases v with
    | none => exact h.congr hv rfl (fun _ _ _ => Iff.rfl) fun _ _ _ _ => rfl
    | some j =>
      have hloc : ((s.handled shared).raise j).loc = s.loc := State.wake_loc _ _
      have hshared : ((s.handled shared).raise j).shared = shared := State.wake_shared _ _
      have hj : i ≠ j := fun he => hi (congrArg some he.symm)
      refine h.congr ?_ ?_ (fun _ _ _ => ?_) fun _ _ _ _ => ?_
      · change full ((s.handled shared).raise j).shared = _
        rw [hshared]
        exact hv
      · change ((s.handled shared).raise j).value i = s.value i
        rw [raise_value, Function.update_of_ne hj]
        rfl
      · change (((s.handled shared).raise j).loc _).label = _ ↔ _
        rw [hloc]
      · change (((s.handled shared).raise j).loc _).tests i = _
        rw [hloc]

/-- A step of the client; one thread at a time takes things. -/
lemma Announced.client (hK : K.Announces i takes full) (h : Announced i takes full s)
    (huniq : ∀ t u c c', (s.loc t).label = some c → (s.loc u).label = some c' →
      takes c = true → takes c' = true → t = u)
    {input : ι} {new : Tid} {c : C} {r : Ret} {call : Call C} (hs : Step K.quiet s es s')
    (hc : ClientStep K.quiet s s' input new c r call) : Announced i takes full s' := by
  have hcode : K.code input s.currentThread c r s.shared = .ok (s'.shared, call) := hc.code
  have hvalue := hc.value hs i
  have hself := hc.tests_self i
  -- who comes to take something comes to `P`
  have hnew : ∀ t c', (s'.loc t).label = some c' → takes c' = true →
      (t ≠ s.currentThread ∧ (s.loc t).label = some c') ∨
        (t = s.currentThread ∧ (s'.loc t).tests i = true) := by
    intro t c' hl hc'
    rcases hc.label_cases hl with hold | hlead
    · exact .inl hold
    · have hdown := hK.leads hcode (leads_of_new hlead) hc'
      rcases hlead with ⟨rfl, -⟩ | ⟨-, -, c'', hfork⟩
      · exact .inr ⟨rfl, hc.place.tests.2 ⟨c', hdown⟩⟩
      · rw [hdown] at hfork
        cases hfork
  have hother : ∀ {t}, t ≠ s.currentThread → (s'.loc t).tests i = (s.loc t).tests i := fun ht =>
    hc.tests_other i ht
  have hall : (∀ t c', (s.loc t).label = some c' → takes c' = true → t ≠ s.currentThread →
      (s.loc t).tests i = true) →
      ∀ t c', (s'.loc t).label = some c' → takes c' = true → (s'.loc t).tests i = true := by
    intro hall t c' hl hc'
    rcases hnew t c' hl hc' with ⟨hne, hold⟩ | ⟨-, ht⟩
    · rw [hother hne]
      exact hall t c' hold hc' hne
    · exact ht
  cases htakes : takes c with
  | true =>
    -- the thing is taken, by the one thread that can
    have hfull := h.full_of_takes hc.label_self htakes hself
    have hzero : s.value i = 0 := by
      rcases h.full hfull with ⟨-, hp⟩ | ⟨hzero, -⟩
      · rw [hp _ c hc.label_self htakes] at hself
        cases hself
      · exact hzero
    refine ⟨fun _ => ⟨hvalue.trans hzero, hall fun t c' hl hc' hne => ?_⟩, fun hf => ?_⟩
    · exact absurd (huniq t _ c' c hl hc.label_self hc' htakes) hne
    · rw [hK.take hcode htakes] at hf
      cases hf
  | false =>
    have hsame := hK.other hcode htakes
    refine ⟨fun hf => ?_, fun hf => ?_⟩
    · obtain ⟨hzero, hp⟩ := h.empty (hsame ▸ hf)
      exact ⟨hvalue.trans hzero, hall fun t c' hl hc' _ => hp t c' hl hc'⟩
    · rcases h.full (hsame ▸ hf) with ⟨hone, hp⟩ | ⟨hzero, t, c', hl, hc', ht⟩
      · exact .inl ⟨hvalue.trans hone, hall fun t c' hl hc' _ => hp t c' hl hc'⟩
      · have hne : t ≠ s.currentThread := by
          rintro rfl
          obtain rfl := Option.some.inj (hl.symm.trans hc.label_self)
          rw [htakes] at hc'
          cases hc'
        have hl' : (s'.loc t).label = some c' := by
          rcases hc.label_other hne with he | ⟨hnone, -⟩
          · exact he.trans hl
          · rw [hnone] at hl
            cases hl
        exact .inr ⟨hvalue.trans hzero, t, c', hl', hc', (hother hne).trans ht⟩

/-- A step of the kernel. -/
lemma Announced.kernel (hK : K.Announces i takes full) (h : Announced i takes full s)
    (hp : Placed s) (hf : ∀ t, (s.loc t).FromSem K.Makes) (hs : Step K.quiet s es s')
    (hk : ∀ e ∈ es, ¬ e.IsRan) : Announced i takes full s' := by
  have hshared : s'.shared = s.shared := by
    rcases hs.shared hk with h | ⟨_, _, handler⟩
    · exact h
    · cases handler
  have hlabel := hs.label_of_kernel hp hk
  have hup : s.mode = .running → ∀ j old c, s.loc s.currentThread ≠ .up j old c := by
    intro _ j old c hl
    have hfrom := hf s.currentThread
    rw [hl] at hfrom
    exact hK.noUp hfrom
  rcases hs.tests (i := i) hp hk hup with ⟨hvalue, htests⟩ | ⟨-, hcur, hne, hvalue, hcur', -⟩
  · exact h.congr (congrArg full hshared) hvalue (fun t c _ => by rw [hlabel]) fun t _ _ _ => htests t
  · -- the thread is done with `P`
    obtain ⟨c, hl, hc⟩ := hK.takes_of_tests (hf s.currentThread) hcur
    have hfull : full s.shared = true := by
      by_contra hn
      exact hne (h.empty (Bool.eq_false_iff.mpr hn)).1
    have hone : s.value i = 1 := by
      rcases h.full hfull with ⟨hone, -⟩ | ⟨hzero, -⟩
      · exact hone
      · exact absurd hzero hne
    refine ⟨fun hf => ?_, fun _ => .inr ⟨by omega, _, c, (hlabel _).trans hl, hc, hcur'⟩⟩
    rw [hshared, hfull] at hf
    cases hf

end Steps

/-- At the start there is nothing. -/
lemma announced_init {i : ℕ} {takes : C → Bool} {full : σ → Bool} {first : C} {value : ℕ → ℤ}
    {shared : σ} (hfirst : takes first = false) (hfull : full shared = false)
    (hvalue : value i = 0) : Announced i takes full (State.init first value shared) := by
  refine ⟨fun _ => ⟨hvalue, fun t c hl hc => ?_⟩, fun hf => ?_⟩
  · rw [(init_label hl).2, hfirst] at hc
    cases hc
  · have : full shared = true := hf
    rw [hfull] at this
    cases this

end Nachos.Threads
