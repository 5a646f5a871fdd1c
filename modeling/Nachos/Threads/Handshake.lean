import Nachos.Threads.Labels

/-!
# A device behind a lock and a semaphore

A thread takes a lock, asks a device for something, and waits in `P` for the interrupt that says
that it is done; the handler calls `V`. As long as every request is made with the lock and followed
by its `P`, the device has one request at a time, no unit is left over for the next request, and a
thread that is done with `P` has its own interrupt behind it.
-/

namespace Nachos.Threads

variable {C σ ι H : Type}

/-- A client that asks a device and waits: `i` is the semaphore, `asks` are the labels of the requests
and `served` those after `P`; `busy` is the number of the interrupts that are to come. -/
structure Client.Asks (K : Client C σ ι H) (i : ℕ) (asks served : C → Bool) (busy : σ → ℕ) :
    Prop where
  ask : ∀ {input t c r shared shared' call}, K.code input t c r shared = .ok (shared', call) →
    asks c = true → busy shared' = busy shared + 1 ∧ ∃ c', call = .down i c' ∧ served c' = true
  other : ∀ {input t c r shared shared' call}, K.code input t c r shared = .ok (shared', call) →
    asks c = false → busy shared' = busy shared ∧ ∀ c', call ≠ .down i c'
  noUp : ∀ {j c}, ¬ K.Makes (.up j c)
  interrupt : ∀ {d shared shared' v}, K.handler d shared = .ok (shared', v) →
    if v = some i then busy shared = busy shared' + 1 else busy shared' = busy shared

/-- A client that does so with the lock `L`. -/
structure Client.Handshakes (K : Client C σ ι H) (L i : ℕ) (asks served : C → Bool)
    (busy : σ → ℕ) : Prop extends K.Asks i asks served busy where
  locks : K.Locks L fun c => asks c || served c

/-- What is known of a run. -/
structure Handshaking (K : Client C σ ι H) (L : ℕ) (locked : C → Bool) (s : State C σ) : Prop where
  placed : Placed s
  holds : ∀ t, (s.lock (.lock L)).activeThread = some t ↔ (s.loc t).holds L locked = true
  fromSem : ∀ t, (s.loc t).FromSem K.Makes

/-- **The invariant**: while a thread waits, the request is with the device or its unit is there;
otherwise there is neither. -/
structure Shaken (i : ℕ) (busy : σ → ℕ) (s : State C σ) : Prop where
  waits : ∀ t, (s.loc t).tests i = true →
    (busy s.shared = 1 ∧ s.value i = 0) ∨ (busy s.shared = 0 ∧ s.value i = 1)
  quiet : (∀ t, (s.loc t).tests i = false) → busy s.shared = 0 ∧ s.value i = 0

section Steps

variable {K : Client C σ ι H} {L i : ℕ} {asks served : C → Bool} {busy : σ → ℕ}
  {s s' : State C σ} {es : List (Event C)} {t u : Tid}

/-- Nobody is in `V`. -/
lemma Client.Asks.not_up (hK : K.Asks i asks served busy) (hf : (s.loc t).FromSem K.Makes) (j : ℕ)
    (old : IntStatus) (c : C) : s.loc t ≠ .up j old c := by
  intro hl
  rw [hl] at hf
  exact hK.noUp hf

/-- Who waits in `P` has made a request. -/
lemma Client.Asks.served_of_tests (hK : K.Asks i asks served busy)
    (hf : (s.loc t).FromSem K.Makes) (ht : (s.loc t).tests i = true) :
    ∃ c, (s.loc t).label = some c ∧ served c = true := by
  obtain ⟨old, c, hl⟩ := Loc.tests_iff.1 ht
  have hmakes : K.Makes (.down i c) := by
    rcases hl with hl | hl <;> rw [hl] at hf <;> exact hf
  obtain ⟨input, u, c₀, r, shared, shared', hcode⟩ := hmakes
  refine ⟨c, by rcases hl with hl | hl <;> rw [hl] <;> rfl, ?_⟩
  cases hask : asks c₀ with
  | false => exact absurd rfl ((hK.other hcode hask).2 c)
  | true =>
    obtain ⟨-, c', hcall, hserved⟩ := hK.ask hcode hask
    cases hcall
    exact hserved

/-- Who waits in `P` has the lock. -/
lemma Client.Handshakes.holds_of_tests (hK : K.Handshakes L i asks served busy)
    (hf : (s.loc t).FromSem K.Makes) (ht : (s.loc t).tests i = true) :
    (s.loc t).holds L (fun c => asks c || served c) = true := by
  obtain ⟨c, hlabel, hserved⟩ := hK.toAsks.served_of_tests hf ht
  obtain ⟨old, c', hl | hl⟩ := Loc.tests_iff.1 ht <;> rw [hl] at hlabel ⊢ <;> cases hlabel <;>
    simp [Loc.holds, hserved]

/-- One thread has the lock. -/
lemma Handshaking.unique {locked : C → Bool} (h : Handshaking K L locked s)
    (ht : (s.loc t).holds L locked = true) (hu : (s.loc u).holds L locked = true) : t = u := by
  have hu' := (h.holds u).2 hu
  rw [(h.holds t).2 ht] at hu'
  exact Option.some.inj hu'

/-- When a thread that has the lock is not in `P`, nobody is. -/
lemma Client.Handshakes.quiet_of_holds (hK : K.Handshakes L i asks served busy)
    (h : Handshaking K L (fun c => asks c || served c) s)
    (ht : (s.loc t).holds L (fun c => asks c || served c) = true)
    (hnot : (s.loc t).tests i = false) (u : Tid) : (s.loc u).tests i = false := by
  refine Bool.eq_false_iff.mpr fun hu => ?_
  rw [h.unique (hK.holds_of_tests (h.fromSem u) hu) ht, hnot] at hu
  cases hu

/-- An interrupt. -/
lemma Shaken.interrupt (hK : K.Asks i asks served busy) (h : Shaken i busy s) {d : H}
    {shared : σ} {v : Option ℕ} (handler : K.handler d s.shared = .ok (shared, v)) :
    Shaken i busy (v.elim (s.handled shared) (s.handled shared).raise) := by
  have hbusy := hK.interrupt handler
  by_cases hv : v = some i
  · -- the unit is for the thread that waits
    subst hv
    rw [if_pos rfl] at hbusy
    obtain ⟨t, ht⟩ : ∃ t, (s.loc t).tests i = true := by
      by_contra hn
      have hquiet := h.quiet fun t => Bool.eq_false_iff.mpr fun ht => hn ⟨t, ht⟩
      omega
    have hone : busy s.shared = 1 ∧ s.value i = 0 := (h.waits t ht).resolve_right (by omega)
    have hloc : ((s.handled shared).raise i).loc = s.loc := State.wake_loc _ _
    have hshared : ((s.handled shared).raise i).shared = shared := State.wake_shared _ _
    have hvalue : ((s.handled shared).raise i).value i = 1 := by
      rw [raise_value, Function.update_self]
      exact congrArg (· + 1) hone.2
    change Shaken i busy ((s.handled shared).raise i)
    refine ⟨fun u _ => .inr ⟨?_, hvalue⟩, fun hnone => ?_⟩
    · rw [hshared]
      omega
    · have hnot := hnone t
      rw [hloc, ht] at hnot
      cases hnot
  · rw [if_neg hv] at hbusy
    have hsame : ∀ s' : State C σ, s'.loc = s.loc → s'.shared = shared →
        s'.value i = s.value i → Shaken i busy s' := by
      intro s' hloc hshared hvalue
      refine ⟨fun t ht => ?_, fun hnone => ?_⟩
      · rw [hshared, hvalue, hbusy]
        exact h.waits t (hloc ▸ ht)
      · rw [hshared, hvalue, hbusy]
        exact h.quiet fun t => hloc ▸ hnone t
    cases v with
    | none => exact hsame _ rfl rfl rfl
    | some j =>
      refine hsame _ (State.wake_loc _ _) (State.wake_shared _ _) ?_
      have hj : i ≠ j := fun he => hv (congrArg some he.symm)
      change ((s.handled shared).raise j).value i = s.value i
      rw [raise_value, Function.update_of_ne hj]
      rfl

/-- A step of the client; who makes a request makes it when nobody waits. -/
lemma Shaken.client (hK : K.Asks i asks served busy) (h : Shaken i busy s) {input : ι} {new : Tid}
    {c : C} {r : Ret} {call : Call C}
    (hquiet : asks c = true → ∀ u, (s.loc u).tests i = false) (hs : Step K.quiet s es s')
    (hc : ClientStep K.quiet s s' input new c r call) : Shaken i busy s' := by
  have hcode : K.code input s.currentThread c r s.shared = .ok (s'.shared, call) := hc.code
  have hvalue := hc.value hs i
  have hself := hc.tests_self i
  cases hask : asks c with
  | false =>
    obtain ⟨hbusy, hdown⟩ := hK.other hcode hask
    have htests : ∀ t, (s'.loc t).tests i = (s.loc t).tests i := by
      intro t
      by_cases ht : t = s.currentThread
      · rw [ht, hself]
        exact Bool.eq_false_iff.mpr fun ht' => (hc.place.tests.1 ht').elim hdown
      · exact hc.tests_other i ht
    refine ⟨fun t ht => ?_, fun hnone => ?_⟩
    · rw [hbusy, hvalue]
      exact h.waits t (htests t ▸ ht)
    · rw [hbusy, hvalue]
      exact h.quiet fun t => htests t ▸ hnone t
  | true =>
    obtain ⟨hbusy, c', hcall, -⟩ := hK.ask hcode hask
    obtain ⟨hidle, hzero⟩ := h.quiet (hquiet hask)
    refine ⟨fun t _ => .inl ⟨by omega, hvalue.trans hzero⟩, fun hnone => ?_⟩
    have hnot := hnone s.currentThread
    rw [hc.place.tests.2 ⟨c', hcall⟩] at hnot
    cases hnot

/-- A step of the kernel; one thread waits. -/
lemma Shaken.kernel (hK : K.Asks i asks served busy) (h : Shaken i busy s) (hp : Placed s)
    (hf : ∀ t, (s.loc t).FromSem K.Makes)
    (huniq : ∀ t u, (s.loc t).tests i = true → (s.loc u).tests i = true → t = u)
    (hs : Step K.quiet s es s') (hk : ∀ e ∈ es, ¬ e.IsRan) : Shaken i busy s' := by
  have hshared : s'.shared = s.shared := by
    rcases hs.shared hk with h | ⟨_, _, handler⟩
    · exact h
    · cases handler
  rcases hs.tests (i := i) hp hk fun _ => hK.not_up (hf s.currentThread) with
    ⟨hvalue, htests⟩ | ⟨-, hcur, hne, hvalue, hcur', hother⟩
  · refine ⟨fun t ht => ?_, fun hnone => ?_⟩
    · rw [hshared, hvalue]
      exact h.waits t (htests t ▸ ht)
    · rw [hshared, hvalue]
      exact h.quiet fun t => htests t ▸ hnone t
  · -- `P` is done, so the interrupt has come
    obtain ⟨hidle, hone⟩ := (h.waits _ hcur).resolve_left fun hb => hne hb.2
    refine ⟨fun t ht => ?_, fun _ => ⟨hshared ▸ hidle, by omega⟩⟩
    have htc : t ≠ s.currentThread := by
      rintro rfl
      rw [hcur'] at ht
      cases ht
    rw [hother t htc] at ht
    exact absurd (huniq t _ ht hcur) htc

end Steps

/-! ### Runs -/

section Runs

variable {K : Client C σ ι H} {L i : ℕ} {asks served : C → Bool} {busy : σ → ℕ} {s : State C σ}
  {first : C} {value : ℕ → ℤ} {shared : σ} {tr : List (Event C)} {t : Tid} {c : C}

lemma Handshaking.of_run (hK : K.Handshakes L i asks served busy)
    (hfirst : (asks first || served first) = false)
    (h : KernelRun K (State.init first value shared) tr s) :
    Handshaking K L (fun c => asks c || served c) s := by
  have hlocks : K.Locks L fun c => asks c || served c := hK.locks
  exact ⟨.of_run h, hlocks.of_run hfirst h, Loc.FromSem.of_run h⟩

theorem Shaken.of_run (hK : K.Handshakes L i asks served busy)
    (hfirst : (asks first || served first) = false) (hbusy : busy shared = 0)
    (hvalue : value i = 0) (h : KernelRun K (State.init first value shared) tr s) :
    Shaken i busy s := by
  refine h.invariant (I := fun _ s => Shaken i busy s)
    ⟨fun t ht => ?_, fun _ => ⟨hbusy, hvalue⟩⟩ fun hr hi ⟨_, hstep⟩ => ?_
  · rcases init_loc first value shared t with hl | hl <;> rw [hl] at ht <;> cases ht
  · have hh := Handshaking.of_run hK hfirst hr
    rcases step_interrupt_or hstep with ⟨d, shared, v, rfl, -, handler, rfl⟩ | ⟨-, hs⟩
    · exact hi.interrupt hK.toAsks handler
    · rcases hs.client_or_kernel with ⟨input, new, c, r, call, hc⟩ | hk
      · refine hi.client hK.toAsks (fun hask => ?_) hs hc
        refine hK.quiet_of_holds hh ?_ (hc.tests_self i)
        rw [hc.loc]
        simp [Loc.holds, Kont.holds, Kont.label, hask]
      · refine hi.kernel hK.toAsks hh.placed hh.fromSem (fun t u ht hu => ?_) hs hk
        exact hh.unique (hK.holds_of_tests (hh.fromSem t) ht) (hK.holds_of_tests (hh.fromSem u) hu)

/-- **One request at a time**: the device is idle when somebody has the lock and does not wait for
it, and it never has more than one request. -/
theorem Client.Handshakes.idle (hK : K.Handshakes L i asks served busy)
    (hfirst : (asks first || served first) = false) (hbusy : busy shared = 0)
    (hvalue : value i = 0) (h : KernelRun K (State.init first value shared) tr s) :
    busy s.shared ≤ 1 ∧ ((s.loc t).holds L (fun c => asks c || served c) = true →
      (s.loc t).tests i = false → busy s.shared = 0) := by
  have hs := Shaken.of_run hK hfirst hbusy hvalue h
  refine ⟨?_, fun hholds hnot => ?_⟩
  · by_cases hn : ∀ t, (s.loc t).tests i = false
    · have := (hs.quiet hn).1
      omega
    · obtain ⟨t, ht⟩ := not_forall.1 hn
      have := hs.waits t (Bool.not_eq_false _ ▸ ht)
      omega
  · exact (hs.quiet (hK.quiet_of_holds (.of_run hK hfirst h) hholds hnot)).1

end Runs

end Nachos.Threads
