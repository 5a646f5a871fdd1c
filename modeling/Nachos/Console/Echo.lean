import Nachos.Console.Console
import Nachos.Threads.Announce
import Nachos.Threads.Assertions
import Nachos.Threads.Handshake
import Nachos.Threads.Signalled

/-!
# The console test echoes

What `ConsoleTest` writes is what was typed, in that order, up to the first `q`; one character at
most has been typed and not been written. A character that equals `EOF` is not a character for the
console, which then believes that nothing has come.
-/

namespace Nachos.Console

open Lib Mips Threads

/-! ### The code -/

/-- A character is there. -/
def Console.full (con : Console) : Bool := con.incoming ≠ eof

/-- The characters that have been typed and not been taken. -/
def Console.waiting (con : Console) : List Byte := if con.incoming ≠ eof then [con.incoming] else []

/-- What the code does at a label. -/
inductive Act (con : Console) : Label → Console → Call Label → Prop
  | await : Act con .await con (.down readAvailSem .get)
  | get (busy : con.putBusy = false) :
      Act con .get { con with
        writeFile := con.writeFile ++ [con.incoming]
        incoming := eof
        putBusy := true
        scheduled := con.scheduled + 1 } (.down writeDoneSem (.written con.incoming))
  | goOn {ch} (ne : ch ≠ q) : Act con (.written ch) con (.skip .await)
  | stop : Act con (.written q) con (.skip .done)

/-- What the interrupt handlers do. -/
inductive Handles (con : Console) : ConsoleInt → Console → Option ℕ → Prop
  | full {poll} (full : con.full = true) : Handles con (.readPoll poll) con none
  | nothing (empty : con.full = false) : Handles con (.readPoll .nothing) con none
  | read {c} (empty : con.full = false) :
      Handles con (.readPoll (.char c)) { con with incoming := c } (some readAvailSem)
  | writeDone (scheduled : 0 < con.scheduled) :
      Handles con .writeDone { con with putBusy := false, scheduled := con.scheduled - 1 }
        (some writeDoneSem)

section Code

variable {input : Unit} {t : Tid} {c : Label} {r : Ret} {con con' : Console} {call : Call Label}

lemma act_of_code (hc : consoleTest.code input t c r con = .ok (con', call)) :
    Act con c con' call := by
  change code input t c r con = .ok (con', call) at hc
  cases c with
  | await =>
    cases hc
    exact .await
  | get =>
    by_cases hb : con.putBusy = false
    · simp only [code, Console.getChar, Console.putChar, hb, if_true] at hc
      cases hc
      exact .get hb
    · simp [code, Console.getChar, Console.putChar, hb] at hc
  | written ch =>
    simp only [code] at hc
    cases hc
    by_cases hq : ch = q
    · subst hq
      exact .stop
    · rw [if_neg hq]
      exact .goOn hq
  | done => cases hc

lemma act_of_makes (h : consoleTest.Makes call) : ∃ c con con', Act con c con' call := by
  obtain ⟨input, t, c, r, con, con', hc⟩ := h
  exact ⟨c, con, con', act_of_code hc⟩

lemma not_makes_up {j : ℕ} : ¬ consoleTest.Makes (.up j c) := by
  intro h
  obtain ⟨c₀, con, con', hact⟩ := act_of_makes h
  cases hact

lemma not_makes_fork (first c : Label) : ¬ consoleTest.Makes (.fork first c) := by
  intro h
  obtain ⟨c₀, con, con', hact⟩ := act_of_makes h
  cases hact

lemma handles_of_handler {d : ConsoleInt} {v : Option ℕ}
    (h : consoleTest.handler d con = .ok (con', v)) : Handles con d con' v := by
  change handler d con = .ok (con', v) at h
  cases d with
  | writeDone =>
    simp only [handler, Console.writeDone] at h
    by_cases hz : con.scheduled = 0
    · rw [if_pos hz] at h
      cases h
    · rw [if_neg hz] at h
      cases h
      exact .writeDone (Nat.pos_of_ne_zero hz)
  | readPoll poll =>
    simp only [handler, Console.checkCharAvail] at h
    by_cases hf : con.incoming ≠ eof
    · rw [if_pos hf] at h
      cases h
      exact .full (decide_eq_true hf)
    · rw [if_neg hf] at h
      have hempty : con.full = false := decide_eq_false hf
      cases poll with
      | nothing =>
        cases h
        exact .nothing hempty
      | char c =>
        cases h
        exact .read hempty
      | atEnd => cases h

/-- The handlers assert only that there is a character to be read. -/
lemma atEnd_of_asserts {d : ConsoleInt} (h : consoleTest.handler d con = .error .assertion) :
    d = .readPoll .atEnd := by
  change handler d con = .error .assertion at h
  cases d with
  | readPoll poll =>
    simp only [handler, Console.checkCharAvail] at h
    by_cases hi : con.incoming ≠ eof
    · rw [if_pos hi] at h
      cases h
    · rw [if_neg hi] at h
      cases poll with
      | atEnd => rfl
      | nothing | char c => cases h
  | writeDone =>
    simp only [handler, Console.writeDone] at h
    split at h
    next hx =>
      split at hx <;> cases hx
      cases h
    next => cases h

def Label.isGet : Label → Bool
  | .get => true
  | _ => false

def Label.isWritten : Label → Bool
  | .written _ => true
  | _ => false

lemma announces : consoleTest.Announces readAvailSem Label.isGet Console.full where
  down := by
    intro c h
    obtain ⟨c₀, con, con', hact⟩ := act_of_makes h
    cases hact
    rfl
  leads := by
    intro input t c r con con' call c' hc hleads hc'
    cases act_of_code hc <;> rcases hleads with hl | ⟨c'', hl⟩ <;> cases hl <;>
      first | rfl | cases hc'
  take := by
    intro input t c r con con' call hc htakes
    cases act_of_code hc with
    | get => rfl
    | _ => cases htakes
  other := by
    intro input t c r con con' call hc htakes
    cases act_of_code hc with
    | get => cases htakes
    | _ => rfl
  noUp := not_makes_up

lemma asks : consoleTest.Asks writeDoneSem Label.isGet Label.isWritten Console.scheduled where
  ask := by
    intro input t c r con con' call hc hask
    cases act_of_code hc with
    | get => exact ⟨rfl, _, rfl, rfl⟩
    | _ => cases hask
  other := by
    intro input t c r con con' call hc hask
    cases act_of_code hc with
    | get => cases hask
    | _ => exact ⟨rfl, by simp⟩
  noUp := not_makes_up
  interrupt := by
    intro d con con' v h
    cases handles_of_handler h with
    | full | nothing | read => rfl
    | writeDone scheduled =>
      simp only [if_true]
      omega

end Code

/-! ### The invariant -/

/-- What has been echoed when the test is at a label. -/
def Label.Tells (out : List Byte) : Label → Prop
  | .await => q ∉ out
  | .get => q ∉ out
  | .written ch => ∃ pre, out = pre ++ [ch] ∧ q ∉ pre
  | .done => ∃ pre, out = pre ++ [q] ∧ q ∉ pre

/-- **The invariant** of the test. -/
structure Echo (es : List ConsoleEvent) (s : State Label Console) : Prop where
  announced : Announced readAvailSem Label.isGet Console.full s
  shaken : Shaken writeDoneSem Console.scheduled s
  putBusy : s.shared.putBusy = decide (s.shared.scheduled ≠ 0)
  chars : typed es = echoed es ++ s.shared.waiting
  writeFile : s.shared.writeFile = echoed es
  tells : ∃ c, (s.loc 0).label = some c ∧ c.Tells (echoed es)

@[simp] lemma typed_append (es es' : List ConsoleEvent) :
    typed (es ++ es') = typed es ++ typed es' := List.filterMap_append ..

@[simp] lemma echoed_append (es es' : List ConsoleEvent) :
    echoed (es ++ es') = echoed es ++ echoed es' := List.filterMap_append ..

section Steps

variable {s s' : State Label Console} {es : List ConsoleEvent} {kes : List (Threads.Event Label)}

lemma Shaken.scheduled_le (h : Shaken writeDoneSem Console.scheduled s) :
    s.shared.scheduled ≤ 1 := by
  by_cases hn : ∀ t, (s.loc t).tests writeDoneSem = false
  · have := (h.quiet hn).1
    omega
  · obtain ⟨t, ht⟩ := not_forall.1 hn
    have := h.waits t (Bool.not_eq_false _ ▸ ht)
    omega

/-- The interrupts. -/
lemma Echo.interrupt (h : Echo es s) {d : ConsoleInt} {con : Console} {v : Option ℕ}
    (handler : Console.handler d s.shared = .ok (con, v))
    (hin : eof ∉ typed (consoleEvents (.interrupt d) s)) :
    Echo (es ++ consoleEvents (.interrupt d) s)
      (v.elim (s.handled con) (s.handled con).raise) := by
  have hshaken := h.shaken.interrupt asks handler
  have hle := Shaken.scheduled_le h.shaken
  have hloc := loc_of_interrupt s con v
  have hshared := shared_of_interrupt s con v
  have hann : (if v = some readAvailSem then s.shared.full = false ∧ con.full = true
      else con.full = s.shared.full) → Announced readAvailSem Label.isGet Console.full
        (v.elim (s.handled con) (s.handled con).raise) := fun hv => h.announced.interrupt hv
  generalize v.elim (s.handled con) (s.handled con).raise = s' at hshaken hloc hshared hann ⊢
  -- the interrupts that show nothing
  have hquiet : consoleEvents (.interrupt d) s = [] → Announced readAvailSem Label.isGet
      Console.full s' → con.putBusy = decide (con.scheduled ≠ 0) →
      con.waiting = s.shared.waiting → con.writeFile = s.shared.writeFile →
      Echo (es ++ consoleEvents (.interrupt d) s) s' := by
    intro hes hannounced hbusy hwaiting hfile
    rw [hes, List.append_nil]
    refine ⟨hannounced, hshaken, by rw [hshared]; exact hbusy, ?_, ?_, by rw [hloc]; exact h.tells⟩
    · rw [hshared, hwaiting]
      exact h.chars
    · rw [hshared, hfile]
      exact h.writeFile
  cases handles_of_handler handler with
  | full full =>
    refine hquiet ?_ (hann (by simp)) h.putBusy rfl rfl
    rename_i poll
    cases poll with
    | char c => exact if_pos (of_decide_eq_true full)
    | _ => rfl
  | nothing empty => exact hquiet rfl (hann (by simp)) h.putBusy rfl rfl
  | writeDone scheduled =>
    refine hquiet rfl (hann (by simp [Console.full])) ?_ rfl rfl
    have hzero : s.shared.scheduled - 1 = 0 := by omega
    simp [hzero]
  | @read c empty =>
    have hempty : ¬ s.shared.incoming ≠ eof := of_decide_eq_false empty
    have hes : consoleEvents (.interrupt (.readPoll (.char c))) s = [.typed c] := if_neg hempty
    rw [hes] at hin ⊢
    have hne : c ≠ eof := fun he => hin (by simp [typed, he])
    have hnone : s.shared.waiting = [] := if_neg hempty
    refine ⟨hann ?_, hshaken, ?_, ?_, ?_, ?_⟩
    · rw [if_pos rfl]
      exact ⟨empty, decide_eq_true hne⟩
    · rw [hshared]
      exact h.putBusy
    · have hwaiting : s'.shared.waiting = [c] := by
        rw [hshared]
        exact if_pos hne
      rw [typed_append, echoed_append, h.chars, hnone, hwaiting]
      simp [typed, echoed]
    · rw [hshared, echoed_append]
      simpa [echoed] using h.writeFile
    · rw [hloc, echoed_append]
      simpa [echoed] using h.tells

/-- A step of the test. -/
lemma Echo.client (h : Echo es s) (hmain : ∀ t c, (s.loc t).label = some c → t = 0)
    {input : Unit} {new new' : Tid} {c : Label} {r : Ret} {call : Call Label}
    (hf : ∀ t, (s.loc t).FromSem consoleTest.Makes) (hs : Step consoleTest.quiet s kes s')
    (hc : ClientStep consoleTest.quiet s s' input new c r call) :
    Echo (es ++ consoleEvents (.run input new') s) s' := by
  have hzero : s.currentThread = 0 := hmain _ c hc.label_self
  have hannounced : Announced readAvailSem Label.isGet Console.full s' :=
    h.announced.client announces
      (fun t u c c' ht hu _ _ => (hmain t c ht).trans (hmain u c' hu).symm) hs hc
  have hnone : ∀ u, (s.loc u).tests writeDoneSem = false := by
    intro u
    refine Bool.eq_false_iff.mpr fun hu => ?_
    obtain ⟨c', hl, -⟩ := asks.served_of_tests (hf u) hu
    have hcur := hc.tests_self writeDoneSem
    rw [hzero, ← hmain u c' hl, hu] at hcur
    cases hcur
  have hshaken : Shaken writeDoneSem Console.scheduled s' :=
    h.shaken.client asks (fun _ => hnone) hs hc
  have hself : (s'.loc 0).label = call.label := by
    rw [← hzero]
    exact hc.place.label
  have htells : c.Tells (echoed es) := by
    obtain ⟨c', hl, htells⟩ := h.tells
    rw [← hzero, hc.label_self] at hl
    obtain rfl := Option.some.inj hl
    exact htells
  have hidle := (h.shaken.quiet hnone).1
  have hcode : consoleTest.code input s.currentThread c r s.shared = .ok (s'.shared, call) :=
    hc.code
  have hact := act_of_code hcode
  have hes : consoleEvents (.run input new') s =
      if c = .get then [.echoed s.shared.incoming] else [] := by
    simp only [consoleEvents, hc.mode, hc.loc]
    cases c <;> rfl
  rw [hes]
  -- the points at which nothing is echoed
  have hquiet : c ≠ .get → s'.shared = s.shared → (∃ c', call.label = some c' ∧
      c'.Tells (echoed es)) → Echo (es ++ if c = .get then [.echoed s.shared.incoming] else []) s' := by
    intro hne hshared htells'
    rw [if_neg hne, List.append_nil]
    refine ⟨hannounced, hshaken, ?_, ?_, ?_, by rw [hself]; exact htells'⟩
    · rw [hshared]
      exact h.putBusy
    · rw [hshared]
      exact h.chars
    · rw [hshared]
      exact h.writeFile
  generalize hcon : s'.shared = con at hact hquiet
  cases hact with
  | await => exact hquiet (by simp) rfl ⟨_, rfl, htells⟩
  | goOn ne =>
    obtain ⟨pre, hout, hpre⟩ := htells
    refine hquiet (by simp) rfl ⟨_, rfl, ?_⟩
    rw [hout]
    simp only [Label.Tells, List.mem_append, List.mem_singleton, not_or]
    exact ⟨hpre, fun he => ne he.symm⟩
  | stop => exact hquiet (by simp) rfl ⟨_, rfl, htells⟩
  | get busy =>
    have hfull : s.shared.incoming ≠ eof :=
      of_decide_eq_true (h.announced.full_of_takes hc.label_self rfl (hc.tests_self _))
    have hwaiting : s.shared.waiting = [s.shared.incoming] := if_pos hfull
    rw [if_pos rfl]
    have hechoed : echoed (es ++ [.echoed s.shared.incoming]) = echoed es ++ [s.shared.incoming] := by
      simp [echoed]
    refine ⟨hannounced, hshaken, ?_, ?_, ?_, .written s.shared.incoming, hself, ?_⟩
    · rw [hcon]
      simp [hidle]
    · have hempty : s'.shared.waiting = [] := by
        rw [hcon]
        rfl
      rw [hechoed, hempty, typed_append, h.chars, hwaiting]
      simp [typed]
    · rw [hcon, hechoed, ← h.writeFile]
    · exact ⟨_, hechoed, htells⟩

/-- A step of the kernel. -/
lemma Echo.kernel (h : Echo es s) (hmain : ∀ t c, (s.loc t).label = some c → t = 0)
    (hp : Placed s) (hf : ∀ t, (s.loc t).FromSem consoleTest.Makes)
    (hs : Step consoleTest.quiet s kes s') (hk : ∀ e ∈ kes, ¬ e.IsRan) : Echo es s' := by
  have hshared := (hs.shared hk).resolve_right fun ⟨_, _, handler⟩ => by cases handler
  have hlabel := hs.label_of_kernel hp hk
  refine ⟨h.announced.kernel announces hp hf hs hk, ?_, ?_, ?_, ?_, ?_⟩
  · refine h.shaken.kernel asks hp hf (fun t u ht hu => ?_) hs hk
    obtain ⟨c, hl, -⟩ := asks.served_of_tests (hf t) ht
    obtain ⟨c', hl', -⟩ := asks.served_of_tests (hf u) hu
    rw [hmain t c hl, hmain u c' hl']
  · rw [hshared]
    exact h.putBusy
  · rw [hshared]
    exact h.chars
  · rw [hshared]
    exact h.writeFile
  · rw [hlabel]
    exact h.tells

/-- In a step of the kernel nothing is seen. -/
lemma consoleEvents_of_kernel (hp : Placed s) (hs : Step consoleTest.quiet s kes s')
    (hk : ∀ e ∈ kes, ¬ e.IsRan) {ch : Choice Unit ConsoleInt} (hd : ∀ d, ch ≠ .interrupt d) :
    consoleEvents ch s = [] := by
  cases ch with
  | run input new =>
    simp only [consoleEvents]
    split
    next r hm hl =>
      obtain ⟨e, he, hran⟩ := hs.ran_of_client hp hm hl
      exact absurd hran (hk e he)
    next => rfl
  | interrupt d => exact absurd rfl (hd d)
  | preempt | dispatch => rfl

end Steps

/-! ### Runs -/

section Runs

variable {s : State Label Console} {es : List ConsoleEvent}

lemma echo_start : Echo [] start := by
  refine ⟨announced_init rfl rfl rfl, ⟨fun t ht => ?_, fun _ => ⟨rfl, rfl⟩⟩, rfl, rfl, rfl, _, rfl,
    List.not_mem_nil⟩
  rcases init_loc Label.await (fun _ => 0) Console.new t with hl | hl <;> rw [start, hl] at ht <;>
    cases ht

/-- The invariant holds as long as what is typed is not `EOF`. -/
theorem Echo.of_run (h : Run (StepOf consoleStep) start es s) (hin : eof ∉ typed es) :
    (∃ tr, KernelRun consoleTest start tr s) ∧ Echo es s := by
  have hinv := h.observed_invariant (I := fun es s => eof ∉ typed es → Echo es s)
    (fun _ => echo_start) fun {tr os ch s es s'} hr hi hstep hin => ?_
  · exact ⟨hinv.1, hinv.2 hin⟩
  rw [typed_append, List.mem_append, not_or] at hin
  have hi := hi hin.1
  have hmain : ∀ t c, (s.loc t).label = some c → t = 0 := fun t c hl =>
    main_of_run not_makes_fork hr hl
  rcases step_interrupt_client_kernel hstep with ⟨d, con, v, rfl, handler, rfl⟩ |
    ⟨hs, input, new, new', c, r, call, rfl, hc⟩ | ⟨hs, hk, hd⟩
  · exact hi.interrupt handler hin.2
  · exact hi.client hmain (.of_run hr) hs hc
  · rw [consoleEvents_of_kernel (.of_run hr) hs hk hd, List.append_nil]
    exact hi.kernel hmain (.of_run hr) (.of_run hr) hs hk

/-- **The console test echoes what is typed**, for every timing of the keyboard, the display and the
processor, if what is typed is not `EOF`: all of it but the one character that may be waiting, in
that order; a `q` is the last character that is echoed, and the test returns after one. The device
is never asked to put two characters at once; an assertion fails only where the input ends. -/
theorem echo_of_run (h : Run (StepOf consoleStep) start es s) (hin : eof ∉ typed es) :
    typed es = echoed es ++ s.shared.waiting ∧ s.shared.writeFile = echoed es ∧
    (∀ pre post, echoed es = pre ++ q :: post → post = []) ∧
    ((s.loc 0).label = some .done → ∃ pre, echoed es = pre ++ [q]) ∧
    ∀ ch, consoleStep ch s = .error .assertion → ch = .interrupt (.readPoll .atEnd) := by
  obtain ⟨⟨tr, hr⟩, hecho⟩ := Echo.of_run h hin
  obtain ⟨c, hlabel, htells⟩ := hecho.tells
  refine ⟨hecho.chars, hecho.writeFile, fun pre post hout => ?_, fun hdone => ?_, fun ch hfail => ?_⟩
  · have hmem : q ∈ echoed es := by
      rw [hout]
      exact List.mem_append_right _ List.mem_cons_self
    have hlast : ∀ pre' x, echoed es = pre' ++ [x] → q ∉ pre' → post = [] := by
      intro pre' x hx hpre'
      rw [hx] at hout
      rcases concat_eq_append_cons hout with ⟨mid, rfl, -⟩ | ⟨-, -, hpost⟩
      · exact absurd (List.mem_append_right _ List.mem_cons_self) hpre'
      · exact hpost
    cases c with
    | await => exact absurd hmem htells
    | get => exact absurd hmem htells
    | written ch =>
      obtain ⟨pre', hx, hpre'⟩ := htells
      exact hlast pre' ch hx hpre'
    | done =>
      obtain ⟨pre', hx, hpre'⟩ := htells
      exact hlast pre' q hx hpre'
  · obtain rfl := Option.some.inj (hlabel.symm.trans hdone)
    obtain ⟨pre, hout, -⟩ := htells
    exact ⟨pre, hout⟩
  · have hkernel : step consoleTest ch s = .error .assertion := by
      unfold consoleStep observed at hfail
      split at hfail
      next hk =>
        cases hfail
        exact hk
      next => cases hfail
    cases assertion_of_client hr hkernel with
    | handler hd =>
      rw [atEnd_of_asserts hd]
    | @code input new c' r mode loc hcode =>
      have hzero : s.currentThread = 0 :=
        main_of_run not_makes_fork hr (show (s.loc s.currentThread).label = some c' by rw [loc]; rfl)
      have hnone : ∀ t, (s.loc t).tests writeDoneSem = false := by
        intro t
        refine Bool.eq_false_iff.mpr fun ht => ?_
        obtain ⟨c'', hl, -⟩ := asks.served_of_tests (Loc.FromSem.of_run hr t) ht
        rw [main_of_run not_makes_fork hr hl, ← hzero, loc] at ht
        cases ht
      have hfree : s.shared.putBusy = false := by
        rw [hecho.putBusy, (hecho.shaken.quiet hnone).1]
        rfl
      cases c' with
      | get =>
        simp only [consoleTest, Console.code, Console.getChar, Console.putChar, hfree, if_true] at hcode
        cases hcode
      | _ => cases hcode
    | condition mode loc hcode hasserts =>
      cases act_of_code hcode <;> cases hasserts

/-- The running thread goes on. -/
def goesOn (n : ℕ) : List (Choice Unit ConsoleInt) := List.replicate n (.run () 1)

/-- A character is typed, and echoed. -/
def types (c : Byte) : List (Choice Unit ConsoleInt) :=
  [.interrupt (.readPoll (.char c)), .dispatch] ++ goesOn 4 ++ [.interrupt .writeDone, .dispatch]

/-- `aq` is echoed, and the test has returned. -/
theorem echo_of_run_aq : ∃ es s, Run (StepOf consoleStep) start es s ∧ eof ∉ typed es ∧
    (s.loc 0).label = some .done ∧ typed es = [0x61, q] ∧
    typed es = echoed es ++ s.shared.waiting ∧ s.shared.writeFile = echoed es ∧
    (∀ pre post, echoed es = pre ++ q :: post → post = []) ∧
    ((s.loc 0).label = some .done → ∃ pre, echoed es = pre ++ [q]) ∧
    ∀ ch, consoleStep ch s = .error .assertion → ch = .interrupt (.readPoll .atEnd) := by
  obtain ⟨es, s, hr, hp⟩ := run_of_passes consoleStep
    (goesOn 2 ++ types 0x61 ++ goesOn 5 ++ types q ++ goesOn 3) start
    (fun es s => eof ∉ typed es ∧ (s.loc 0).label = some .done ∧ typed es = [0x61, q])
    (by decide +kernel)
  obtain ⟨hin, hdone, htyped⟩ := of_decide_eq_true hp
  exact ⟨es, s, hr, hin, hdone, htyped, echo_of_run hr hin⟩

end Runs

end Nachos.Console
