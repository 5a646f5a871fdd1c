import Nachos.Network.Transport

/-!
# One packet at a time

The network sends one packet at a time, and nothing but the post office sees to that: `sendBusy` is
never set. On every machine the packets go out one after the other, each followed by its interrupt
and by the return of the `Send` that it belongs to.
-/

namespace Nachos.Network

open Lib Threads

variable {ι P : Type} {addr : NetworkAddress} {numBoxes : ℕ} {program : Program ι P}

/-- Where the network is with its sending: nothing to send, a packet of this thread on its way, or
out. -/
inductive Phase where
  | idle
  | sending (t : Tid)
  | out (t : Tid)

/-- The packets go out in turn. -/
def Phase.next (phase : Phase) (e : MailEvent) : Option Phase :=
  match phase, e with
  | .idle, .sent t _ _ => some (.sending t)
  | .sending t, .done => some (.out t)
  | .out t, .completed u => if u = t then some .idle else none
  | _, .sent _ _ _ => none
  | _, .done => none
  | _, .completed _ => none
  | _, _ => some phase

/-- Where the network is after what was seen, if the packets went out in turn. -/
def inTurn (es : List MailEvent) : Option Phase := es.foldlM Phase.next .idle

/-- The state in that phase. -/
def Phase.Fits (s : State (Label P) PostOffice) : Phase → Prop
  | .idle => s.shared.network.scheduled = 0 ∧ ∀ t p, (s.loc t).label ≠ some (.sent p)
  | .sending t => s.shared.network.scheduled = 1 ∧ ∃ p, (s.loc t).label = some (.sent p)
  | .out t => s.shared.network.scheduled = 0 ∧ ∃ p, (s.loc t).label = some (.sent p)

/-- **The invariant** of sending. -/
def InTurn (es : List MailEvent) (s : State (Label P) PostOffice) : Prop :=
  ∃ phase, inTurn es = some phase ∧ phase.Fits s

section Steps

variable {s s' : State (Label P) PostOffice} {es es' : List MailEvent} {phase phase' : Phase}

lemma inTurn_append (h : inTurn es = some phase) :
    inTurn (es ++ es') = es'.foldlM Phase.next phase := by
  unfold inTurn at h ⊢
  rw [List.foldlM_append, h]
  rfl

lemma inTurn_concat {e : MailEvent} (h : inTurn es = some phase) (hnext : phase.next e = some phase') :
    inTurn (es ++ [e]) = some phase' := by
  rw [inTurn_append h, List.foldlM_cons, hnext]
  rfl

lemma foldlM_next_of_quiet (hes : ∀ e ∈ es, ∀ phase : Phase, phase.next e = some phase) :
    es.foldlM Phase.next phase = some phase := by
  induction es with
  | nil => rfl
  | cons e es ih =>
    rw [List.foldlM_cons, hes e List.mem_cons_self]
    exact ih fun e' he' => hes e' (List.mem_cons_of_mem _ he')

lemma Phase.Fits.congr (h : phase.Fits s)
    (hscheduled : s'.shared.network.scheduled = s.shared.network.scheduled)
    (hlabel : ∀ t p, (s'.loc t).label = some (.sent p) ↔ (s.loc t).label = some (.sent p)) :
    phase.Fits s' := by
  cases phase with
  | idle => exact ⟨hscheduled.trans h.1, fun t p hl => h.2 t p ((hlabel t p).1 hl)⟩
  | sending t =>
    obtain ⟨hone, p, hl⟩ := h
    exact ⟨hscheduled.trans hone, p, (hlabel t p).2 hl⟩
  | out t =>
    obtain ⟨hzero, p, hl⟩ := h
    exact ⟨hscheduled.trans hzero, p, (hlabel t p).2 hl⟩

/-- A step that has nothing to do with sending. -/
lemma InTurn.quiet (h : InTurn es s)
    (hes : ∀ e ∈ es', ∀ phase : Phase, phase.next e = some phase)
    (hscheduled : s'.shared.network.scheduled = s.shared.network.scheduled)
    (hlabel : ∀ t p, (s'.loc t).label = some (.sent p) ↔ (s.loc t).label = some (.sent p)) :
    InTurn (es ++ es') s' := by
  obtain ⟨phase, hturn, hfits⟩ := h
  exact ⟨phase, (inTurn_append hturn).trans (foldlM_next_of_quiet hes),
    hfits.congr hscheduled hlabel⟩

/-- The interrupts. -/
lemma InTurn.interrupt (h : InTurn es s) {d : NetworkInt} {po : PostOffice} {v : Option ℕ}
    (hbusy : s.shared.network.scheduled ≤ 1) (handler : Network.handler d s.shared = .ok (po, v)) :
    InTurn (es ++ mailEvents (ι := ι) (.interrupt d) s)
      (v.elim (s.handled po) (s.handled po).raise) := by
  have hloc := loc_of_interrupt s po v
  have hshared := shared_of_interrupt s po v
  generalize v.elim (s.handled po) (s.handled po).raise = s' at hloc hshared ⊢
  have hpoll : ∀ packet, ∀ e ∈ mailEvents (ι := ι) (.interrupt (.readPoll packet)) s,
      ∀ phase : Phase, phase.next e = some phase := by
    intro packet e he phase
    simp only [mailEvents] at he
    split at he
    · cases he
    · obtain ⟨p, -, rfl⟩ := List.mem_map.1 he
      cases phase <;> rfl
  cases handles_of_handler handler with
  | full | none => exact h.quiet (hpoll _) (by rw [hshared]) (by simp [hloc])
  | read => exact h.quiet (hpoll _) (by rw [hshared]; rfl) (by simp [hloc])
  | sendDone scheduled =>
    obtain ⟨phase, hturn, hfits⟩ := h
    have hone : s.shared.network.scheduled = 1 := by omega
    cases phase with
    | idle | out =>
      rw [hfits.1] at hone
      cases hone
    | sending t =>
      refine ⟨.out t, inTurn_concat hturn rfl, ?_, ?_⟩
      · rw [hshared]
        exact Nat.sub_eq_zero_of_le hbusy
      · rw [hloc]
        exact hfits.2

section Runs

variable {first : P} {fresh : PacketHeader × Filesys.Memory} {ktr kes : List (Threads.Event (Label P))}

/-- Who waits for its packet to go out, or is about to return, has the lock. -/
lemma holds_of_sent (h : KernelRun (postOffice addr numBoxes program) (start addr first fresh) ktr s)
    {t : Tid} {p : P} (ht : (s.loc t).label = some (.sent p)) :
    (s.loc t).holds sendLock (fun c => c.asks || c.isSent) = true := by
  refine holds_of_label (Loc.From.of_run h t) ((WaitInv.of_run h).good t) ht rfl (fun hm => ?_)
    fun cond n hm => ?_
  all_goals
    obtain ⟨input, u, c, po, po', es, hact⟩ := act_of_makes hm
    cases hact

/-- One thread sends. -/
lemma sender_unique (h : KernelRun (postOffice addr numBoxes program) (start addr first fresh) ktr s)
    {t u : Tid} {p : P} (ht : (s.loc t).holds sendLock (fun c => c.asks || c.isSent) = true)
    (hu : (s.loc u).label = some (.sent p)) : u = t := by
  have hlocks : (postOffice addr numBoxes program).Locks sendLock fun c => c.asks || c.isSent :=
    handshakes.locks
  exact hlocks.exclusive rfl h (holds_of_sent h hu) ht

/-- A step of a thread's code. -/
lemma InTurn.client (h : InTurn es s)
    (hr : KernelRun (postOffice addr numBoxes program) (start addr first fresh) ktr s)
    {input : Input ι} {new : Tid} {c : Label P} {r : Ret} {call : Call (Label P)}
    (hc : ClientStep (postOffice addr numBoxes program).quiet s s' input new c r call) :
    InTurn (es ++ threadEvents input s) s' := by
  have hact := act_of_step hc
  have hcur := hc.label_self
  have hnot := hc.tests_self messageSent
  have hself : (s'.loc s.currentThread).label = call.label := hc.place.label
  have hidle := (handshakes.idle (t := s.currentThread) rfl rfl rfl hr).2
  have hother : (∀ c', call.Leads c' → ∀ p, c' ≠ .sent p) → (∀ p, c ≠ .sent p) →
      ∀ t p, (s'.loc t).label = some (.sent p) ↔ (s.loc t).label = some (.sent p) := by
    intro hleads hne t p
    exact hc.label_iff (D := fun c => ∃ p, c = .sent p) (fun ⟨p, he⟩ => hne p he)
      (fun c' hl ⟨p, he⟩ => hleads c' hl p he) ⟨p, rfl⟩ t
  generalize hpo : s'.shared = po' at hact
  generalize threadEvents input s = es' at hact
  cases hact with
  | send send =>
    obtain ⟨rfl, -⟩ := network_send_eq_ok send
    have hholds : (s.loc s.currentThread).holds sendLock (fun c => c.asks || c.isSent) = true := by
      rw [hc.loc]
      rfl
    have hzero : s.shared.network.scheduled = 0 := hidle hholds hnot
    obtain ⟨phase, hturn, hfits⟩ := h
    cases phase with
    | sending =>
      rw [hfits.1] at hzero
      cases hzero
    | out u =>
      obtain ⟨-, p, hu⟩ := hfits
      obtain rfl := sender_unique hr hholds hu
      rw [hcur] at hu
      cases hu
    | idle =>
      refine ⟨_, inTurn_concat hturn rfl, ?_, _, hself⟩
      rw [hpo]
      exact congrArg (· + 1) hzero
  | sent =>
    have hholds := holds_of_sent hr hcur
    have hzero : s.shared.network.scheduled = 0 := hidle hholds hnot
    obtain ⟨phase, hturn, hfits⟩ := h
    cases phase with
    | sending =>
      rw [hfits.1] at hzero
      cases hzero
    | idle => exact absurd hcur (hfits.2 _ _)
    | out u =>
      obtain ⟨-, p, hu⟩ := hfits
      obtain rfl := sender_unique hr hholds hu
      refine ⟨.idle, inTurn_concat hturn (if_pos rfl), hpo ▸ hzero, fun t p' ht => ?_⟩
      rcases hc.label_cases ht with ⟨hne, hold⟩ | ⟨-, hl⟩ | ⟨-, -, c'', hl⟩
      · exact hne (sender_unique hr hholds hold)
      · cases hl
      · cases hl
  | _ =>
    refine h.quiet (fun e he phase => ?_)
      ((congrArg (fun po => po.network.scheduled) hpo).trans rfl) (hother ?_ (by simp))
    · first
        | obtain rfl := List.mem_singleton.1 he
          cases phase <;> rfl
        | cases he
    · rintro c' (hl | ⟨c'', hl⟩) <;> cases hl <;> simp

/-- **The packets of a machine go out one at a time**: each `Send` gives the network its packet, the
interrupt says that this packet is out, and only then the `Send` returns and another can begin. -/
theorem InTurn.of_run
    (h : Run (StepOf (mailStep addr numBoxes program)) (start addr first fresh) es s) :
    InTurn es s := by
  refine (h.observed_invariant (I := InTurn) ⟨.idle, rfl, rfl, fun t p hl => ?_⟩
    fun hr hi hstep => ?_).2
  · cases (init_label hl).2
  · rcases step_interrupt_client_kernel hstep with ⟨d, po, v, rfl, handler, rfl⟩ |
      ⟨hs, input, new, new', c, r, call, rfl, hc⟩ | ⟨hs, hk, hd⟩
    · exact hi.interrupt (handshakes.idle (t := 0) rfl rfl rfl hr).1 handler
    · exact hi.client hr hc
    · have hshared := (hs.shared hk).resolve_right fun ⟨_, _, handler⟩ => by cases handler
      have hlabel := hs.label_of_kernel (.of_run hr) hk
      rw [mailEvents_of_kernel (.of_run hr) hs hk hd]
      exact hi.quiet (fun e he => by cases he) (by rw [hshared]) (by simp [hlabel])

end Runs

end Steps

/-- **On every machine the packets go out one at a time.** -/
theorem sends_in_turn {N : Machines ι P} {tr : List (NetworkAddress × MailEvent)} {w : World P}
    (h : WorldRun N tr w) (a : NetworkAddress) : InTurn (eventsOn a tr) (w.machine a) :=
  .of_run (local_of_run h a)

theorem sends_in_turn_bothTests : ∃ tr w, WorldRun (mailTests 0 1 fun _ => cleared) tr w ∧
    receivedBy 0 (eventsOn 1 tr) = [hello 0 1, gotHello 0 1] ∧
    InTurn (eventsOn 0 tr) (w.machine 0) := by
  obtain ⟨tr, w, hr, -, hreceived⟩ := run_bothTests
  exact ⟨tr, w, hr, hreceived, sends_in_turn hr 0⟩

end Nachos.Network
