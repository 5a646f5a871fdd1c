import Nachos.Network.Assertions

/-!
# A program of one thread

A program that forks no threads is one thread beside the postal worker. What it sends and what it
receives is what it would by itself, if `Send` and `Receive` were single actions.
-/

namespace Nachos.Network

open Lib Threads
open Filesys (Memory)

variable {ι P : Type} {addr : NetworkAddress} {numBoxes : ℕ} {program : Program ι P} {first : P}

/-- The program forks no threads. -/
def Alone (program : Program ι P) : Prop := ∀ i p mail q p', program i p mail ≠ .fork q p'

/-- The mail that a call of `Send` gives to the network. -/
def sentBy (addr : NetworkAddress) (pktHdr : PacketHeader) (mailHdr : MailHeader) (data : Memory) :
    Mail :=
  ⟨outHdr addr pktHdr mailHdr, mailHdr, slice data 0 mailHdr.length.toNat⟩

/-- **The program by itself**: the point it is at, the mail that `Receive` gave it there, and what
it has sent and received. -/
inductive Script (addr : NetworkAddress) (program : Program ι P) (first : P) :
    P → Option Mail → List Mail → List Mail → Prop
  | start : Script addr program first first none [] []
  | send {p mail sent received i pktHdr mailHdr data p'}
      (h : Script addr program first p mail sent received)
      (action : program i p mail = .send pktHdr mailHdr data p') :
      Script addr program first p' none (sent ++ [sentBy addr pktHdr mailHdr data]) received
  | receive {p mail sent received i box p'} (h : Script addr program first p mail sent received)
      (action : program i p mail = .receive box p') (got : Mail) (inBox : got.box = box.toInt.toNat) :
      Script addr program first p' (some got) sent (received ++ [got])
  | yield {p mail sent received i p'} (h : Script addr program first p mail sent received)
      (action : program i p mail = .yield p') :
      Script addr program first p' none sent received

/-- The labels of the program. -/
def Label.ofProgram : Label P → Bool
  | .construct _ => true
  | .user _ _ => true
  | .send _ _ _ _ _ => true
  | .sent _ => true
  | .get _ _ => true
  | .got _ _ => true
  | _ => false

/-- Where the program is by itself when its thread is at the label. -/
def Label.Tells (addr : NetworkAddress) (program : Program ι P) (first : P)
    (sent received : List Mail) : Label P → Prop
  | .construct p => p = first ∧ sent = [] ∧ received = []
  | .user p mail => Script addr program first p mail sent received
  | .send pktHdr mailHdr data _ p => Script addr program first p none
      (sent ++ [⟨pktHdr, mailHdr, slice data 0 mailHdr.length.toNat⟩]) received
  | .sent p => Script addr program first p none sent received
  | .get box p => ∀ mail : Mail, mail.box = box →
      Script addr program first p (some mail) sent (received ++ [mail])
  | .got mail p => Script addr program first p (some mail) sent (received ++ [mail])
  | _ => True

/-- **The refinement**: the main thread is where the program by itself is, with the same mail sent
and received. -/
structure Follows (addr : NetworkAddress) (program : Program ι P) (first : P) (es : List MailEvent)
    (s : State (Label P) PostOffice) : Prop where
  thread : ∀ t c, (s.loc t).label = some c → c.ofProgram = true →
    t = 0 ∧ c.Tells addr program first (sentMail es) (receivedBy 0 es)
  script : ∃ p mail, Script addr program first p mail (sentMail es) (receivedBy 0 es)

section Steps

variable {s s' : State (Label P) PostOffice} {es es' : List MailEvent}

/-- A step in which the program does not go on. -/
lemma Follows.quiet (h : Follows addr program first es s)
    (hlabel : ∀ t c, (s'.loc t).label = some c → c.ofProgram = true → (s.loc t).label = some c)
    (hsent : sentMail es' = []) (hreceived : receivedBy 0 es' = []) :
    Follows addr program first (es ++ es') s' := by
  have hsent' : sentMail (es ++ es') = sentMail es := by
    rw [sentMail_append, hsent, List.append_nil]
  have hreceived' : receivedBy 0 (es ++ es') = receivedBy 0 es := by
    rw [receivedBy_append, hreceived, List.append_nil]
  refine ⟨fun t c hc hprogram => ?_, ?_⟩
  · rw [hsent', hreceived']
    exact h.thread t c (hlabel t c hc hprogram) hprogram
  · rw [hsent', hreceived']
    exact h.script

/-- What an interrupt shows. -/
lemma quiet_mailEvents (d : NetworkInt) : sentMail (mailEvents (ι := ι) (.interrupt d) s) = [] ∧
    receivedBy 0 (mailEvents (ι := ι) (.interrupt d) s) = [] := by
  cases d with
  | sendDone => exact ⟨rfl, rfl⟩
  | readPoll packet =>
    simp only [mailEvents]
    split
    · exact ⟨rfl, rfl⟩
    · cases packet <;> exact ⟨rfl, rfl⟩

/-- The mail in a box is mail for it. -/
lemma box_of_run {fresh : PacketHeader × Memory} {ktr : List (Threads.Event (Label P))}
    (h : KernelRun (postOffice addr numBoxes program) (start addr first fresh) ktr s) :
    ∀ box, ∀ mail ∈ s.shared.boxes box, mail.box = box := by
  refine shared_of_run (K := postOffice addr numBoxes program)
    (I := fun po => ∀ box, ∀ mail ∈ po.boxes box, mail.box = box)
    (fun {_ t _ r _ _ _} hc hi => ?_) (fun hd hi => ?_) (fun box mail hm => by cases hm) h
  · obtain ⟨es, hact⟩ := act_of_code (t := t) (r := r) hc
    cases hact with
    | @put mail buffer =>
      intro box mail' hm
      by_cases hb : box = mail.box
      · subst hb
        simp only [Function.update_self, List.mem_append, List.mem_singleton] at hm
        rcases hm with hm | rfl
        · exact hi _ mail' hm
        · rfl
      · simp only [Function.update_of_ne hb] at hm
        exact hi box mail' hm
    | @remove b p mail rest mails =>
      intro box mail' hm
      by_cases hb : box = b
      · subst hb
        simp only [Function.update_self] at hm
        exact hi _ mail' (mails ▸ List.mem_cons_of_mem _ hm)
      · simp only [Function.update_of_ne hb] at hm
        exact hi box mail' hm
    | _ => exact hi
  · cases handles_of_handler hd <;> exact hi

/-- A step of a thread's code. -/
lemma Follows.client (h : Follows addr program first es s) (halone : Alone program)
    (hboxes : ∀ box, ∀ mail ∈ s.shared.boxes box, mail.box = box)
    {input : Input ι} {new : Tid} {c : Label P} {r : Ret} {call : Call (Label P)}
    (hc : ClientStep (postOffice addr numBoxes program).quiet s s' input new c r call) :
    Follows addr program first (es ++ threadEvents input s) s' := by
  have hact := act_of_step hc
  have hcode : code addr numBoxes program input s.currentThread c r s.shared =
      .ok (s'.shared, call) := hc.code
  have hcur := hc.label_self
  -- the program goes on to a label that fits, and no other thread does
  have hgoes : ∀ es' sent received, c.ofProgram = true → sentMail es' = sent →
      receivedBy 0 es' = received →
      (∃ p mail, Script addr program first p mail (sentMail es ++ sent)
        (receivedBy 0 es ++ received)) →
      (∀ c', call.label = some c' → c'.Tells addr program first (sentMail es ++ sent)
        (receivedBy 0 es ++ received)) →
      (∀ first' c', call = .fork first' c' → first'.ofProgram = false) →
      Follows addr program first (es ++ es') s' := by
    intro es' sent received hself hsent hreceived hscript htells hfork
    obtain ⟨hzero, -⟩ := h.thread _ c hcur hself
    rw [← hsent, ← hreceived, ← sentMail_append, ← receivedBy_append] at hscript htells
    refine ⟨fun t c' hl hprogram => ?_, hscript⟩
    rcases hc.label_cases hl with ⟨hne, hold⟩ | ⟨ht, hl⟩ | ⟨-, -, c'', hl⟩
    · exact absurd ((h.thread t c' hold hprogram).1.trans hzero.symm) hne
    · exact ⟨ht.trans hzero, htells c' hl⟩
    · rw [hfork _ _ hl] at hprogram
      cases hprogram
  -- the postal worker goes on
  have hworker : ∀ es', sentMail es' = [] → receivedBy 0 es' = [] →
      (∀ c', call.Leads c' → c'.ofProgram = false) → Follows addr program first (es ++ es') s' := by
    intro es' hsent hreceived hleads
    refine h.quiet (fun t c' hl hprogram => ?_) hsent hreceived
    rcases hc.label_cases hl with ⟨-, hold⟩ | hnew
    · exact hold
    · rw [hleads c' (leads_of_new hnew)] at hprogram
      cases hprogram
  have htells : c.ofProgram = true →
      c.Tells addr program first (sentMail es) (receivedBy 0 es) := fun hself => (h.thread _ c hcur hself).2
  have hthread : c.ofProgram = true → s.currentThread = 0 := fun hself => (h.thread _ c hcur hself).1
  generalize s'.shared = po' at hact hcode
  generalize threadEvents input s = es' at hact
  cases c with
  | user p mail =>
    have hscript : Script addr program first p mail (sentMail es) (receivedBy 0 es) := htells rfl
    obtain rfl : es' = [] := by cases hact <;> rfl
    have hgoes := hgoes [] [] [] rfl rfl rfl
    simp only [List.append_nil] at hgoes ⊢
    have hgoes := hgoes h.script
    simp only [code] at hcode
    split at hcode
    next pktHdr mailHdr data p' haction =>
      split at hcode
      · cases hcode
        refine hgoes (fun c' hl => ?_) (by simp)
        obtain rfl := Option.some.inj hl
        exact hscript.send haction
      · cases hcode
    next box p' haction =>
      split at hcode
      · cases hcode
        refine hgoes (fun c' hl => ?_) (by simp)
        obtain rfl := Option.some.inj hl
        exact fun mail hbox => hscript.receive haction mail hbox
      · cases hcode
    next q p' haction => exact absurd haction (halone _ _ _ _ _)
    next p' haction =>
      cases hcode
      refine hgoes (fun c' hl => ?_) (by simp)
      obtain rfl := Option.some.inj hl
      exact hscript.yield haction
    next => cases hcode
    next =>
      cases hcode
      exact hgoes (fun c' hl => by cases hl) (by simp)
  | construct p =>
    obtain ⟨rfl, hsent, hreceived⟩ := htells rfl
    cases hact
    refine hgoes [] [] [] rfl rfl rfl ?_ (fun c' hl => ?_) fun q c' hl => ?_
    · rw [List.append_nil, List.append_nil]
      exact h.script
    · obtain rfl := Option.some.inj hl
      rw [hsent, hreceived]
      exact .start
    · cases hl
      rfl
  | send pktHdr mailHdr data buffer p =>
    have hscript : Script addr program first p none
      (sentMail es ++ [⟨pktHdr, mailHdr, slice data 0 mailHdr.length.toNat⟩]) (receivedBy 0 es) :=
        htells rfl
    cases hact
    rw [← List.append_nil (receivedBy 0 es)] at hscript
    refine hgoes _ [_] [] rfl rfl rfl ⟨_, _, hscript⟩ (fun c' hl => ?_) (by simp)
    obtain rfl := Option.some.inj hl
    exact hscript
  | sent p =>
    have hscript : Script addr program first p none (sentMail es) (receivedBy 0 es) := htells rfl
    cases hact
    refine hgoes _ [] [] rfl rfl rfl ?_ (fun c' hl => ?_) (by simp)
    · rw [List.append_nil, List.append_nil]
      exact h.script
    · obtain rfl := Option.some.inj hl
      rwa [List.append_nil, List.append_nil]
  | get box p =>
    have hscript : ∀ mail : Mail, mail.box = box →
        Script addr program first p (some mail) (sentMail es) (receivedBy 0 es ++ [mail]) :=
      htells rfl
    cases hact with
    | wait =>
      refine hgoes _ [] [] rfl rfl rfl ?_ (fun c' hl => ?_) (by simp)
      · rw [List.append_nil, List.append_nil]
        exact h.script
      · obtain rfl := Option.some.inj hl
        rwa [List.append_nil, List.append_nil]
    | @remove _ _ mail rest mails =>
      have hbox := hboxes box mail (mails ▸ List.mem_cons_self)
      refine hgoes _ [] [] rfl rfl rfl ?_ (fun c' hl => ?_) (by simp)
      · rw [List.append_nil, List.append_nil]
        exact h.script
      · obtain rfl := Option.some.inj hl
        rw [List.append_nil, List.append_nil]
        exact hscript mail hbox
  | got mail p =>
    have hscript : Script addr program first p (some mail) (sentMail es)
      (receivedBy 0 es ++ [mail]) := htells rfl
    have hzero := hthread rfl
    have hreceived : receivedBy 0 [.received s.currentThread mail] = [mail] := by
      simp [receivedBy, hzero]
    cases hact
    rw [← List.append_nil (sentMail es)] at hscript
    refine hgoes _ [] [mail] rfl rfl hreceived ⟨_, _, hscript⟩ (fun c' hl => ?_) (by simp)
    obtain rfl := Option.some.inj hl
    exact hscript
  | _ =>
    cases hact
    refine hworker _ rfl rfl ?_
    rintro c' (hl | ⟨c'', hl⟩) <;> cases hl
    rfl

theorem Follows.of_run {fresh : PacketHeader × Memory}
    (h : Run (StepOf (mailStep addr numBoxes program)) (start addr first fresh) es s)
    (halone : Alone program) : Follows addr program first es s := by
  refine (h.observed_invariant (I := Follows addr program first)
    ⟨fun t c hl _ => ?_, _, _, .start⟩ fun hr hi hstep => ?_).2
  · obtain ⟨rfl, rfl⟩ := init_label hl
    exact ⟨rfl, rfl, rfl, rfl⟩
  · rcases step_interrupt_client_kernel hstep with ⟨d, po, v, rfl, handler, rfl⟩ |
      ⟨hs, input, new, new', c, r, call, rfl, hc⟩ | ⟨hs, hk, hd⟩
    · obtain ⟨hsent, hreceived⟩ := quiet_mailEvents (ι := ι) d
      refine hi.quiet (fun t c hl _ => ?_) hsent hreceived
      rwa [loc_of_interrupt] at hl
    · exact hi.client halone (box_of_run hr) hc
    · have hlabel := hs.label_of_kernel (.of_run hr) hk
      rw [mailEvents_of_kernel (.of_run hr) hs hk hd]
      exact hi.quiet (fun t c hl _ => by rwa [hlabel] at hl) rfl rfl

end Steps

/-- **A machine refines its program**: in every run of the machines, the main thread of a program
that forks none is where the program by itself is, and has sent and received the same mail. -/
theorem program_by_itself {N : Machines ι P} {tr : List (NetworkAddress × MailEvent)} {w : World P}
    (h : WorldRun N tr w) (a : NetworkAddress) (halone : Alone (N.program a)) :
    Follows a (N.program a) (N.first a) (eventsOn a tr) (w.machine a) :=
  .of_run (local_of_run h a) halone

/-- The mail test is such a program. -/
lemma alone_mailTest (y : NetworkAddress) : Alone (mailTest y) := by
  intro i p mail q p' h
  cases p with
  | ack => cases mail <;> cases h
  | _ => cases h

theorem program_by_itself_bothTests : ∃ tr w, WorldRun (mailTests 0 1 fun _ => cleared) tr w ∧
    receivedBy 0 (eventsOn 0 tr) = [hello 1 0, gotHello 1 0] ∧
    Follows 0 (mailTest 1) .send (eventsOn 0 tr) (w.machine 0) := by
  obtain ⟨tr, w, hr, hreceived, -⟩ := run_bothTests
  exact ⟨tr, w, hr, hreceived, program_by_itself hr 0 (alone_mailTest 1)⟩

end Nachos.Network
