import Nachos.Network.Delivery
import Nachos.Network.MailTest

/-!
# Mail from machine to machine

What a machine reads off its socket is what the machines have sent to it, in the order in which they
did. So the mail that is sent to a machine and not lost on the network is, at every moment, in its
boxes or was taken out of them, in the hands of its postal worker, in the network device, or in its
socket, in that order and each once; what is taken out of a box is, for each sender, a part of what
the sender sent to that box, in the order of sending.
-/

namespace Nachos.Network

open Lib Threads
open Filesys (Memory)

variable {ι P : Type} {N : Machines ι P} {w w' : World P} {addr b : NetworkAddress}
  {tr tr' : List (NetworkAddress × MailEvent)}

/-! ### The events of one machine -/

@[simp] lemma eventsOn_append : eventsOn b (tr ++ tr') = eventsOn b tr ++ eventsOn b tr' :=
  List.filterMap_append ..

@[simp] lemma carriedTo_append : carriedTo b (tr ++ tr') = carriedTo b tr ++ carriedTo b tr' :=
  List.filterMap_append ..

lemma eventsOn_self (es : List MailEvent) : eventsOn addr (es.map fun e => (addr, e)) = es := by
  simp [eventsOn, List.filterMap_map]

lemma eventsOn_other (es : List MailEvent) (h : addr ≠ b) :
    eventsOn b (es.map fun e => (addr, e)) = [] := by
  simp [eventsOn, List.filterMap_map, h]

/-- What a step of the machines is. -/
lemma worldStep_eq_ok {ch : NetworkAddress × Choice (Input ι) NetworkInt}
    {es' : List (NetworkAddress × MailEvent)} (h : worldStep N ch w = .ok (es', w')) :
    N.up ch.1 = true ∧ ∃ es s, mailStep ch.1 N.numBoxes (N.program ch.1)
        (offer (w.socket ch.1) ch.2) (w.machine ch.1) = .ok (es, s) ∧
      es' = es.map (fun e => (ch.1, e)) ∧
      w' = ⟨Function.update w.machine ch.1 s, es.foldl (carry ch.1) w.socket⟩ := by
  unfold worldStep at h
  split at h
  next hup =>
    split at h
    next => cases h
    next es s hstep =>
      split at h
      next =>
        cases h
        exact ⟨hup, es, s, hstep, rfl, rfl⟩
      next => cases h
  next => cases h

/-- **A machine runs by itself**: what it does in a run of all machines is a run of its own, in
which its socket is part of the environment. -/
theorem local_of_run (h : WorldRun N tr w) (addr : NetworkAddress) :
    Run (StepOf (mailStep addr N.numBoxes (N.program addr)))
      (start addr (N.first addr) (N.fresh addr)) (eventsOn addr tr) (w.machine addr) := by
  induction h with
  | start => exact .start
  | snoc _ hs ih =>
    obtain ⟨ch, hch⟩ := hs
    obtain ⟨-, es, s, hstep, rfl, rfl⟩ := worldStep_eq_ok hch
    rw [eventsOn_append]
    by_cases ha : ch.1 = addr
    · subst ha
      simp only [eventsOn_self, Function.update_self]
      exact ih.snoc ⟨_, hstep⟩
    · have ha' : addr ≠ ch.1 := fun he => ha he.symm
      simp only [eventsOn_other es ha, List.append_nil, Function.update_of_ne ha']
      exact ih

/-- A run of the kernel of that machine. -/
lemma kernel_of_run (h : WorldRun N tr w) (addr : NetworkAddress) :
    ∃ ktr, KernelRun (postOffice addr N.numBoxes (N.program addr))
      (start addr (N.first addr) (N.fresh addr)) ktr (w.machine addr) :=
  ((local_of_run h addr).observed_invariant (I := fun _ _ => True) trivial
    fun _ _ _ => trivial).1

/-! ### What goes over the wire -/

/-- An event on the machine `addr`, whose socket has these packets. -/
def MailEvent.Proper (addr : NetworkAddress) (numBoxes : ℕ) (packets : List Memory) :
    MailEvent → Prop
  | .sent _ mail packet => mail.pktHdr.from_ = addr ∧ mail.Legal numBoxes ∧
    ∀ p, packet = some p → Mail.ofPacket p = mail
  | .read packet => packets.head? = some packet
  | _ => True

/-- A step shows one event at most, which is proper. -/
lemma proper_of_step {first : P} {fresh : PacketHeader × Memory} {numBoxes : ℕ}
    {program : Program ι P} {s s' : State (Label P) PostOffice} {packets : List Memory}
    {ktr : List (Threads.Event (Label P))} {es : List MailEvent}
    (hr : KernelRun (postOffice addr numBoxes program) (start addr first fresh) ktr s)
    {ch : Choice (Input ι) NetworkInt}
    (h : mailStep addr numBoxes program (offer packets ch) s = .ok (es, s')) :
    es = [] ∨ ∃ e, es = [e] ∧ e.Proper addr numBoxes packets := by
  obtain ⟨rfl, kes, hstep⟩ := observed_eq_ok h
  rcases step_interrupt_client_kernel hstep with ⟨d, po, v, hch, handler, -⟩ |
    ⟨-, input, new, new', c, r, call, hch, hc⟩ | ⟨hs, hk, hd⟩
  · rw [hch]
    cases d with
    | sendDone => exact .inr ⟨_, rfl, trivial⟩
    | readPoll packet =>
      have hpacket : packet = packets.head? := by
        cases ch with
        | interrupt d =>
          cases d with
          | readPoll => cases hch; rfl
          | sendDone => cases hch
        | run | preempt | dispatch => cases hch
      by_cases hfull : s.shared.network.inHdr.length ≠ 0
      · exact .inl (by cases packet <;> exact if_pos hfull)
      · cases packet with
        | none => exact .inl (if_neg hfull)
        | some p => exact .inr ⟨_, if_neg hfull, hpacket.symm⟩
  · rw [hch]
    have hsound : c.Sound addr numBoxes :=
      sound.of_run (show (Label.construct first).Sound addr numBoxes from trivial) hr hc.label_self
    have hact := act_of_step hc
    change threadEvents input s = [] ∨ ∃ e, threadEvents input s = [e] ∧ _
    generalize threadEvents input s = es at hact
    generalize s'.shared = po' at hact
    cases hact with
    | put | sent | remove | got => exact .inr ⟨_, rfl, trivial⟩
    | send send =>
      refine .inr ⟨_, rfl, hsound.1, hsound.2.1, fun p hp => ?_⟩
      obtain ⟨-, hpacket⟩ := network_send_eq_ok send
      rw [hpacket] at hp
      split at hp
      · cases hp
      · cases hp
        exact hsound.ofPacket _
    | _ => exact .inl rfl
  · exact .inl (mailEvents_of_kernel (.of_run hr) hs hk hd)

/-- **The invariant of the sockets.** -/
structure Carried (N : Machines ι P) (tr : List (NetworkAddress × MailEvent)) (w : World P) :
    Prop where
  socket : ∀ b, ∀ packet ∈ w.socket b, (Mail.ofPacket packet).Legal N.numBoxes
  read : ∀ b, ∀ packet ∈ readPackets (eventsOn b tr), (Mail.ofPacket packet).Legal N.numBoxes
  mail : ∀ b, carriedTo b tr =
    (readPackets (eventsOn b tr)).map Mail.ofPacket ++ (w.socket b).map Mail.ofPacket
  from_ : ∀ a t mail packet, (a, .sent t mail packet) ∈ tr → mail.pktHdr.from_ = a

lemma eventsOn_singleton (e : MailEvent) :
    eventsOn b [(addr, e)] = if addr = b then [e] else [] := by
  by_cases h : addr = b <;> simp [eventsOn, h]

lemma Carried.step (h : Carried N tr w) {e : MailEvent}
    (he : e.Proper addr N.numBoxes (w.socket addr))
    (machine : NetworkAddress → State (Label P) PostOffice) :
    Carried N (tr ++ [(addr, e)]) ⟨machine, carry addr w.socket e⟩ := by
  have hfrom : (∀ t mail packet, e = .sent t mail packet → mail.pktHdr.from_ = addr) →
      ∀ a t mail packet, (a, .sent t mail packet) ∈ tr ++ [(addr, e)] →
        mail.pktHdr.from_ = a := by
    intro hnew a t mail packet hm
    rcases List.mem_append.1 hm with hm | hm
    · exact h.from_ a t mail packet hm
    · cases List.mem_singleton.1 hm
      exact hnew t mail packet rfl
  -- the events that leave the sockets alone
  have hkeep : (∀ t mail packet, e = .sent t mail packet → mail.pktHdr.from_ = addr) →
      carry addr w.socket e = w.socket → (∀ b, carriedTo b [(addr, e)] = []) →
      readPackets [e] = [] → Carried N (tr ++ [(addr, e)]) ⟨machine, carry addr w.socket e⟩ := by
    intro hnew hcarry hcarried hread
    have hnone : ∀ b, readPackets (eventsOn b [(addr, e)]) = [] := by
      intro b
      rw [eventsOn_singleton]
      split
      · exact hread
      · rfl
    rw [hcarry]
    refine ⟨h.socket, fun b packet hp => ?_, fun b => ?_, hfrom hnew⟩
    · rw [eventsOn_append, readPackets_append, hnone, List.append_nil] at hp
      exact h.read b packet hp
    · rw [carriedTo_append, hcarried, List.append_nil, eventsOn_append, readPackets_append, hnone,
        List.append_nil]
      exact h.mail b
  cases e with
  | sent t mail packet =>
    obtain ⟨hmail, hlegal, hpacket⟩ := he
    have hnew : ∀ t' mail' packet', MailEvent.sent t mail packet = .sent t' mail' packet' →
        mail'.pktHdr.from_ = addr := by
      intro t' mail' packet' he
      cases he
      exact hmail
    cases packet with
    | none => exact hkeep hnew rfl (fun _ => rfl) rfl
    | some p =>
      have hp := hpacket p rfl
      have hnone : ∀ b, readPackets (eventsOn b [(addr, .sent t mail (some p))]) = [] := by
        intro b
        rw [eventsOn_singleton]
        split <;> rfl
      refine ⟨fun b packet hm => ?_, fun b packet hm => ?_, fun b => ?_, hfrom hnew⟩
      · by_cases hb : b = mail.pktHdr.to_
        · subst hb
          simp only [carry, Function.update_self, List.mem_append, List.mem_singleton] at hm
          rcases hm with hm | rfl
          · exact h.socket _ packet hm
          · rw [hp]
            exact hlegal
        · simp only [carry, Function.update_of_ne hb] at hm
          exact h.socket b packet hm
      · rw [eventsOn_append, readPackets_append, hnone, List.append_nil] at hm
        exact h.read b packet hm
      · rw [carriedTo_append, eventsOn_append, readPackets_append, hnone, List.append_nil, h.mail b]
        by_cases hb : b = mail.pktHdr.to_
        · subst hb
          simp [carry, carriedTo, hp]
        · have hb' : ¬ mail.pktHdr.to_ = b := fun he => hb he.symm
          simp [carry, carriedTo, hb', Function.update_of_ne hb]
  | read packet =>
    obtain ⟨rest, hrest⟩ := List.head?_eq_some_iff.1 he
    have hlegal := h.socket addr packet (by rw [hrest]; exact List.mem_cons_self)
    refine ⟨fun b p hm => ?_, fun b p hm => ?_, fun b => ?_,
      hfrom fun _ _ _ he => (by cases he)⟩
    · by_cases hb : b = addr
      · subst hb
        simp only [carry, Function.update_self] at hm
        exact h.socket b p (List.mem_of_mem_tail hm)
      · simp only [carry, Function.update_of_ne hb] at hm
        exact h.socket b p hm
    · rw [eventsOn_append, readPackets_append, List.mem_append] at hm
      rcases hm with hm | hm
      · exact h.read b p hm
      · rw [eventsOn_singleton] at hm
        split at hm
        · obtain rfl : p = packet := by simpa [readPackets] using hm
          exact hlegal
        · cases hm
    · rw [carriedTo_append, eventsOn_append, readPackets_append, h.mail b, eventsOn_singleton]
      by_cases hb : addr = b
      · subst hb
        simp [carry, carriedTo, readPackets, hrest]
      · have hb' : b ≠ addr := fun he => hb he.symm
        simp [carry, carriedTo, readPackets, hb, Function.update_of_ne hb']
  | done | put | removed | completed | received =>
    exact hkeep (fun _ _ _ he => (by cases he)) rfl (fun _ => rfl) rfl

theorem Carried.of_run (h : WorldRun N tr w) : Carried N tr w := by
  refine h.invariant (I := Carried N) ⟨fun b p hp => (by cases hp), fun b p hp => (by cases hp),
    fun b => rfl, fun a t mail packet hm => (by cases hm)⟩ fun hr hi ⟨ch, hch⟩ => ?_
  obtain ⟨-, es, s, hstep, rfl, rfl⟩ := worldStep_eq_ok hch
  obtain ⟨ktr, hkr⟩ := kernel_of_run hr ch.1
  rcases proper_of_step hkr hstep with rfl | ⟨e, rfl, he⟩
  · rw [List.map_nil, List.append_nil]
    exact ⟨hi.socket, hi.read, hi.mail, hi.from_⟩
  · exact hi.step he _

/-! ### From sender to receiver -/

/-- **No mail is lost, copied or changed on a machine**: what has gone to its socket is, in that
order and each once, in the boxes or was taken out of them, in the hands of the postal worker, in
the inbox of the network, or in the socket; a call of `Receive` returns what it took out. -/
theorem mail_conserved (h : WorldRun N tr w) (b : NetworkAddress) :
    (∃ hand, InHand (w.machine b) hand ∧ carriedTo b tr = putMail (eventsOn b tr) ++ hand ++
      (w.machine b).shared.network.arrivedMail ++ (w.socket b).map Mail.ofPacket) ∧
    (∀ box, (putMail (eventsOn b tr)).filter (·.box = box) =
      removedFrom box (eventsOn b tr) ++ (w.machine b).shared.boxes box) ∧
    ∀ t, removedBy t (eventsOn b tr) =
      receivedBy t (eventsOn b tr) ++ pending ((w.machine b).loc t).label := by
  have hcarried := Carried.of_run h
  have hdelivery := Delivery.of_run (local_of_run h b) (hcarried.read b)
  obtain ⟨hand, hhand, hmail⟩ := hdelivery.mail
  refine ⟨⟨hand, hhand, ?_⟩, hdelivery.boxes, hdelivery.calls⟩
  rw [hcarried.mail b, hmail]

theorem mail_conserved_bothTests : ∃ tr w, WorldRun (mailTests 0 1 fun _ => cleared) tr w ∧
    receivedBy 0 (eventsOn 1 tr) = [hello 0 1, gotHello 0 1] ∧
    ∃ hand, InHand (w.machine 1) hand ∧ carriedTo 1 tr = putMail (eventsOn 1 tr) ++ hand ++
      (w.machine 1).shared.network.arrivedMail ++ (w.socket 1).map Mail.ofPacket := by
  obtain ⟨tr, w, hr, -, hreceived⟩ := run_bothTests
  exact ⟨tr, w, hr, hreceived, (mail_conserved hr 1).1⟩

/-- What goes to a socket was sent by the machine that it says it is from. -/
lemma carriedTo_sublist (h : WorldRun N tr w) (a b : NetworkAddress) (box : ℕ) :
    ((carriedTo b tr).filter fun mail => mail.box = box ∧ mail.pktHdr.from_ = a).Sublist
      ((sentMail (eventsOn a tr)).filter fun mail => mail.pktHdr.to_ = b ∧ mail.box = box) := by
  unfold carriedTo sentMail eventsOn
  rw [List.filterMap_filterMap, List.filter_filterMap, List.filter_filterMap]
  refine filterMap_sublist ?_
  rintro ⟨c, e⟩ he
  cases e with
  | sent t mail packet =>
    have hfrom := (Carried.of_run h).from_ c t mail packet he
    cases packet with
    | none => exact .inl rfl
    | some p =>
      by_cases hto : mail.pktHdr.to_ = b <;> by_cases hbox : mail.box = box <;>
        by_cases hc : c = a <;> simp [Option.filter, hto, hbox, hc, hfrom]
  | _ => exact .inl rfl

/-- Mail is taken out of its box. -/
lemma removedBy_sublist (h : WorldRun N tr w) (b : NetworkAddress) (t : Tid) (box : ℕ) :
    ((removedBy t (eventsOn b tr)).filter (·.box = box)).Sublist
      (removedFrom box (eventsOn b tr)) := by
  have hboxes := (mail_conserved h b).2.1
  unfold removedBy
  rw [List.filter_filterMap]
  refine filterMap_sublist fun e he => ?_
  cases e with
  | removed u box' mail =>
    have hmem : mail ∈ removedFrom box' (eventsOn b tr) :=
      List.mem_filterMap.2 ⟨_, he, if_pos rfl⟩
    have hput : mail ∈ (putMail (eventsOn b tr)).filter (·.box = box') := by
      rw [hboxes box']
      exact List.mem_append_left _ hmem
    have hbox : mail.box = box' := by simpa using (List.mem_filter.1 hput).2
    by_cases ht : u = t <;> by_cases hb : box' = box <;> simp [ht, hb, hbox]
  | _ => exact .inl rfl

/-- **Mail delivery**: whatever the network loses, and however the threads and the interrupts of all
machines interleave, what is taken out of a box is, for each sender, a part of what that machine
sent to the box, in the order of sending; what the calls of a thread return is what they took out,
in that order. -/
theorem mail_delivery (h : WorldRun N tr w) (a b : NetworkAddress) (box : ℕ) :
    ((removedFrom box (eventsOn b tr)).filter (·.pktHdr.from_ = a)).Sublist
      ((sentMail (eventsOn a tr)).filter fun mail => mail.pktHdr.to_ = b ∧ mail.box = box) ∧
    ∀ t, receivedBy t (eventsOn b tr) <+: removedBy t (eventsOn b tr) ∧
      ((removedBy t (eventsOn b tr)).filter (·.box = box)).Sublist
        (removedFrom box (eventsOn b tr)) := by
  obtain ⟨⟨hand, -, hmail⟩, hboxes, hcalls⟩ := mail_conserved h b
  refine ⟨?_, fun t => ⟨⟨_, (hcalls t).symm⟩, removedBy_sublist h b t box⟩⟩
  have hremoved : (removedFrom box (eventsOn b tr)).Sublist
      ((putMail (eventsOn b tr)).filter (·.box = box)) :=
    (List.prefix_iff_exists_append_eq.2 ⟨_, (hboxes box).symm⟩).sublist
  have hput : (putMail (eventsOn b tr)).Sublist (carriedTo b tr) := by
    rw [hmail, List.append_assoc, List.append_assoc]
    exact List.sublist_append_left ..
  refine ((hremoved.trans (hput.filter _)).filter _).trans ?_
  rw [List.filter_filter]
  refine List.Sublist.trans ?_ (carriedTo_sublist h a b box)
  refine (List.filter_congr fun mail _ => ?_) ▸ List.Sublist.refl _
  simp [and_comm]

theorem mail_delivery_bothTests : ∃ tr w, WorldRun (mailTests 0 1 fun _ => cleared) tr w ∧
    receivedBy 0 (eventsOn 1 tr) = [hello 0 1, gotHello 0 1] ∧
    ((removedFrom 1 (eventsOn 1 tr)).filter (·.pktHdr.from_ = 0)).Sublist
      ((sentMail (eventsOn 0 tr)).filter fun mail => mail.pktHdr.to_ = 1 ∧ mail.box = 1) := by
  obtain ⟨tr, w, hr, -, hreceived⟩ := run_bothTests
  exact ⟨tr, w, hr, hreceived, (mail_delivery hr 0 1 1).1⟩

/-- What is received was sent, by the machine that it says it is from. -/
theorem sent_of_received (h : WorldRun N tr w) {t : Tid} {mail : Mail}
    (hmail : mail ∈ receivedBy t (eventsOn b tr)) :
    mail ∈ sentMail (eventsOn mail.pktHdr.from_ tr) ∧ mail.pktHdr.to_ = b := by
  obtain ⟨hsent, hcalls⟩ := mail_delivery h mail.pktHdr.from_ b mail.box
  obtain ⟨hbegins, hremoved⟩ := hcalls t
  have hmem : mail ∈ (removedBy t (eventsOn b tr)).filter (·.box = mail.box) :=
    List.mem_filter.2 ⟨hbegins.subset hmail, decide_eq_true rfl⟩
  have hfrom : mail ∈ (removedFrom mail.box (eventsOn b tr)).filter
      (·.pktHdr.from_ = mail.pktHdr.from_) :=
    List.mem_filter.2 ⟨hremoved.subset hmem, decide_eq_true rfl⟩
  obtain ⟨hin, hto⟩ := List.mem_filter.1 (hsent.subset hfrom)
  exact ⟨hin, (of_decide_eq_true hto).1⟩

/-- A machine that does something is up. -/
lemma up_of_event (h : WorldRun N tr w) {e : MailEvent} (he : (addr, e) ∈ tr) :
    N.up addr = true := by
  induction h with
  | start => cases he
  | snoc _ hs ih =>
    obtain ⟨ch, hch⟩ := hs
    obtain ⟨hup, es, s, -, rfl, -⟩ := worldStep_eq_ok hch
    rcases List.mem_append.1 he with he | he
    · exact ih he
    · obtain ⟨e', -, heq⟩ := List.mem_map.1 he
      cases heq
      exact hup

end Nachos.Network
