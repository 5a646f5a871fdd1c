import Nachos.Network.Sending
import Nachos.Threads.Assertions

/-!
# The assertions of the network

The network asserts that it sends one well formed packet at a time and that what it reads is for it
and not too long; the post office asserts that what arrives and what it returns is mail for one of
its boxes. None of them fails, on any machine: a machine that fails an assertion has been given bad
arguments by its program, or sends to a machine that is not there.
-/

namespace Nachos.Network

open Lib Threads
open Filesys (Memory)

variable {ι P : Type} {addr b : NetworkAddress} {numBoxes : ℕ} {program : Program ι P}

/-! ### What holds of the network -/

/-- What the network asserts of itself when it sends. -/
def PostOffice.Ready (addr : NetworkAddress) (po : PostOffice) : Prop :=
  po.network.ident = addr ∧ po.network.sendBusy = false

lemma ready_of_run {first : P} {fresh : PacketHeader × Memory} {s : State (Label P) PostOffice}
    {ktr : List (Threads.Event (Label P))}
    (h : KernelRun (postOffice addr numBoxes program) (start addr first fresh) ktr s) :
    s.shared.Ready addr := by
  refine shared_of_run (K := postOffice addr numBoxes program) (fun {_ t _ r _ _ _} hc hi => ?_)
    (fun hd hi => ?_) ⟨rfl, rfl⟩ h
  · obtain ⟨es, hact⟩ := act_of_code (t := t) (r := r) hc
    cases hact with
    | send send =>
      obtain ⟨rfl, -⟩ := network_send_eq_ok send
      exact hi
    | _ => exact hi
  · cases handles_of_handler hd with
    | sendDone => exact ⟨hi.1, rfl⟩
    | _ => exact hi

/-- Where a thread has the lock of a box. -/
def Label.inBox (box : ℕ) : Label P → Bool
  | .put mail _ => mail.box = box
  | .putDone b _ => b = box
  | .get b _ => b = box
  | _ => false

lemma boxLocks (box : ℕ) :
    (postOffice addr numBoxes program).Locks (boxLock box) (Label.inBox box) := by
  intro input t c r po po' call hc
  obtain ⟨es, hact⟩ := act_of_code (t := t) (r := r) hc
  cases hact <;> simp [Call.Keeps, Label.inBox]

/-! ### What holds of the mail -/

section Mail

variable {N : Machines ι P} {w : World P} {tr : List (NetworkAddress × MailEvent)}

/-- What is in a socket was sent to that machine. -/
lemma to_of_socket (h : WorldRun N tr w) {packet : Memory} (hp : packet ∈ w.socket b) :
    (Mail.ofPacket packet).pktHdr.to_ = b := by
  have hmem : Mail.ofPacket packet ∈ carriedTo b tr := by
    rw [(Carried.of_run h).mail b]
    exact List.mem_append_right _ (List.mem_map_of_mem hp)
  obtain ⟨⟨a, e⟩, -, he⟩ := List.mem_filterMap.1 hmem
  split at he
  next t mail p hsent =>
    split at he
    next hto =>
      obtain rfl := Option.some.inj he
      exact hto
    next => cases he
  next => cases he

/-- What the postal worker has put into the boxes is mail for them. -/
lemma legal_of_put (h : WorldRun N tr w) {mail : Mail} (hmail : mail ∈ putMail (eventsOn b tr)) :
    mail.Legal N.numBoxes := by
  have hcarried := Carried.of_run h
  obtain ⟨hand, -, hread⟩ := (Delivery.of_run (local_of_run h b) (hcarried.read b)).mail
  have hmem : mail ∈ (readPackets (eventsOn b tr)).map Mail.ofPacket := by
    rw [hread, List.append_assoc]
    exact List.mem_append_left _ hmail
  obtain ⟨packet, hp, rfl⟩ := List.mem_map.1 hmem
  exact hcarried.read b packet hp

/-- What a call of `Receive` has taken out of a box was put there. -/
lemma legal_of_got (h : WorldRun N tr w) {t : Tid} {mail : Mail} {p : P}
    (ht : ((w.machine b).loc t).label = some (.got mail p)) : mail.Legal N.numBoxes := by
  obtain ⟨-, hboxes, hcalls⟩ := mail_conserved h b
  have hremoved : mail ∈ removedBy t (eventsOn b tr) := by
    rw [hcalls t, ht]
    exact List.mem_append_right _ List.mem_cons_self
  obtain ⟨e, he, hsome⟩ := List.mem_filterMap.1 hremoved
  have hfrom : ∃ box, mail ∈ removedFrom box (eventsOn b tr) := by
    split at hsome
    next u box mail' =>
      split at hsome
      next =>
        obtain rfl := Option.some.inj hsome
        exact ⟨box, List.mem_filterMap.2 ⟨_, he, if_pos rfl⟩⟩
      next => cases hsome
    next => cases hsome
  obtain ⟨box, hbox⟩ := hfrom
  have hput : mail ∈ (putMail (eventsOn b tr)).filter (·.box = box) := by
    rw [hboxes box]
    exact List.mem_append_left _ hbox
  exact legal_of_put h (List.mem_of_mem_filter hput)

/-- The worker finds mail for one of the boxes in what it takes off the network. -/
lemma legal_of_taken (h : WorldRun N tr w) {t : Tid} {buffer : Memory}
    (ht : ((w.machine b).loc t).label = some (.arrived buffer))
    (htests : ((w.machine b).loc t).tests messageAvailable = false) :
    ((w.machine b).shared.network.taken buffer).Legal N.numBoxes := by
  have hdelivery := Delivery.of_run (local_of_run h b) ((Carried.of_run h).read b)
  have hfull := hdelivery.announced.full_of_takes ht rfl htests
  have hne : (w.machine b).shared.network.inHdr.length ≠ 0 := of_decide_eq_true hfull
  have harrived : (w.machine b).shared.network.arrivedMail =
      [Mail.inData (w.machine b).shared.network.inHdr (w.machine b).shared.network.inbox] :=
    if_neg hne
  have hlegal := hdelivery.legal _ (by rw [harrived]; exact List.mem_cons_self)
  rw [taken_eq hne hlegal buffer]
  exact hlegal

/-! ### No assertion fails -/

/-- A call that a program must not make. -/
def Action.Bad (numBoxes : ℕ) : Action P → Prop
  | .send _ mailHdr _ _ => ¬ (mailHdr.length.toNat ≤ maxMailSize ∧ InBoxes numBoxes mailHdr.to_)
  | .receive box _ => ¬ InBoxes numBoxes box
  | _ => False

/-- The code of the post office fails an assertion where the program makes a bad call. -/
lemma bad_of_code (h : WorldRun N tr w) {input : Input ι} {c : Label P} {r : Ret}
    (hloc : (w.machine b).loc (w.machine b).currentThread = .run (.client c) r)
    (hcode : code b N.numBoxes (N.program b) input (w.machine b).currentThread c r
      (w.machine b).shared = .error .assertion) :
    ∃ p mail, c = .user p mail ∧ (N.program b input.input p mail).Bad N.numBoxes := by
  obtain ⟨ktr, hr⟩ := kernel_of_run h b
  have hlabel : ((w.machine b).loc (w.machine b).currentThread).label = some c := by
    rw [hloc]
    rfl
  cases c with
  | arrived buffer =>
    have hlegal : ((w.machine b).shared.network.taken buffer).Legal N.numBoxes :=
      legal_of_taken h hlabel (by rw [hloc]; rfl)
    have hnew : Mail.new (w.machine b).shared.network.inHdr
        ((w.machine b).shared.network.taken buffer).mailHdr
        (behind ((w.machine b).shared.network.receive buffer).2.1 mailHeaderSize) =
          .ok ((w.machine b).shared.network.taken buffer) := if_pos hlegal.length_le
    unfold code at hcode
    simp only at hcode
    rw [if_pos ⟨⟨hlegal.box_nonneg, hlegal.box_lt⟩, hlegal.length_le⟩] at hcode
    split at hcode
    next f hnew' => cases hnew'.symm.trans hnew
    next => cases hcode
  | send pktHdr mailHdr data buffer p =>
    have hsound : (Label.send pktHdr mailHdr data buffer p).Sound b N.numBoxes :=
      sound.of_run (show (Label.construct (N.first b)).Sound b N.numBoxes from trivial) hr hlabel
    obtain ⟨hident, hbusy⟩ := ready_of_run hr
    obtain ⟨hfrom, hlegal, -⟩ := hsound
    have hlength : mailHdr.length.toNat ≤ maxMailSize := hlegal.length_le
    have hpacket : pktHdr.length.toNat = mailHdr.length.toNat + mailHeaderSize := hlegal.packet
    have hle : 0 < pktHdr.length.toNat ∧ pktHdr.length.toNat ≤ maxPacketSize := by
      unfold maxMailSize maxPacketSize maxWireSize packetHeaderSize mailHeaderSize at *
      omega
    unfold code at hcode
    simp only at hcode
    unfold Network.send at hcode
    rw [if_pos ⟨hbusy, hle.1, hle.2, hfrom.trans hident.symm⟩] at hcode
    cases hcode
  | user p mail =>
    refine ⟨p, mail, rfl, ?_⟩
    simp only [code] at hcode
    unfold Action.Bad
    split at hcode
    next hprogram =>
      rw [hprogram]
      intro hok
      rw [if_pos hok] at hcode
      cases hcode
    next hprogram =>
      rw [hprogram]
      intro hok
      rw [if_pos hok] at hcode
      cases hcode
    all_goals cases hcode
  | got mail p =>
    unfold code at hcode
    simp only at hcode
    rw [if_pos (legal_of_got h hlabel).length_le] at hcode
    cases hcode
  | get box p =>
    simp only [code] at hcode
    split at hcode <;> cases hcode
  | _ => cases hcode

/-- The interrupt handlers fail no assertion. -/
lemma handler_ne_assertion (h : WorldRun N tr w) {d : NetworkInt}
    (hd : ∀ packet, d = .readPoll packet → packet = (w.socket b).head?) :
    handler d (w.machine b).shared ≠ .error .assertion := by
  obtain ⟨ktr, hr⟩ := kernel_of_run h b
  intro hfail
  cases d with
  | sendDone =>
    simp only [handler] at hfail
    split at hfail
    next hdone =>
      cases hfail
      unfold Network.sendDone at hdone
      split at hdone <;> cases hdone
    next => cases hfail
  | readPoll packet =>
    obtain rfl := hd packet rfl
    simp only [handler] at hfail
    split at hfail
    next hpoll =>
      cases hfail
      unfold Network.checkPktAvail at hpoll
      split at hpoll
      next => cases hpoll
      next =>
        split at hpoll
        next => cases hpoll
        next packet hhead =>
          have hmem : packet ∈ w.socket b := List.mem_of_head? hhead
          have hlegal := (Carried.of_run h).socket b packet hmem
          have hto : (PacketHeader.ofMemory packet).to_ = (w.machine b).shared.network.ident :=
            (to_of_socket h hmem).trans (ready_of_run hr).1.symm
          have hpacket : (PacketHeader.ofMemory packet).length.toNat =
              (Mail.ofPacket packet).mailHdr.length.toNat + mailHeaderSize := hlegal.packet
          have hlength := hlegal.length_le
          simp only [maxMailSize] at hlength
          have hle : (PacketHeader.ofMemory packet).length.toNat ≤ maxPacketSize := by
            unfold maxPacketSize maxWireSize packetHeaderSize mailHeaderSize at *
            omega
          rw [if_pos ⟨hto, hle⟩] at hpoll
          cases hpoll
    next => cases hfail

/-- A thread that uses the condition of a box has its lock. -/
lemma held_of_asserts (h : WorldRun N tr w) {input : Input ι} {c : Label P} {r : Ret}
    {po : PostOffice} {call : Call (Label P)} {L : ℕ}
    (hloc : (w.machine b).loc (w.machine b).currentThread = .run (.client c) r)
    (hcode : code b N.numBoxes (N.program b) input (w.machine b).currentThread c r
      (w.machine b).shared = .ok (po, call)) (hasserts : call.asserts = some L) :
    ((w.machine b).lock (.lock L)).activeThread = some (w.machine b).currentThread := by
  obtain ⟨ktr, hr⟩ := kernel_of_run h b
  obtain ⟨es, hact⟩ := act_of_code hcode
  have hholds : ∀ box, L = boxLock box → c.inBox box = true →
      ((w.machine b).lock (.lock L)).activeThread = some (w.machine b).currentThread := by
    rintro box rfl hin
    have hlocks : (postOffice b N.numBoxes (N.program b)).Locks (boxLock box) (Label.inBox box) :=
      boxLocks box
    refine (hlocks.of_run rfl hr _).2 ?_
    rw [hloc]
    exact hin
  cases hact with
  | put => exact hholds _ (Option.some.inj hasserts).symm (decide_eq_true rfl)
  | wait => exact hholds _ (Option.some.inj hasserts).symm (decide_eq_true rfl)
  | _ => cases hasserts

/-- **No assertion of the network fails**: in every run of the machines, a step that fails an
assertion is a call of a program with arguments that the post office does not take, or it sends to a
machine that is not up. -/
theorem assertion_of_program (h : WorldRun N tr w) {a : NetworkAddress}
    {ch : Choice (Input ι) NetworkInt} (hstep : worldStep N (a, ch) w = .error .assertion) :
    ∃ input new c r, ch = .run input new ∧
      (w.machine a).loc (w.machine a).currentThread = .run (.client c) r ∧
      ((∃ p mail, c = .user p mail ∧ (N.program a input.input p mail).Bad N.numBoxes) ∨
        ∃ pktHdr mailHdr data buffer p, c = .send pktHdr mailHdr data buffer p ∧
          input.lost = false ∧ N.up pktHdr.to_ = false) := by
  obtain ⟨ktr, hr⟩ := kernel_of_run h a
  have hrun : ∀ {input new}, offer (w.socket a) ch = .run input new → ch = .run input new := by
    intro input new he
    cases ch with
    | interrupt d => cases d <;> cases he
    | _ => exact he
  simp only [worldStep] at hstep
  split at hstep
  next =>
    split at hstep
    next f hmail =>
      cases hstep
      have hkernel : step (postOffice a N.numBoxes (N.program a)) (offer (w.socket a) ch)
          (w.machine a) = .error .assertion := by
        unfold mailStep observed at hmail
        split at hmail
        next hk =>
          cases hmail
          exact hk
        next => cases hmail
      generalize hoffer : offer (w.socket a) ch = offered at hkernel hrun
      cases assertion_of_client hr hkernel with
      | @handler d hfail =>
        refine absurd hfail (handler_ne_assertion h ?_)
        rintro packet rfl
        cases ch with
        | interrupt d =>
          cases d with
          | readPoll => cases hoffer; rfl
          | sendDone => cases hoffer
        | _ => cases hoffer
      | code mode loc hcode =>
        exact ⟨_, _, _, _, hrun rfl, loc, .inl (bad_of_code h loc hcode)⟩
      | condition mode loc hcode hasserts hheld =>
        exact absurd (held_of_asserts h loc hcode hasserts) hheld
    next es s hmail =>
      split at hstep
      next => cases hstep
      next hreach =>
        obtain ⟨rfl, kes, hkernel⟩ := observed_eq_ok hmail
        obtain ⟨e, he, hnot⟩ : ∃ e ∈ mailEvents (offer (w.socket a) ch) (w.machine a),
            ¬ reaches N.up e = true := by simpa using hreach
        rcases step_interrupt_client_kernel hkernel with ⟨d, po, v, hch, -, -⟩ |
          ⟨-, input, new, new', c, r, call, hch, hc⟩ | ⟨hs, hk, hd⟩
        · rw [hch] at he
          cases d with
          | sendDone =>
            obtain rfl := List.mem_singleton.1 he
            exact absurd rfl hnot
          | readPoll packet =>
            simp only [mailEvents] at he
            split at he
            · cases he
            · obtain ⟨p, -, rfl⟩ := List.mem_map.1 he
              exact absurd rfl hnot
        · have hact := act_of_step hc
          rw [hch] at he
          change e ∈ threadEvents input (w.machine a) at he
          refine ⟨input, new, c, r, hrun hch, hc.loc, .inr ?_⟩
          generalize s.shared = po' at hact
          generalize threadEvents input (w.machine a) = es at hact he
          cases hact with
          | send send =>
            obtain rfl := List.mem_singleton.1 he
            obtain ⟨-, rfl⟩ := network_send_eq_ok send
            refine ⟨_, _, _, _, _, rfl, ?_⟩
            cases hlost : input.lost <;> simp_all [reaches]
          | put | sent | remove | got =>
            obtain rfl := List.mem_singleton.1 he
            exact absurd rfl hnot
          | _ => cases he
        · rw [mailEvents_of_kernel (.of_run hr) hs hk hd] at he
          cases he
  next => cases hstep

end Mail

/-- A machine with one box, whose program looks into another one. -/
def noSuchBox : Machines Unit Unit where
  up := fun _ => true
  numBoxes := 1
  program := fun _ _ _ _ => .receive 5 ()
  first := fun _ => ()
  fresh := fun _ => cleared

theorem assertion_of_program_noSuchBox : ∃ tr w, WorldRun noSuchBox tr w ∧
    ∃ input new c r, (.run ⟨false, cleared.2, ()⟩ 1 : Choice (Input Unit) NetworkInt) = .run input new ∧
      (w.machine 0).loc (w.machine 0).currentThread = .run (.client c) r ∧
      ((∃ p mail, c = .user p mail ∧ (noSuchBox.program 0 input.input p mail).Bad 1) ∨
        ∃ pktHdr mailHdr data buffer p, c = .send pktHdr mailHdr data buffer p ∧
          input.lost = false ∧ noSuchBox.up pktHdr.to_ = false) := by
  obtain ⟨tr, w, hr, hp⟩ := run_of_passes (worldStep noSuchBox)
    (List.replicate 2 (0, .run ⟨false, cleared.2, ()⟩ 1)) noSuchBox.start (fun _ w =>
      match worldStep noSuchBox (0, .run ⟨false, cleared.2, ()⟩ 1) w with
      | .error .assertion => true
      | _ => false) (by decide +kernel)
  split at hp
  next hfail => exact ⟨tr, w, hr, assertion_of_program hr hfail⟩
  next => cases hp

end Nachos.Network
