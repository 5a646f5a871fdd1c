import Nachos.Network.World
import Nachos.Threads.Announce
import Nachos.Threads.Handshake

/-!
# The code of the post office

What the code does at each label, read off it once; that it sends behind a lock and a semaphore,
that the postal worker takes what the network announces, and that what a thread has in hand was
checked and put together as it should be.
-/

namespace Nachos.Network

open Lib Threads
open Filesys (Memory)

variable {ι P : Type} {addr : NetworkAddress} {numBoxes : ℕ} {program : Program ι P}

/-- The mail that the postal worker takes off the network, and what its buffer holds then. -/
def Network.taken (net : Network) (buffer : Memory) : Mail :=
  .inData net.inHdr (net.receive buffer).2.1

/-- The network after the packet was read. -/
def Network.readIn (net : Network) (packet : Memory) : Network :=
  { net with
    inHdr := .ofMemory packet
    inbox := copyAt net.inbox 0 (PacketHeader.ofMemory packet).length.toNat
      (behind packet packetHeaderSize) }

/-- A packet has arrived. -/
def PostOffice.full (po : PostOffice) : Bool := po.network.inHdr.length ≠ 0

/-- What the interrupt handlers do: the post office after it, and the semaphore of their `V`. -/
inductive Handles (po : PostOffice) : NetworkInt → PostOffice → Option ℕ → Prop
  | full {packet} (full : po.full = true) : Handles po (.readPoll packet) po none
  | none (empty : po.full = false) : Handles po (.readPoll none) po none
  | read {packet} (empty : po.full = false)
      (to_ : (PacketHeader.ofMemory packet).to_ = po.network.ident) :
      Handles po (.readPoll (some packet)) { po with network := po.network.readIn packet }
        (some messageAvailable)
  | sendDone (scheduled : 0 < po.network.scheduled) :
      Handles po .sendDone
        { po with network := { po.network with
            sendBusy := false
            scheduled := po.network.scheduled - 1 } } (some messageSent)

lemma handles_of_handler {po po' : PostOffice} {d : NetworkInt} {v : Option ℕ}
    (h : handler d po = .ok (po', v)) : Handles po d po' v := by
  cases d with
  | sendDone =>
    simp only [handler] at h
    split at h
    next => cases h
    next network hdone =>
      cases h
      unfold Network.sendDone at hdone
      split at hdone
      next => cases hdone
      next hne =>
        cases hdone
        exact .sendDone (Nat.pos_of_ne_zero hne)
  | readPoll packet =>
    simp only [handler] at h
    split at h
    next => cases h
    next called network hpoll =>
      cases h
      unfold Network.checkPktAvail at hpoll
      split at hpoll
      next hfull =>
        cases hpoll
        exact .full (decide_eq_true hfull)
      next hempty =>
        have hempty : po.full = false := decide_eq_false hempty
        split at hpoll
        next =>
          cases hpoll
          exact .none hempty
        next packet =>
          simp only at hpoll
          split at hpoll
          next hok =>
            cases hpoll
            exact .read hempty hok.1
          next => cases hpoll

/-- What the code does at a label: the post office after it, the call, and what is seen. -/
inductive Act (addr : NetworkAddress) (numBoxes : ℕ) (input : Input ι) (t : Tid)
    (po : PostOffice) : Label P → PostOffice → Call (Label P) → List MailEvent → Prop
  | construct {p} :
      Act addr numBoxes input t po (.construct p) po
        (.fork (.await input.fresh) (.user p none)) []
  | await {buffer} :
      Act addr numBoxes input t po (.await buffer) po (.down messageAvailable (.arrived buffer)) []
  | arrived {buffer} (box : InBoxes numBoxes (po.network.taken buffer).mailHdr.to_)
      (length : (po.network.taken buffer).mailHdr.length.toNat ≤ maxMailSize) :
      Act addr numBoxes input t po (.arrived buffer)
        { po with network := (po.network.receive buffer).2.2 }
        (.acquire (boxLock (po.network.taken buffer).box)
          (.put (po.network.taken buffer) (po.network.receive buffer).2.1)) []
  | put {mail buffer} :
      Act addr numBoxes input t po (.put mail buffer)
        { po with boxes := Function.update po.boxes mail.box (po.boxes mail.box ++ [mail]) }
        (.signal (listEmpty mail.box) (boxLock mail.box) (.putDone mail.box buffer)) [.put mail]
  | putDone {box buffer} :
      Act addr numBoxes input t po (.putDone box buffer) po (.release (boxLock box) (.await buffer)) []
  | callSend {p mail pktHdr mailHdr data p'} (length : mailHdr.length.toNat ≤ maxMailSize)
      (box : InBoxes numBoxes mailHdr.to_) :
      Act addr numBoxes input t po (.user p mail) po
        (.acquire sendLock (.send (outHdr addr pktHdr mailHdr) mailHdr data
          (mailBuffer input.fresh mailHdr data) p')) []
  | callReceive {p mail box p'} (inBoxes : InBoxes numBoxes box) :
      Act addr numBoxes input t po (.user p mail) po
        (.acquire (boxLock box.toInt.toNat) (.get box.toInt.toNat p')) []
  | fork {p mail first p'} :
      Act addr numBoxes input t po (.user p mail) po (.fork (.user first none) (.user p' none)) []
  | yield {p mail p'} : Act addr numBoxes input t po (.user p mail) po (.yield (.user p' none)) []
  | finish {p mail} : Act addr numBoxes input t po (.user p mail) po .finish []
  | send {pktHdr mailHdr data buffer p packet network}
      (send : po.network.send input.lost input.fresh pktHdr buffer = .ok (packet, network)) :
      Act addr numBoxes input t po (.send pktHdr mailHdr data buffer p) { po with network := network }
        (.down messageSent (.sent p))
        [.sent t ⟨pktHdr, mailHdr, slice data 0 mailHdr.length.toNat⟩ packet]
  | sent {p} : Act addr numBoxes input t po (.sent p) po (.release sendLock (.user p none)) [.completed t]
  | wait {box p} (empty : po.boxes box = []) :
      Act addr numBoxes input t po (.get box p) po (.wait (listEmpty box) (boxLock box) (.get box p)) []
  | remove {box p mail rest} (mails : po.boxes box = mail :: rest) :
      Act addr numBoxes input t po (.get box p) { po with boxes := Function.update po.boxes box rest }
        (.release (boxLock box) (.got mail p)) [.removed t box mail]
  | got {mail p} (length : mail.mailHdr.length.toNat ≤ maxMailSize) :
      Act addr numBoxes input t po (.got mail p) po (.skip (.user p (some mail))) [.received t mail]

section Code

variable {s s' : State (Label P) PostOffice} {input : Input ι} {t : Tid} {c : Label P} {r : Ret}
  {po po' : PostOffice} {call : Call (Label P)}

/-- What the code does, with what is seen of it. -/
lemma act_of_code (hc : code addr numBoxes program input t c r po = .ok (po', call)) :
    ∃ es, Act addr numBoxes input t po c po' call es := by
  cases c with
  | construct | await | put | putDone | sent =>
    cases hc
    exact ⟨_, by constructor⟩
  | arrived buffer =>
    simp only [code] at hc
    split at hc
    next hok =>
      split at hc
      next => cases hc
      next mail hnew =>
        obtain rfl := Mail.new_eq_ok hnew
        cases hc
        exact ⟨_, .arrived hok.1 hok.2⟩
    next => cases hc
  | user p mail =>
    simp only [code] at hc
    split at hc
    next =>
      split at hc
      next hok =>
        cases hc
        exact ⟨_, .callSend hok.1 hok.2⟩
      next => cases hc
    next =>
      split at hc
      next hok =>
        cases hc
        exact ⟨_, .callReceive hok⟩
      next => cases hc
    next =>
      cases hc
      exact ⟨_, .fork⟩
    next =>
      cases hc
      exact ⟨_, .yield⟩
    next => cases hc
    next =>
      cases hc
      exact ⟨_, .finish⟩
  | send =>
    simp only [code] at hc
    split at hc
    next => cases hc
    next hsend =>
      cases hc
      exact ⟨_, .send hsend⟩
  | get box p =>
    simp only [code] at hc
    split at hc
    next hempty =>
      cases hc
      exact ⟨_, .wait hempty⟩
    next hmails =>
      cases hc
      exact ⟨_, .remove hmails⟩
  | got mail p =>
    simp only [code] at hc
    split at hc
    next hlength =>
      cases hc
      exact ⟨_, .got hlength⟩
    next => cases hc

/-- What is seen of a step of a thread. -/
lemma act_of_step {new : Tid}
    (hc : ClientStep (postOffice addr numBoxes program).quiet s s' input new c r call) :
    Act addr numBoxes input s.currentThread s.shared c s'.shared call (threadEvents input s) := by
  have hcode : code addr numBoxes program input s.currentThread c r s.shared =
      .ok (s'.shared, call) := hc.code
  obtain ⟨es, hact⟩ := act_of_code hcode
  have hev : threadEvents input s = es := by
    unfold threadEvents
    rw [hc.mode, hc.loc]
    generalize s'.shared = po' at hact
    cases hact with
    | send send => simp only [send]
    | wait empty => simp only [empty]
    | remove mails => simp only [mails]
    | _ => rfl
  rwa [hev]

/-- A call that the code makes. -/
lemma act_of_makes (h : (postOffice addr numBoxes program).Makes call) :
    ∃ input t c po po' es, Act (ι := ι) addr numBoxes input t po c po' call es := by
  obtain ⟨input, t, c, r, po, po', hc⟩ := h
  obtain ⟨es, hact⟩ := act_of_code (t := t) (r := r) hc
  exact ⟨input, t, c, po, po', es, hact⟩

lemma not_makes_up {j : ℕ} : ¬ (postOffice addr numBoxes program).Makes (.up j c) := by
  intro h
  obtain ⟨input, t, c₀, po, po', es, hact⟩ := act_of_makes h
  cases hact

/-! ### Sending -/

/-- `network->Send(…)`. -/
def Label.asks : Label P → Bool
  | .send _ _ _ _ _ => true
  | _ => false

/-- After `messageSent->P()`. -/
def Label.isSent : Label P → Bool
  | .sent _ => true
  | _ => false

lemma network_send_eq_ok {net net' : Network} {lost : Bool} {fresh data : Memory}
    {hdr : PacketHeader} {packet : Option Memory} (h : net.send lost fresh hdr data = .ok (packet, net')) :
    net' = { net with scheduled := net.scheduled + 1 } ∧
      packet = if lost then none else some (wireBuffer fresh hdr data) := by
  unfold Network.send at h
  split at h
  · cases h
    exact ⟨rfl, rfl⟩
  · cases h

lemma handshakes : (postOffice addr numBoxes program).Handshakes sendLock messageSent Label.asks
    Label.isSent fun po => po.network.scheduled where
  locks := by
    intro input t c r po po' call hc
    obtain ⟨es, hact⟩ := act_of_code (t := t) (r := r) hc
    cases hact <;> simp [Call.Keeps, Label.asks, Label.isSent]
  ask := by
    intro input t c r po po' call hc hask
    obtain ⟨es, hact⟩ := act_of_code (t := t) (r := r) hc
    cases hact with
    | send send =>
      obtain ⟨rfl, -⟩ := network_send_eq_ok send
      exact ⟨rfl, _, rfl, rfl⟩
    | _ => cases hask
  other := by
    intro input t c r po po' call hc hask
    obtain ⟨es, hact⟩ := act_of_code (t := t) (r := r) hc
    cases hact with
    | send send => cases hask
    | await => exact ⟨rfl, by simp⟩
    | _ => exact ⟨rfl, by simp⟩
  noUp := not_makes_up
  interrupt := by
    intro d po po' v h
    cases handles_of_handler h with
    | full | none => rfl
    | read => simp [Network.readIn]
    | sendDone scheduled =>
      simp only [if_true]
      omega

/-! ### Taking what has arrived -/

/-- After `messageAvailable->P()`. -/
def Label.isArrived : Label P → Bool
  | .arrived _ => true
  | _ => false

lemma announces : (postOffice addr numBoxes program).Announces messageAvailable Label.isArrived
    PostOffice.full where
  down := by
    intro c h
    obtain ⟨input, t, c₀, po, po', es, hact⟩ := act_of_makes h
    cases hact
    rfl
  leads := by
    intro input t c r po po' call c' hc hleads hc'
    obtain ⟨es, hact⟩ := act_of_code (t := t) (r := r) hc
    cases hact <;> rcases hleads with hl | ⟨c'', hl⟩ <;> cases hl <;> first | rfl | cases hc'
  take := by
    intro input t c r po po' call hc htakes
    obtain ⟨es, hact⟩ := act_of_code (t := t) (r := r) hc
    cases hact with
    | arrived => simp [PostOffice.full, Network.receive]
    | _ => cases htakes
  other := by
    intro input t c r po po' call hc htakes
    obtain ⟨es, hact⟩ := act_of_code (t := t) (r := r) hc
    cases hact with
    | arrived => cases htakes
    | send send =>
      obtain ⟨rfl, -⟩ := network_send_eq_ok send
      rfl
    | _ => rfl
  noUp := not_makes_up

/-- The labels of the postal worker, and the one from which it is forked. -/
def Label.postal : Label P → Bool
  | .construct _ => true
  | .await _ => true
  | .arrived _ => true
  | .put _ _ => true
  | .putDone _ _ => true
  | _ => false

lemma single_postal : (postOffice addr numBoxes program).Single Label.postal where
  stays := by
    intro input t c r po po' call hc hone c' hleads
    obtain ⟨es, hact⟩ := act_of_code (t := t) (r := r) hc
    cases hact with
    | construct | await | arrived | put | putDone => cases hone
    | _ => rcases hleads with hl | ⟨c'', hl⟩ <;> cases hl <;> rfl
  fork := by
    intro input t c r po po' first c' hc hone
    obtain ⟨es, hact⟩ := act_of_code (t := t) (r := r) hc
    cases hact <;> rfl

/-! ### What a thread has in hand -/

/-- What a thread has in hand was checked, and put together as it should be. -/
def Label.Sound (addr : NetworkAddress) (numBoxes : ℕ) : Label P → Prop
  | .send pktHdr mailHdr data buffer _ =>
    pktHdr.from_ = addr ∧
      Mail.Legal numBoxes ⟨pktHdr, mailHdr, slice data 0 mailHdr.length.toNat⟩ ∧
      ∃ fresh, buffer = mailBuffer fresh mailHdr data
  | .put mail _ => mail.box < numBoxes
  | .putDone box _ => box < numBoxes
  | .get box _ => box < numBoxes
  | _ => True

lemma InBoxes.toNat_lt {box : MailBoxAddress} (h : InBoxes numBoxes box) :
    box.toInt.toNat < numBoxes := by
  obtain ⟨h, h'⟩ := h
  omega

/-- The packet header that `Send` fills in fits the mail header. -/
lemma outHdr_length {pktHdr : PacketHeader} {mailHdr : MailHeader}
    (h : mailHdr.length.toNat ≤ maxMailSize) :
    (outHdr addr pktHdr mailHdr).length.toNat = mailHdr.length.toNat + mailHeaderSize := by
  simp only [outHdr, BitVec.toNat_add, BitVec.toNat_ofNat, mailHeaderSize, maxMailSize,
    maxPacketSize, maxWireSize, packetHeaderSize] at h ⊢
  omega

lemma sound : (postOffice addr numBoxes program).Labels (Label.Sound addr numBoxes) := by
  intro input t c r po po' call hc hsound c' hleads
  obtain ⟨es, hact⟩ := act_of_code (t := t) (r := r) hc
  cases hact with
  | callSend length box =>
    rcases hleads with hl | ⟨c'', hl⟩ <;> cases hl
    exact ⟨rfl, ⟨length, outHdr_length length, box.1, box.2⟩, _, rfl⟩
  | arrived box length | callReceive box =>
    rcases hleads with hl | ⟨c'', hl⟩ <;> cases hl
    exact box.toNat_lt
  | put | wait =>
    rcases hleads with hl | ⟨c'', hl⟩ <;> cases hl
    exact hsound
  | _ => rcases hleads with hl | ⟨c'', hl⟩ <;> cases hl <;> trivial

/-- What is sent over the wire is the mail that was given to `Send`. -/
lemma Label.Sound.ofPacket {pktHdr : PacketHeader} {mailHdr : MailHeader} {data buffer : Memory}
    {p : P} (h : (Label.send pktHdr mailHdr data buffer p).Sound addr numBoxes) (fresh : Memory) :
    Mail.ofPacket (wireBuffer fresh pktHdr buffer) =
      ⟨pktHdr, mailHdr, slice data 0 mailHdr.length.toNat⟩ := by
  obtain ⟨-, hlegal, fresh', rfl⟩ := h
  exact Mail.ofPacket_wireBuffer hlegal.packet

end Code

end Nachos.Network
