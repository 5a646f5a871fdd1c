import Nachos.Network.Wire
import Nachos.Threads.Kernel

/-!
# The network and the post office of one machine

`class Network` (`network.cc`) and `class PostOffice` (`post.cc`) as a client of the kernel. Sending
takes a lock and waits for the interrupt that says that the packet is out; a packet that has arrived
is announced by an interrupt, and the postal worker takes it off the network and puts it into its
box, a `SynchList`, where `Receive` waits for it.

What the threads of a machine do between two calls is their program, which finds the mail that
`Receive` gave it. Which packets the network loses, what the memory holds that `new char` gives, and
what the socket has when it is polled are the choice of the environment.
-/

namespace Nachos.Network

open Lib Threads
open Filesys (Memory)

/-! ### The network -/

/-- `class Network`: its address, `sendBusy`, the packet that has arrived, and how many of the
interrupts `NetworkSendDone` that were scheduled have not happened yet. -/
structure Network where
  ident : NetworkAddress
  sendBusy : Bool
  inHdr : PacketHeader
  inbox : Memory
  scheduled : ℕ

namespace Network

/-- `Network::Network`, with what memory holds there. -/
def new (addr : NetworkAddress) (inHdr : PacketHeader) (inbox : Memory) : Network where
  ident := addr
  sendBusy := false
  inHdr := { inHdr with length := 0 }
  inbox := inbox
  scheduled := 0

variable (net : Network)

/-- `Network::CheckPktAvail`, when the socket has the packet, or none. Is the handler called? -/
def checkPktAvail (packet : Option Memory) : Except Fault (Bool × Network) :=
  if net.inHdr.length ≠ 0 then .ok (false, net)
  else match packet with
  | none => .ok (false, net)
  | some buffer =>
    let inHdr := PacketHeader.ofMemory buffer
    if inHdr.to_ = net.ident ∧ inHdr.length.toNat ≤ maxPacketSize then
      .ok (true, { net with
        inHdr := inHdr
        inbox := copyAt net.inbox 0 inHdr.length.toNat (behind buffer packetHeaderSize) })
    else .error .assertion

/-- `Network::SendDone`. -/
def sendDone : Except Fault Network :=
  if net.scheduled = 0 then .error .disabled
  else .ok { net with sendBusy := false, scheduled := net.scheduled - 1 }

/-- `Network::Send`: what is given to `SendToSocket`, if the packet is not lost. -/
def send (lost : Bool) (fresh : Memory) (hdr : PacketHeader) (data : Memory) :
    Except Fault (Option Memory × Network) :=
  if net.sendBusy = false ∧ 0 < hdr.length.toNat ∧ hdr.length.toNat ≤ maxPacketSize ∧
      hdr.from_ = net.ident then
    .ok (if lost then none else some (wireBuffer fresh hdr data),
      { net with scheduled := net.scheduled + 1 })
  else .error .assertion

/-- `Network::Receive`: the header, and what `data` holds. -/
def receive (data : Memory) : PacketHeader × Memory × Network :=
  (net.inHdr,
    if net.inHdr.length ≠ 0 then copyAt data 0 net.inHdr.length.toNat net.inbox else data,
    { net with inHdr := { net.inHdr with length := 0 } })

end Network

/-! ### The post office -/

/-- `class PostOffice`: the network, and the mail in the boxes. -/
structure PostOffice where
  network : Network
  boxes : ℕ → List Mail

/-- `messageAvailable` and `messageSent`. -/
abbrev messageAvailable : ℕ := 0
abbrev messageSent : ℕ := 1

/-- `sendLock`, and the `lock` and `listEmpty` of a box. -/
abbrev sendLock : ℕ := 0
abbrev boxLock (box : ℕ) : ℕ := box + 1
abbrev listEmpty (box : ℕ) : ℕ := box

/-- A box number that `PostalDelivery`, `Send` and `Receive` let through. -/
def InBoxes (numBoxes : ℕ) (box : MailBoxAddress) : Prop := 0 ≤ box.toInt ∧ box.toInt < numBoxes

instance (numBoxes : ℕ) (box : MailBoxAddress) : Decidable (InBoxes numBoxes box) :=
  inferInstanceAs (Decidable (_ ∧ _))

/-- What a thread of the program does next, and where its program goes on. -/
inductive Action (P : Type) where
  | send (pktHdr : PacketHeader) (mailHdr : MailHeader) (data : Memory) (p : P)
  | receive (box : MailBoxAddress) (p : P)
  | fork (first p : P)
  | yield (p : P)
  /-- `interrupt->Halt()`. -/
  | halt
  | finish

/-- A program: what it does at a point, with the mail that `Receive` gave it. -/
abbrev Program (ι P : Type) := ι → P → Option Mail → Action P

/-- The points of a thread. -/
inductive Label (P : Type) where
  /-- `PostOffice::PostOffice`, before `t->Fork(PostalHelper, …)`. -/
  | construct (p : P)
  /-- `PostalDelivery`, at the head of its loop, with what `buffer` holds. -/
  | await (buffer : Memory)
  /-- After `messageAvailable->P()`. -/
  | arrived (buffer : Memory)
  /-- In `Put`, after `lock->Acquire()` and after `listEmpty->Signal(lock)`. -/
  | put (mail : Mail) (buffer : Memory)
  | putDone (box : ℕ) (buffer : Memory)
  /-- Between two calls. -/
  | user (p : P) (mail : Option Mail)
  /-- `Send`, after `sendLock->Acquire()`. -/
  | send (pktHdr : PacketHeader) (mailHdr : MailHeader) (data buffer : Memory) (p : P)
  /-- After `messageSent->P()`. -/
  | sent (p : P)
  /-- In `Get`, at the test of the loop of `Remove`. -/
  | get (box : ℕ) (p : P)
  /-- After `lock->Release()`. -/
  | got (mail : Mail) (p : P)

/-- What the environment chooses when a thread goes on: whether the network loses the packet, what
`new char` finds, and what the program depends on. -/
structure Input (ι : Type) where
  lost : Bool
  fresh : Memory
  input : ι

section

variable {ι P : Type}

/-- The header that `PostOffice::Send` gives to the network. -/
def outHdr (addr : NetworkAddress) (pktHdr : PacketHeader) (mailHdr : MailHeader) : PacketHeader :=
  { pktHdr with from_ := addr, length := mailHdr.length + BitVec.ofNat 32 mailHeaderSize }

/-- The code of the threads on the machine `addr`, whose post office has `numBoxes` boxes. -/
def code (addr : NetworkAddress) (numBoxes : ℕ) (program : Program ι P) (input : Input ι) (_ : Tid)
    (c : Label P) (_ : Ret) (po : PostOffice) : Except Fault (PostOffice × Call (Label P)) :=
  match c with
  | .construct p => .ok (po, .fork (.await input.fresh) (.user p none))
  | .await buffer => .ok (po, .down messageAvailable (.arrived buffer))
  | .arrived buffer =>
    let (pktHdr, buffer, network) := po.network.receive buffer
    let mailHdr := MailHeader.ofMemory buffer
    if InBoxes numBoxes mailHdr.to_ ∧ mailHdr.length.toNat ≤ maxMailSize then
      match Mail.new pktHdr mailHdr (behind buffer mailHeaderSize) with
      | .error f => .error f
      | .ok mail =>
        .ok ({ po with network := network }, .acquire (boxLock mail.box) (.put mail buffer))
    else .error .assertion
  | .put mail buffer =>
    .ok ({ po with boxes := Function.update po.boxes mail.box (po.boxes mail.box ++ [mail]) },
      .signal (listEmpty mail.box) (boxLock mail.box) (.putDone mail.box buffer))
  | .putDone box buffer => .ok (po, .release (boxLock box) (.await buffer))
  | .user p mail =>
    match program input.input p mail with
    | .send pktHdr mailHdr data p =>
      if mailHdr.length.toNat ≤ maxMailSize ∧ InBoxes numBoxes mailHdr.to_ then
        .ok (po, .acquire sendLock (.send (outHdr addr pktHdr mailHdr) mailHdr data
          (mailBuffer input.fresh mailHdr data) p))
      else .error .assertion
    | .receive box p =>
      if InBoxes numBoxes box then
        .ok (po, .acquire (boxLock box.toInt.toNat) (.get box.toInt.toNat p))
      else .error .assertion
    | .fork first p => .ok (po, .fork (.user first none) (.user p none))
    | .yield p => .ok (po, .yield (.user p none))
    | .halt => .error .halt
    | .finish => .ok (po, .finish)
  | .send pktHdr _ _ buffer p =>
    match po.network.send input.lost input.fresh pktHdr buffer with
    | .error f => .error f
    | .ok (_, network) => .ok ({ po with network := network }, .down messageSent (.sent p))
  | .sent p => .ok (po, .release sendLock (.user p none))
  | .get box p =>
    match po.boxes box with
    | [] => .ok (po, .wait (listEmpty box) (boxLock box) (.get box p))
    | mail :: rest =>
      .ok ({ po with boxes := Function.update po.boxes box rest },
        .release (boxLock box) (.got mail p))
  | .got mail p =>
    if mail.mailHdr.length.toNat ≤ maxMailSize then .ok (po, .skip (.user p (some mail)))
    else .error .assertion

/-- The interrupts of the network: `NetworkReadPoll`, with what the socket has, and
`NetworkSendDone`. -/
inductive NetworkInt where
  | readPoll (packet : Option Memory)
  | sendDone

/-- `CheckPktAvail` with `IncomingPacket`, and `SendDone` with `PacketSent`. -/
def handler : NetworkInt → PostOffice → Except Fault (PostOffice × Option ℕ)
  | .readPoll packet, po =>
    match po.network.checkPktAvail packet with
    | .error f => .error f
    | .ok (called, network) =>
      .ok ({ po with network := network }, if called then some messageAvailable else none)
  | .sendDone, po =>
    match po.network.sendDone with
    | .error f => .error f
    | .ok network => .ok ({ po with network := network }, some messageSent)

/-- The machine `addr` with its post office. -/
def postOffice (addr : NetworkAddress) (numBoxes : ℕ) (program : Program ι P) :
    Client (Label P) PostOffice (Input ι) NetworkInt where
  code := code addr numBoxes program
  handler := handler

/-! ### What is seen of the mail -/

/-- What is seen of the mail on one machine. -/
inductive MailEvent where
  /-- `network->Send(…)`, with the mail of the call, and the packet that goes to the socket. -/
  | sent (t : Tid) (mail : Mail) (packet : Option Memory)
  /-- The interrupt that ends it. -/
  | done
  /-- A packet is read off the socket. -/
  | read (packet : Memory)
  /-- The postal worker puts the mail into its box. -/
  | put (mail : Mail)
  /-- `Remove` takes it out. -/
  | removed (t : Tid) (box : ℕ) (mail : Mail)
  /-- `Send` is past `messageSent->P()`. -/
  | completed (t : Tid)
  /-- `PostOffice::Receive` returns. -/
  | received (t : Tid) (mail : Mail)

/-- What the running thread does as it goes on. -/
def threadEvents (input : Input ι) (s : State (Label P) PostOffice) : List MailEvent :=
  match s.mode, s.loc s.currentThread with
  | .running, .run (.client (.put mail _)) _ => [.put mail]
  | .running, .run (.client (.send pktHdr mailHdr data buffer _)) _ =>
    match s.shared.network.send input.lost input.fresh pktHdr buffer with
    | .error _ => []
    | .ok (packet, _) =>
      [.sent s.currentThread ⟨pktHdr, mailHdr, slice data 0 mailHdr.length.toNat⟩ packet]
  | .running, .run (.client (.sent _)) _ => [.completed s.currentThread]
  | .running, .run (.client (.get box _)) _ =>
    match s.shared.boxes box with
    | [] => []
    | mail :: _ => [.removed s.currentThread box mail]
  | .running, .run (.client (.got mail _)) _ => [.received s.currentThread mail]
  | _, _ => []

/-- What a step does. -/
def mailEvents : Choice (Input ι) NetworkInt → State (Label P) PostOffice → List MailEvent
  | .interrupt (.readPoll packet), s =>
    if s.shared.network.inHdr.length ≠ 0 then [] else packet.toList.map .read
  | .interrupt .sendDone, _ => [.done]
  | .run input _, s => threadEvents input s
  | _, _ => []

/-- One step of a machine, which shows what it does to the mail. -/
def mailStep (addr : NetworkAddress) (numBoxes : ℕ) (program : Program ι P) :
    Choice (Input ι) NetworkInt → State (Label P) PostOffice →
      Except Fault (List MailEvent × State (Label P) PostOffice) :=
  observed (step (postOffice addr numBoxes program)) mailEvents

/-- The machine before the main thread makes the post office, with what memory holds where the
network is made. -/
def start (addr : NetworkAddress) (first : P) (fresh : PacketHeader × Memory) :
    State (Label P) PostOffice :=
  .init (.construct first) (fun _ => 0) ⟨.new addr fresh.1 fresh.2, fun _ => []⟩

end

end Nachos.Network
