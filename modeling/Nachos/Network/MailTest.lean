import Nachos.Network.World

/-!
# The mail test

`MailTest` (`nettest.cc`), which two machines run at each other: each sends a message to the other
one, waits for the other one's, acknowledges it, and waits for the acknowledgement of its own.
-/

namespace Nachos.Network

open Lib Mips Threads
open Filesys (Memory)

/-! ### The program -/

/-- A string, with the byte that ends it. -/
def cString (cs : List Char) : List Byte := (cs.map fun c => .ofNat 8 c.toNat) ++ [0]

/-- The memory that a string is in. -/
def stringAt (bytes : List Byte) : Memory := fun i => bytes.getD i 0

/-- `data` and `ack`. -/
def helloThere : List Byte := cString ['H', 'e', 'l', 'l', 'o', ' ', 't', 'h', 'e', 'r', 'e', '!']
def gotIt : List Byte := cString ['G', 'o', 't', ' ', 'i', 't', '!']

/-- The points of `MailTest`, before each of its calls. -/
inductive MailTestPoint where
  | send | receive | ack | receiveAck | halt

/-- `MailTest`. The input is what `outPktHdr` holds where nothing was stored. -/
def mailTest (farAddr : NetworkAddress) : Program PacketHeader MailTestPoint
  | outPktHdr, .send, _ =>
    .send { outPktHdr with to_ := farAddr } ⟨0, 1, 13⟩ (stringAt helloThere) .receive
  | _, .receive, _ => .receive 0 .ack
  | outPktHdr, .ack, some inMail =>
    .send { outPktHdr with to_ := inMail.pktHdr.from_ } ⟨inMail.mailHdr.from_, 1, 8⟩
      (stringAt gotIt) .receiveAck
  -- not reached: `Receive` has given the mail
  | _, .ack, none => .finish
  | _, .receiveAck, _ => .receive 1 .halt
  | _, .halt, _ => .halt

/-- The machines `a` and `b`, which run `MailTest` at each other; a post office has 10 boxes. -/
def far (a b : NetworkAddress) (x : NetworkAddress) : NetworkAddress := if x = a then b else a

def mailTests (a b : NetworkAddress) (fresh : NetworkAddress → PacketHeader × Memory) :
    Machines PacketHeader MailTestPoint where
  up := fun x => x = a || x = b
  numBoxes := 10
  program := fun x => mailTest (far a b x)
  first := fun _ => .send
  fresh := fresh

/-! ### What the test sends -/

/-- The first message, and the acknowledgement of a message. -/
def hello (x y : NetworkAddress) : Mail := ⟨⟨y, x, 25⟩, ⟨0, 1, 13⟩, helloThere⟩

def ack (x : NetworkAddress) (mail : Mail) : Mail :=
  ⟨⟨mail.pktHdr.from_, x, 20⟩, ⟨mail.mailHdr.from_, 1, 8⟩, gotIt⟩

/-- The acknowledgement of the first message. -/
def gotHello (x y : NetworkAddress) : Mail := ⟨⟨y, x, 20⟩, ⟨1, 1, 8⟩, gotIt⟩

/-! ### A run -/

/-- Memory that is cleared. -/
def cleared : PacketHeader × Memory := (⟨0, 0, 0⟩, fun _ => 0)

abbrev TestChoice := NetworkAddress × Choice (Input PacketHeader) NetworkInt

/-- The running thread goes on, and nothing is lost. -/
def goesOn (x : NetworkAddress) (n : ℕ) : List TestChoice :=
  List.replicate n (x, .run ⟨false, cleared.2, cleared.1⟩ 1)

/-- The main thread gives the network a packet and waits until it is out. -/
def sends (x : NetworkAddress) : List TestChoice :=
  goesOn x 3 ++ [(x, .interrupt .sendDone), (x, .dispatch)] ++ goesOn x 15

/-- The postal worker takes a packet off the network and puts it into its box. -/
def reads (x : NetworkAddress) : List TestChoice :=
  [(x, .interrupt (.readPoll none)), (x, .dispatch)] ++ goesOn x 17 ++ [(x, .dispatch)]

/-- Both tests, up to the calls of `Halt`. -/
def bothTests : List TestChoice :=
  goesOn 0 7 ++ [(0, .dispatch)] ++ sends 0 ++ goesOn 1 7 ++ [(1, .dispatch)] ++ sends 1 ++
    reads 1 ++ goesOn 1 11 ++ sends 1 ++ reads 0 ++ goesOn 0 11 ++ sends 0 ++
    reads 0 ++ goesOn 0 9 ++ reads 1 ++ goesOn 1 9

/-- Both machines have received both messages. -/
lemma run_bothTests : ∃ tr w, WorldRun (mailTests 0 1 fun _ => cleared) tr w ∧
    receivedBy 0 (eventsOn 0 tr) = [hello 1 0, gotHello 1 0] ∧
    receivedBy 0 (eventsOn 1 tr) = [hello 0 1, gotHello 0 1] := by
  obtain ⟨tr, w, hr, hp⟩ := run_of_passes (worldStep (mailTests 0 1 fun _ => cleared)) bothTests
    (mailTests 0 1 fun _ => cleared).start (fun tr _ =>
      receivedBy 0 (eventsOn 0 tr) = [hello 1 0, gotHello 1 0] ∧
      receivedBy 0 (eventsOn 1 tr) = [hello 0 1, gotHello 0 1]) (by decide +kernel)
  exact ⟨tr, w, hr, of_decide_eq_true hp⟩

end Nachos.Network
