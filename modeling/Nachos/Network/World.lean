import Nachos.Network.PostOffice

/-!
# Machines on a network

The machines run side by side, in any interleaving of their steps. Each has a socket, from which it
reads the packets in the order in which they were sent to it; `SendToSocket` fails when there is no
machine of that name.
-/

namespace Nachos.Network

open Lib Threads
open Filesys (Memory)

/-- The machines: which are up, how many boxes their post offices have, and for each of them its
program, where that begins, and what memory holds where the network is made. -/
structure Machines (ι P : Type) where
  up : NetworkAddress → Bool
  numBoxes : ℕ
  program : NetworkAddress → Program ι P
  first : NetworkAddress → P
  fresh : NetworkAddress → PacketHeader × Memory

/-- The state of all machines, and the packets in the sockets. -/
structure World (P : Type) where
  machine : NetworkAddress → State (Label P) PostOffice
  socket : NetworkAddress → List Memory

section

variable {ι P : Type}

/-- A poll finds the packet at the head of the socket. -/
def offer (packets : List Memory) :
    Choice (Input ι) NetworkInt → Choice (Input ι) NetworkInt
  | .interrupt (.readPoll _) => .interrupt (.readPoll packets.head?)
  | ch => ch

/-- What an event on the machine `addr` does to the sockets: `SendToSocket`, `ReadFromSocket`. -/
def carry (addr : NetworkAddress) (socket : NetworkAddress → List Memory) :
    MailEvent → NetworkAddress → List Memory
  | .sent _ mail (some packet) =>
    Function.update socket mail.pktHdr.to_ (socket mail.pktHdr.to_ ++ [packet])
  | .read _ => Function.update socket addr (socket addr).tail
  | _ => socket

/-- `SendToSocket` finds the socket. -/
def reaches (up : NetworkAddress → Bool) : MailEvent → Bool
  | .sent _ mail (some _) => up mail.pktHdr.to_
  | _ => true

/-- One step: the machine that makes it, and its choice. -/
def worldStep (N : Machines ι P) (ch : NetworkAddress × Choice (Input ι) NetworkInt) (w : World P) :
    Except Fault (List (NetworkAddress × MailEvent) × World P) :=
  if N.up ch.1 then
    match mailStep ch.1 N.numBoxes (N.program ch.1) (offer (w.socket ch.1) ch.2)
      (w.machine ch.1) with
    | .error f => .error f
    | .ok (es, s) =>
      if es.all (reaches N.up) then
        .ok (es.map fun e => (ch.1, e),
          ⟨Function.update w.machine ch.1 s, es.foldl (carry ch.1) w.socket⟩)
      else .error .assertion
  else .error .disabled

/-- The machines before their first step. -/
def Machines.start (N : Machines ι P) : World P where
  machine := fun addr => Network.start addr (N.first addr) (N.fresh addr)
  socket := fun _ => []

/-- The runs of the machines. -/
abbrev WorldRun (N : Machines ι P) (tr : List (NetworkAddress × MailEvent)) (w : World P) : Prop :=
  Run (StepOf (worldStep N)) N.start tr w

end

/-! ### What is seen -/

/-- The events on one machine. -/
def eventsOn (addr : NetworkAddress) (tr : List (NetworkAddress × MailEvent)) : List MailEvent :=
  tr.filterMap fun e => if e.1 = addr then some e.2 else none

/-- The packets that were read off the socket. -/
def readPackets (es : List MailEvent) : List Memory :=
  es.filterMap fun e => match e with
    | .read packet => some packet
    | _ => none

/-- The mail that the postal worker put into the boxes. -/
def putMail (es : List MailEvent) : List Mail :=
  es.filterMap fun e => match e with
    | .put mail => some mail
    | _ => none

/-- The mail that was taken out of a box. -/
def removedFrom (box : ℕ) (es : List MailEvent) : List Mail :=
  es.filterMap fun e => match e with
    | .removed _ b mail => if b = box then some mail else none
    | _ => none

/-- The mail that the calls of a thread took out of the boxes. -/
def removedBy (t : Tid) (es : List MailEvent) : List Mail :=
  es.filterMap fun e => match e with
    | .removed u _ mail => if u = t then some mail else none
    | _ => none

/-- The mail that they returned. -/
def receivedBy (t : Tid) (es : List MailEvent) : List Mail :=
  es.filterMap fun e => match e with
    | .received u mail => if u = t then some mail else none
    | _ => none

/-- The mail that was given to `network->Send`, lost or not. -/
def sentMail (es : List MailEvent) : List Mail :=
  es.filterMap fun e => match e with
    | .sent _ mail _ => some mail
    | _ => none

/-- The number of interrupts that end a `Send`. -/
def dones (es : List MailEvent) : ℕ :=
  es.countP fun e => match e with
    | .done => true
    | _ => false

/-- The mail that went to the socket of a machine, from any machine, in that order. -/
def carriedTo (addr : NetworkAddress) (tr : List (NetworkAddress × MailEvent)) : List Mail :=
  tr.filterMap fun e => match e.2 with
    | .sent _ mail (some _) => if mail.pktHdr.to_ = addr then some mail else none
    | _ => none

end Nachos.Network
