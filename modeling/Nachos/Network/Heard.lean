import Nachos.Network.MailTest
import Nachos.Network.Script

/-!
# The mail test goes well

Two machines that run `MailTest` at each other hear from each other what the test says, in its
order, whatever the network loses; when a machine halts, it has heard everything.
-/

namespace Nachos.Network

open Lib Mips Threads
open Filesys (Memory)

/-! ### The test by itself -/

/-- What the test by itself has sent and received, point by point. -/
def Course (x y : NetworkAddress) (sent received : List Mail) : MailTestPoint → Option Mail → Prop
  | .send, _ => sent = [] ∧ received = []
  | .receive, _ => sent = [hello x y] ∧ received = []
  | .ack, mail => ∃ got, got.box = 0 ∧ mail = some got ∧ sent = [hello x y] ∧ received = [got]
  | .receiveAck, _ => ∃ got, got.box = 0 ∧ sent = [hello x y, ack x got] ∧ received = [got]
  | .halt, _ => ∃ got got', got.box = 0 ∧ got'.box = 1 ∧ sent = [hello x y, ack x got] ∧
    received = [got, got']

variable {a b x y : NetworkAddress} {fresh : NetworkAddress → PacketHeader × Memory}

lemma sentBy_hello (outPktHdr : PacketHeader) :
    sentBy x { outPktHdr with to_ := y } ⟨0, 1, 13⟩ (stringAt helloThere) = hello x y := by
  have hdata : slice (stringAt helloThere) 0 13 = helloThere := by decide
  simp [sentBy, hello, outHdr, mailHeaderSize, hdata]

lemma sentBy_ack (outPktHdr : PacketHeader) (mail : Mail) :
    sentBy x { outPktHdr with to_ := mail.pktHdr.from_ } ⟨mail.mailHdr.from_, 1, 8⟩
      (stringAt gotIt) = ack x mail := by
  have hdata : slice (stringAt gotIt) 0 8 = gotIt := by decide
  simp [sentBy, ack, outHdr, mailHeaderSize, hdata]

/-- **The test by itself.** -/
lemma course_of_script {p : MailTestPoint} {mail : Option Mail} {sent received : List Mail}
    (h : Script x (mailTest y) .send p mail sent received) : Course x y sent received p mail := by
  induction h with
  | start => exact ⟨rfl, rfl⟩
  | @send p mail sent received i pktHdr mailHdr data p' h haction ih =>
    cases p with
    | send =>
      obtain ⟨rfl, rfl⟩ := ih
      cases haction
      exact ⟨by rw [sentBy_hello, List.nil_append], rfl⟩
    | ack =>
      obtain ⟨got, hbox, rfl, rfl, rfl⟩ := ih
      cases haction
      exact ⟨got, hbox, by rw [sentBy_ack]; rfl, rfl⟩
    | _ => cases haction
  | @receive p mail sent received i box p' h haction got hbox ih =>
    cases p with
    | receive =>
      obtain ⟨rfl, rfl⟩ := ih
      cases haction
      exact ⟨got, hbox, rfl, rfl, rfl⟩
    | receiveAck =>
      obtain ⟨first, hfirst, rfl, rfl⟩ := ih
      cases haction
      exact ⟨first, got, hfirst, hbox, rfl, rfl⟩
    | ack => cases mail <;> cases haction
    | _ => cases haction
  | @yield p mail sent received i p' h haction ih =>
    cases p with
    | ack => cases mail <;> cases haction
    | _ => cases haction

/-! ### Both machines -/

/-- What a machine has sent: the first message, and the acknowledgement of what it received. -/
lemma Course.mem_sent {p : MailTestPoint} {mail : Option Mail} {sent received : List Mail}
    (h : Course x y sent received p mail) {m : Mail} (hm : m ∈ sent) :
    m = hello x y ∨ ∃ got ∈ received, got.box = 0 ∧ m = ack x got := by
  cases p with
  | send => rw [h.1] at hm; cases hm
  | receive => exact .inl (List.mem_singleton.1 (h.1 ▸ hm))
  | ack =>
    obtain ⟨got, -, -, rfl, -⟩ := h
    exact .inl (List.mem_singleton.1 hm)
  | receiveAck =>
    obtain ⟨got, hbox, rfl, rfl⟩ := h
    rcases List.mem_cons.1 hm with rfl | hm
    · exact .inl rfl
    · exact .inr ⟨got, List.mem_cons_self, hbox, List.mem_singleton.1 hm⟩
  | halt =>
    obtain ⟨got, got', hbox, -, rfl, rfl⟩ := h
    rcases List.mem_cons.1 hm with rfl | hm
    · exact .inl rfl
    · exact .inr ⟨got, List.mem_cons_self, hbox, List.mem_singleton.1 hm⟩

/-- The two machines are at each other's far end. -/
lemma far_far (hx : x = a ∨ x = b) : far a b (far a b x) = x := by
  unfold far
  rcases hx with rfl | rfl <;> split <;> simp_all

lemma far_mem (x : NetworkAddress) : far a b x = a ∨ far a b x = b := by
  unfold far
  split
  · exact .inr rfl
  · exact .inl rfl

section Runs

variable {w : World MailTestPoint} {tr : List (NetworkAddress × MailEvent)}

lemma mailTests_up : (mailTests a b fresh).up x = true ↔ x = a ∨ x = b := by
  simp [mailTests]

lemma follows_mailTest (h : WorldRun (mailTests a b fresh) tr w) (x : NetworkAddress) :
    Follows x (mailTest (far a b x)) .send (eventsOn x tr) (w.machine x) :=
  .of_run (local_of_run h x) (alone_mailTest _)

lemma course_of_run (h : WorldRun (mailTests a b fresh) tr w) (x : NetworkAddress) :
    ∃ p mail, Course x (far a b x) (sentMail (eventsOn x tr)) (receivedBy 0 (eventsOn x tr)) p mail :=
  let ⟨p, mail, hscript⟩ := (follows_mailTest h x).script
  ⟨p, mail, course_of_script hscript⟩

/-- What a machine receives was sent by one of the two. -/
lemma sender_of_received (h : WorldRun (mailTests a b fresh) tr w) {got : Mail}
    (hgot : got ∈ receivedBy 0 (eventsOn x tr)) :
    ∃ z, (z = a ∨ z = b) ∧ got.pktHdr.to_ = x ∧ (got = hello z (far a b z) ∨
      ∃ got' ∈ receivedBy 0 (eventsOn z tr), got'.box = 0 ∧ got = ack z got') := by
  obtain ⟨hsent, hto⟩ := sent_of_received h hgot
  obtain ⟨e, he, -⟩ := List.mem_filterMap.1 hsent
  obtain ⟨⟨z, e'⟩, he', hz⟩ := List.mem_filterMap.1 he
  have hzfrom : z = got.pktHdr.from_ := by
    by_contra hne
    rw [if_neg hne] at hz
    cases hz
  subst hzfrom
  obtain ⟨p, mail, hcourse⟩ := course_of_run h got.pktHdr.from_
  exact ⟨_, mailTests_up.1 (up_of_event h he'), hto, hcourse.mem_sent hsent⟩

/-- What it receives in box 0 is the first message of the other one. -/
lemma received_hello (h : WorldRun (mailTests a b fresh) tr w) {got : Mail}
    (hgot : got ∈ receivedBy 0 (eventsOn x tr)) (hbox : got.box = 0) :
    got = hello (far a b x) x := by
  obtain ⟨z, hz, hto, rfl | ⟨got', hgot', -, rfl⟩⟩ := sender_of_received h hgot
  · obtain rfl : far a b z = x := hto
    rw [far_far hz]
  · -- an acknowledgement goes to box 1
    have hreply : got'.mailHdr.from_ = 1 := by
      obtain ⟨z', -, -, rfl | ⟨_, -, -, rfl⟩⟩ := sender_of_received h hgot' <;> rfl
    have hone : (ack z got').box = 1 := by
      simp only [Mail.box, ack, hreply]
      decide
    rw [hone] at hbox
    cases hbox

/-- What it receives in box 1 is the acknowledgement. -/
lemma received_ack (h : WorldRun (mailTests a b fresh) tr w) {got : Mail}
    (hgot : got ∈ receivedBy 0 (eventsOn x tr)) (hbox : got.box = 1) :
    got = gotHello (far a b x) x := by
  obtain ⟨z, hz, hto, rfl | ⟨got', hgot', hbox', rfl⟩⟩ := sender_of_received h hgot
  · cases hbox
  · obtain rfl := received_hello h hgot' hbox'
    obtain rfl : far a b z = x := hto
    rw [far_far hz]
    rfl

/-- **The mail test**: whatever the network loses, each machine receives nothing but the first
message of the other one and then its acknowledgement, and sends nothing but its own; it has
received both when it calls `Halt`, and fails no assertion. -/
theorem mailTest_hears (h : WorldRun (mailTests a b fresh) tr w) (hx : x = a ∨ x = b) :
    receivedBy 0 (eventsOn x tr) <+: [hello (far a b x) x, gotHello (far a b x) x] ∧
    sentMail (eventsOn x tr) <+: [hello x (far a b x), gotHello x (far a b x)] ∧
    (∀ mail, ((w.machine x).loc 0).label = some (.user .halt mail) →
      receivedBy 0 (eventsOn x tr) = [hello (far a b x) x, gotHello (far a b x) x]) ∧
    ∀ ch, worldStep (mailTests a b fresh) (x, ch) w ≠ .error .assertion := by
  have hfirst : ∀ got ∈ receivedBy 0 (eventsOn x tr), got.box = 0 → got = hello (far a b x) x :=
    fun _ => received_hello h
  have hack : ∀ got ∈ receivedBy 0 (eventsOn x tr), got.box = 1 → got = gotHello (far a b x) x :=
    fun _ => received_ack h
  have hfollows := follows_mailTest h x
  refine ⟨?_, ?_, fun mail hl => ?_, fun ch hfail => ?_⟩
  · obtain ⟨p, mail, hcourse⟩ := course_of_run h x
    generalize receivedBy 0 (eventsOn x tr) = received at hcourse hfirst hack
    cases p with
    | send | receive => rw [hcourse.2]; exact List.nil_prefix
    | ack =>
      obtain ⟨got, hbox, -, -, rfl⟩ := hcourse
      rw [hfirst got List.mem_cons_self hbox]
      exact ⟨[_], rfl⟩
    | receiveAck =>
      obtain ⟨got, hbox, -, rfl⟩ := hcourse
      rw [hfirst got List.mem_cons_self hbox]
      exact ⟨[_], rfl⟩
    | halt =>
      obtain ⟨got, got', hbox, hbox', -, rfl⟩ := hcourse
      rw [hfirst got List.mem_cons_self hbox, hack got' (by simp) hbox']
  · obtain ⟨p, mail, hcourse⟩ := course_of_run h x
    generalize receivedBy 0 (eventsOn x tr) = received at hcourse hfirst
    cases p with
    | send => rw [hcourse.1]; exact List.nil_prefix
    | receive => rw [hcourse.1]; exact ⟨[_], rfl⟩
    | ack =>
      obtain ⟨got, -, -, hsent, -⟩ := hcourse
      rw [hsent]
      exact ⟨[_], rfl⟩
    | receiveAck =>
      obtain ⟨got, hbox, hsent, rfl⟩ := hcourse
      rw [hsent, hfirst got List.mem_cons_self hbox]
      exact List.prefix_rfl
    | halt =>
      obtain ⟨got, got', hbox, -, hsent, rfl⟩ := hcourse
      rw [hsent, hfirst got List.mem_cons_self hbox]
      exact List.prefix_rfl
  · obtain ⟨got, got', hbox, hbox', -, hreceived⟩ :=
      course_of_script (hfollows.thread 0 _ hl rfl).2
    rw [hreceived] at hfirst hack ⊢
    rw [hfirst got List.mem_cons_self hbox, hack got' (by simp) hbox']
  · obtain ⟨input, new, c, r, -, hloc, hbad⟩ := assertion_of_program h hfail
    have hlabel : ((w.machine x).loc (w.machine x).currentThread).label = some c := by
      rw [hloc]
      rfl
    rcases hbad with ⟨p, mail, rfl, hbad⟩ | ⟨pktHdr, mailHdr, data, buffer, p, rfl, -, hdown⟩
    · have hcourse := course_of_script (hfollows.thread _ _ hlabel rfl).2
      cases p with
      | send => exact hbad (show (13 : Word).toNat ≤ maxMailSize ∧ InBoxes 10 0 by decide)
      | receive => exact hbad (show InBoxes 10 0 by decide)
      | receiveAck => exact hbad (show InBoxes 10 1 by decide)
      | halt => exact hbad
      | ack =>
        obtain ⟨got, hbox, rfl, -, hreceived⟩ := hcourse
        have hgot := hfirst got (by rw [hreceived]; exact List.mem_cons_self) hbox
        subst hgot
        exact hbad (show (8 : Word).toNat ≤ maxMailSize ∧ InBoxes 10 1 by decide)
    · have hcourse := course_of_script (hfollows.thread _ _ hlabel rfl).2
      have hto : pktHdr.to_ = far a b x := by
        rcases hcourse.mem_sent (List.mem_append_right _ List.mem_cons_self) with
          hm | ⟨got, hgot, hbox, hm⟩
        · exact congrArg (fun mail => mail.pktHdr.to_) hm
        · rw [hfirst got hgot hbox] at hm
          exact congrArg (fun mail => mail.pktHdr.to_) hm
      rw [hto, mailTests_up.2 (far_mem x)] at hdown
      cases hdown

end Runs

theorem mailTest_hears_bothTests : ∃ tr w, WorldRun (mailTests 0 1 fun _ => cleared) tr w ∧
    receivedBy 0 (eventsOn 0 tr) = [hello 1 0, gotHello 1 0] ∧
    sentMail (eventsOn 0 tr) <+: [hello 0 1, gotHello 0 1] := by
  obtain ⟨tr, w, hr, hreceived, -⟩ := run_bothTests
  exact ⟨tr, w, hr, hreceived, (mailTest_hears hr (.inl rfl)).2.1⟩

end Nachos.Network
