import Nachos.Network.Rules
import Nachos.Threads.Signalled

/-!
# Mail on one machine

The packets that a machine reads off its socket are mail in its boxes, in that order: the network
holds one packet at a time and does not read the next one before the postal worker has taken it, and
the worker takes one packet for each announcement. What `Receive` returns is what it took out of the
box.
-/

namespace Nachos.Network

open Lib Threads
open Filesys (Memory)

variable {ι P : Type} {addr : NetworkAddress} {numBoxes : ℕ} {program : Program ι P}

/-! ### What is seen, step by step -/

section Traces

variable {es es' : List MailEvent}

@[simp] lemma readPackets_append : readPackets (es ++ es') = readPackets es ++ readPackets es' :=
  List.filterMap_append ..

@[simp] lemma putMail_append : putMail (es ++ es') = putMail es ++ putMail es' :=
  List.filterMap_append ..

@[simp] lemma removedFrom_append (box : ℕ) :
    removedFrom box (es ++ es') = removedFrom box es ++ removedFrom box es' :=
  List.filterMap_append ..

@[simp] lemma removedBy_append (t : Tid) :
    removedBy t (es ++ es') = removedBy t es ++ removedBy t es' :=
  List.filterMap_append ..

@[simp] lemma receivedBy_append (t : Tid) :
    receivedBy t (es ++ es') = receivedBy t es ++ receivedBy t es' :=
  List.filterMap_append ..

@[simp] lemma sentMail_append : sentMail (es ++ es') = sentMail es ++ sentMail es' :=
  List.filterMap_append ..

@[simp] lemma dones_append : dones (es ++ es') = dones es + dones es' :=
  List.countP_append

end Traces

/-! ### The invariant -/

/-- The mail in the packet that has arrived. -/
def Network.arrivedMail (net : Network) : List Mail :=
  if net.inHdr.length = 0 then [] else [.inData net.inHdr net.inbox]

/-- The mail that the postal worker has taken off the network, until it is in its box. -/
structure InHand (s : State (Label P) PostOffice) (hand : List Mail) : Prop where
  put : ∀ t mail buffer, (s.loc t).label = some (.put mail buffer) → hand = [mail]
  worker : hand ≠ [] → ∃ t mail buffer, (s.loc t).label = some (.put mail buffer)

/-- The mail that a call has taken out of a box, until it returns. -/
def pending : Option (Label P) → List Mail
  | some (.got mail _) => [mail]
  | _ => []

/-- **The invariant** of the mail that comes in. -/
structure Delivery (numBoxes : ℕ) (tr : List MailEvent) (s : State (Label P) PostOffice) :
    Prop where
  announced : Announced messageAvailable Label.isArrived PostOffice.full s
  legal : ∀ mail ∈ s.shared.network.arrivedMail, mail.Legal numBoxes
  mail : ∃ hand, InHand s hand ∧ (readPackets tr).map Mail.ofPacket =
    putMail tr ++ hand ++ s.shared.network.arrivedMail
  boxes : ∀ box, (putMail tr).filter (·.box = box) = removedFrom box tr ++ s.shared.boxes box
  calls : ∀ t, removedBy t tr = receivedBy t tr ++ pending (s.loc t).label

section Steps

variable {s s' : State (Label P) PostOffice} {tr es : List MailEvent} {po : PostOffice}
  {kes : List (Threads.Event (Label P))}

lemma InHand.congr {hand : List Mail} (h : InHand s hand)
    (hlabel : ∀ t mail buffer, (s'.loc t).label = some (.put mail buffer) ↔
      (s.loc t).label = some (.put mail buffer)) : InHand s' hand := by
  refine ⟨fun t mail buffer hl => h.put t mail buffer ((hlabel _ _ _).1 hl), fun hne => ?_⟩
  obtain ⟨t, mail, buffer, hl⟩ := h.worker hne
  exact ⟨t, mail, buffer, (hlabel _ _ _).2 hl⟩

/-- A step that neither moves mail nor shows any. -/
lemma Delivery.quiet (h : Delivery numBoxes tr s)
    (hannounced : Announced messageAvailable Label.isArrived PostOffice.full s')
    (harrived : s'.shared.network.arrivedMail = s.shared.network.arrivedMail)
    (hboxes : s'.shared.boxes = s.shared.boxes)
    (hput : ∀ t mail buffer, (s'.loc t).label = some (.put mail buffer) ↔
      (s.loc t).label = some (.put mail buffer))
    (hpending : ∀ t, pending (s'.loc t).label = pending (s.loc t).label)
    (hread : readPackets es = []) (hputMail : putMail es = [])
    (hremoved : ∀ box, removedFrom box es = []) (hremovedBy : ∀ t, removedBy t es = [])
    (hreceived : ∀ t, receivedBy t es = []) : Delivery numBoxes (tr ++ es) s' := by
  refine ⟨hannounced, harrived ▸ h.legal, ?_, fun box => ?_, fun t => ?_⟩
  · obtain ⟨hand, hhand, hmail⟩ := h.mail
    refine ⟨hand, hhand.congr hput, ?_⟩
    rw [readPackets_append, putMail_append, hread, hputMail, harrived, List.append_nil,
      List.append_nil]
    exact hmail
  · rw [putMail_append, removedFrom_append, hputMail, hremoved, hboxes, List.append_nil,
      List.append_nil]
    exact h.boxes box
  · rw [removedBy_append, receivedBy_append, hremovedBy, hreceived, hpending, List.append_nil,
      List.append_nil]
    exact h.calls t

/-- A packet that is read is the mail that has arrived. -/
lemma arrivedMail_readIn {packet : Memory} (hlegal : (Mail.ofPacket packet).Legal numBoxes)
    (net : Network) : (net.readIn packet).inHdr.length ≠ 0 ∧
      (net.readIn packet).arrivedMail = [Mail.ofPacket packet] := by
  have hpacket : (PacketHeader.ofMemory packet).length.toNat =
      (Mail.ofPacket packet).mailHdr.length.toNat + mailHeaderSize := hlegal.packet
  have hne : (net.readIn packet).inHdr.length ≠ 0 := by
    intro he
    rw [show (PacketHeader.ofMemory packet).length = 0 from he] at hpacket
    simp [mailHeaderSize] at hpacket
  refine ⟨hne, ?_⟩
  rw [Network.arrivedMail, if_neg hne]
  refine congrArg (fun mail => [mail]) (Mail.inData_congr hpacket fun i hi => ?_)
  have hlt : i < 0 + (PacketHeader.ofMemory packet).length.toNat := by
    rw [Nat.zero_add]
    exact hi
  exact copyAt_of_mem (Nat.zero_le i) hlt

lemma arrivedMail_of_empty {net : Network} (h : net.inHdr.length = 0) : net.arrivedMail = [] :=
  if_pos h

/-- The interrupts. -/
lemma Delivery.interrupt (h : Delivery numBoxes tr s) {d : NetworkInt} {v : Option ℕ}
    (handler : Network.handler d s.shared = .ok (po, v))
    (hlegal : ∀ packet ∈ readPackets (mailEvents (ι := ι) (.interrupt d) s),
      (Mail.ofPacket packet).Legal numBoxes) :
    Delivery numBoxes (tr ++ mailEvents (ι := ι) (.interrupt d) s)
      (v.elim (s.handled po) (s.handled po).raise) := by
  have hloc := loc_of_interrupt s po v
  have hshared := shared_of_interrupt s po v
  have hann : (if v = some messageAvailable then s.shared.full = false ∧ po.full = true
      else po.full = s.shared.full) →
      Announced messageAvailable Label.isArrived PostOffice.full
        (v.elim (s.handled po) (s.handled po).raise) := fun hv => h.announced.interrupt hv
  generalize v.elim (s.handled po) (s.handled po).raise = s' at hloc hshared hann ⊢
  cases handles_of_handler handler with
  | @full packet full =>
    have hfull : s.shared.network.inHdr.length ≠ 0 := of_decide_eq_true full
    have hevents : mailEvents (ι := ι) (.interrupt (.readPoll packet)) s = [] := by
      cases packet <;> exact if_pos hfull
    rw [hevents]
    refine h.quiet (hann (by simp)) (by rw [hshared]) (by rw [hshared]) (by simp [hloc])
      (by simp [hloc]) ?_ ?_ ?_ ?_ ?_
    all_goals simp [readPackets, putMail, removedFrom, removedBy, receivedBy]
  | none empty =>
    refine h.quiet (hann (by simp)) (by rw [hshared]) (by rw [hshared]) (by simp [hloc])
      (by simp [hloc]) ?_ ?_ ?_ ?_ ?_
    all_goals simp [mailEvents, readPackets, putMail, removedFrom, removedBy, receivedBy]
  | sendDone scheduled =>
    refine h.quiet (hann (by simp [PostOffice.full])) (by rw [hshared]; rfl) (by rw [hshared])
      (by simp [hloc]) (by simp [hloc]) ?_ ?_ ?_ ?_ ?_
    all_goals simp [mailEvents, readPackets, putMail, removedFrom, removedBy, receivedBy]
  | @read packet empty to_ =>
    have hempty : s.shared.network.inHdr.length = 0 := by simpa [PostOffice.full] using empty
    have hevents : mailEvents (ι := ι) (.interrupt (.readPoll (some packet))) s = [.read packet] := by
      simp [mailEvents, hempty]
    rw [hevents] at hlegal ⊢
    have hlegal := hlegal packet (by simp [readPackets])
    obtain ⟨hne, harrived⟩ := arrivedMail_readIn hlegal s.shared.network
    have hfull : s'.shared.full = true := by
      rw [hshared]
      exact decide_eq_true hne
    refine ⟨hann ?_, fun mail hmail => ?_, ?_, fun box => ?_, fun t => ?_⟩
    · rw [if_pos rfl, ← hshared]
      exact ⟨empty, hfull⟩
    · rw [hshared, harrived] at hmail
      rw [List.mem_singleton.1 hmail]
      exact hlegal
    · obtain ⟨hand, hhand, hmail⟩ := h.mail
      refine ⟨hand, hhand.congr (by simp [hloc]), ?_⟩
      rw [arrivedMail_of_empty hempty, List.append_nil] at hmail
      rw [hshared, harrived, readPackets_append, List.map_append, hmail, putMail_append]
      simp [readPackets, putMail]
    · rw [hshared]
      simpa [putMail, removedFrom] using h.boxes box
    · rw [hloc]
      simpa [removedBy, receivedBy] using h.calls t

lemma pending_congr {l l' : Option (Label P)}
    (h : ∀ mail p, l' = some (.got mail p) ↔ l = some (.got mail p)) : pending l' = pending l := by
  have hnot : ∀ l : Option (Label P), (∀ mail p, l ≠ some (.got mail p)) → pending l = [] := by
    intro l hl
    unfold pending
    split
    · exact absurd rfl (hl _ _)
    · rfl
  by_cases hl : ∃ mail p, l = some (.got mail p)
  · obtain ⟨mail, p, hl⟩ := hl
    rw [hl, (h mail p).2 hl]
  · rw [hnot l fun mail p he => hl ⟨mail, p, he⟩,
      hnot l' fun mail p he => hl ⟨mail, p, (h mail p).1 he⟩]

/-- What the worker takes is the mail that has arrived. -/
lemma taken_eq {net : Network} (hne : net.inHdr.length ≠ 0)
    (hlegal : (Mail.inData net.inHdr net.inbox).Legal numBoxes) (buffer : Memory) :
    net.taken buffer = Mail.inData net.inHdr net.inbox := by
  unfold Network.taken Network.receive
  rw [if_pos hne]
  refine Mail.inData_congr hlegal.packet fun i hi => ?_
  exact copyAt_of_mem (Nat.zero_le i) (by rwa [Nat.zero_add])

/-- The labels of a thread that has mail in hand. -/
def Label.Holds : Label P → Prop
  | .put _ _ => True
  | .got _ _ => True
  | _ => False

/-- A step of a thread's code. -/
lemma Delivery.client (h : Delivery numBoxes tr s)
    (hpostal : ∀ t u c c', (s.loc t).label = some c → (s.loc u).label = some c' →
      c.postal = true → c'.postal = true → t = u)
    {input : Input ι} {new : Tid} {c : Label P} {r : Ret} {call : Call (Label P)}
    (hs : Step (postOffice addr numBoxes program).quiet s kes s')
    (hc : ClientStep (postOffice addr numBoxes program).quiet s s' input new c r call) :
    Delivery numBoxes (tr ++ threadEvents input s) s' := by
  have hact := act_of_step hc
  have hannounced : Announced messageAvailable Label.isArrived PostOffice.full s' := by
    refine h.announced.client announces (fun t u c c' ht hu hc hc' => ?_) hs hc
    refine hpostal t u c c' ht hu ?_ ?_
    · cases c <;> first | rfl | cases hc
    · cases c' <;> first | rfl | cases hc'
  -- the code that moves no mail
  have hquiet : ¬ c.Holds → (∀ c', call.Leads c' → ¬ c'.Holds) →
      s'.shared.network.arrivedMail = s.shared.network.arrivedMail →
      s'.shared.boxes = s.shared.boxes → ∀ es, readPackets es = [] → putMail es = [] →
      (∀ box, removedFrom box es = []) → (∀ t, removedBy t es = []) →
      (∀ t, receivedBy t es = []) → Delivery numBoxes (tr ++ es) s' := by
    intro hself hleads harrived hboxes es h₁ h₂ h₃ h₄ h₅
    have hiff : ∀ t c', c'.Holds → ((s'.loc t).label = some c' ↔ (s.loc t).label = some c') :=
      fun t c' hc' => hc.label_iff hself hleads hc' t
    exact h.quiet hannounced harrived hboxes (fun t mail buffer => hiff t _ trivial)
      (fun t => pending_congr fun mail p => hiff t _ trivial) h₁ h₂ h₃ h₄ h₅
  have hcur := hc.label_self
  have hself : (s'.loc s.currentThread).label = call.label := hc.place.label
  generalize hpo : s'.shared = po' at hact
  generalize threadEvents input s = es at hact
  cases hact with
  | construct | fork =>
    refine hquiet (by simp [Label.Holds]) ?_ (by rw [hpo]) (by rw [hpo]) _ rfl rfl (fun _ => rfl)
      (fun _ => rfl) fun _ => rfl
    rintro c' (hl | ⟨c'', hl⟩) <;> cases hl <;> exact id
  | await | putDone | callSend | callReceive | yield | finish | wait | sent =>
    refine hquiet (by simp [Label.Holds]) ?_ (by rw [hpo]) (by rw [hpo]) _ rfl rfl (fun _ => rfl)
      (fun _ => rfl) fun _ => rfl
    rintro c' (hl | ⟨c'', hl⟩) <;> cases hl <;> exact id
  | send send =>
    obtain ⟨rfl, -⟩ := network_send_eq_ok send
    refine hquiet (by simp [Label.Holds]) ?_ (by rw [hpo]; rfl) (by rw [hpo]) _ rfl rfl
      (fun _ => rfl) (fun _ => rfl) fun _ => rfl
    rintro c' (hl | ⟨c'', hl⟩) <;> cases hl <;> exact id
  | @arrived buffer box length =>
    have hfull := h.announced.full_of_takes hcur rfl (hc.tests_self _)
    have hne : s.shared.network.inHdr.length ≠ 0 := of_decide_eq_true hfull
    have harrived : s.shared.network.arrivedMail =
        [Mail.inData s.shared.network.inHdr s.shared.network.inbox] := if_neg hne
    have hlegal := h.legal _ (by rw [harrived]; exact List.mem_cons_self)
    have htaken := taken_eq hne hlegal buffer
    have hempty : s'.shared.network.arrivedMail = [] := by
      rw [hpo]
      exact arrivedMail_of_empty rfl
    have hgot : ∀ t mail p, (s'.loc t).label = some (.got mail p) ↔
        (s.loc t).label = some (.got mail p) := fun t mail p =>
      hc.label_iff (D := fun c => ∃ mail p, c = .got mail p) (by simp)
        (by rintro c' (hl | ⟨c'', hl⟩) <;> cases hl <;> simp) ⟨mail, p, rfl⟩ t
    obtain ⟨hand, hhand, hmail⟩ := h.mail
    have hnone : hand = [] := by
      by_contra hn
      obtain ⟨t, mail, buffer', hl⟩ := hhand.worker hn
      obtain rfl := hpostal t _ _ _ hl hcur rfl rfl
      rw [hcur] at hl
      cases hl
    rw [List.append_nil]
    refine ⟨hannounced, fun mail hm => ?_, ⟨[s.shared.network.taken buffer],
      ⟨fun t mail buffer' hl => ?_, fun _ => ?_⟩, ?_⟩, fun box => ?_, fun t => ?_⟩
    · rw [hempty] at hm
      cases hm
    · rcases hc.label_cases hl with ⟨hne', hold⟩ | ⟨-, hl⟩ | ⟨-, -, c'', hl⟩
      · exact absurd (hpostal t _ _ _ hold hcur rfl rfl) hne'
      · cases hl
        rfl
      · cases hl
    · exact ⟨_, _, _, hself⟩
    · rw [hmail, hnone, hempty, harrived, htaken, List.append_nil, List.append_nil]
    · rw [hpo]
      exact h.boxes box
    · rw [pending_congr (hgot t)]
      exact h.calls t
  | @put mail buffer =>
    obtain ⟨hand, hhand, hmail⟩ := h.mail
    obtain rfl := hhand.put _ _ _ hcur
    have hgot : ∀ t mail p, (s'.loc t).label = some (.got mail p) ↔
        (s.loc t).label = some (.got mail p) := fun t mail p =>
      hc.label_iff (D := fun c => ∃ mail p, c = .got mail p) (by simp)
        (by rintro c' (hl | ⟨c'', hl⟩) <;> cases hl <;> simp) ⟨mail, p, rfl⟩ t
    refine ⟨hannounced, ?_, ⟨[], ⟨fun t mail' buffer' hl => ?_, fun hn => absurd rfl hn⟩, ?_⟩,
      fun box => ?_, fun t => ?_⟩
    · rw [hpo]
      exact h.legal
    · rcases hc.label_cases hl with ⟨hne', hold⟩ | ⟨-, hl⟩ | ⟨-, -, c'', hl⟩
      · exact absurd (hpostal t _ _ _ hold hcur rfl rfl) hne'
      · cases hl
      · cases hl
    · rw [hpo]
      simpa [readPackets, putMail] using hmail
    · rw [hpo, putMail_append, removedFrom_append, List.filter_append, h.boxes box]
      by_cases hbox : mail.box = box
      · subst hbox
        simp [putMail, removedFrom]
      · have hbox' : box ≠ mail.box := fun he => hbox he.symm
        simp [putMail, removedFrom, hbox, Function.update_of_ne hbox']
    · rw [pending_congr (hgot t)]
      simpa [removedBy, receivedBy] using h.calls t
  | @remove box p mail rest mails =>
    have hput : ∀ t mail buffer, (s'.loc t).label = some (.put mail buffer) ↔
        (s.loc t).label = some (.put mail buffer) := fun t mail buffer =>
      hc.label_iff (D := fun c => ∃ mail buffer, c = .put mail buffer) (by simp)
        (by rintro c' (hl | ⟨c'', hl⟩) <;> cases hl <;> simp) ⟨mail, buffer, rfl⟩ t
    obtain ⟨hand, hhand, hmail⟩ := h.mail
    refine ⟨hannounced, ?_, ⟨hand, hhand.congr hput, ?_⟩, fun b => ?_, fun t => ?_⟩
    · rw [hpo]
      exact h.legal
    · rw [hpo]
      simpa [readPackets, putMail] using hmail
    · rw [hpo, putMail_append, removedFrom_append]
      by_cases hb : box = b
      · subst hb
        simpa [putMail, removedFrom, mails] using h.boxes box
      · have hb' : b ≠ box := fun he => hb he.symm
        simpa [putMail, removedFrom, hb, Function.update_of_ne hb'] using h.boxes b
    · by_cases ht : t = s.currentThread
      · subst ht
        have hcalls := h.calls s.currentThread
        rw [hcur] at hcalls
        rw [hself, removedBy_append, receivedBy_append, hcalls]
        simp [removedBy, receivedBy, pending, Call.label]
      · have hl : pending (s'.loc t).label = pending (s.loc t).label := by
          rw [hc.label_other_of_ne (by simp) ht]
        have hn : ¬ s.currentThread = t := fun he => ht he.symm
        rw [hl]
        simpa [removedBy, receivedBy, hn] using h.calls t
  | @got mail p length =>
    have hput : ∀ t mail buffer, (s'.loc t).label = some (.put mail buffer) ↔
        (s.loc t).label = some (.put mail buffer) := fun t mail buffer =>
      hc.label_iff (D := fun c => ∃ mail buffer, c = .put mail buffer) (by simp)
        (by rintro c' (hl | ⟨c'', hl⟩) <;> cases hl <;> simp) ⟨mail, buffer, rfl⟩ t
    obtain ⟨hand, hhand, hmail⟩ := h.mail
    refine ⟨hannounced, ?_, ⟨hand, hhand.congr hput, ?_⟩, fun b => ?_, fun t => ?_⟩
    · rw [hpo]
      exact h.legal
    · rw [hpo]
      simpa [readPackets, putMail] using hmail
    · rw [hpo]
      simpa [putMail, removedFrom] using h.boxes b
    · by_cases ht : t = s.currentThread
      · subst ht
        have hcalls := h.calls s.currentThread
        rw [hcur] at hcalls
        rw [hself, removedBy_append, receivedBy_append, hcalls]
        simp [removedBy, receivedBy, pending, Call.label]
      · have hl : pending (s'.loc t).label = pending (s.loc t).label := by
          rw [hc.label_other_of_ne (by simp) ht]
        have hn : ¬ s.currentThread = t := fun he => ht he.symm
        rw [hl]
        simpa [removedBy, receivedBy, hn] using h.calls t

/-- In a step of the kernel nothing is seen of the mail. -/
lemma threadEvents_of_kernel (hp : Placed s)
    (hs : Step (postOffice addr numBoxes program).quiet s kes s') (hk : ∀ e ∈ kes, ¬ e.IsRan)
    (input : Input ι) : threadEvents input s = [] := by
  have hnot : ∀ {c r}, s.mode = .running → s.loc s.currentThread ≠ .run (.client c) r := by
    intro c r hm loc
    obtain ⟨e, he, hr⟩ := hs.ran_of_client hp hm loc
    exact hk e he hr
  unfold threadEvents
  split
  all_goals first
    | rfl
    | next hm loc => exact absurd loc (hnot hm)

lemma mailEvents_of_kernel (hp : Placed s)
    (hs : Step (postOffice addr numBoxes program).quiet s kes s') (hk : ∀ e ∈ kes, ¬ e.IsRan)
    {ch : Choice (Input ι) NetworkInt} (hd : ∀ d, ch ≠ .interrupt d) : mailEvents ch s = [] := by
  cases ch with
  | run input new => exact threadEvents_of_kernel hp hs hk input
  | interrupt d => exact absurd rfl (hd d)
  | preempt | dispatch => rfl

/-- A step of the kernel. -/
lemma Delivery.kernel (h : Delivery numBoxes tr s) (hp : Placed s)
    (hf : ∀ t, (s.loc t).FromSem (postOffice addr numBoxes program).Makes)
    (hs : Step (postOffice addr numBoxes program).quiet s kes s') (hk : ∀ e ∈ kes, ¬ e.IsRan) :
    Delivery numBoxes tr s' := by
  have hshared : s'.shared = s.shared := by
    rcases hs.shared hk with h | ⟨_, _, handler⟩
    · exact h
    · cases handler
  have hlabel := hs.label_of_kernel hp hk
  rw [← List.append_nil tr]
  exact h.quiet (h.announced.kernel announces hp hf hs hk) (by rw [hshared]) (by rw [hshared])
    (by simp [hlabel]) (by simp [hlabel]) rfl rfl (fun _ => rfl) (fun _ => rfl) fun _ => rfl

end Steps

/-! ### Runs -/

section Runs

variable {first : P} {fresh : PacketHeader × Memory} {s : State (Label P) PostOffice}
  {tr : List MailEvent} {ktr : List (Threads.Event (Label P))}

lemma delivery_start : Delivery numBoxes [] (start addr first fresh) := by
  have hlabel : ∀ {t c}, ((start addr first fresh).loc t).label = some c → c = .construct first :=
    fun hl => (init_label hl).2
  have hempty : (start addr first fresh).shared.network.arrivedMail = [] := arrivedMail_of_empty rfl
  refine ⟨announced_init rfl rfl rfl, fun mail hm => ?_, ⟨[], ⟨fun t mail buffer hl => ?_,
    fun hn => absurd rfl hn⟩, ?_⟩, fun box => rfl, fun t => ?_⟩
  · rw [hempty] at hm
    cases hm
  · cases hlabel hl
  · rw [hempty]
    rfl
  · refine Eq.symm (?_ : pending _ = [])
    unfold pending
    split
    next hl => cases hlabel hl
    next => rfl

/-- One postal worker. -/
lemma postal_unique (h : KernelRun (postOffice addr numBoxes program) (start addr first fresh) ktr s)
    {t u : Tid} {c c' : Label P} (ht : (s.loc t).label = some c) (hu : (s.loc u).label = some c')
    (hc : c.postal = true) (hc' : c'.postal = true) : t = u :=
  single_postal.of_run h ht hu hc hc'

/-- **The mail on a machine**: what it reads off its socket is what the postal worker puts into the
boxes, and what it still has in hand, and what has arrived, in that order. -/
theorem Delivery.of_run
    (h : Run (StepOf (mailStep addr numBoxes program)) (start addr first fresh) tr s)
    (hlegal : ∀ packet ∈ readPackets tr, (Mail.ofPacket packet).Legal numBoxes) :
    Delivery numBoxes tr s := by
  refine (h.observed_invariant (I := fun tr s =>
    (∀ packet ∈ readPackets tr, (Mail.ofPacket packet).Legal numBoxes) → Delivery numBoxes tr s)
    (fun _ => delivery_start) fun hr hi hstep hlegal => ?_).2 hlegal
  have hold := hi fun packet hp => hlegal packet (by simp [hp])
  rcases step_interrupt_client_kernel hstep with ⟨d, po, v, rfl, handler, rfl⟩ |
    ⟨hs, input, new, new', c, r, call, rfl, hc⟩ | ⟨hs, hk, hd⟩
  · exact hold.interrupt handler fun packet hp => hlegal packet (by simp [hp])
  · exact hold.client (fun t u c c' => postal_unique hr) hs hc
  · have hnil := mailEvents_of_kernel (.of_run hr) hs hk hd
    rw [hnil, List.append_nil]
    exact hold.kernel (.of_run hr) (Loc.FromSem.of_run hr) hs hk

end Runs

end Nachos.Network
