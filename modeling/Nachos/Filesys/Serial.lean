import Nachos.Filesys.SynchDisk
import Nachos.Threads.Signalled

/-!
# Calls of the synchronous disk are served one after the other

The lock lets one thread at a time be between its request and the end of its call. The semaphore
has a unit exactly when the interrupt of the request has come and `P` is not done; so `P` is done
only after the interrupt of the caller's own request, and no unit is left over for the next one.
The data is that of the request, which is made with the lock: the calls take effect in the order in
which they held it.
-/

namespace Nachos.SynchDisk

open Lib Threads
open Filesys (Disk Memory readSector writeSector sectorSize)

/-! ### The disk without threads -/

lemma after_snoc (disk : Disk) (ops : List Op) (op : Op) :
    after disk (ops ++ [op]) = after (after disk ops) [op] := by
  induction ops generalizing disk with
  | nil => rfl
  | cons o ops ih => cases o <;> exact ih _

/-- What a sector holds is what the latest call wrote to it. -/
theorem latest_after (disk : Disk) (ops : List Op) (n : ℕ) :
    Latest disk ops n (after disk ops n) := by
  induction ops generalizing disk with
  | nil => exact .inl ⟨fun _ h => (by cases h), rfl⟩
  | cons op ops ih =>
    cases op with
    | read m =>
      rcases ih disk with ⟨hnone, hdata⟩ | ⟨a, m', written, b, rfl, hn, hb, hdata⟩
      · refine .inl ⟨fun op hop => ?_, hdata⟩
        rcases List.mem_cons.mp hop with rfl | hop
        · exact fun h => h
        · exact hnone op hop
      · exact .inr ⟨.read m :: a, m', written, b, rfl, hn, hb, hdata⟩
    | write m written =>
      rcases ih (Function.update disk m.toNat (copyAt (disk m.toNat) 0 sectorSize written)) with
        ⟨hnone, hdata⟩ | ⟨a, m', written', b, rfl, hn, hb, hdata⟩
      · by_cases hm : m.toNat = n
        · refine .inr ⟨[], m, written, ops, rfl, hm, hnone, fun i hi => ?_⟩
          rw [after, hdata, hm, Function.update_self, copyAt_of_mem (Nat.zero_le i) (by omega)]
          rfl
        · refine .inl ⟨fun op hop => ?_, ?_⟩
          · rcases List.mem_cons.mp hop with rfl | hop
            · exact hm
            · exact hnone op hop
          · rw [after, hdata, Function.update_of_ne (Ne.symm hm)]
      · exact .inr ⟨.write m written :: a, m', written', b, rfl, hn, hb, hdata⟩

/-- What a request does. -/
lemma request_eq_ok {d d' : Device} {op : Op} {data : Memory}
    (h : d.request op = .ok (data, d')) : d.active = false ∧ d'.active = true ∧
      d'.scheduled = d.scheduled + 1 ∧ d'.file = after d.file [op] ∧
      ∀ disk ops, d.file = after disk ops → Answer disk ops op data := by
  unfold Device.request at h
  split at h
  next => cases h
  next hactive =>
    have hactive : d.active = false := Bool.eq_false_iff.mpr hactive
    cases op with
    | read n =>
      simp only [readSector] at h
      split at h
      next => cases h
      next data' hr =>
        split at hr
        next =>
          cases hr
          cases h
          refine ⟨hactive, rfl, rfl, rfl, fun disk ops hfile => ?_⟩
          rw [Answer, hfile]
          exact latest_after disk ops _
        next => cases hr
    | write n written =>
      simp only [writeSector] at h
      split at h
      next => cases h
      next file hw =>
        split at hw
        next =>
          cases hw
          cases h
          exact ⟨hactive, rfl, rfl, rfl, fun _ _ _ => rfl⟩
        next => cases hw

/-! ### What the code does at a label -/

variable {disk : Disk} {s s' : State Label Device} {es : List (Threads.Event Label)}
  {tr : List DiskEvent}

/-- What the code does at a label: the device after it, the call, and what is seen. -/
inductive Act (t : Tid) (d : Device) : Label → Device → Call Label → List DiskEvent → Prop
  | call {op} : Act t d .idle d (.acquire lock (.request op)) []
  | fork : Act t d .idle d (.fork .idle .idle) []
  | yield : Act t d .idle d (.yield .idle) []
  | finish : Act t d .idle d .finish []
  | request {op data d'} (h : d.request op = .ok (data, d')) :
      Act t d (.request op) d' (.down semaphore (.served op data)) [.requested t op]
  | served {op data} : Act t d (.served op data) d (.release lock (.returned op data)) []
  | returned {op data} :
      Act t d (.returned op data) d (.skip .idle) [.returned t op data]

lemma act_of_code {input : Input} {t : Tid} {c : Label} {r : Ret} {d d' : Device}
    {call : Call Label} (hc : code input t c r d = .ok (d', call)) :
    ∃ es, Act t d c d' call es := by
  unfold code at hc
  split at hc
  · split at hc <;> cases hc
    exacts [⟨_, .call⟩, ⟨_, .fork⟩, ⟨_, .yield⟩, ⟨_, .finish⟩]
  · split at hc
    next => cases hc
    next h =>
      cases hc
      exact ⟨_, .request h⟩
  · cases hc
    exact ⟨_, .served⟩
  · cases hc
    exact ⟨_, .returned⟩

/-- What is seen of a step of a thread. -/
lemma act_of_step {input : Input} {new : Tid} {c : Label} {r : Ret} {call : Call Label}
    (hc : ClientStep synchDisk.quiet s s' input new c r call) :
    Act s.currentThread s.shared c s'.shared call (threadEvents s) := by
  obtain ⟨es, hact⟩ := act_of_code (r := r) hc.code
  have hev : threadEvents s = es := by
    unfold threadEvents
    rw [hc.mode, hc.loc]
    generalize s'.shared = d' at hact
    cases hact <;> rfl
  rwa [hev]

/-- Where a thread has the lock. -/
def Label.locked : Label → Bool
  | .request _ => true
  | .served _ _ => true
  | _ => false

lemma locks : synchDisk.Locks lock Label.locked := by
  intro input t c r d d' call hc
  obtain ⟨es, hact⟩ := act_of_code (t := t) (r := r) hc
  cases hact with
  | call => exact ⟨rfl, rfl⟩
  | served => exact ⟨rfl, rfl⟩
  | fork => exact ⟨rfl, rfl⟩
  | _ => rfl

/-- The code takes the lock only for a request. -/
lemma makes_acquire {n : ℕ} {c : Label} (h : synchDisk.Makes (.acquire n c)) :
    n = lock ∧ ∃ op, c = .request op := by
  obtain ⟨input, t, c₀, r, d, d', hc⟩ := h
  obtain ⟨es, hact⟩ := act_of_code (t := t) (r := r) hc
  cases hact
  exact ⟨rfl, _, rfl⟩

lemma not_makes_wait {cond n : ℕ} {c : Label} (h : synchDisk.Makes (.wait cond n c)) : False := by
  obtain ⟨input, t, c₀, r, d, d', hc⟩ := h
  obtain ⟨es, hact⟩ := act_of_code (t := t) (r := r) hc
  cases hact

/-- A thread in `Acquire` of the lock goes on at a request. -/
lemma label_of_acquire {l : Loc Label} (hf : l.From synchDisk.Makes) (hg : l.Good)
    {old : IntStatus} {k : Kont Label}
    (hl : l = .acquire (.lock lock) old k ∨ l = .lockAsleep (.lock lock) old k) :
    ∃ op, l.label = some (.request op) := by
  have hk : ∃ op, k.label = .request op := by
    rcases hl with rfl | rfl
    · cases k with
      | client c =>
        obtain ⟨n, -, hn⟩ := hf
        exact (makes_acquire hn).2
      | waitAcquire | waitSleep | waitReturn => exact (not_makes_wait hf).elim
      | _ => cases hg
    · cases k with
      | client c =>
        obtain ⟨n, -, hn⟩ := hf
        exact (makes_acquire hn).2
      | waitAcquire | waitSleep | waitReturn => exact (not_makes_wait hf).elim
      | _ => cases hg
  obtain ⟨op, hop⟩ := hk
  refine ⟨op, ?_⟩
  rcases hl with rfl | rfl <;> exact congrArg some hop

/-- A thread in `Release` of the lock has made its request. -/
lemma label_of_release {old : IntStatus} {k : Kont Label}
    (hf : (Loc.release (.lock lock) old k).From synchDisk.Makes)
    (hg : (Loc.release (.lock lock) old k).Good) :
    ∃ op data, (Loc.release (.lock lock) old k).label = some (.returned op data) := by
  cases k with
  | client c =>
    obtain ⟨n, -, input, t, c₀, r, d, d', hc⟩ := hf
    obtain ⟨es, hact⟩ := act_of_code (t := t) (r := r) hc
    cases hact
    exact ⟨_, _, rfl⟩
  | waitAcquire | waitSleep | waitReturn => exact (not_makes_wait hf).elim
  | _ => cases hg

/-! ### The trace -/

/-- `t` made its request, and nobody another one since; if the device is not active, the interrupt
has come. -/
def Waiting (disk : Disk) (tr : List DiskEvent) (active : Bool) (t : Tid) (op : Op)
    (data : Memory) : Prop :=
  ∃ a b, tr = a ++ .requested t op :: b ∧ (∀ e ∈ b, ¬ e.IsRequest) ∧ (∀ e ∈ b, ¬ e.IsOf t) ∧
    Answer disk (requests a) op data ∧ (active = false → .done ∈ b)

section Trace

variable {t : Tid} {op : Op} {data : Memory} {e : DiskEvent} {active : Bool}

lemma forall_snoc {P : DiskEvent → Prop} {b : List DiskEvent} (hb : ∀ e ∈ b, P e) (he : P e) :
    ∀ e' ∈ b ++ [e], P e' := by
  intro e' h
  rcases List.mem_append.mp h with h | h
  · exact hb e' h
  · exact List.mem_singleton.mp h ▸ he

lemma Waiting.snoc (h : Waiting disk tr active t op data) (hreq : ¬ e.IsRequest)
    (hof : ¬ e.IsOf t) : Waiting disk (tr ++ [e]) active t op data := by
  obtain ⟨a, b, rfl, hb, ht, hans, hdone⟩ := h
  exact ⟨a, b ++ [e], by simp, forall_snoc hb hreq, forall_snoc ht hof, hans,
    fun hactive => List.mem_append_left _ (hdone hactive)⟩

/-- The interrupt comes. -/
lemma Waiting.done (h : Waiting disk tr active t op data) :
    Waiting disk (tr ++ [.done]) false t op data := by
  obtain ⟨a, b, rfl, hb, ht, hans, -⟩ := h
  exact ⟨a, b ++ [.done], by simp, forall_snoc hb (show ¬ DiskEvent.IsRequest .done from id),
    forall_snoc ht (show ¬ DiskEvent.IsOf t .done from id), hans,
    fun _ => List.mem_append_right _ List.mem_cons_self⟩

/-- `P` is done after the interrupt. -/
lemma Waiting.completed (h : Waiting disk tr false t op data) : Completed disk tr t op data := by
  obtain ⟨a, b, rfl, hb, ht, hans, hdone⟩ := h
  obtain ⟨b₁, b₂, rfl⟩ := List.append_of_mem (hdone rfl)
  refine ⟨a, b₁, b₂, rfl, fun e he => hb e (List.mem_append_left _ he), fun e he => ht e ?_, hans⟩
  rcases List.mem_append.mp he with he | he
  · exact List.mem_append_left _ he
  · exact List.mem_append_right _ (List.mem_cons_of_mem _ he)

lemma Completed.snoc (h : Completed disk tr t op data) (hof : ¬ e.IsOf t) :
    Completed disk (tr ++ [e]) t op data := by
  obtain ⟨a, b, c, rfl, hb, ht, hans⟩ := h
  refine ⟨a, b, c ++ [e], by simp, hb, ?_, hans⟩
  rw [← List.append_assoc]
  exact forall_snoc ht hof

/-- Every call that returned is completed. -/
def Answered (disk : Disk) (tr : List DiskEvent) : Prop :=
  ∀ pre t op data post, tr = pre ++ .returned t op data :: post → Completed disk pre t op data

lemma Answered.snoc (h : Answered disk tr)
    (he : ∀ t op data, e = .returned t op data → Completed disk tr t op data) :
    Answered disk (tr ++ [e]) := by
  intro pre t op data post hsplit
  obtain ⟨mid, htr, -⟩ | ⟨rfl, rfl, -⟩ := concat_eq_append_cons hsplit
  · exact h pre t op data mid htr
  · exact he t op data rfl

end Trace

/-! ### The invariant -/

/-- The thread that has the lock and has not made its request. -/
def toRequest (s : State Label Device) : List Tid :=
  match (s.lock (.lock lock)).activeThread with
  | none => []
  | some t =>
    match (s.loc t).label with
    | some (.request _) => [t]
    | _ => []

/-- **The invariant.** -/
structure Serial (disk : Disk) (tr : List DiskEvent) (s : State Label Device) : Prop where
  noUp : ∀ t i old c, s.loc t ≠ .up i old c
  /-- Who is in `P` is there after a request. -/
  tests : ∀ t, (s.loc t).tests semaphore = true →
    ∃ op data, (s.loc t).label = some (.served op data)
  /-- The semaphore has a unit between the interrupt and the end of `P`. -/
  busy : ∀ t, (s.loc t).tests semaphore = true →
    s.shared.active = true ∧ s.value semaphore = 0 ∨
      s.shared.active = false ∧ s.value semaphore = 1
  quiet : (∀ t, (s.loc t).tests semaphore = false) →
    s.shared.active = false ∧ s.value semaphore = 0
  scheduled : s.shared.scheduled = if s.shared.active then 1 else 0
  file : s.shared.file = after disk (requests tr)
  count : (requesters tr).length = interrupts tr + s.shared.scheduled
  order : acquirers tr = requesters tr ++ toRequest s
  waiting : ∀ t op data, (s.loc t).tests semaphore = true →
    (s.loc t).label = some (.served op data) → Waiting disk tr s.shared.active t op data
  completed : ∀ t op data, (s.loc t).tests semaphore = false →
    (s.loc t).label = some (.served op data) ∨ (s.loc t).label = some (.returned op data) →
      Completed disk tr t op data
  answered : Answered disk tr

/-- What a thread has that is in `P`: the lock. -/
lemma Serial.holds (h : Serial disk tr s) {t : Tid} (ht : (s.loc t).tests semaphore = true) :
    (s.loc t).holds lock Label.locked = true := by
  obtain ⟨op, data, hl⟩ := h.tests t ht
  obtain ⟨old, c, hc | hc⟩ := Loc.tests_iff.1 ht <;> rw [hc] at hl ⊢ <;> cases hl <;> rfl

/-- What is known of the locks in a run. -/
structure Locking (s : State Label Device) : Prop where
  placed : Placed s
  inv : ∀ t, (s.lock (.lock lock)).activeThread = some t ↔
    (s.loc t).holds lock Label.locked = true
  free : (s.lock (.lock lock)).free = true ↔ (s.lock (.lock lock)).activeThread = none
  from_ : ∀ t, (s.loc t).From synchDisk.Makes
  good : ∀ t, (s.loc t).Good

lemma Locking.of_run {tr : List (Threads.Event Label)}
    (h : KernelRun synchDisk (State.init .idle (fun _ => 0) ⟨disk, false, 0⟩) tr s) : Locking s :=
  ⟨.of_run h, locks.of_run rfl h, (LockInv.of_run h _).free_iff, Loc.From.of_run h,
    (WaitInv.of_run h).good⟩

/-- One thread has the lock. -/
lemma Locking.unique (h : Locking s) {t u : Tid} (ht : (s.loc t).holds lock Label.locked = true)
    (hu : (s.loc u).holds lock Label.locked = true) : t = u := by
  have hu' := (h.inv u).2 hu
  rw [(h.inv t).2 ht] at hu'
  exact Option.some.inj hu'

/-! ### The steps -/

/-- Only the label of the thread that has the lock matters. -/
lemma toRequest_congr (hlock : s'.lock (.lock lock) = s.lock (.lock lock))
    (hlabel : ∀ t, (s.lock (.lock lock)).activeThread = some t →
      (s'.loc t).label = (s.loc t).label) : toRequest s' = toRequest s := by
  unfold toRequest
  rw [hlock]
  cases ht : (s.lock (.lock lock)).activeThread with
  | none => rfl
  | some t => simp only [hlabel t ht]

lemma toRequest_of_owner {t : Tid} {c : Label} (h : (s.lock (.lock lock)).activeThread = some t)
    (hc : (s.loc t).label = some c) :
    toRequest s = match c with
      | .request _ => [t]
      | _ => [] := by
  simp only [toRequest, h, hc]
  cases c <;> rfl

/-- The interrupt comes while somebody is in `P`. -/
lemma Serial.interrupt (h : Serial disk tr s) {d : Device} {v : Option ℕ}
    (handler : SynchDisk.handler () s.shared = .ok (d, v)) :
    Serial disk (tr ++ [.done]) (v.elim (s.handled d) (s.handled d).raise) := by
  unfold SynchDisk.handler at handler
  split at handler
  next => cases handler
  next hs =>
    cases handler
    have hactive : s.shared.active = true := by
      by_contra hn
      exact hs (h.scheduled.trans (if_neg hn))
    have hone : s.shared.scheduled = 1 := h.scheduled.trans (if_pos hactive)
    obtain ⟨t, ht⟩ : ∃ t, (s.loc t).tests semaphore = true := by
      by_contra hn
      have hquiet := h.quiet fun t => Bool.eq_false_iff.mpr fun ht => hn ⟨t, ht⟩
      rw [hactive] at hquiet
      cases hquiet.1
    have hvalue : s.value semaphore = 0 := by
      rcases h.busy t ht with hb | hb
      · exact hb.2
      · rw [hactive] at hb
        cases hb.1
    generalize hd : ({ s.shared with active := false, scheduled := s.shared.scheduled - 1 } : Device)
      = d
    have hloc : ((s.handled d).raise semaphore).loc = s.loc := State.wake_loc _ _
    have hlock : ((s.handled d).raise semaphore).lock = s.lock := State.wake_lock _ _
    have hshared : ((s.handled d).raise semaphore).shared = d := State.wake_shared _ _
    have hvalue' : ((s.handled d).raise semaphore).value semaphore = 1 := by
      rw [raise_value, Function.update_self]
      exact congrArg (· + 1) hvalue
    change Serial disk _ ((s.handled d).raise semaphore)
    generalize (s.handled d).raise semaphore = s' at hloc hlock hshared hvalue'
    subst hd
    have hinactive : s'.shared.active = false := by rw [hshared]
    have hscheduled : s'.shared.scheduled = 0 := by rw [hshared, hone]
    refine ⟨hloc ▸ h.noUp, hloc ▸ h.tests, fun _ _ => .inr ⟨hinactive, hvalue'⟩, fun hnone => ?_,
      ?_, ?_, ?_, ?_, fun t op data htests hlabel => ?_, fun t op data htests hlabel => ?_, ?_⟩
    · have hnot := hnone t
      rw [hloc, ht] at hnot
      cases hnot
    · rw [hscheduled, hinactive]
      rfl
    · rw [hshared]
      simpa [requests] using h.file
    · have hcount := h.count
      rw [hone] at hcount
      rw [hscheduled]
      simpa [requesters, interrupts] using hcount
    · rw [toRequest_congr (congrFun hlock _) fun t _ => congrArg Loc.label (congrFun hloc t)]
      simpa [acquirers, requesters] using h.order
    · rw [hloc] at htests hlabel
      rw [hinactive]
      exact (h.waiting t op data htests hlabel).done
    · rw [hloc] at htests hlabel
      exact (h.completed t op data htests hlabel).snoc (show ¬ DiskEvent.IsOf t .done from id)
    · exact h.answered.snoc fun _ _ _ he => (by cases he)

/-- A step in which the threads do nothing to the disk. -/
lemma Serial.keep (h : Serial disk tr s) (hup : ∀ t i old c, s'.loc t ≠ .up i old c)
    (hshared : s'.shared = s.shared) (hvalue : s'.value semaphore = s.value semaphore)
    (htests : ∀ t, (s'.loc t).tests semaphore = (s.loc t).tests semaphore)
    (hlabel : ∀ t op data, (s'.loc t).label = some (.served op data) →
      (s.loc t).label = some (.served op data))
    (hreturned : ∀ t op data, (s'.loc t).label = some (.returned op data) →
      (s.loc t).label = some (.returned op data) ∨
        (s.loc t).tests semaphore = false ∧ (s.loc t).label = some (.served op data))
    (hsame : ∀ t, (s.loc t).tests semaphore = true → (s'.loc t).label = (s.loc t).label)
    (hrequest : toRequest s' = toRequest s) : Serial disk tr s' := by
  refine ⟨hup, fun t ht => ?_, fun t ht => ?_, fun hnone => ?_, hshared ▸ h.scheduled,
    hshared ▸ h.file, hshared ▸ h.count, hrequest ▸ h.order, fun t op data ht hl => ?_,
    fun t op data ht hl => ?_, h.answered⟩
  · rw [htests] at ht
    rw [hsame t ht]
    exact h.tests t ht
  · rw [hshared, hvalue]
    exact h.busy t (htests t ▸ ht)
  · rw [hshared, hvalue]
    exact h.quiet fun t => htests t ▸ hnone t
  · rw [hshared]
    exact h.waiting t op data (htests t ▸ ht) (hlabel t op data hl)
  · rw [htests] at ht
    refine h.completed t op data ht ?_
    rcases hl with hl | hl
    · exact .inl (hlabel t op data hl)
    · rcases hreturned t op data hl with hl | ⟨-, hl⟩
      · exact .inr hl
      · exact .inl hl

/-- A call returns. -/
lemma Serial.returned (h : Serial disk tr s) {t : Tid} {op : Op} {data : Memory}
    (hcompleted : Completed disk tr t op data)
    (hserved : ∀ op data, (s.loc t).label ≠ some (.served op data))
    (hreturned : ∀ op data, (s.loc t).label ≠ some (.returned op data)) :
    Serial disk (tr ++ [.returned t op data]) s := by
  have hof : ∀ u op' data', (s.loc u).label = some (.served op' data') ∨
      (s.loc u).label = some (.returned op' data') → ¬ DiskEvent.IsOf u (.returned t op data) := by
    rintro u op' data' hl rfl
    exact hl.elim (hserved op' data') (hreturned op' data')
  refine ⟨h.noUp, h.tests, h.busy, h.quiet, h.scheduled, ?_, ?_, ?_, fun u op' data' ht hl => ?_,
    fun u op' data' ht hl => ?_, h.answered.snoc fun _ _ _ he => ?_⟩
  · simpa [requests] using h.file
  · simpa [requesters, interrupts] using h.count
  · simpa [acquirers, requesters] using h.order
  · exact (h.waiting u op' data' ht hl).snoc (show ¬ DiskEvent.IsRequest (.returned _ _ _) from id)
      (hof u op' data' (.inl hl))
  · exact (h.completed u op' data' ht hl).snoc (hof u op' data' hl)
  · cases he
    exact hcompleted

/-- **A step of a thread's code.** -/
lemma Serial.client (h : Serial disk tr s) (hL : Locking s) {input : Input} {new : Tid} {c : Label}
    {r : Ret} {call : Call Label} (hs : Step synchDisk.quiet s es s')
    (hc : ClientStep synchDisk.quiet s s' input new c r call) :
    Serial disk (tr ++ threadEvents s) s' := by
  have hact := act_of_step hc
  have hvalue : s'.value semaphore = s.value semaphore := by
    refine (hs.sem_frame fun _ hat => ?_).1
    obtain ⟨old, c', hl⟩ := hat
    rw [hc.loc] at hl
    rcases hl with hl | hl | hl <;> cases hl
  have hlabel : (s'.loc s.currentThread).label = call.label := hc.place.label
  have hcur : (s.loc s.currentThread).label = some c := by
    rw [hc.loc]
    rfl
  have hcurTests : (s.loc s.currentThread).tests semaphore = false := by
    rw [hc.loc]
    rfl
  have hown : (s.lock (.lock lock)).activeThread = some s.currentThread ↔ c.locked = true := by
    rw [hL.inv, hc.loc]
    rfl
  have hother : ∀ t, t ≠ s.currentThread → s'.loc t = s.loc t ∨
      (s'.loc t = .fresh .idle ∧ s.loc t = .unborn) := by
    intro t ht
    rcases hc.other t ht with he | ⟨-, first, c', hcall, hu, he⟩
    · exact .inl he
    · subst hcall
      generalize s'.shared = d' at hact
      generalize threadEvents s = os at hact
      cases hact
      exact .inr ⟨he, hu⟩
  have hlabels : ∀ t, t ≠ s.currentThread → ∀ c', c' ≠ .idle →
      ((s'.loc t).label = some c' ↔ (s.loc t).label = some c') := by
    intro t ht c' hne
    rcases hother t ht with he | ⟨he, hu⟩
    · rw [he]
    · rw [he, hu]
      exact iff_of_false (fun hl => hne (Option.some.inj hl).symm) (fun hl => (by cases hl))
  have htests : ∀ t, t ≠ s.currentThread →
      (s'.loc t).tests semaphore = (s.loc t).tests semaphore := by
    intro t ht
    rcases hother t ht with he | ⟨he, hu⟩
    · rw [he]
    · rw [he, hu]
      rfl
  have hup : ∀ t i old c', s'.loc t ≠ .up i old c' := by
    intro t i old c' hl
    by_cases ht : t = s.currentThread
    · have hplace := hc.place
      rw [← ht, hl] at hplace
      generalize s'.shared = d' at hact
      generalize threadEvents s = os at hact
      cases hplace with
      | entry hentry =>
        cases hentry
        cases hact
    · rcases hother t ht with he | ⟨he, -⟩
      · exact h.noUp t i old c' (he ▸ hl)
      · rw [he] at hl
        cases hl
  -- the calls that do not touch the disk
  have hkeep : s'.shared = s.shared → (∀ c', call ≠ .down semaphore c') →
      toRequest s' = toRequest s → (∀ op data, call.label ≠ some (.served op data)) →
      (∀ op data, call.label = some (.returned op data) → c = .served op data) →
      Serial disk tr s' := by
    intro hshared hdown hrequest hserved hreturned
    have hcurTests' : (s'.loc s.currentThread).tests semaphore = false :=
      Bool.eq_false_iff.mpr fun ht => (hc.place.tests.1 ht).elim hdown
    refine h.keep hup hshared hvalue (fun t => ?_) (fun t op data hl => ?_) (fun t op data hl => ?_)
      (fun t ht => ?_) hrequest
    · by_cases ht : t = s.currentThread
      · rw [ht, hcurTests, hcurTests']
      · exact htests t ht
    · by_cases ht : t = s.currentThread
      · rw [ht, hlabel] at hl
        exact absurd hl (hserved op data)
      · exact (hlabels t ht _ (by simp)).1 hl
    · by_cases ht : t = s.currentThread
      · rw [ht, hlabel] at hl
        rw [ht, hcur, hreturned op data hl]
        exact .inr ⟨hcurTests, rfl⟩
      · exact .inl ((hlabels t ht _ (by simp)).1 hl)
    · have hne : t ≠ s.currentThread := by
        rintro rfl
        rw [hcurTests] at ht
        cases ht
      obtain ⟨op, data, hl⟩ := h.tests t ht
      rw [hl]
      exact (hlabels t hne _ (by simp)).2 hl
  -- the calls without the lock
  have hfree : c.locked = false → toRequest s' = toRequest s := by
    intro hlocked
    refine toRequest_congr (congrFun hc.lock _) fun t ht => ?_
    have hne : t ≠ s.currentThread := by
      rintro rfl
      rw [hown.1 ht] at hlocked
      cases hlocked
    rcases hother t hne with he | ⟨-, hu⟩
    · rw [he]
    · have hholds := (hL.inv t).1 ht
      rw [hu] at hholds
      cases hholds
  generalize hd : s'.shared = d' at hact
  generalize threadEvents s = os at hact
  cases hact with
  | call | fork | yield | finish =>
    rw [List.append_nil]
    exact hkeep hd (by simp) (hfree rfl) (by simp [Call.label]) (by simp [Call.label])
  | served =>
    rw [List.append_nil]
    refine hkeep hd (by simp) ?_ (by simp [Call.label]) (by simp [Call.label])
    have howner := hown.2 rfl
    rw [toRequest_of_owner howner hcur, toRequest_of_owner (hc.lock ▸ howner) hlabel]
  | @returned op data =>
    refine (hkeep hd (by simp) (hfree rfl) (by simp [Call.label]) (by simp [Call.label])).returned
      (h.completed s.currentThread op data hcurTests (.inr hcur)) ?_ ?_
    · simp [hlabel, Call.label]
    · simp [hlabel, Call.label]
  | @request op data _ hreq =>
    have howner := hown.2 rfl
    have hnone : ∀ t, (s.loc t).tests semaphore = false := by
      refine fun t => Bool.eq_false_iff.mpr fun ht => ?_
      rw [hL.unique (h.holds ht) ((hL.inv _).1 howner), hcurTests] at ht
      cases ht
    obtain ⟨hinactive, hzero⟩ := h.quiet hnone
    obtain ⟨-, hactive, hscheduled, hfile, hanswer⟩ := request_eq_ok hreq
    have hcurTests' : (s'.loc s.currentThread).tests semaphore = true :=
      hc.place.tests.2 ⟨_, rfl⟩
    have hidle : s.shared.scheduled = 0 := h.scheduled.trans (if_neg (by simp [hinactive]))
    have hof : ∀ t, t ≠ s.currentThread →
        ¬ DiskEvent.IsOf t (.requested s.currentThread op) := fun t ht he => ht he.symm
    have honly : ∀ t, (s'.loc t).tests semaphore = true → t = s.currentThread := by
      intro t ht
      by_contra hne
      rw [htests t hne, hnone t] at ht
      cases ht
    refine ⟨hup, fun t ht => ?_, fun t ht => ?_, fun hall => ?_, ?_, ?_, ?_, ?_,
      fun t op' data' ht hl => ?_, fun t op' data' ht hl => ?_, ?_⟩
    · rw [honly t ht, hlabel]
      exact ⟨op, data, rfl⟩
    · exact .inl ⟨hd ▸ hactive, hvalue.trans hzero⟩
    · rw [hall] at hcurTests'
      cases hcurTests'
    · rw [hd, hscheduled, hactive, hidle]
      rfl
    · rw [hd, hfile, h.file, ← after_snoc]
      simp [requests]
    · have hcount := h.count
      rw [hd, hscheduled, hidle]
      rw [hidle] at hcount
      simpa [requesters, interrupts] using hcount
    · rw [toRequest_of_owner (hc.lock ▸ howner) hlabel]
      have horder := h.order
      rw [toRequest_of_owner howner hcur] at horder
      simpa [acquirers, requesters] using horder
    · obtain rfl := honly t ht
      rw [hlabel] at hl
      cases hl
      refine ⟨tr, [], rfl, fun _ he => (by cases he), fun _ he => (by cases he),
        hanswer _ _ h.file, fun hf => ?_⟩
      rw [hd, hactive] at hf
      cases hf
    · have hne : t ≠ s.currentThread := by
        rintro rfl
        rw [hcurTests'] at ht
        cases ht
      rw [htests t hne] at ht
      refine (h.completed t op' data' ht ?_).snoc (hof t hne)
      exact hl.imp (hlabels t hne _ (by simp)).1 (hlabels t hne _ (by simp)).1
    · exact h.answered.snoc fun _ _ _ he => (by cases he)

/-- The test in `Acquire`. -/
lemma step_of_acquire {K : Client Label Device Input Unit} (hs : Step K.quiet s es s')
    (hm : s.mode = .running) {l : LockId} {old : IntStatus} {k : Kont Label}
    (hl : s.loc s.currentThread = .acquire l old k ∨ s.loc s.currentThread = .lockAsleep l old k) :
    (s.lock l).free = true ∧ s'.lock l = ⟨false, some s.currentThread⟩ ∨
      (s.lock l).free = false ∧ s'.lock l = s.lock l := by
  cases hs with
  | take mode loc free =>
    rcases hl with hl | hl <;> rcases loc with loc | loc <;> rw [hl] at loc <;> cases loc <;>
      exact .inl ⟨free, Function.update_self ..⟩
  | lockWait mode loc busy =>
    rcases hl with hl | hl <;> rcases loc with loc | loc <;> rw [hl] at loc <;> cases loc <;>
      exact .inr ⟨busy, rfl⟩
  | down mode loc | semWait mode loc =>
    rcases hl with hl | hl <;> rcases loc with loc | loc <;> rw [hl] at loc <;> cases loc
  | interrupt allowed handler => cases handler
  | interruptUp allowed handler => cases handler
  | dispatch mode => exact absurd hm mode
  | _ mode loc =>
    rcases hl with hl | hl <;> rw [hl] at loc <;> cases loc

/-- What a step of the kernel shows: the lock is taken, or nothing happens to the disk. -/
lemma threadEvents_of_kernel (hL : Locking s) (hs : Step synchDisk.quiet s es s')
    (hk : ∀ e ∈ es, ¬ e.IsRan) (hlabel : ∀ t, (s'.loc t).label = (s.loc t).label) :
    threadEvents s = [] ∧ toRequest s' = toRequest s ∨
      threadEvents s = [.acquired s.currentThread] ∧
        toRequest s' = toRequest s ++ [s.currentThread] := by
  have hnot : ∀ {c r}, s.mode = .running → s.loc s.currentThread ≠ .run (.client c) r := by
    intro c r hm loc
    obtain ⟨e, he, hr⟩ := hs.ran_of_client hL.placed hm loc
    exact hk e he hr
  by_cases hat : s.mode = .running ∧ ∃ old k, s.loc s.currentThread = .acquire (.lock lock) old k ∨
      s.loc s.currentThread = .lockAsleep (.lock lock) old k
  · obtain ⟨hm, old, k, hl⟩ := hat
    rcases step_of_acquire hs hm hl with ⟨hfree, hlock⟩ | ⟨hbusy, hlock⟩
    · right
      obtain ⟨op, hop⟩ := label_of_acquire (hL.from_ _) (hL.good _) hl
      have hnone := hL.free.1 hfree
      refine ⟨?_, ?_⟩
      · unfold threadEvents
        rw [hm]
        rcases hl with hl | hl <;> rw [hl] <;> exact if_pos ⟨rfl, hfree⟩
      · rw [toRequest_of_owner (congrArg Lock.activeThread hlock) ((hlabel _).trans hop)]
        simp [toRequest, hnone]
    · left
      refine ⟨?_, toRequest_congr hlock fun t _ => hlabel t⟩
      unfold threadEvents
      rw [hm]
      rcases hl with hl | hl <;> rw [hl] <;> exact if_neg (by simp [hbusy])
  · left
    refine ⟨?_, ?_⟩
    · unfold threadEvents
      split
      next hm loc => exact absurd loc (hnot hm)
      next hm loc => exact absurd loc (hnot hm)
      next l old k hm loc =>
        refine if_neg fun hl => hat ⟨hm, old, k, .inl ?_⟩
        rw [loc, hl.1]
      next l old k hm loc =>
        refine if_neg fun hl => hat ⟨hm, old, k, .inr ?_⟩
        rw [loc, hl.1]
      next => rfl
    · cases hs.lockMove (.lock lock) with
      | idle lock | wait mode busy lock | releaseNot mode notHeld loc lock =>
        exact toRequest_congr lock fun t _ => hlabel t
      | take mode loc =>
        obtain ⟨old, k, hl, -⟩ := loc
        exact absurd ⟨mode, old, k, hl⟩ hat
      | release mode loc held lock =>
        -- whoever releases it has made its request
        obtain ⟨old, k, hl⟩ | ⟨_, _, _, _, _, hne, -⟩ := loc
        swap
        · cases hne
        have hfrom := hL.from_ s.currentThread
        have hgood := hL.good s.currentThread
        rw [hl] at hfrom hgood
        obtain ⟨op, data, hop⟩ := label_of_release hfrom hgood
        rw [toRequest_of_owner held (hl ▸ hop)]
        simp [toRequest, lock]

/-- **A step of the kernel.** -/
lemma Serial.kernel (h : Serial disk tr s) (hL : Locking s) (hs : Step synchDisk.quiet s es s')
    (hk : ∀ e ∈ es, ¬ e.IsRan) : Serial disk (tr ++ threadEvents s) s' := by
  have hlabel : ∀ t, (s'.loc t).label = (s.loc t).label := by
    intro t
    by_cases ht : s.mode = .running ∧ t = s.currentThread
    · obtain ⟨hm, rfl⟩ := ht
      exact (hs.goes hL.placed hm).label hk
    · exact hs.label_other hL.placed hk fun hm he => ht ⟨hm, he⟩
  have hshared : s'.shared = s.shared := by
    rcases hs.shared hk with h | ⟨_, _, handler⟩
    · exact h
    · cases handler
  have hup : ∀ t i old c, s'.loc t ≠ .up i old c := by
    intro t i old c hl
    by_cases ht : s.mode = .running ∧ t = s.currentThread
    · obtain ⟨hm, rfl⟩ := ht
      have hgoes := hs.goes hL.placed hm
      rw [hl] at hgoes
      generalize s.loc s.currentThread = l at hgoes
      cases hgoes with
      | call => exact absurd trivial (hk _ List.mem_cons_self)
    · have hmoved := hs.moved hL.placed (x := t) fun hm he => ht ⟨hm, he⟩
      rw [hl] at hmoved
      generalize hl' : s.loc t = l at hmoved
      cases hmoved with
      | stays => exact h.noUp t i old c hl'
  -- what is seen
  have htrace : ∀ t op data,
      ((s.loc t).tests semaphore = true → (s.loc t).label = some (.served op data) →
        Waiting disk (tr ++ threadEvents s) s.shared.active t op data) ∧
      ((s.loc t).tests semaphore = false →
        (s.loc t).label = some (.served op data) ∨ (s.loc t).label = some (.returned op data) →
          Completed disk (tr ++ threadEvents s) t op data) := by
    intro t op data
    rcases threadEvents_of_kernel hL hs hk hlabel with ⟨he, -⟩ | ⟨he, -⟩
    · rw [he, List.append_nil]
      exact ⟨h.waiting t op data, h.completed t op data⟩
    · rw [he]
      exact ⟨fun ht hl => (h.waiting t op data ht hl).snoc (show ¬ DiskEvent.IsRequest _ from id)
        (show ¬ DiskEvent.IsOf t (.acquired _) from id),
        fun ht hl => (h.completed t op data ht hl).snoc
          (show ¬ DiskEvent.IsOf t (.acquired _) from id)⟩
  have hseen : requests (tr ++ threadEvents s) = requests tr ∧
      requesters (tr ++ threadEvents s) = requesters tr ∧
      interrupts (tr ++ threadEvents s) = interrupts tr ∧
      acquirers (tr ++ threadEvents s) = requesters tr ++ toRequest s' ∧
      Answered disk (tr ++ threadEvents s) := by
    rcases threadEvents_of_kernel hL hs hk hlabel with ⟨he, hr⟩ | ⟨he, hr⟩
    · rw [he, List.append_nil, hr]
      exact ⟨rfl, rfl, rfl, h.order, h.answered⟩
    · rw [he, hr, ← List.append_assoc, ← h.order]
      exact ⟨by simp [requests], by simp [requesters], by simp [interrupts], by simp [acquirers],
        h.answered.snoc fun _ _ _ he => (by cases he)⟩
  obtain ⟨hrequests, hrequesters, hinterrupts, horder, hanswered⟩ := hseen
  rcases hs.tests (i := semaphore) hL.placed hk fun _ => h.noUp s.currentThread with
    ⟨hvalue, htests⟩ | ⟨hm, hcur, hne, hvalue, hcur', hother⟩
  · refine ⟨hup, fun t ht => ?_, fun t ht => ?_, fun hnone => ?_, ?_, ?_, ?_, ?_,
      fun t op data ht hl => ?_, fun t op data ht hl => ?_, hanswered⟩
    · rw [hlabel]
      exact h.tests t (htests t ▸ ht)
    · rw [hshared, hvalue]
      exact h.busy t (htests t ▸ ht)
    · rw [hshared, hvalue]
      exact h.quiet fun t => htests t ▸ hnone t
    · rw [hshared]
      exact h.scheduled
    · rw [hshared, hrequests]
      exact h.file
    · rw [hshared, hrequesters, hinterrupts]
      exact h.count
    · rw [horder, hrequesters]
    · rw [hshared]
      exact (htrace t op data).1 (htests t ▸ ht) (hlabel t ▸ hl)
    · exact (htrace t op data).2 (htests t ▸ ht) (hlabel t ▸ hl)
  · -- `P` is done, so the interrupt has come
    obtain ⟨hinactive, hone⟩ : s.shared.active = false ∧ s.value semaphore = 1 := by
      rcases h.busy _ hcur with hb | hb
      · exact absurd hb.2 hne
      · exact hb
    have hnone : ∀ t, (s'.loc t).tests semaphore = false := by
      refine fun t => Bool.eq_false_iff.mpr fun ht => ?_
      by_cases htc : t = s.currentThread
      · rw [htc, hcur'] at ht
        cases ht
      · rw [hother t htc] at ht
        exact htc (hL.unique (h.holds ht) (h.holds hcur))
    refine ⟨hup, fun t ht => ?_, fun t ht => ?_, fun _ => ⟨hshared ▸ hinactive, ?_⟩, ?_, ?_, ?_, ?_,
      fun t op data ht => ?_, fun t op data ht hl => ?_, hanswered⟩
    · rw [hnone] at ht
      cases ht
    · rw [hnone] at ht
      cases ht
    · rw [hvalue, hone]
      rfl
    · rw [hshared]
      exact h.scheduled
    · rw [hshared, hrequests]
      exact h.file
    · rw [hshared, hrequesters, hinterrupts]
      exact h.count
    · rw [horder, hrequesters]
    · rw [hnone] at ht
      cases ht
    · rw [hlabel] at hl
      by_cases htc : t = s.currentThread
      · subst htc
        obtain ⟨op', data', hserved⟩ := h.tests _ hcur
        rw [hserved] at hl
        rcases hl with hl | hl
        · cases hl
          have hwaiting := (htrace _ op data).1 hcur hserved
          rw [hinactive] at hwaiting
          exact hwaiting.completed
        · cases hl
      · exact (htrace t op data).2 (hother t htc ▸ ht) hl

/-! ### Runs -/

/-- The disk before the first call. -/
def start (disk : Disk) : State Label Device :=
  .init .idle (fun _ => 0) ⟨disk, false, 0⟩

lemma serial_start (disk : Disk) : Serial disk [] (start disk) := by
  have hloc : ∀ t, ((start disk).loc t).tests semaphore = false ∧
      (∀ op data, ((start disk).loc t).label ≠ some (.served op data)) ∧
      ∀ op data, ((start disk).loc t).label ≠ some (.returned op data) := by
    intro t
    rcases init_loc Label.idle (fun _ => 0) (⟨disk, false, 0⟩ : Device) t with hl | hl <;>
      rw [start, hl] <;> simp [Loc.tests, Loc.label, Kont.label]
  refine ⟨fun t i old c hl => ?_, fun t ht => ?_, fun t ht => ?_, fun _ => ⟨rfl, rfl⟩, rfl, rfl, rfl,
    rfl, fun t _ _ ht => ?_, fun t op data _ hl => ?_, fun pre _ _ _ _ he => ?_⟩
  · rcases init_loc Label.idle (fun _ => 0) (⟨disk, false, 0⟩ : Device) t with hl' | hl' <;>
      rw [start, hl'] at hl <;> cases hl
  · rw [(hloc t).1] at ht
    cases ht
  · rw [(hloc t).1] at ht
    cases ht
  · rw [(hloc t).1] at ht
    cases ht
  · exact (hl.elim ((hloc t).2.1 op data) ((hloc t).2.2 op data)).elim
  · cases pre <;> cases he

lemma Serial.step (h : Serial disk tr s) (hL : Locking s) {ch : Choice Input Unit}
    (hstep : step synchDisk ch s = .ok (es, s')) : Serial disk (tr ++ diskEvents ch s) s' := by
  rcases step_interrupt_or hstep with ⟨d, shared, v, rfl, -, handler, rfl⟩ | ⟨hd, hs⟩
  · exact h.interrupt handler
  · have hev : diskEvents ch s = threadEvents s := by
      cases ch with
      | interrupt d => exact absurd rfl (hd d)
      | _ => rfl
    rw [hev]
    rcases hs.client_or_kernel with ⟨input, new, c, r, call, hc⟩ | hk
    · exact h.client hL hs hc
    · exact h.kernel hL hs hk

/-- **The calls of a synchronous disk are served one after the other**, in every run. -/
theorem synchDisk_serial (h : Run (StepOf diskStep) (start disk) tr s) :
    -- one request at a time, so that `ASSERT(!active)` does not fail
    s.shared.scheduled ≤ 1 ∧ (requesters tr).length = interrupts tr + s.shared.scheduled ∧
    (∀ op r, s.mode = .running → s.loc s.currentThread = .run (.client (.request op)) r →
      s.shared.active = false) ∧
    -- the requests come in the order in which the calls got the lock
    (acquirers tr = requesters tr ∨ ∃ t, acquirers tr = requesters tr ++ [t]) ∧
    s.shared.file = after disk (requests tr) ∧
    -- a call returns after its own interrupt, with the latest data
    (∀ pre t op data post, tr = pre ++ .returned t op data :: post →
      Completed disk pre t op data) := by
  obtain ⟨⟨tr', hrun⟩, hi⟩ := h.observed_invariant (I := Serial disk) (serial_start disk)
    fun hr hi hstep => hi.step (Locking.of_run hr) hstep
  have hL := Locking.of_run hrun
  refine ⟨?_, hi.count, fun op r hm hl => (hi.quiet fun t => ?_).1, ?_, hi.file, hi.answered⟩
  · rw [hi.scheduled]
    split <;> decide
  · refine Bool.eq_false_iff.mpr fun ht => ?_
    have hcur : (s.loc s.currentThread).holds lock Label.locked = true := by
      rw [hl]
      rfl
    rw [hL.unique (hi.holds ht) hcur, hl] at ht
    cases ht
  · rw [hi.order]
    unfold toRequest
    split
    · exact .inl (List.append_nil _)
    · split
      · exact .inr ⟨_, rfl⟩
      · exact .inl (List.append_nil _)

/-! ### A writer and a reader -/

/-- The running thread goes on. -/
def goOn (n : ℕ) : List (Choice Input Unit) := List.replicate n (.run .finish 0)

/-- The main thread forks a second one and writes to sector 3; it is preempted inside `Acquire`, and
the second one comes to read that sector. -/
def writeAndRead : List (Choice Input Unit) :=
  [.run .fork 1, .run .fork 0, .run (.call (.write 3 fun _ => 7)) 0, .run .finish 0, .preempt,
    .run .finish 0, .run (.call (.read 3)) 0, .run .finish 0, .dispatch] ++ goOn 3 ++
  [.interrupt (), .dispatch] ++ goOn 7 ++ [.dispatch] ++ goOn 4 ++ [.interrupt (), .dispatch] ++
  goOn 6

/-- Does the trace end with what the second thread read? -/
def endsWithRead (tr : List DiskEvent) : Bool :=
  match tr.getLast? with
  | some (.returned 1 (.read 3) data) => data 0 = 7
  | _ => false

theorem synchDisk_serial_writeAndRead : ∃ pre data s,
    Run (StepOf diskStep) (start fun _ _ => 0) (pre ++ [.returned 1 (.read 3) data]) s ∧
      data 0 = 7 ∧ Completed (fun _ _ => 0) pre 1 (.read 3) data := by
  obtain ⟨tr, s, run, hp⟩ := run_of_passes diskStep writeAndRead (start fun _ _ => 0)
    (fun tr _ => endsWithRead tr) (by decide +kernel)
  unfold endsWithRead at hp
  split at hp
  next data hlast =>
    obtain ⟨pre, rfl⟩ := List.getLast?_eq_some_iff.1 hlast
    refine ⟨pre, data, s, run, of_decide_eq_true hp, ?_⟩
    exact (synchDisk_serial run).2.2.2.2.2 pre 1 (.read 3) data [] rfl
  next => cases hp

end Nachos.SynchDisk
