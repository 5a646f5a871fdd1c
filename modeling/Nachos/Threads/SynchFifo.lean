import Mathlib.Data.Set.Card
import Nachos.Threads.Signalled
import Nachos.Threads.SynchList

/-!
# A synchronized list is a queue that loses nothing

What `Remove` takes off the list is what `Append` put on it, in that order. One `Signal` in each
`Append` is enough, although a consumer that comes by may take the item of one that was signalled:
as long as a thread waits, there are at most as many items on the list as consumers that have been
signalled and have not looked at it again.
-/

namespace Nachos.Threads

open Lib

namespace SynchList

/-- What is seen of the list. -/
inductive ListEvent where
  /-- `list->Append(item)`. -/
  | appended (t : Tid) (item : ℕ)
  /-- `list->Remove()`. -/
  | removed (t : Tid) (item : ℕ)
  /-- `SynchList::Remove` returns. -/
  | returned (t : Tid) (item : ℕ)
  deriving DecidableEq

/-- What the running thread does to the list as it goes on. -/
def listEvents (_ : Choice Input Empty) (s : State Label (List ℕ)) : List ListEvent :=
  match s.mode, s.loc s.currentThread, s.shared with
  | .running, .run (.client (.append item)) _, _ => [.appended s.currentThread item]
  | .running, .run (.client .remove) _, item :: _ => [.removed s.currentThread item]
  | .running, .run (.client (.removed item)) _, _ => [.returned s.currentThread item]
  | _, _, _ => []

/-- The items that `Append` puts on the list, in the order in which it does. -/
def appendedItems (es : List ListEvent) : List ℕ :=
  es.filterMap fun e => match e with
    | .appended _ item => some item
    | _ => none

/-- The items that `Remove` takes off it. -/
def removedItems (es : List ListEvent) : List ℕ :=
  es.filterMap fun e => match e with
    | .removed _ item => some item
    | _ => none

/-- The items that the calls of a thread take off the list. -/
def removedBy (t : Tid) (es : List ListEvent) : List ℕ :=
  es.filterMap fun e => match e with
    | .removed u item => if u = t then some item else none
    | _ => none

/-- The items that they return. -/
def returnedBy (t : Tid) (es : List ListEvent) : List ℕ :=
  es.filterMap fun e => match e with
    | .returned u item => if u = t then some item else none
    | _ => none

/-- The item that a call has taken off the list and not returned yet. -/
def pending : Option Label → List ℕ
  | some (.removed item) => [item]
  | _ => []

/-- One step, which shows what it does to the list. -/
def listStep : Choice Input Empty → State Label (List ℕ) →
    Except Fault (List ListEvent × State Label (List ℕ)) :=
  observed (step synchList) listEvents

variable {s s' : State Label (List ℕ)} {es : List (Event Label)} {tr : List ListEvent}

/-- What the code does at a label: the list after it, the call, and what is seen. -/
inductive Act (t : Tid) (list : List ℕ) : Label → List ℕ → Call Label → List ListEvent → Prop
  | toAppend {item} : Act t list .idle list (.acquire lock (.append item)) []
  | toRemove : Act t list .idle list (.acquire lock .remove) []
  | fork : Act t list .idle list (.fork .idle .idle) []
  | yield : Act t list .idle list (.yield .idle) []
  | finish : Act t list .idle list .finish []
  | append {item} : Act t list (.append item) (list ++ [item]) (.signal listEmpty lock .appended)
      [.appended t item]
  | appended : Act t list .appended list (.release lock .idle) []
  | wait (empty : list = []) : Act t list .remove list (.wait listEmpty lock .remove) []
  | remove {item rest} (items : list = item :: rest) :
      Act t list .remove rest (.release lock (.removed item)) [.removed t item]
  | removed {item} : Act t list (.removed item) list (.skip .idle) [.returned t item]

lemma act_of_code {input : Input} {t : Tid} {c : Label} {r : Ret} {list list' : List ℕ}
    {call : Call Label} (hc : code input t c r list = .ok (list', call)) :
    ∃ es, Act t list c list' call es := by
  unfold code at hc
  split at hc
  · split at hc <;> cases hc
    exacts [⟨_, .toAppend⟩, ⟨_, .toRemove⟩, ⟨_, .fork⟩, ⟨_, .yield⟩, ⟨_, .finish⟩]
  · cases hc
    exact ⟨_, .append⟩
  · cases hc
    exact ⟨_, .appended⟩
  · split at hc
    · cases hc
      exact ⟨_, .wait rfl⟩
    · split at hc <;> cases hc
      exact ⟨_, .remove rfl⟩
  · cases hc
    exact ⟨_, .removed⟩

/-- What is seen of a step of a thread. -/
lemma act_of_step {input : Input} {new : Tid} {c : Label} {r : Ret} {call : Call Label}
    (hc : ClientStep synchList s s' input new c r call) (ch : Choice Input Empty) :
    Act s.currentThread s.shared c s'.shared call (listEvents ch s) := by
  obtain ⟨es, hact⟩ := act_of_code (r := r) hc.code
  have hev : listEvents ch s = es := by
    unfold listEvents
    rw [hc.mode, hc.loc]
    generalize s'.shared = list' at hact
    cases hact with
    | wait empty => rw [empty]
    | remove items => rw [items]
    | _ => rfl
  rwa [hev]

lemma makes_usesLock (call : Call Label) (h : synchList.Makes call) :
    call.UsesLock listEmpty lock := by
  obtain ⟨input, t, c, r, list, list', hc⟩ := h
  obtain ⟨es, hact⟩ := act_of_code (t := t) (r := r) hc
  cases hact with
  | append | wait => exact fun _ => rfl
  | _ => trivial

lemma condInv_of_run {value : ℕ → ℤ} {tr : List (Event Label)}
    (h : KernelRun synchList (State.init .idle value []) tr s) : CondInv listEmpty lock tr s :=
  CondInv.of_run h (usesLock_of_run makes_usesLock h)

/-! ### First in, first out -/

/-- The invariant of the list and of the calls that have an item. -/
structure Fifo (tr : List ListEvent) (s : State Label (List ℕ)) : Prop where
  items : appendedItems tr = removedItems tr ++ s.shared
  calls : ∀ t, removedBy t tr = returnedBy t tr ++ pending (s.loc t).label

lemma removedBy_append {es : List ListEvent} (t : Tid) :
    removedBy t (tr ++ es) = removedBy t tr ++ removedBy t es :=
  List.filterMap_append ..

lemma returnedBy_append {es : List ListEvent} (t : Tid) :
    returnedBy t (tr ++ es) = returnedBy t tr ++ returnedBy t es :=
  List.filterMap_append ..

section Acts

variable {t u : Tid} {list list' : List ℕ} {c : Label} {call : Call Label} {es : List ListEvent}

/-- What a thread does to the list is not done by another. -/
lemma Act.removedBy_other (h : Act t list c list' call es) (hu : u ≠ t) : removedBy u es = [] := by
  cases h with
  | append | remove | removed => simp [removedBy, hu.symm]
  | _ => rfl

lemma Act.returnedBy_other (h : Act t list c list' call es) (hu : u ≠ t) : returnedBy u es = [] := by
  cases h with
  | append | remove | removed => simp [returnedBy, hu.symm]
  | _ => rfl

/-- The code at a label keeps the order. -/
lemma Act.order (h : Act t list c list' call es)
    (hitems : appendedItems tr = removedItems tr ++ list)
    (hcalls : removedBy t tr = returnedBy t tr ++ pending (some c)) :
    appendedItems (tr ++ es) = removedItems (tr ++ es) ++ list' ∧
      removedBy t (tr ++ es) = returnedBy t (tr ++ es) ++ pending call.label := by
  rw [removedBy_append, returnedBy_append, appendedItems, removedItems, List.filterMap_append,
    List.filterMap_append]
  change appendedItems tr ++ _ = removedItems tr ++ _ ++ _ ∧ _
  rw [hitems, hcalls]
  cases h with
  | append => simp [removedBy, returnedBy, pending, Call.label]
  | remove items => simp [items, removedBy, returnedBy, pending, Call.label]
  | removed => simp [removedBy, returnedBy, pending, Call.label]
  | _ => simp [removedBy, returnedBy, pending, Call.label]

end Acts

/-- In a step of the kernel, nothing is seen of the list. -/
lemma listEvents_of_kernel (hp : Placed s) (hs : Step synchList s es s')
    (hk : ∀ e ∈ es, ¬ e.IsRan) (ch : Choice Input Empty) : listEvents ch s = [] := by
  have hnot : ∀ {c r}, s.mode = .running → s.loc s.currentThread ≠ .run (.client c) r := by
    intro c r hm loc
    obtain ⟨e, he, hr⟩ := hs.ran_of_client hp hm loc
    exact hk e he hr
  unfold listEvents
  split
  next hm loc => exact absurd loc (hnot hm)
  next hm loc _ => exact absurd loc (hnot hm)
  next hm loc => exact absurd loc (hnot hm)
  next => rfl

lemma Fifo.step (h : Fifo tr s) (hp : Placed s) (hs : Step synchList s es s')
    (ch : Choice Input Empty) : Fifo (tr ++ listEvents ch s) s' := by
  rcases hs.client_or_kernel with ⟨input, new, c, r, call, hc⟩ | hk
  · have hact := act_of_step hc ch
    have hself : (s'.loc s.currentThread).label = call.label := hc.place.label
    have hcur := h.calls s.currentThread
    rw [hc.loc] at hcur
    have hother : ∀ t, t ≠ s.currentThread →
        pending (s'.loc t).label = pending (s.loc t).label := by
      intro t ht
      rcases hc.other t ht with he | ⟨-, first, c', rfl, hu, he⟩
      · rw [he]
      · rw [he, hu]
        generalize s'.shared = list' at hact
        generalize listEvents ch s = es at hact
        cases hact with
        | fork => rfl
    obtain ⟨hitems, hcalls⟩ := hact.order h.items hcur
    refine ⟨hitems, fun t => ?_⟩
    by_cases ht : t = s.currentThread
    · rw [ht, hself]
      exact hcalls
    · rw [hother t ht, removedBy_append, returnedBy_append, hact.removedBy_other ht,
        hact.returnedBy_other ht, List.append_nil, List.append_nil]
      exact h.calls t
  · rw [listEvents_of_kernel hp hs hk, List.append_nil]
    have hshared : s'.shared = s.shared := by
      rcases hs.shared hk with h | ⟨h, -⟩
      · exact h
      · exact h.elim
    have hlabel : ∀ t, (s'.loc t).label = (s.loc t).label := by
      intro t
      by_cases ht : s.mode = .running ∧ t = s.currentThread
      · obtain ⟨hm, rfl⟩ := ht
        exact (hs.goes hp hm).label hk
      · exact hs.label_other hp hk fun hm he => ht ⟨hm, he⟩
    refine ⟨by rw [hshared]; exact h.items, fun t => by rw [hlabel]; exact h.calls t⟩

/-! ### No consumer is stranded -/

/-- A `Signal` has not taken a thread off the queue yet. -/
def Signalling (s : State Label (List ℕ)) (t : Tid) : Prop :=
  (s.loc t).part listEmpty = .signalDequeue

/-- **The invariant of the consumers**: as long as one waits, every item but the one whose `Signal`
is on its way is for a consumer that has been signalled. -/
structure Served (s : State Label (List ℕ)) : Prop where
  consumer : ∀ t, (s.loc t).awaits = true → (s.loc t).label = some .remove
  finite : {t | Signalled s t}.Finite
  enough : (∃ t, Waiting s t) → s.shared.length ≤ {t | Signalled s t}.ncard ∨
    (∃ t, Signalling s t) ∧ s.shared.length ≤ {t | Signalled s t}.ncard + 1

lemma Signalling.ne_current {t : Tid} (h : Signalling s t) {c : Label} {r : Ret}
    (loc : s.loc s.currentThread = .run (.client c) r) : t ≠ s.currentThread := by
  rintro rfl
  rw [Signalling, loc] at h
  cases h

/-- The place of another thread after a step of the client. -/
lemma Signalling.of_client {input : Input} {new : Tid} {c : Label} {r : Ret} {call : Call Label}
    (hc : ClientStep synchList s s' input new c r call) {t : Tid} (h : Signalling s t) :
    Signalling s' t := by
  rcases hc.other t (h.ne_current hc.loc) with he | ⟨-, first, c', -, hu, -⟩
  · rwa [Signalling, he]
  · rw [Signalling, hu] at h
    cases h

/-- A `Signal` holds the lock. -/
lemma Signalling.holds {tr : List (Event Label)} (hi : CondInv listEmpty lock tr s) {t : Tid}
    (h : Signalling s t) : (s.lock (.lock lock)).activeThread = some t :=
  hi.calls t (by rw [h]; rfl)

lemma ncard_signalled_sdiff (hfin : {t | Signalled s t}.Finite) :
    {t | Signalled s t}.ncard ≤ ({t | Signalled s t} \ {s.currentThread}).ncard + 1 := by
  by_cases hmem : s.currentThread ∈ {t | Signalled s t}
  · rw [Set.ncard_sdiff_singleton_add_one hmem hfin]
  · rw [Set.sdiff_singleton_eq_self hmem]
    exact Nat.le_succ _

lemma Served.client {tr : List (Event Label)} (h : Served s) (hp : Placed s)
    (hi : CondInv listEmpty lock tr s) {input : Input} {new : Tid} {c : Label} {r : Ret}
    {call : Call Label} (hc : ClientStep synchList s s' input new c r call) : Served s' := by
  obtain ⟨es, hact⟩ := act_of_code (t := s.currentThread) (r := r) hc.code
  have hsig : {t | Signalled s' t} = {t | Signalled s t} \ {s.currentThread} :=
    Set.ext fun t => hc.signalled hp t
  have hlabel : (s.loc s.currentThread).label = some c := by
    rw [hc.loc]
    rfl
  refine ⟨fun t ht => ?_, hsig ▸ h.finite.sdiff, fun ⟨t, ht⟩ => ?_⟩
  · by_cases htc : t = s.currentThread
    · subst htc
      rw [hc.place.awaits] at ht
      rw [hc.place.label]
      generalize s'.shared = list' at hact
      cases hact with
      | wait => rfl
      | _ => cases ht
    · rcases hc.other t htc with he | ⟨-, first, c', -, -, he⟩
      · rw [he] at ht ⊢
        exact h.consumer t ht
      · rw [he] at ht
        cases ht
  · rw [hc.waiting hp] at ht
    -- whoever waits did so before, unless the list is empty
    have hwait : call.isWait = false → ∃ t, Waiting s t := by
      intro hcall
      split at ht
      next => rw [hcall] at ht; cases ht
      next => exact ⟨t, ht⟩
    have hmore := ncard_signalled_sdiff h.finite
    have hsame : c ≠ .remove → {t | Signalled s t} \ {s.currentThread} = {t | Signalled s t} := by
      intro hne
      refine Set.sdiff_singleton_eq_self fun hmem => hne ?_
      exact Option.some.inj (hlabel.symm.trans (h.consumer _ hmem.1))
    have hpending : (∃ t, Signalling s t) → ∃ t, Signalling s' t := fun ⟨t, ht⟩ => ⟨t, ht.of_client hc⟩
    rw [hsig]
    have hplace := hc.place
    generalize s'.shared = list' at hact
    cases hact with
    | wait empty =>
      rw [empty]
      exact .inl (Nat.zero_le _)
    | append =>
      rw [hsame (by simp), List.length_append, List.length_singleton]
      refine .inr ⟨⟨s.currentThread, ?_⟩, ?_⟩
      · generalize hl : s'.loc s.currentThread = l at hplace
        cases hplace with
        | entry entry =>
          cases entry
          rw [Signalling, hl]
          rfl
      · rcases h.enough (hwait rfl) with hle | ⟨⟨u, hu⟩, -⟩
        · exact Nat.succ_le_succ hle
        · -- the lock is held by one thread
          have hheld : s.isHeldByCurrentThread (.lock lock) := by
            generalize s'.loc s.currentThread = l at hplace
            cases hplace with
            | entry entry =>
              cases entry with
              | signal _ _ _ held => exact held
          have hcur := (State.isHeldByCurrentThread_iff s).1 hheld
          rw [hu.holds hi] at hcur
          exact absurd (Option.some.inj hcur) (hu.ne_current hc.loc)
    | remove items =>
      have henough := h.enough (hwait rfl)
      rw [items, List.length_cons] at henough
      rcases henough with hle | ⟨hu, hle⟩
      · exact .inl (by omega)
      · exact .inr ⟨hpending hu, by omega⟩
    | _ =>
      rw [hsame (by simp)]
      exact (h.enough (hwait rfl)).imp_right fun hu => ⟨hpending hu.1, hu.2⟩

/-- Who waits on a condition waits on `listEmpty`. -/
lemma wait_of_waiting (hp : Placed s) (hf : ∀ t, (s.loc t).From synchList.Makes) {t : Tid}
    (h : Waiting s t) : t ∈ s.queue (.cond listEmpty) ∨
      ∃ l, (s.loc t).part listEmpty = .gap l := by
  have hcond : ∀ {cond l c}, synchList.Makes (.wait cond l c) → cond = listEmpty := by
    rintro cond l c ⟨input, u, c₀, r, list, list', hcode⟩
    obtain ⟨es, hact⟩ := act_of_code (t := u) (r := r) hcode
    cases hact
    rfl
  have hfrom := hf t
  rcases h with hj | ⟨cond, hq⟩
  · right
    generalize s.loc t = l at hj hfrom
    cases l with
    | run k | acquire _ _ k | lockAsleep _ _ k | release _ _ k | ret _ k =>
      cases k with
      | waitAcquire | waitSleep =>
        obtain rfl := hcond hfrom
        simp [Loc.part, Kont.part]
      | _ => cases hj
    | _ => cases hj
  · left
    have hs := hp.queued _ t hq
    generalize s.loc t = l at hs hfrom
    cases l <;> cases hs
    obtain rfl := hcond hfrom
    exact hq

lemma Served.kernel {tr : List (Event Label)} (h : Served s) (hp : Placed s)
    (hi : CondInv listEmpty lock tr s) (hf : ∀ t, (s.loc t).From synchList.Makes)
    (hs : Step synchList s es s') (hk : ∀ e ∈ es, ¬ e.IsRan) : Served s' := by
  have hshared : s'.shared = s.shared := by
    rcases hs.shared hk with h | ⟨h, -⟩
    · exact h
    · exact h.elim
  have hsig := hs.signalled hp hk
  have hlabel : ∀ t, (s'.loc t).label = (s.loc t).label ∧ (s'.loc t).awaits = (s.loc t).awaits := by
    intro t
    by_cases ht : s.mode = .running ∧ t = s.currentThread
    · obtain ⟨hm, rfl⟩ := ht
      exact ⟨(hs.goes hp hm).label hk, (hs.goes hp hm).awaits hk⟩
    · have hne : s.mode = .running → t ≠ s.currentThread := fun hm he => ht ⟨hm, he⟩
      exact ⟨hs.label_other hp hk hne, (hs.moved hp hne).awaits⟩
  have hconsumer : ∀ t, (s'.loc t).awaits = true → (s'.loc t).label = some .remove := by
    intro t ht
    rw [(hlabel t).2] at ht
    rw [(hlabel t).1]
    exact h.consumer t ht
  by_cases htaken : ∃ cond x, Taken s cond x
  · -- one consumer more is signalled
    obtain ⟨cond, x, hx⟩ := htaken
    have hmem := List.mem_of_head? hx.2.2
    have heq : {t | Signalled s' t} = insert x {t | Signalled s t} := by
      ext t
      rw [Set.mem_ofPred_eq, hsig, Set.mem_insert_iff, Set.mem_ofPred_eq, or_comm]
      refine or_congr_left ⟨fun ⟨cond', ht⟩ => ?_, fun ht => ⟨cond, ht ▸ hx⟩⟩
      obtain rfl := Loc.condOp_unique hx.2.1 ht.2.1
      exact Option.some.inj (ht.2.2.symm.trans hx.2.2)
    have hnew : x ∉ {t | Signalled s t} := fun hd => hd.2 (.inr ⟨cond, hmem⟩)
    refine ⟨hconsumer, heq ▸ h.finite.insert x, fun _ => .inl ?_⟩
    rw [heq, Set.ncard_insert_of_notMem hnew h.finite, hshared]
    rcases h.enough ⟨x, .inr ⟨cond, hmem⟩⟩ with hle | ⟨-, hle⟩
    · exact Nat.le_succ_of_le hle
    · exact hle
  · have hnone : ∀ cond x, ¬ Taken s cond x := fun cond x hx => htaken ⟨cond, x, hx⟩
    have heq : {t | Signalled s' t} = {t | Signalled s t} := by
      ext t
      rw [Set.mem_ofPred_eq, hsig, Set.mem_ofPred_eq, or_iff_left fun ⟨cond, hx⟩ => hnone cond t hx]
    refine ⟨hconsumer, heq ▸ h.finite, fun ⟨t, ht⟩ => ?_⟩
    have hwait := ((hs.waiting hp hk t).1 ht).1
    rw [heq, hshared]
    refine (h.enough ⟨t, hwait⟩).imp_right fun ⟨⟨u, hu⟩, hle⟩ => ⟨⟨u, ?_⟩, hle⟩
    by_cases hcur : s.mode = .running ∧ u = s.currentThread
    swap
    · rw [Signalling, (hs.moved hp fun hm he => hcur ⟨hm, he⟩).part]
      exact hu
    obtain ⟨hm, rfl⟩ := hcur
    have hmove : PartMove s listEmpty lock _ _ _ _ :=
      (hs.goes hp hm).part (hs.usesLock makes_usesLock)
    rw [hu] at hmove
    generalize hop : (s.loc s.currentThread).condOp listEmpty = op at hmove
    generalize hpart : (s'.loc s.currentThread).part listEmpty = part at hmove
    generalize es.filterMap (Event.mesa listEmpty) = seen at hmove
    cases hmove with
    | stay => exact hpart
    | signalDequeue =>
      -- nobody was on the queue, and nobody is on the way
      rcases wait_of_waiting hp hf hwait with hq | ⟨l, hgap⟩
      · cases hqs : s.queue (.cond listEmpty) with
        | nil => rw [hqs] at hq; cases hq
        | cons x rest => exact absurd ⟨hm, hop, by rw [hqs]; rfl⟩ (hnone listEmpty x)
      · have hcurrent := (hi.gap t l hgap).2.current
        rw [← hcurrent, Signalling, hgap] at hu
        cases hu

/-! ### Runs -/

section Runs

variable {value : ℕ → ℤ}

theorem Served.of_run {tr : List (Event Label)}
    (h : KernelRun synchList (State.init .idle value []) tr s) : Served s := by
  refine h.invariant (I := fun _ s => Served s) ⟨fun t ht => ?_, ?_, fun ⟨t, ht⟩ => ?_⟩
    fun hr hi ⟨_, hc⟩ => ?_
  · rcases init_loc Label.idle value ([] : List ℕ) t with hl | hl <;> rw [hl] at ht <;> cases ht
  · have hnone : {t | Signalled (State.init Label.idle value ([] : List ℕ)) t} = ∅ := by
      refine Set.eq_empty_of_forall_notMem fun t ht => ?_
      have ha := ht.1
      rcases init_loc Label.idle value ([] : List ℕ) t with hl | hl <;> rw [hl] at ha <;> cases ha
    rw [hnone]
    exact Set.finite_empty
  · exact .inl (Nat.zero_le _)
  · have hs := step_rule hc
    rcases hs.client_or_kernel with ⟨input, new, c, r, call, hstep⟩ | hk
    · exact hi.client (.of_run hr) (condInv_of_run hr) hstep
    · exact hi.kernel (.of_run hr) (condInv_of_run hr) (Loc.From.of_run hr) hs hk

theorem Fifo.of_run (h : Run (StepOf listStep) (State.init .idle value []) tr s) :
    (∃ tr, KernelRun synchList (State.init .idle value []) tr s) ∧ Fifo tr s := by
  refine h.observed_invariant (I := Fifo) ⟨rfl, fun t => ?_⟩ fun {_ _ c _ _ _} hr hi hstep => ?_
  · rcases init_loc Label.idle value ([] : List ℕ) t with hl | hl <;> rw [hl] <;> rfl
  · exact hi.step (.of_run hr) (step_rule hstep) c

/-- **A synchronized list is a queue that loses nothing**, for any number of threads and every
run. -/
theorem fifo (h : Run (StepOf listStep) (State.init .idle value []) tr s) :
    -- what is removed is what was appended, in order; the rest is on the list
    (removedItems tr <+: appendedItems tr ∧ appendedItems tr = removedItems tr ++ s.shared) ∧
    -- a call returns the item that it removed
    (∀ t, removedBy t tr = returnedBy t tr ++ pending (s.loc t).label) ∧
    -- `ASSERT(item != NULL)`
    ((∀ item ∈ appendedItems tr, item ≠ 0) →
      ∀ input t r, code input t .remove r s.shared ≠ .error .assertion) ∧
    -- no consumer is stranded
    ((s.lock (.lock lock)).free = true → (∃ t, Waiting s t) →
      {t | Signalled s t}.Finite ∧ s.shared.length ≤ {t | Signalled s t}.ncard) := by
  obtain ⟨⟨tr', hr⟩, hfifo⟩ := Fifo.of_run h
  have hserved := Served.of_run hr
  refine ⟨⟨⟨_, hfifo.items.symm⟩, hfifo.items⟩, hfifo.calls, fun hitems input t r hcode => ?_,
    fun hfree hwait => ⟨hserved.finite, ?_⟩⟩
  · have hne : ∀ item ∈ s.shared, item ≠ 0 := fun item hmem =>
      hitems item (by rw [hfifo.items]; exact List.mem_append_right _ hmem)
    generalize s.shared = list at hcode hne
    cases list with
    | nil => cases hcode
    | cons item rest =>
      rw [code, if_neg (hne item List.mem_cons_self)] at hcode
      cases hcode
  · rcases hserved.enough hwait with hle | ⟨⟨t, ht⟩, -⟩
    · exact hle
    · -- a `Signal` holds the lock
      have hheld := ht.holds (condInv_of_run hr)
      rw [((LockInv.of_run hr _).free_iff).1 hfree] at hheld
      cases hheld

end Runs

/-! ### Two consumers and an item -/

/-- The main thread and a second one wait for an item; a third thread appends one. -/
def waitAndAppend : List (Choice Input Empty) :=
  List.replicate 2 (.run .fork 1) ++ List.replicate 2 (.run .fork 2) ++
    List.replicate 10 (.run .remove 3) ++ [.dispatch] ++ List.replicate 11 (.run .remove 3) ++
    [.dispatch] ++ List.replicate 13 (.run (.append 5) 3)

/-- The main thread is signalled, the second one still waits, and the item is on the list. -/
theorem fifo_waitAndAppend : ∃ tr s,
    Run (StepOf listStep) (State.init .idle (fun _ => 0) []) tr s ∧ s.shared = [5] ∧
      removedItems tr <+: appendedItems tr ∧ s.shared.length ≤ {t | Signalled s t}.ncard := by
  obtain ⟨tr, s, run, hp⟩ := run_of_passes listStep waitAndAppend
    (State.init .idle (fun _ => 0) []) (fun _ s => s.shared = [5] ∧
      (s.lock (.lock lock)).free = true ∧ 1 ∈ s.queue (.cond listEmpty)) (by decide +kernel)
  obtain ⟨hlist, hfree, hwait⟩ := of_decide_eq_true hp
  have hfifo := fifo run
  exact ⟨tr, s, run, hlist, hfifo.1.1, (hfifo.2.2.2 hfree ⟨1, .inr ⟨_, hwait⟩⟩).2⟩

end SynchList

end Nachos.Threads
