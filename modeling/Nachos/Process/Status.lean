import Nachos.Process.Integrity
import Nachos.Process.Returns

/-!
# The exit status that a Join returns

`doExit` stores the status of the user program in the field that tells whether a process has exited:
-9999 stands for a process that has not. `doJoin` polls the field, and deletes the PCB of the child
as soon as it has another value; the destructor of the PCB deletes the address space of the child,
which the child itself may still have to delete.

A child that exits with another status, and has deleted its address space before its parent looks, is
joined with its status: nobody else deletes the PCB of a child whose parent is in `doJoin`, unless
the parent is killed.
-/

namespace Nachos.Process

open Lib Threads Mips Userprog

/-- What is seen of the end of a process. -/
inductive StatusEvent where
  /-- `doExit` sets the exit status. -/
  | exits (p : PCBId) (status : Word)
  /-- `doKill` takes another process off the ready list. -/
  | killed (p : PCBId)
  /-- `doJoin` has found a child, and is to wait for it. -/
  | joins (p : PCBId)
  deriving DecidableEq

/-- The end of a process, with the status of a `doExit`. -/
def PidEvent.ending (status : Word) : PidEvent → Option StatusEvent
  | exited p => some (.exits p status)
  | killed p => some (.killed p)
  | joined _ => none

namespace State

variable (s : State)

/-- The status of an `Exit`, or of a `Kill` of the process itself. -/
def exitCode : Word := if s.callNumber = 1 then s.callArg else 0

/-- What a `Join` waits for. -/
def joinEvents : List StatusEvent :=
  match s.getPCB s.callArg, s.currentPCB with
  | .ok entry, .ok self =>
    match s.joins self entry with
    | .joinWait p => [.joins p]
    | _ => []
  | _, _ => []

end State

/-- **What a step shows** of the end of the processes. -/
def statusEvents (c : Choice) (s : State) : List StatusEvent :=
  match s.code s.currentThread with
  | .user :: _ =>
    match c with
    | .syscall _ =>
      if s.callNumber = 3 then s.joinEvents else s.callEvents.filterMap (PidEvent.ending s.exitCode)
    | _ => []
  | _ => []

/-! ### The statement -/

/-- The process has exited, or was killed. -/
def Ended (os : List StatusEvent) (p : PCBId) : Prop := .killed p ∈ os ∨ ∃ status, .exits p status ∈ os

/-- No process exits with the status of one that has not exited, and a `Join` does not find the PCB
of a child that was joined before. -/
def Distinct (s : State) (os : List StatusEvent) (_ : State) : Prop :=
  (∀ p status, .exits p status ∈ os → status ≠ PCB.notExited) ∧
    ∀ p, .joins p ∈ os → s.pcb.live p = true

/-! ### The system calls, with what they show -/

/-- A step of a user program: what it shows, and how the thread goes on, in the state given. -/
inductive Enters (s : State) (k : List Stmt) : List StatusEvent → List Stmt → State → Prop
  | instruction {r} : Enters s k [] (.tick :: .user :: k) (s.withRegisters r)
  | trap {k'} (h : Trap s.trapped (.tick :: .user :: k) k') (other : ∀ j l, k' ≠ .joinWait j :: l) :
      Enters s k [] k' s.trapped
  | join {p q} (pcb : s.currentPCB = .ok (some q)) (parent : (s.pcb.get p).parent = some q) :
      Enters s k [.joins p] (.joinWait p :: .tick :: .user :: k) s.trapped
  | exit {a p status} (space : s.currentSpace = some a) (pcb : (s.space.get a).pcb = some p) :
      Enters s k [.exits p status] [.mapcar p ((s.trapped.exiting p status).pcb.get p).children,
        .exitDeallocate p, .exitSpace, .finish] (s.trapped.exiting p status)
  | kill {p} :
      Enters s k [.killed p] (.mapcar p ((s.detach p).pcb.get p).children :: .killReturn p ::
        .tick :: .user :: k) (s.trapped.withObjects (s.detach p))

section Enters

variable {s s' : State} {k : List Stmt} {c : Choice} {es : List Event}

end Enters

/-! ### The exit status -/

def Objects.status (o : Objects) (p : PCBId) : Word := (o.pcb.get p).exitStatus

section Status

variable {s s₁ : State} {st : Stmt} {k k' : List Stmt} {es : List Event} {o o' : Objects}

/-- An assignment to a PCB that leaves the status alone. -/
lemma status_setPCB (p : PCBId) (f : PCB → PCB) (hf : ∀ pcb, (f pcb).exitStatus = pcb.exitStatus) :
    (o.setPCB p f).status = o.status := by
  funext q
  show ((o.pcb.modify p f).get q).exitStatus = _
  rw [Heap.get_modify]
  split
  · exact hf _
  · rfl

lemma status_removeThread (t : Option Tid) : (o.removeThread t).status = o.status := by
  cases t <;> rfl

lemma status_detach (p : PCBId) : (o.detach p).status = o.status := by
  unfold Objects.detach
  dsimp only
  split
  · exact status_removeThread _
  · rw [status_setPCB, status_removeThread]
    exact fun _ => rfl

lemma status_exiting (p : PCBId) (status : Word) :
    (s.exiting p status).status = Function.update s.status p status := by
  rw [State.exiting]
  show (Objects.removeThread _ _).status = _
  rw [status_removeThread]
  funext q
  show ((s.pcb.modify p fun pcb => { pcb with exitStatus := status }).get q).exitStatus = _
  rw [Heap.get_modify, Function.update_apply]
  split <;> rfl

lemma status_linkChild (p q : PCBId) (a : SpaceId) (r : Registers) :
    (o.linkChild p q a r).2.status = o.status := by
  unfold Objects.linkChild
  dsimp only
  rw [status_setPCB, status_setPCB]
  · rfl
  · exact fun _ => rfl
  · exact fun _ => rfl

lemma status_unlink {p : PCBId} (h : (o.unlink p).freePCB p = .ok o') : o'.status = o.status := by
  have hunlink : (o.unlink p).status = o.status := by
    unfold Objects.unlink
    split
    · rfl
    · rw [status_setPCB, status_removeThread]
      · rfl
      · exact fun _ => rfl
  unfold Objects.freePCB at h
  split at h
  · cases h
    exact hunlink
  · cases h

lemma pcb_run (next : Tid) : (s.run next).pcb = s.pcb := by
  unfold State.run
  dsimp only
  split <;> rfl

lemma pcb_releaseOf (l : LockName) : (s.releaseOf l).pcb = s.pcb := by
  unfold State.releaseOf
  split
  · split <;> rfl
  · rfl

lemma pcb_afterSwitch (h : s.afterSwitch = .ok s₁) : s₁.pcb = s.pcb := by
  unfold State.afterSwitch at h
  dsimp only at h
  split at h
  · cases h
    split <;> rfl
  · split at h
    · cases h
    · cases h
      split <;> rfl

lemma pcb_freeFrames {a : SpaceId} (h : o.freeFrames a = .ok o') : o'.pcb = o.pcb := by
  unfold Objects.freeFrames at h
  split at h
  · cases h
  · obtain ⟨mm, -, h⟩ := bind_eq_ok h
    cases h
    rfl

lemma pcb_freeSpace {a : SpaceId} (h : o.freeSpace a = .ok o') : o'.pcb = o.pcb := by
  unfold Objects.freeSpace at h
  split at h
  · cases h
    rfl
  · cases h

lemma status_of_pcb (h : o'.pcb = o.pcb) : o'.status = o.status := by
  funext p
  exact congrArg (fun pcb => (pcb.get p).exitStatus) h

/-- **Only `doExit` sets an exit status**; a new PCB has that of a process that has not exited. -/
lemma Rule.status (hr : Rule s st k k' es s₁) (hst : st ≠ .user) (p : PCBId) :
    s₁.status p = s.status p ∨ (p = s.view.nextPCB ∧ s₁.status p = PCB.notExited) := by
  cases hr
  case instruction | trap | exit | kill => exact absurd rfl hst
  case block | yield | finish => exact .inl (congrFun (status_of_pcb (pcb_run _)) p)
  case release => exact .inl (congrFun (status_of_pcb (pcb_releaseOf _)) p)
  case resume hs₁ => exact .inl (congrFun (status_of_pcb (pcb_afterSwitch hs₁)) p)
  case freeFrames h => exact .inl (congrFun (status_of_pcb (pcb_freeFrames h)) p)
  case freeSpace h => exact .inl (congrFun (status_of_pcb (pcb_freeSpace h)) p)
  case startChild => exact .inl (congrFun (status_linkChild ..) p)
  case orphan c _ _ _ =>
    have hsame := status_setPCB (o := s.toObjects) c (fun pcb => { pcb with parent := none })
      fun _ => rfl
    exact .inl (congrFun hsame p)
  case unlinkPCB h => exact .inl (congrFun (status_unlink h) p)
  case allocatePCB h =>
    unfold Objects.allocatePCB at h
    split at h
    · cases h
    · cases h
      by_cases hp : p = s.pcb.next
      · subst hp
        exact .inr ⟨rfl, congrArg PCB.exitStatus Heap.get_new_next⟩
      · exact .inl (congrArg PCB.exitStatus (Heap.get_new_of_ne hp))
  all_goals exact .inl rfl

/-- What is shown of an exit is what the PCB holds. -/
structure Reported (os : List StatusEvent) (statusOf : PCBId → Word) : Prop where
  exits : ∀ {p status}, .exits p status ∈ os → statusOf p = status ∧ status ≠ PCB.notExited
  exited : ∀ {p}, statusOf p ≠ PCB.notExited → ∃ status, .exits p status ∈ os

lemma exited_iff {p : PCBId} : s.view.exited p = true ↔ s.status p ≠ PCB.notExited := bne_iff_ne

/-- A process that is shown to exit has exited. -/
lemma Reported.view_exited {os : List StatusEvent} (h : Reported os s.status) {p : PCBId} {status : Word}
    (hp : .exits p status ∈ os) : s.view.exited p = true := by
  obtain ⟨rfl, hne⟩ := h.exits hp
  exact exited_iff.mpr hne

/-- A step that is not a system call changes no status. -/
lemma Rule.reported (hr : Rule s st k k' es s₁) (hst : st ≠ .user) (ho : Owned s)
    {os : List StatusEvent} (h : Reported os s.status) : Reported os s₁.status := by
  refine ⟨fun {p status} hp => ?_, fun {p} hp => ?_⟩
  · obtain ⟨ow, _, hptr, -⟩ := ho
    obtain hsame | ⟨rfl, -⟩ := hr.status hst p
    · obtain ⟨hstatus, hne⟩ := h.exits hp
      exact ⟨hsame.trans hstatus, hne⟩
    · exact absurd (hptr.exited (h.view_exited hp)).1 (Nat.lt_irrefl _)
  · obtain hsame | ⟨-, hnew⟩ := hr.status hst p
    · exact h.exited fun hs => hp (hsame.trans hs)
    · exact absurd hnew hp

end Status

/-! ### A thread in a Join -/

lemma Stmt.inExit_of_scheduling {st : Stmt} (h : st.scheduling = true) : st.inExit = true := by
  cases st <;> first | rfl | cases h

/-- The loop of a `Join` has only scheduling before it. -/
def Polls : List Stmt → Prop
  | [] => True
  | st :: k => if st.scheduling then Polls k else ∀ p, .joinWait p ∉ k

section Polls

variable {s s₁ : State} {st : Stmt} {k k' l : List Stmt} {es : List Event} {os : List StatusEvent}

lemma Polls.tail (h : Polls (st :: k)) (hs : st.scheduling = false) (p : PCBId) :
    .joinWait p ∉ k := by
  rw [Polls, hs] at h
  exact h p

lemma Polls.of_scheduling (h : Polls (st :: k)) (hs : st.scheduling = true) : Polls k := by
  rw [Polls, hs] at h
  exact h

lemma polls_of_notMem (h : ∀ p, .joinWait p ∉ k) : Polls k := by
  induction k with
  | nil => trivial
  | cons st k ih =>
    have hk : ∀ p, .joinWait p ∉ k := fun p hp => h p (.tail _ hp)
    rw [Polls]
    split
    · exact ih hk
    · exact hk

lemma polls_append (h : Polls k) (hl : ∀ st' ∈ l, st'.scheduling = true) : Polls (l ++ k) := by
  induction l with
  | nil => exact h
  | cons st l ih =>
    rw [List.cons_append, Polls, if_pos (hl st (.head _))]
    exact ih fun st' hst => hl st' (.tail _ hst)

lemma notMem_destroyPCB (s : State) (p j : PCBId) : .joinWait j ∉ s.destroyPCB p := by
  obtain he | ⟨a, -, he⟩ := destroyPCB_eq s p <;> rw [he] <;>
    simp [deleteSpace, acquireLock, releaseLock]

lemma Control.polls (hc : Control s st k k') (hs : st.scheduling = false)
    (h : ∀ p, .joinWait p ∉ k) : Polls k' := by
  cases hc
  case joinWait j => simpa [threadYield, Polls, Stmt.scheduling] using h
  case destroyPCB p _ =>
    refine polls_of_notMem fun j hj => ?_
    exact (List.mem_append.mp hj).elim (notMem_destroyPCB s p j) (h j)
  all_goals
    refine polls_of_notMem fun j => ?_
    simp [deallocatePCB, deleteSpace, acquireLock, releaseLock, h j]

/-- Every step but a system call keeps the loops in front. -/
lemma Rule.polls (hr : Rule s st k k' es s₁) (hst : st ≠ .user) (h : Polls (st :: k)) :
    Polls k' := by
  by_cases hs : st.scheduling = true
  · -- scheduling pushes scheduling
    obtain ⟨new, rfl, hp⟩ | ⟨hexit, -⟩ | ⟨-, rfl⟩ := hr.pushes
    · exact polls_append (h.of_scheduling hs) (hp.scheduling hs)
    · cases (Stmt.inExit_of_scheduling hs).symm.trans hexit
    · trivial
  · have hno : st.scheduling = false := Bool.eq_false_of_not_eq_true hs
    have hk := h.tail hno
    cases hr
    case instruction | trap | exit | kill => exact absurd rfl hst
    case control hc => exact hc.polls hno hk
    case clearPid p _ _ _ =>
      refine polls_of_notMem fun j hj => ?_
      rw [List.append_assoc] at hj
      exact (List.mem_append.mp hj).elim (notMem_destroyPCB s p j)
        (by simpa [releaseLock] using hk j)
    all_goals
      refine polls_of_notMem fun j => ?_
      simp [acquireLock, releaseLock, threadYield, hk j]

lemma Trap.polls (ht : Trap s k k') (h : ∀ p, .joinWait p ∉ k) (other : ∀ j l, k' ≠ .joinWait j :: l) :
    Polls k' := by
  cases ht
  case join j _ _ _ _ _ => exact absurd rfl (other j k)
  all_goals
    refine polls_of_notMem fun j => ?_
    simp [deleteSpace, acquireLock, releaseLock, threadYield, h j]

lemma Enters.polls {k : List Stmt} (hen : Enters s k os k' s₁) (h : Polls (.user :: k)) :
    Polls k' := by
  have hk := h.tail rfl
  have hk' : ∀ p, .joinWait p ∉ Stmt.tick :: .user :: k := fun p => by simpa using hk p
  cases hen
  case trap ht other => exact ht.polls hk' other
  all_goals simp [Polls, Stmt.scheduling, hk]

end Polls

/-! ### Threads, processes and children -/

/-- A thread has one process, which its address space points to; a child is on the list of one
process at most. -/
structure Ties (os : List StatusEvent) (κ : Kin) (v : View) : Prop where
  joined : ∀ {p}, .joins p ∈ os → p < v.nextPCB
  thread : ∀ {p t}, v.threadOf p = some t → p < v.nextPCB
  unique : ∀ {p p' t}, v.threadOf p = some t → v.threadOf p' = some t → p = p'
  own : ∀ {t a p}, v.spaceOf t = some a → v.pcbOf a = some p → v.threadOf p = some t
  child : ∀ {x c}, c ∈ κ.children x → c < v.nextPCB
  parent : ∀ {x c q}, c ∈ κ.children x → κ.parent c = some q → q = x

section Ties

variable {os : List StatusEvent} {κ : Kin} {v : View} {ow osp : ℕ → Owner}

/-- The links of a new PCB. -/
def Kin.newPCB (κ : Kin) (p : PCBId) : Kin where
  live := Function.update κ.live p true
  parent := Function.update κ.parent p none
  children := Function.update κ.children p []
  thread := κ.thread

/-- The links of a new child `p` of `q`. -/
def Kin.link (κ : Kin) (p q : PCBId) (t : Tid) : Kin where
  live := κ.live
  parent := Function.update κ.parent p (some q)
  children := Function.update κ.children q (κ.children q ++ [p])
  thread := Function.update κ.thread t true

lemma Ties.newPCB (h : Ties os κ v) (hp : Pointers ow osp v) :
    Ties os (κ.newPCB v.nextPCB) v.newPCB := by
  obtain ⟨hjoined, hthread, hunique, hown, hchild, hparent⟩ := h
  have hpcb := @hp.pcb
  constructor <;> intros <;>
    simp only [Kin.newPCB, View.newPCB, Function.update_apply] at * <;> grind

lemma Ties.newSpace (h : Ties os κ v) (hp : Pointers ow osp v) : Ties os κ (v.newSpace none) := by
  obtain ⟨hjoined, hthread, hunique, hown, hchild, hparent⟩ := h
  have hspace := @hp.space
  refine ⟨hjoined, hthread, hunique, ?_, hchild, hparent⟩
  intros
  simp only [View.newSpace, Function.update_apply] at *
  grind

lemma Ties.dropSpace (h : Ties os κ v) (t : Tid) : Ties os κ (v.setSpaceOf t none) := by
  obtain ⟨hjoined, hthread, hunique, hown, hchild, hparent⟩ := h
  refine ⟨hjoined, hthread, hunique, ?_, hchild, hparent⟩
  intros
  simp only [View.setSpaceOf, Function.update_apply] at *
  grind

/-- A new image for the process of the thread. -/
lemma Ties.load (h : Ties os κ v) (hp : Pointers ow osp v) {t : Tid} {p : PCBId}
    (ht : v.threadOf p = some t) : Ties os κ
      (((v.setSpaceOf t none).newSpace (some p)).setSpaceOf t (some v.nextSpace)) := by
  obtain ⟨hjoined, hthread, hunique, hown, hchild, hparent⟩ := h
  have hspace := @hp.space
  refine ⟨hjoined, hthread, hunique, ?_, hchild, hparent⟩
  intros
  simp only [View.setSpaceOf, View.newSpace, Function.update_apply] at *
  grind

/-- A child gets its thread and its parent. -/
lemma Ties.link (h : Ties os κ v) (hp : Pointers ow osp v) {p q : PCBId} {a : SpaceId} {u : Tid}
    (hpu : p < v.nextPCB ∧ ow p = (u, true)) (hau : a < v.nextSpace ∧ osp a = (u, true))
    (hnew : ∀ x, p ∉ κ.children x) : Ties os (κ.link p q v.nextThread) (v.link p a) := by
  obtain ⟨hjoined, hthread, hunique, hown, hchild, hparent⟩ := h
  have hspace := @hp.space
  have hlt := @hp.thread
  constructor <;> intros <;>
    simp only [Kin.link, View.link, Function.update_apply] at * <;> grind

lemma Ties.unlink (h : Ties os κ v) {p : PCBId} {t : Tid} (ht : v.threadOf p = some t) :
    Ties os κ (v.unlink p t) := by
  obtain ⟨hjoined, hthread, hunique, hown, hchild, hparent⟩ := h
  refine ⟨hjoined, ?_, ?_, ?_, hchild, hparent⟩ <;> intros <;>
    simp only [View.unlink, Function.update_apply] at * <;> grind

/-- Links are cut. -/
lemma Ties.cut (h : Ties os κ v) {κ' : Kin} (children : ∀ {x c}, c ∈ κ'.children x → c ∈ κ.children x)
    (parent : ∀ {c q}, κ'.parent c = some q → κ.parent c = some q) : Ties os κ' v :=
  { joined := h.joined
    thread := h.thread
    unique := h.unique
    own := h.own
    child := fun hc => h.child (children hc)
    parent := fun hc hq => h.parent (children hc) (parent hq) }

end Ties

/-! ### What the statements say about the links -/

/-- The thread `t` may delete the PCB: the parent has ended, or is its process. -/
def Disposable (os : List StatusEvent) (κ : Kin) (v : View) (t : Tid) (p : PCBId) : Prop :=
  ∀ q, κ.parent p = some q → Ended os q ∨ v.threadOf q = some t

/-- The thread `t` waits for a child, unless its process was killed. -/
def Awaits (os : List StatusEvent) (κ : Kin) (v : View) (t : Tid) (p : PCBId) : Prop :=
  ∃ a q, v.spaceOf t = some a ∧ v.pcbOf a = some q ∧
    (.killed q ∈ os ∨ κ.live p = true ∧ κ.parent p = some q)

/-- What a statement of the thread `t` says. -/
def Holds (os : List StatusEvent) (κ : Kin) (v : View) (t : Tid) : Stmt → Prop
  | .load _ p => v.threadOf p = some t
  | .saveParent _ p | .copySpace _ p | .startChild _ p _ =>
    .joins p ∉ os ∧ κ.parent p = none ∧ ∀ x, p ∉ κ.children x
  | .mapcar p _ => Ended os p
  | .clearPid p | .destroyPCB p | .unlinkPCB p => Disposable os κ v t p
  | .joinWait p => .joins p ∈ os ∧ Disposable os κ v t p ∧ Awaits os κ v t p
  | _ => True

/-- The PCB that a statement is to delete. -/
def Stmt.disposes : Stmt → Option PCBId
  | clearPid p | destroyPCB p | unlinkPCB p | joinWait p => some p
  | _ => none

section Holds

variable {os os' : List StatusEvent} {κ κ' : Kin} {v v' : View} {t : Tid} {st : Stmt}

lemma Ended.mono {p : PCBId} (h : Ended os p) (hos : ∀ o ∈ os, o ∈ os') : Ended os' p := by
  obtain h | ⟨status, h⟩ := h
  · exact .inl (hos _ h)
  · exact .inr ⟨status, hos _ h⟩

lemma Disposable.mono {p : PCBId} (h : Disposable os κ v t p) (hos : ∀ o ∈ os, o ∈ os')
    (parent : ∀ {q}, κ'.parent p = some q → κ.parent p = some q)
    (thread : ∀ {q}, v.threadOf q = some t → v'.threadOf q = some t ∨ Ended os' q) :
    Disposable os' κ' v' t p := by
  intro q hq
  obtain he | ht := h q (parent hq)
  · exact .inl (he.mono hos)
  · exact (thread ht).symm

/-- **Non-interference**: a statement survives the change of the links that it does not name. -/
lemma Holds.mono (h : Holds os κ v t st) (hos : ∀ o ∈ os, o ∈ os')
    (load : st.isLoad = true → ∀ {q}, v.threadOf q = some t → v'.threadOf q = some t)
    (made : ∀ {p}, st.made = some p → .joins p ∉ os → κ.parent p = none →
      (∀ x, p ∉ κ.children x) → .joins p ∉ os' ∧ κ'.parent p = none ∧ ∀ x, p ∉ κ'.children x)
    (parent : ∀ {p q}, st.disposes = some p → κ'.parent p = some q → κ.parent p = some q)
    (thread : ∀ {q}, v.threadOf q = some t → v'.threadOf q = some t ∨ Ended os' q)
    (joins : ∀ {p}, st = .joinWait p → Awaits os κ v t p → Awaits os' κ' v' t p) :
    Holds os' κ' v' t st := by
  cases st
  case load e p => exact load rfl h
  case saveParent | copySpace | startChild => exact made rfl h.1 h.2.1 h.2.2
  case mapcar p ahead => exact Ended.mono h hos
  case clearPid p | destroyPCB p | unlinkPCB p => exact Disposable.mono h hos (parent rfl) thread
  case joinWait p =>
    obtain ⟨hjoins, hd, ha⟩ := h
    exact ⟨hos _ hjoins, hd.mono hos (parent rfl) thread, joins rfl ha⟩
  all_goals trivial

/-- A thread goes on waiting, when its space and its child stay. -/
lemma Awaits.mono {p : PCBId} (h : Awaits os κ v t p) (hties : Ties os κ v)
    (space : v'.spaceOf t = v.spaceOf t) (pcb : ∀ {a}, v.spaceOf t = some a → v'.pcbOf a = v.pcbOf a)
    (killed : ∀ {q}, .killed q ∈ os → .killed q ∈ os')
    (child : ∀ {q}, κ.live p = true → κ.parent p = some q → v.threadOf q = some t →
      .killed q ∈ os' ∨ κ'.live p = true ∧ κ'.parent p = some q) : Awaits os' κ' v' t p := by
  obtain ⟨a, q, ha, hq, hwait⟩ := h
  refine ⟨a, q, space.trans ha, (pcb ha).trans hq, ?_⟩
  obtain hk | ⟨hlive, hparent⟩ := hwait
  · exact .inl (killed hk)
  · exact child hlive hparent (hties.own ha hq)

/-- More events, and fewer children. -/
lemma Holds.extend (h : Holds os κ v t st) (hos : ∀ o ∈ os, o ∈ os') (live : κ'.live = κ.live)
    (parent : κ'.parent = κ.parent) (children : ∀ {x c}, c ∈ κ'.children x → c ∈ κ.children x)
    (spaceOf : v'.spaceOf = v.spaceOf) (pcbOf : v'.pcbOf = v.pcbOf)
    (threadOf : v'.threadOf = v.threadOf)
    (joins : ∀ {p}, .joins p ∈ os' → .joins p ∈ os ∨ κ.parent p ≠ none) : Holds os' κ' v' t st := by
  refine h.mono hos (fun _ q hq => ?_) (fun {p} _ hno hnone hx => ⟨fun hp => ?_, ?_, ?_⟩)
    (fun {p q} _ hq => ?_) (fun hq => .inl ?_) fun {p} _ ha => ?_
  · rw [threadOf]
    exact hq
  · obtain hp | hp := joins hp
    · exact hno hp
    · exact hp hnone
  · rw [parent]
    exact hnone
  · exact fun x hc => hx x (children hc)
  · rw [parent] at hq
    exact hq
  · rw [threadOf]
    exact hq
  · obtain ⟨a, q, hspace, hpcb, hwait⟩ := ha
    rw [Awaits, spaceOf, pcbOf, live, parent]
    exact ⟨a, q, hspace, hpcb, hwait.imp_left (hos _)⟩

end Holds

/-- **What holds in a run**, with the events `os`. -/
structure Joining (os : List StatusEvent) (s : State) : Prop where
  reported : Reported os s.status
  ties : Ties os s.kin s.view
  polls : ∀ t, Polls (s.code t)
  holds : ∀ {t st}, st ∈ s.code t → Holds os s.kin s.view t st

section Joining

variable {s s₁ : State} {st : Stmt} {k k' : List Stmt} {es : List Event} {os os' : List StatusEvent}

/-- The statements that change no data. -/
lemma Control.holds (hc : Control s st k k') (hties : Ties os s.kin s.view)
    (h : ∀ st' ∈ st :: k, Holds os s.kin s.view s.currentThread st') :
    ∀ st' ∈ k', Holds os s.kin s.view s.currentThread st' := by
  rw [List.forall_mem_cons] at h
  obtain ⟨hst, hk⟩ := h
  cases hc
  case mapcarExited p c ahead child _ =>
    -- the parent of a child on the list walks
    have hdisposable : Disposable os s.kin s.view s.currentThread c := by
      intro q hq
      obtain rfl := hties.parent child hq
      exact .inl hst
    simpa [deallocatePCB, acquireLock, Holds] using ⟨hdisposable, hst, hk⟩
  case exitDeallocate p hparent =>
    have hdisposable : Disposable os s.kin s.view s.currentThread p := by
      intro q hq
      have hnone : s.kin.parent p = none := hparent
      rw [hnone] at hq
      cases hq
    simpa [deallocatePCB, acquireLock, Holds] using ⟨hdisposable, hk⟩
  case destroyPCB p _ =>
    have hdisposable : Disposable os s.kin s.view s.currentThread p := hst
    obtain he | ⟨a, -, he⟩ := destroyPCB_eq s p <;> rw [he] <;>
      simpa [deleteSpace, acquireLock, releaseLock, Holds] using ⟨hdisposable, hk⟩
  case joinExited p _ =>
    have hdisposable : Disposable os s.kin s.view s.currentThread p := hst.2.1
    simpa [Holds] using ⟨hdisposable, hk⟩
  case joinWait p => simpa [threadYield, Holds] using ⟨hst, hk⟩
  case mapcarGone => simpa [Holds] using ⟨hst, hk⟩
  all_goals simpa [deleteSpace, acquireLock, releaseLock, Holds] using hk

/-- The system calls that change no data; a `Join` shows the child that it waits for. -/
lemma Trap.holds (ht : Trap s.trapped k k') (other : ∀ j l, k' ≠ .joinWait j :: l)
    (hties : Ties os s.kin s.view) (hk : ∀ st' ∈ k, Holds os s.kin s.view s.currentThread st') :
    ∀ st' ∈ k', Holds os s.kin s.view s.currentThread st' := by
  cases ht
  case join => exact absurd rfl (other _ _)
  case exec a e p space pcb _ =>
    have hown : s.view.threadOf p = some s.currentThread := hties.own space pcb
    simpa [deleteSpace, acquireLock, releaseLock, Holds] using hown
  case execFail => simp [Holds]
  all_goals simpa [acquireLock, threadYield, Holds] using hk

/-- **Non-interference**: the running thread goes on, and what the others say survives. -/
lemma Joining.goto (h : Joining os s)
    (code : ∀ t, t ≠ s.currentThread →
      s₁.code t = s.code t ∨ s₁.code t = [.threadRoot, .childFunction]) (reported : Reported os' s₁.status) (ties : Ties os' s₁.kin s₁.view)
    (polls : Polls k') (own : ∀ st' ∈ k', Holds os' s₁.kin s₁.view s.currentThread st')
    (others : ∀ {t st'}, t ≠ s.currentThread → st' ∈ s.code t → Holds os s.kin s.view t st' →
      Holds os' s₁.kin s₁.view t st') : Joining os' (s₁.setCode s.currentThread k') := by
  refine ⟨reported, ties, fun t => ?_, fun {t st'} hst => ?_⟩
  · by_cases ht : t = s.currentThread
    · subst ht
      rw [code_setCode_self]
      exact polls
    · rw [code_setCode_of_ne ht]
      obtain hc | hc := code t ht <;> rw [hc]
      · exact h.polls t
      · simp [Polls, Stmt.scheduling]
  · by_cases ht : t = s.currentThread
    · subst ht
      rw [code_setCode_self] at hst
      exact own st' hst
    · rw [code_setCode_of_ne ht] at hst
      obtain hc | hc := code t ht <;> rw [hc] at hst
      · exact others ht hst (h.holds hst)
      · obtain rfl | rfl : st' = .threadRoot ∨ st' = .childFunction := by simpa using hst
        · trivial
        · trivial

/-- The links stay. -/
lemma Joining.same (h : Joining os s)
    (code : ∀ t, t ≠ s.currentThread →
      s₁.code t = s.code t ∨ s₁.code t = [.threadRoot, .childFunction])
    (reported : Reported os s₁.status) (kin : s₁.kin = s.kin) (view : s₁.view = s.view)
    (polls : Polls k')
    (own : ∀ st' ∈ k', Holds os s.kin s.view s.currentThread st') :
    Joining os (s₁.setCode s.currentThread k') := by
  refine h.goto code reported ?_ polls ?_ ?_
  · rw [kin, view]
    exact h.ties
  · rw [kin, view]
    exact own
  · intro t st' _ _ hh
    rw [kin, view]
    exact hh

/-- The target of a `Kill` leaves the list of its parent. -/
lemma kin_detach_cases (o : Objects) (p : PCBId) : (o.detach p).kin.live = o.kin.live ∧
    (o.detach p).kin.parent = o.kin.parent ∧
    ∀ {x c}, c ∈ (o.detach p).kin.children x → c ∈ o.kin.children x := by
  unfold Objects.detach
  dsimp only
  split
  · rw [kin_removeThread]
    exact ⟨rfl, rfl, id⟩
  next q hq =>
    rw [kin_setPCB, kin_removeThread]
    refine ⟨rfl, ?_, fun {x c} hc => ?_⟩
    · have hsame := congrFun (congrArg Kin.parent (kin_removeThread (o := o) (o.pcb.get p).thread)) q
      exact (congrArg (Function.update o.kin.parent q) hsame).trans (Function.update_eq_self ..)
    · have hsame :=
        congrFun (congrArg Kin.children (kin_removeThread (o := o) (o.pcb.get p).thread)) q
      by_cases hx : x = q
      · subst hx
        have hmem : c ∈ ((o.removeThread (o.pcb.get p).thread).pcb.get x).children.erase p := by
          simpa using hc
        rw [← hsame]
        exact List.mem_of_mem_erase hmem
      · simpa [hx] using hc

/-- A process that calls `Exit` has not exited. -/
lemma Owned.not_exited (ho : Owned s) (hcode : s.code s.currentThread = .user :: k) {a : SpaceId}
    {p : PCBId} (space : s.currentSpace = some a) (pcb : (s.space.get a).pcb = some p) :
    s.view.exited p = false := by
  have hmem : .user ∈ s.code s.currentThread := hcode ▸ List.mem_cons_self
  have hnot := ho.not_dying hmem rfl
  obtain ⟨ow, _, hptr, hout⟩ := ho
  have how : p < s.view.nextPCB ∧ ow p = (s.currentThread, false) := hptr.pcb space pcb
  refine Bool.eq_false_of_not_eq_true fun hx => hnot ?_
  have hd := hout.dying hx
  rwa [how.2] at hd

/-- **A step of a user program** keeps what the threads know of the links. -/
theorem Enters.joining (hen : Enters s k os' k' s₁) (hcode : s.code s.currentThread = .user :: k)
    (ho : Owned s) (h : Joining os s)
    (guard : Distinct s os' (s₁.setCode s.currentThread k')) :
    Joining (os ++ os') (s₁.setCode s.currentThread k') := by
  have hpolls := hen.polls (hcode ▸ h.polls s.currentThread)
  have hk : ∀ st' ∈ k, Holds os s.kin s.view s.currentThread st' := fun st' hst =>
    h.holds (hcode ▸ List.mem_cons_of_mem _ hst)
  have hk' : ∀ st' ∈ Stmt.tick :: .user :: k, Holds os s.kin s.view s.currentThread st' := by
    simpa [Holds] using hk
  have turn : ∀ {s₂ : State}, s₂.code = s.code → ∀ t, t ≠ s.currentThread →
      s₂.code t = s.code t ∨ s₂.code t = [.threadRoot, .childFunction] :=
    fun hc t _ => .inl (congrFun hc t)
  cases hen
  case instruction =>
    rw [List.append_nil]
    exact h.same (turn rfl) h.reported rfl rfl hpolls hk'
  case trap ht other =>
    rw [List.append_nil]
    exact h.same (turn rfl) h.reported rfl rfl hpolls
      (ht.holds other h.ties hk')
  case join p q pcb parent =>
    have hlive : s.pcb.live p = true := guard.2 p (.head _)
    have hlt : p < s.view.nextPCB := lt_next_of_live hlive
    have hparent : s.kin.parent p = some q := parent
    obtain ⟨a, ha, hq⟩ := space_of_currentPCB pcb
    have hown : s.view.threadOf q = some s.currentThread := h.ties.own ha hq
    have joins : ∀ {p'}, .joins p' ∈ os ++ [.joins p] → .joins p' ∈ os ∨ s.kin.parent p' ≠ none := by
      intro p' hp'
      obtain hp' | hp' := List.mem_append.mp hp'
      · exact .inl hp'
      · obtain rfl := StatusEvent.joins.inj (List.mem_singleton.mp hp')
        exact .inr fun hnone => by cases hparent.symm.trans hnone
    have extend : ∀ {t st}, Holds os s.kin s.view t st →
        Holds (os ++ [.joins p]) s.kin s.view t st := fun hh =>
      hh.extend (fun _ => List.mem_append_left _) rfl rfl id rfl rfl rfl joins
    refine h.goto (turn rfl) ⟨fun hp => ?_, fun hp => ?_⟩ { h.ties with joined := fun hp => ?_ } hpolls
      ?_ fun _ _ => extend
    · exact h.reported.exits (by simpa using hp)
    · obtain ⟨status, hs⟩ := h.reported.exited hp
      exact ⟨status, List.mem_append_left _ hs⟩
    · obtain hp | hp := List.mem_append.mp hp
      · exact h.ties.joined hp
      · obtain rfl := StatusEvent.joins.inj (List.mem_singleton.mp hp)
        exact hlt
    · rw [List.forall_mem_cons]
      refine ⟨⟨List.mem_append_right _ (.head _), fun q' hq' => .inr ?_,
        a, q, ha, hq, .inr ⟨hlive, hparent⟩⟩, fun st' hst => extend (hk' st' hst)⟩
      obtain rfl : q = q' := Option.some.inj (hparent.symm.trans hq')
      exact hown
  case exit a p status space pcb =>
    have hne : status ≠ PCB.notExited := guard.1 p status (.head _)
    have hnot := ho.not_exited hcode space pcb
    have hview : (s.trapped.exiting p status).view = s.view.exit p (status != PCB.notExited) :=
      view_exiting s.trapped p status
    have hkin : (s.trapped.exiting p status).kin = s.kin := kin_exiting (s := s.trapped) p status
    have hstatus : (s.trapped.exiting p status).status = Function.update s.status p status :=
      status_exiting (s := s.trapped) p status
    have joins : ∀ {p'}, .joins p' ∈ os ++ [.exits p status] → .joins p' ∈ os := by
      intro p' hp'
      simpa using hp'
    refine h.goto (turn rfl) (hstatus ▸ ⟨fun {q v} hq => ?_, fun {q} hq => ?_⟩) ?_ hpolls ?_
      fun _ _ hh => ?_
    · obtain hold | hnew := List.mem_append.mp hq
      · -- it was another process that exited before
        have hqp : q ≠ p := by
          rintro rfl
          rw [h.reported.view_exited hold] at hnot
          cases hnot
        rw [Function.update_of_ne hqp]
        exact h.reported.exits hold
      · obtain ⟨rfl, rfl⟩ := StatusEvent.exits.inj (List.mem_singleton.mp hnew)
        exact ⟨Function.update_self .., hne⟩
    · by_cases hqp : q = p
      · subst hqp
        exact ⟨status, List.mem_append_right _ (.head _)⟩
      · rw [Function.update_of_ne hqp] at hq
        obtain ⟨v, hv⟩ := h.reported.exited hq
        exact ⟨v, List.mem_append_left _ hv⟩
    · rw [hkin, hview]
      exact { h.ties with joined := fun hp => h.ties.joined (joins hp) }
    · simpa [Holds] using .inr ⟨status, List.mem_append_right _ (.head _)⟩
    · rw [hkin, hview]
      exact hh.extend (fun _ => List.mem_append_left _) rfl rfl id rfl rfl rfl fun hp => .inl (joins hp)
  case kill p =>
    obtain ⟨hlive, hparent, hchildren⟩ := kin_detach_cases s.toObjects p
    have hview : (s.trapped.withObjects (s.detach p)).view = s.view := view_detach _ p
    have hkin : (s.trapped.withObjects (s.detach p)).kin = (s.detach p).kin := rfl
    have hstatus : (s.trapped.withObjects (s.detach p)).status = s.status := status_detach p
    have joins : ∀ {p'}, .joins p' ∈ os ++ [.killed p] → .joins p' ∈ os := by
      intro p' hp'
      simpa using hp'
    have extend : ∀ {t st}, Holds os s.kin s.view t st →
        Holds (os ++ [.killed p]) (s.detach p).kin s.view t st := fun hh =>
      hh.extend (fun _ => List.mem_append_left _) hlive hparent hchildren rfl rfl rfl
        fun hp => .inl (joins hp)
    refine h.goto (turn rfl) (hstatus ▸ ⟨fun {q v} hq => ?_, fun {q} hq => ?_⟩) ?_ hpolls ?_
      fun _ _ hh => ?_
    · exact h.reported.exits (by simpa using hq)
    · obtain ⟨v, hv⟩ := h.reported.exited hq
      exact ⟨v, List.mem_append_left _ hv⟩
    · rw [hkin, hview]
      have hcut := h.ties.cut hchildren fun hq => by rwa [hparent] at hq
      exact { hcut with joined := fun hp => h.ties.joined (joins hp) }
    · rw [hkin, hview, List.forall_mem_cons, List.forall_mem_cons]
      exact ⟨.inl (List.mem_append_right _ (.head _)), trivial, fun st' hst => extend (hk' st' hst)⟩
    · rw [hkin, hview]
      exact extend hh

/-! ### The steps that change the links -/

variable {ow osp : ℕ → Owner} {t : Tid} {st' : Stmt}

/-- A new PCB. -/
lemma Holds.newPCB (hh : Holds os s.kin s.view t st') (hties : Ties os s.kin s.view) :
    Holds os (s.kin.newPCB s.view.nextPCB) s.view.newPCB t st' := by
  have thread : ∀ {q}, s.view.threadOf q = some t → s.view.newPCB.threadOf q = some t := fun hq =>
    (Function.update_of_ne (Nat.ne_of_lt (hties.thread hq)) ..).trans hq
  refine hh.mono (fun _ => id) (fun _ _ => thread) (fun {p} _ hno hnone hx => ⟨hno, ?_, fun x hc => ?_⟩)
    (fun {p q} _ hq => ?_) (fun hq => .inl (thread hq)) fun {p} _ ha => ?_
  · by_cases hp : p = s.view.nextPCB
    · subst hp
      exact Function.update_self ..
    · exact (Function.update_of_ne hp ..).trans hnone
  · by_cases hxn : x = s.view.nextPCB
    · subst hxn
      simp [Kin.newPCB] at hc
    · exact hx x (by simpa [Kin.newPCB, hxn] using hc)
  · by_cases hp : p = s.view.nextPCB
    · subst hp
      simp [Kin.newPCB] at hq
    · simpa [Kin.newPCB, hp] using hq
  · refine ha.mono hties rfl (fun _ => rfl) id fun {q} hlive hparent _ => .inr ?_
    have hp : p ≠ s.view.nextPCB := by
      rintro rfl
      exact absurd (lt_next_of_live hlive) (Nat.lt_irrefl _)
    exact ⟨(Function.update_of_ne hp ..).trans hlive, (Function.update_of_ne hp ..).trans hparent⟩

/-- A new address space. -/
lemma Holds.newSpace (hh : Holds os s.kin s.view t st') (hties : Ties os s.kin s.view)
    (hp : Pointers ow osp s.view) : Holds os s.kin (s.view.newSpace none) t st' := by
  refine hh.mono (fun _ => id) (fun _ _ => id) (fun _ hno hnone hx => ⟨hno, hnone, hx⟩)
    (fun _ => id) .inl fun _ ha => ?_
  refine ha.mono hties rfl (fun ha' => ?_) id fun hlive hparent _ => .inr ⟨hlive, hparent⟩
  exact Function.update_of_ne (Nat.ne_of_lt (hp.space ha').1) ..

/-- A new address space of the running thread, or none: it is not in a `Join`. -/
lemma Holds.setSpace (hh : Holds os s.kin s.view t st') (hties : Ties os s.kin s.view) {v' : View}
    (hthread : v'.threadOf = s.view.threadOf)
    (hspace : (∀ p, st' ≠ .joinWait p) ∨ v'.spaceOf t = s.view.spaceOf t ∧
      ∀ {a}, s.view.spaceOf t = some a → v'.pcbOf a = s.view.pcbOf a) :
    Holds os s.kin v' t st' := by
  have thread : ∀ {q}, s.view.threadOf q = some t → v'.threadOf q = some t := fun hq => by
    rwa [hthread]
  refine hh.mono (fun _ => id) (fun _ _ => thread) (fun _ hno hnone hx => ⟨hno, hnone, hx⟩)
    (fun _ => id) (fun hq => .inl (thread hq)) fun {p} hst ha => ?_
  obtain hno | ⟨hsp, hpcb⟩ := hspace
  · exact absurd hst (hno p)
  · exact ha.mono hties hsp hpcb id fun hlive hparent _ => .inr ⟨hlive, hparent⟩

/-- A thread that has something else to do than to exit. -/
lemma Owned.not_ended (ho : Owned s) {q : PCBId} (hst : st' ∈ s.code t)
    (hwork : st'.inExit = false) (hq : s.view.threadOf q = some t) : s.view.exited q = false := by
  refine Bool.eq_false_of_not_eq_true fun hx => ho.not_dying hst hwork ?_
  obtain ⟨ow, _, hptr, hout⟩ := ho
  have hd := hout.dying hx
  rwa [(hptr.thread hq).2] at hd

/-- A child whose parent is in a `Join` loses it only when the parent was killed. -/
lemma Joining.killed_of_ended (h : Joining os s) (ho : Owned s) {p q : PCBId}
    (hst : .joinWait p ∈ s.code t) (hq : s.view.threadOf q = some t) (he : Ended os q) :
    .killed q ∈ os := by
  obtain hk | ⟨status, hx⟩ := he
  · exact hk
  · have hno := ho.not_ended hst rfl hq
    rw [h.reported.view_exited hx] at hno
    cases hno

/-- The child that is ahead in a walk loses its parent. -/
lemma Joining.orphan (h : Joining os s) (ho : Owned s) {p c : PCBId} {ahead : List PCBId}
    (hcode : s.code s.currentThread = .mapcar p (c :: ahead) :: k)
    (child : c ∈ (s.pcb.get p).children) (hmem : st' ∈ s.code t) :
    Holds os { s.kin with parent := Function.update s.kin.parent c none } s.view t st' := by
  have hwalk : Holds os s.kin s.view s.currentThread (.mapcar p (c :: ahead)) :=
    h.holds (hcode ▸ List.mem_cons_self)
  refine (h.holds hmem).mono (fun _ => id) (fun _ _ => id)
    (fun {x} _ hnj hnone hx => ⟨hnj, ?_, hx⟩) (fun {x q} _ hq => ?_) .inl fun {j} hst ha => ?_
  · by_cases hxc : x = c
    · subst hxc
      exact Function.update_self ..
    · exact (Function.update_of_ne hxc ..).trans hnone
  · by_cases hxc : x = c
    · subst hxc
      simp at hq
    · simpa [hxc] using hq
  · refine ha.mono h.ties rfl (fun _ => rfl) id fun {q} hlive hparent hq => ?_
    by_cases hjc : j = c
    · -- the parent of the child is the process that walks
      subst hjc
      obtain rfl := h.ties.parent child hparent
      exact .inl (h.killed_of_ended ho (hst ▸ hmem) hq hwalk)
    · exact .inr ⟨hlive, (Function.update_of_ne hjc ..).trans hparent⟩

/-- The PCB that a `Fork` is making belongs to it. -/
lemma Outlined.owner_of_made {v : View} {code : Tid → List Stmt} (hout : Outlined ow osp v code)
    {p : PCBId} (hmem : st' ∈ code t) (hmade : st'.made = some p) :
    st'.inFork = true ∧ ow p = (t, true) := by
  have hst := hout.stmt hmem
  cases st'
  case saveParent | copySpace =>
    cases hmade
    exact ⟨rfl, hst.2⟩
  case startChild =>
    cases hmade
    exact ⟨rfl, hst.1.2⟩
  all_goals cases hmade

/-- A PCB that is deleted, or waited for, is not in the making. -/
lemma Joining.ne_of_disposes (h : Joining os s) (hout : Outlined ow osp s.view s.code) {p x : PCBId}
    {u : Tid} (how : ow p = (u, true)) (hno : .joins p ∉ os) (hmem : st' ∈ s.code t)
    (hd : st'.disposes = some x) : x ≠ p := by
  have hst := hout.stmt hmem
  have hh := h.holds hmem
  rintro rfl
  cases st'
  case clearPid | destroyPCB | unlinkPCB =>
    cases hd
    have hfalse := hst.2.1
    rw [how] at hfalse
    cases hfalse
  case joinWait =>
    cases hd
    exact hno hh.1
  all_goals cases hd

/-- A child is linked to its thread and its parent: no other statement names it. -/
lemma Joining.link (h : Joining os s) (hp : Pointers ow osp s.view)
    (hout : Outlined ow osp s.view s.code) {call : Registers} {p q : PCBId} {a : SpaceId}
    (hcode : s.code s.currentThread = .startChild call p a :: k) (hmem : st' ∈ s.code t)
    (hfork : st'.inFork = true → t ≠ s.currentThread) :
    Holds os (s.kin.link p q s.view.nextThread) (s.view.link p a) t st' := by
  have hst : .startChild call p a ∈ s.code s.currentThread := hcode ▸ List.mem_cons_self
  obtain ⟨⟨-, how⟩, -, hos⟩ := hout.stmt hst
  obtain ⟨hnojoin, hnone, -⟩ := h.holds hst
  have hborn : t ≠ s.view.nextThread := by
    rintro rfl
    rw [hout.unborn (Nat.le_refl _)] at hmem
    cases hmem
  have thread : ∀ {x}, s.view.threadOf x = some t → (s.view.link p a).threadOf x = some t := by
    intro x hx
    refine (Function.update_of_ne ?_ ..).trans hx
    rintro rfl
    cases how.symm.trans (hp.thread hx).2
  have other : ∀ {x}, st'.made = some x → x ≠ p := by
    rintro x hmade rfl
    obtain ⟨hinFork, howner⟩ := hout.owner_of_made hmem hmade
    exact hfork hinFork (congrArg Prod.fst (howner.symm.trans how))
  refine (h.holds hmem).mono (fun _ => id) (fun _ _ => thread)
    (fun {x} hmade hno hx hc => ⟨hno, ?_, fun y hy => ?_⟩) (fun {x y} hd hy => ?_)
    (fun hx => .inl (thread hx)) fun {j} _ ha => ?_
  · exact (Function.update_of_ne (other hmade) ..).trans hx
  · by_cases hyq : y = q
    · subst hyq
      have hmem' : x ∈ s.kin.children y ++ [p] := by simpa [Kin.link] using hy
      obtain hmem' | hmem' := List.mem_append.mp hmem'
      · exact hc y hmem'
      · exact other hmade (List.mem_singleton.mp hmem')
    · exact hc y (by simpa [Kin.link, hyq] using hy)
  · have hxp := h.ne_of_disposes hout how hnojoin hmem hd
    exact (Function.update_of_ne hxp ..).symm.trans hy
  · refine ha.mono h.ties (Function.update_of_ne hborn ..) (fun {b} hb => ?_) id
      fun {x} hlive hparent _ => .inr ⟨hlive, ?_⟩
    · refine Function.update_of_ne ?_ ..
      rintro rfl
      cases hos.symm.trans (hp.space hb).2
    · refine (Function.update_of_ne ?_ ..).trans hparent
      rintro rfl
      cases hnone.symm.trans hparent

/-- A PCB is deleted, and the thread of a process that has exited is cut off. -/
lemma Joining.unlink (h : Joining os s) (ho : Owned s) {p : PCBId} {v' : View}
    (hcode : s.code s.currentThread = .unlinkPCB p :: k) (hmem : st' ∈ s.code t)
    (hno : t = s.currentThread → ∀ j, st' ≠ .joinWait j)
    (hview : v' = s.view ∨ ∃ u, s.view.threadOf p = some u ∧ u ≠ s.currentThread ∧
      v' = s.view.unlink p u) :
    Holds os { s.kin with live := Function.update s.kin.live p false } v' t st' := by
  have hst : .unlinkPCB p ∈ s.code s.currentThread := hcode ▸ List.mem_cons_self
  have hdisposable : Disposable os s.kin s.view s.currentThread p := h.holds hst
  -- the thread that is cut off has exited
  have cut : ∀ {u}, s.view.threadOf p = some u → u ≠ s.currentThread →
      Ended os p ∧ Dying (s.code u) := by
    intro u hu hne
    obtain ⟨ow, _, hp, hout⟩ := ho
    refine ⟨.inr ?_, hout.dying_of_unlink hp hst hu hne⟩
    obtain ⟨-, -, hx | how⟩ := hout.stmt hst
    · exact h.reported.exited (exited_iff.mp hx)
    · exact absurd (congrArg Prod.fst ((hp.thread hu).2.symm.trans how)) hne
  have busy : st'.inExit = false → ∀ {u}, s.view.threadOf p = some u → u ≠ s.currentThread →
      t ≠ u := by
    rintro hwork u hu hne rfl
    exact ho.not_dying hmem hwork (cut hu hne).2
  have thread : ∀ {q}, s.view.threadOf q = some t →
      v'.threadOf q = some t ∨ q = p ∧ t ≠ s.currentThread := by
    intro q hq
    obtain rfl | ⟨u, hu, hne, rfl⟩ := hview
    · exact .inl hq
    · by_cases hqp : q = p
      · subst hqp
        obtain rfl := Option.some.inj (hu.symm.trans hq)
        exact .inr ⟨rfl, hne⟩
      · exact .inl ((Function.update_of_ne hqp ..).trans hq)
  refine (h.holds hmem).mono (fun _ => id) (fun hload q hq => ?_)
    (fun _ hnj hnone hx => ⟨hnj, hnone, hx⟩) (fun _ => id) (fun {q} hq => ?_) fun {j} hj ha => ?_
  · obtain ht | ⟨rfl, hne⟩ := thread hq
    · exact ht
    · exact absurd rfl (busy (Stmt.inExit_of_returns (Stmt.returns_of_isLoad hload)) hq hne)
  · obtain ht | ⟨rfl, hne⟩ := thread hq
    · exact .inl ht
    · exact .inr (cut hq hne).1
  · have hne : t ≠ s.currentThread := fun ht => hno ht j hj
    subst hj
    refine ha.mono h.ties ?_ (fun _ => ?_) id fun {q} hlive hparent hq => ?_
    · obtain rfl | ⟨u, hu, hneu, rfl⟩ := hview
      · rfl
      · exact Function.update_of_ne (busy rfl hu hneu) ..
    · obtain rfl | ⟨u, -, -, rfl⟩ := hview
      · rfl
      · rfl
    · by_cases hjp : j = p
      · -- the child of a parent in a `Join` is deleted by nobody else
        subst hjp
        obtain he | hcur := hdisposable q hparent
        · exact .inl (h.killed_of_ended ho hmem hq he)
        · exact absurd (Option.some.inj (hq.symm.trans hcur)) hne
      · exact .inr ⟨(Function.update_of_ne hjp ..).trans hlive, hparent⟩

/-- **Every step but a system call** keeps what the threads know of the links. -/
theorem Rule.joining (hr : Rule s st k k' es s₁) (hst : st ≠ .user)
    (hcode : s.code s.currentThread = st :: k) (ho : Owned s) (h : Joining os s) :
    Joining os (s₁.setCode s.currentThread k') := by
  have hpolls := hr.polls hst (hcode ▸ h.polls s.currentThread)
  have hrep := hr.reported hst ho h.reported
  have hpoll := h.polls s.currentThread
  rw [hcode] at hpoll
  have hall : ∀ st' ∈ st :: k, Holds os s.kin s.view s.currentThread st' := fun st' hmem =>
    h.holds (hcode ▸ hmem)
  obtain ⟨hown, hk⟩ := List.forall_mem_cons.mp hall
  have code : ∀ t, t ≠ s.currentThread →
      s₁.code t = s.code t ∨ s₁.code t = [.threadRoot, .childFunction] := by
    intro t ht
    obtain ⟨hc, -⟩ | ⟨_, _, _, -, -, hc, -⟩ := hr.thread_cases hcode ho ht
    · exact .inl hc
    · exact .inr hc
  cases hr
  case instruction | trap | exit | kill => exact absurd rfl hst
  case control hc => exact h.same code hrep rfl rfl hpolls (hc.holds h.ties hall)
  case interrupt => exact h.same code hrep rfl rfl hpolls hk
  case timeSlice =>
    exact h.same code hrep rfl rfl hpolls (by simpa [threadYield, Holds] using hk)
  case block | yield =>
    exact h.same code hrep (kin_run _) (view_run ..) hpolls (by simpa [Holds] using hk)
  case release => exact h.same code hrep (kin_releaseOf _) (view_releaseOf ..) hpolls hk
  case finish =>
    exact h.same code hrep (kin_run _) (view_run ..) hpolls fun _ hmem => by cases hmem
  case childFunction => exact h.same code hrep rfl rfl hpolls (by simp [Holds])
  case saveParent call p =>
    refine h.same code hrep rfl (view_saveUserState s) hpolls ?_
    simp only [acquireLock, List.cons_append, List.nil_append, List.forall_mem_cons]
    exact ⟨trivial, trivial, hown, hk⟩
  case clearPid p b live clear =>
    have hdisposable : Disposable os s.kin s.view s.currentThread p := hown
    refine h.same code hrep rfl rfl hpolls ?_
    obtain he | ⟨a, -, he⟩ := destroyPCB_eq s p <;> rw [he] <;>
      simpa [deleteSpace, acquireLock, releaseLock, Holds] using ⟨hdisposable, hk⟩
  case freeFrames hf => exact h.same code hrep (kin_freeFrames hf) (view_freeFrames _ hf) hpolls hk
  case freeSpace hf => exact h.same code hrep (kin_freeSpace hf) (view_freeSpace _ hf) hpolls hk
  case killReturn => exact h.same code hrep rfl rfl hpolls (by simpa [Holds] using hk)
  case take | forkReturn | forgetPid | incrementPC | ret => exact h.same code hrep rfl rfl hpolls hk
  case resume hs₁ =>
    obtain ⟨-, hkin⟩ := kin_afterSwitch hs₁
    have hlinks : s₁.kin.live = s.kin.live ∧ s₁.kin.parent = s.kin.parent ∧
        s₁.kin.children = s.kin.children := by
      obtain hkin | ⟨t, -, hkin⟩ := hkin <;> rw [hkin] <;> exact ⟨rfl, rfl, rfl⟩
    obtain ⟨hlive, hparent, hchildren⟩ := hlinks
    have subset : ∀ {x c}, c ∈ s₁.kin.children x → c ∈ s.kin.children x := fun hc => by
      rwa [hchildren] at hc
    have keep : ∀ {t st'}, Holds os s.kin s.view t st' → Holds os s₁.kin s₁.view t st' := by
      intro t st' hh
      rw [view_afterSwitch s hs₁]
      exact hh.extend (fun _ => id) hlive hparent subset rfl rfl rfl .inl
    refine h.goto code hrep ?_ hpolls (fun st' hmem => keep (hk st' hmem)) fun _ _ => keep
    rw [view_afterSwitch s hs₁]
    exact h.ties.cut subset fun hq => by rwa [hparent] at hq
  case allocatePCB call p o hp =>
    obtain ⟨rfl, hkin⟩ := kin_allocatePCB hp
    obtain ⟨-, hview⟩ := view_allocatePCB s.toObjects hp
    have hkin' : (s.withObjects o).kin = s.kin.newPCB s.view.nextPCB := hkin
    have hview' : (s.withObjects o).view = s.view.newPCB := hview
    obtain ⟨ow, osp, hptr, hout⟩ := ho
    have hties := h.ties.newPCB hptr
    refine h.goto code hrep ?_ hpolls ?_ fun {t st'} _ _ hh => ?_
    · rw [hkin', hview']
      exact hties
    · rw [hkin', hview']
      simp only [releaseLock, List.cons_append, List.nil_append, List.forall_mem_cons]
      refine ⟨trivial, trivial, ⟨fun hj => ?_, Function.update_self .., fun x hc => ?_⟩,
        fun st' hmem => (hk st' hmem).newPCB h.ties⟩
      · exact absurd (h.ties.joined hj) (Nat.lt_irrefl _)
      · by_cases hx : x = s.view.nextPCB
        · subst hx
          simp [Kin.newPCB] at hc
        · have hc' : s.view.nextPCB ∈ s.kin.children x := by simpa [Kin.newPCB, hx] using hc
          exact absurd (h.ties.child hc') (Nat.lt_irrefl _)
    · rw [hkin', hview']
      exact hh.newPCB h.ties
  case copySpace call p a space room =>
    obtain ⟨ow, osp, hptr, hout⟩ := ho
    have hview : (s.withObjects (s.newSpace none (s.space.get a).numPages).2).view =
      s.view.newSpace none := view_newSpace ..
    have hkin : (s.withObjects (s.newSpace none (s.space.get a).numPages).2).kin = s.kin := rfl
    refine h.goto code hrep ?_ hpolls ?_ fun {t st'} _ _ hh => ?_
    · rw [hkin, hview]
      exact h.ties.newSpace hptr
    · rw [hkin, hview]
      simp only [releaseLock, List.cons_append, List.nil_append, List.forall_mem_cons]
      exact ⟨trivial, trivial, hown, fun st' hmem => (hk st' hmem).newSpace h.ties hptr⟩
    · rw [hkin, hview]
      exact hh.newSpace h.ties hptr
  case startChild call p a q pcb =>
    obtain ⟨a₀, ha₀, hq₀⟩ := space_of_currentPCB pcb
    obtain ⟨ow, osp, hptr, hout⟩ := ho
    have hmem₀ : .startChild call p a ∈ s.code s.currentThread := hcode ▸ List.mem_cons_self
    obtain ⟨hpu, hau⟩ := hout.stmt hmem₀
    have hpq : p ≠ q := by
      rintro rfl
      have howner : p < s.view.nextPCB ∧ ow p = (s.currentThread, false) := hptr.pcb ha₀ hq₀
      cases hpu.2.symm.trans howner.2
    have hkin : (s.linkChild p q a (childRegisters (call.gpr 4) s.registers)).2.kin =
      s.kin.link p q s.view.nextThread := kin_linkChild a _ hpq
    have hview := view_linkChild s.toObjects p q a (childRegisters (call.gpr 4) s.registers)
    have honce := hout.once s.currentThread
    rw [hcode] at honce
    have keep : ∀ {t st'}, st' ∈ s.code t → (st'.inFork = true → t ≠ s.currentThread) →
        Holds os (s.linkChild p q a (childRegisters (call.gpr 4) s.registers)).2.kin
          (s.linkChild p q a (childRegisters (call.gpr 4) s.registers)).2.view t st' := by
      intro t st' hmem hfork
      rw [hkin, hview]
      exact h.link hptr hout hcode hmem hfork
    refine h.goto code hrep ?_ hpolls ?_ fun {t st'} ht hmem _ => keep hmem fun _ => ht
    · show Ties os (s.linkChild p q a _).2.kin (s.linkChild p q a _).2.view
      rw [hkin, hview]
      exact h.ties.link hptr hpu hau hown.2.2
    · refine List.forall_mem_cons.mpr ⟨trivial, List.forall_mem_cons.mpr ⟨trivial, fun st' hmem => ?_⟩⟩
      refine keep (hcode ▸ List.mem_cons_of_mem _ hmem) fun hfork => ?_
      cases (honce.tail rfl hmem).symm.trans hfork
  case loadFail e p =>
    have hview : s.dropSpace.view = s.view.setSpaceOf s.currentThread none := view_dropSpace ..
    have hkin : s.dropSpace.kin = s.kin := rfl
    have hno := hpoll.tail rfl
    refine h.goto code hrep ?_ hpolls (fun st' hmem => ?_) fun {t st'} ht hmem hh => ?_
    · rw [hkin, hview]
      exact h.ties.dropSpace _
    · rw [hkin, hview]
      refine (hk st' hmem).setSpace h.ties rfl (.inl ?_)
      rintro j rfl
      exact hno j hmem
    · rw [hkin, hview]
      exact hh.setSpace h.ties rfl (.inr ⟨Function.update_of_ne ht .., fun _ => rfl⟩)
  case load e p room =>
    have hview : (s.dropSpace.loaded p e.numPages).view = ((s.view.setSpaceOf s.currentThread
        none).newSpace (some p)).setSpaceOf s.currentThread (some s.view.nextSpace) := by
      rw [view_loaded, view_dropSpace]
      rfl
    have hkin : (s.dropSpace.loaded p e.numPages).kin = s.kin := rfl
    have hno := hpoll.tail rfl
    obtain ⟨ow, osp, hptr, hout⟩ := ho
    refine h.goto code hrep ?_ hpolls (fun st' hmem => ?_) fun {t st'} ht hmem hh => ?_
    · rw [hkin, hview]
      exact h.ties.load hptr hown
    · rw [hkin, hview]
      refine (hk st' hmem).setSpace h.ties rfl (.inl ?_)
      rintro j rfl
      exact hno j hmem
    · rw [hkin, hview]
      refine hh.setSpace h.ties rfl (.inr ⟨?_, fun ha => ?_⟩)
      · exact (Function.update_of_ne ht ..).trans (Function.update_of_ne ht ..)
      · exact Function.update_of_ne (Nat.ne_of_lt (hptr.space ha).1) ..
  case orphan p c ahead child alive =>
    have hkin : (s.withObjects (s.setPCB c fun pcb => { pcb with parent := none })).kin =
      { s.kin with parent := Function.update s.kin.parent c none } := kin_orphan (o := s.toObjects) c
    have hview : (s.withObjects (s.setPCB c fun pcb => { pcb with parent := none })).view = s.view :=
      view_setPCB_same s.toObjects c _ (fun _ => rfl) fun _ => rfl
    refine h.goto code hrep ?_ hpolls ?_ fun {t st'} _ hmem _ => ?_
    · rw [hkin, hview]
      refine h.ties.cut id fun {x q} hq => ?_
      by_cases hx : x = c
      · subst hx
        simp at hq
      · simpa [hx] using hq
    · rw [hkin, hview, List.forall_mem_cons]
      exact ⟨hown, fun st' hmem =>
        h.orphan ho hcode child (hcode ▸ List.mem_cons_of_mem _ hmem)⟩
    · rw [hkin, hview]
      exact h.orphan ho hcode child hmem
  case unlinkPCB p o ho' =>
    have hkin : (s.withObjects o).kin =
      { s.kin with live := Function.update s.kin.live p false } := kin_unlink ho'
    have hview : (s.withObjects o).view = s.view ∨ ∃ u, s.view.threadOf p = some u ∧
        u ≠ s.currentThread ∧ (s.withObjects o).view = s.view.unlink p u := by
      obtain ⟨-, hv⟩ | hv := view_unlink s.toObjects ho'
      · exact .inl hv
      · exact .inr hv
    have hno := hpoll.tail rfl
    refine h.goto code hrep ?_ hpolls (fun st' hmem => ?_) fun {t st'} ht hmem _ => ?_
    · rw [hkin]
      have hties : Ties os s.kin (s.withObjects o).view := by
        obtain hv | ⟨u, hu, -, hv⟩ := hview <;> rw [hv]
        · exact h.ties
        · exact h.ties.unlink hu
      exact hties.cut id id
    · rw [hkin]
      refine h.unlink ho hcode (hcode ▸ List.mem_cons_of_mem _ hmem) ?_ hview
      rintro - j rfl
      exact hno j hmem
    · rw [hkin]
      exact h.unlink ho hcode hmem (fun htc => absurd htc ht) hview

end Joining

/-! ### The pids of the processes -/

/-- The pids are indices of the table. -/
structure Numbered (s : State) : Prop where
  numBits : s.table.bitmap.numBits = maxProcesses
  pid : ∀ p < s.table.next, s.table.pid p < maxProcesses

section Numbered

variable {s s₁ s₀ : State} {st : Stmt} {k k' : List Stmt} {es tr : List Event} {o o' : Objects}
  {e : Executable}

lemma pid_allocatePCB {p : PCBId} (h : o.allocatePCB = .ok (p, o')) :
    o'.table.pid p < o.bitmap.numBits := by
  unfold Objects.allocatePCB at h
  split at h
  · cases h
  next hne =>
    obtain ⟨i, hi, -, -, hfind⟩ | ⟨-, hfind⟩ := o.bitmap.find_cases
    · rw [hfind] at h
      cases h
      have hpid : (({ o with pcb := o.pcb.new (.new i) } : Objects).table.pid o.pcb.next) = i :=
        congrArg PCB.pid Heap.get_new_next
      exact hpid.trans_lt hi
    · rw [hfind] at hne
      exact absurd rfl hne

lemma Tabled.next_eq (ht : Tabled s s₁ st k k') (hst : ∀ call, st ≠ .allocatePCB call) :
    s₁.table.next = s.table.next := by
  cases ht
  case allocatePCB call _ _ _ _ _ => exact absurd rfl (hst call)
  case same table _ _ => rw [table]
  case clearPid table | unlinkPCB table | forgetPid table => rw [table]

lemma Rule.numbered (hr : Rule s st k k' es s₁) (h : Numbered s) :
    Numbered (s₁.setCode s.currentThread k') := by
  obtain ⟨-, hpid, hbits⟩ := hr.tabled.frame
  refine ⟨hbits.trans h.numBits, fun p hp => ?_⟩
  have hp' : p < s₁.table.next := hp
  show s₁.table.pid p < maxProcesses
  by_cases hold : p < s.table.next
  · rw [hpid p hold]
    exact h.pid p hold
  · have hnew : ∃ call, st = .allocatePCB call := by
      by_contra hno
      rw [hr.tabled.next_eq fun call hst => hno ⟨call, hst⟩] at hp'
      exact hold hp'
    obtain ⟨call, rfl⟩ := hnew
    cases hr
    case control hc => cases hc
    case interrupt hst | timeSlice hst => obtain hst | hst := hst <;> cases hst
    case allocatePCB q o hq =>
      obtain ⟨hfresh, pid, -, htable⟩ := table_allocatePCB hq
      have hnext : o.table.next = q + 1 := by rw [htable]
      have hlt : p < q + 1 := hnext ▸ hp'
      have hge : q ≤ p := hfresh ▸ Nat.le_of_not_lt hold
      obtain rfl : p = q := Nat.le_antisymm (Nat.le_of_lt_succ hlt) hge
      rw [← h.numBits]
      exact pid_allocatePCB hq

end Numbered

/-! ### Runs -/

section Runs

variable {s s' s₀ : State} {e : Executable} {k : List Stmt} {os : List StatusEvent} {p q : PCBId}
  {status : Word} {cs : List Choice} {c : Choice}

/-- The runs in which exits can be told from no exit, and children are joined once. -/
abbrev DistinctRun : State → List StatusEvent → State → Prop :=
  Run (Guarded Distinct (StepOf (observed step statusEvents)))

lemma DistinctRun.run (h : DistinctRun s₀ os s) : ∃ tr, Run Step s₀ tr s :=
  (h.of_guarded.observed_invariant (I := fun _ _ => True) trivial fun _ _ _ => trivial).1

end Runs

/-! ### A child that exits with -9999, and one that exits with 7 -/

/-- Is the event allowed, and no `Kill`? -/
def StatusEvent.distinct (s : State) : StatusEvent → Bool
  | exits _ status => status != PCB.notExited
  | killed _ => false
  | joins p => s.pcb.live p

end Nachos.Process
