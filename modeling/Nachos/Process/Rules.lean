import Nachos.Lib.Except
import Nachos.Process.Machine

/-!
# What a step can do

`Control` and `Trap` list the statements and the system calls that only decide what is executed
next; `Rule` lists all steps, and `step_rule` reads a step of the machine as a rule. Every
invariant below is proved from the rules, and none unfolds `step`.
-/

namespace Nachos.Process

open Lib Threads Mips Userprog

/-- The statements that change no data: what follows `st :: k`. -/
inductive Control (s : State) : Stmt → List Stmt → List Stmt → Prop
  | tick {k} : Control s .tick k k
  | threadRoot {k} : Control s .threadRoot k k
  | yield {k} (h : s.readyList = []) : Control s .yield k k
  | copySpace {call p k} : Control s (.copySpace call p) k (.ret (-1) :: k)
  | mapcarNil {p k} : Control s (.mapcar p []) k k
  | mapcarExited {p c ahead k} (child : c ∈ (s.pcb.get p).children)
      (exited : (s.pcb.get c).hasExited = true) :
      Control s (.mapcar p (c :: ahead)) k (deallocatePCB c ++ .mapcar p ahead :: k)
  | mapcarGone {p c ahead k} : Control s (.mapcar p (c :: ahead)) k (.mapcar p ahead :: k)
  | exitDeallocate {p k} (h : (s.pcb.get p).parent = none) :
      Control s (.exitDeallocate p) k (deallocatePCB p ++ k)
  | exitParent {p k} : Control s (.exitDeallocate p) k k
  | exitSpaceGone {k} (h : s.currentSpace = none) : Control s .exitSpace k k
  | exitSpace {a k} (h : s.currentSpace = some a) : Control s .exitSpace k (deleteSpace a ++ k)
  | destroyPCB {p k} (live : s.pcb.live p = true) :
      Control s (.destroyPCB p) k (s.destroyPCB p ++ k)
  | joinExited {j k} (exited : (s.pcb.get j).hasExited = true) :
      Control s (.joinWait j) k (.destroyPCB j :: .joinReturn (s.pcb.get j).exitStatus :: k)
  | joinWait {j k} : Control s (.joinWait j) k (threadYield ++ .joinWait j :: k)
  | joinReturn {status k} : Control s (.joinReturn status) k (.ret status :: k)

/-- The system calls that change no data before the next context switch. -/
inductive Trap (s : State) (k : List Stmt) : List Stmt → Prop
  | exitGone : Trap s k k
  | execFail : Trap s k [.incrementPC, .user]
  | exec {a e p} (space : s.currentSpace = some a) (pcb : (s.space.get a).pcb = some p)
      (type : (s.registers.gpr 2).toNat = 2) :
      Trap s k (deleteSpace a ++ [.load e p, .incrementPC, .user])
  | fail : Trap s k (.ret (-1) :: k)
  | join {j p pid} (entry : s.getPCB pid = .ok (some j)) (pcb : s.currentPCB = .ok (some p))
      (parent : (s.pcb.get j).parent = some p) : Trap s k (.joinWait j :: k)
  | create : Trap s k (.incrementPC :: k)
  | fork {a} (space : s.currentSpace = some a) :
      Trap s k (acquireLock .pcbManagerLock ++ .allocatePCB s.registers :: k)
  | yield (space : s.currentSpace ≠ none) : Trap s k (threadYield ++ .incrementPC :: k)
  | killSelfGone : Trap s k (.assertFalse :: k)

namespace State

variable (s : State)

/-- The data of `doExit`. -/
def exiting (p : PCBId) (status : Word) : State :=
  let s := s.withObjects (s.setPCB p fun pcb => { pcb with exitStatus := status })
  s.withObjects (s.removeThread (s.pcb.get p).thread)

/-- `currentThread->space = NULL`. -/
def dropSpace : State :=
  s.withObjects (s.setThread s.currentThread fun t => { t with space := none })

/-- The data of a new image. -/
def loaded (p : PCBId) (n : ℕ) : State :=
  let new := s.newSpace (some p) n
  let s := s.withObjects new.2
  { s.withObjects (s.setThread s.currentThread fun t => { t with space := some new.1 }) with
    registers := initRegisters n }

/-- The registers after the trap. -/
def trapped : State := { s with registers := raised s.registers }

/-- Another register file. -/
def withRegisters (r : Registers) : State := { s with registers := r }

/-- The statements of a new thread. -/
def spawn (t : Tid) : State :=
  { s with code := Function.update s.code t [.threadRoot, .childFunction] }

end State

/-- The statements of the thread `t`. -/
def State.setCode (s : State) (t : Tid) (k : List Stmt) : State :=
  { s with code := Function.update s.code t k }

/-- What a step does: the thread goes on at `k'` instead of `st :: k`, in the state given. -/
inductive Rule (s : State) : Stmt → List Stmt → List Stmt → List Event → State → Prop
  | control {st k k'} (h : Control s st k k') : Rule s st k k' [] s
  | instruction {r k} : Rule s .user k (.tick :: .user :: k) [] (s.withRegisters r)
  | trap {k k'} (h : Trap s.trapped (.tick :: .user :: k) k') : Rule s .user k k' [] s.trapped
  | exit {a p status k} (space : s.currentSpace = some a) (pcb : (s.space.get a).pcb = some p)
      (pageTable : (s.space.get a).pageTable ≠ none) :
      Rule s .user k [.mapcar p ((s.trapped.exiting p status).pcb.get p).children,
        .exitDeallocate p, .exitSpace, .finish] [] (s.trapped.exiting p status)
  | kill {p pid k} (entry : s.getPCB pid = .ok (some p)) (other : s.currentPCB ≠ .ok (some p))
      (space : s.currentSpace ≠ none) :
      Rule s .user k (.mapcar p ((s.detach p).pcb.get p).children :: .killReturn p :: .tick ::
        .user :: k) [] (s.trapped.withObjects (s.detach p))
  | interrupt {st k} (h : st = .tick ∨ st = .threadRoot) :
      Rule s st k k [] (s.withRegisters s.registers.flush)
  | timeSlice {st k} (h : st = .tick ∨ st = .threadRoot) :
      Rule s st k (threadYield ++ k) [] (s.withRegisters s.registers.flush)
  | take {l k} (free : (s.lock l).free = true) :
      Rule s (.acquire l) k k []
        (s.setLock l { s.lock l with free := false, activeThread := some s.currentThread })
  | block {l k next rest} (busy : (s.lock l).free = false) (ready : s.readyList = next :: rest) :
      Rule s (.acquire l) k (.resume :: .acquire l :: k) []
        (((s.setLock l { s.lock l with queue := (s.lock l).queue ++ [s.currentThread] }
          ).setReadyList rest).run next)
  | release {l k} : Rule s (.release l) k k [] (s.releaseOf l)
  | yield {k next rest} (ready : s.readyList = next :: rest) :
      Rule s .yield k (.resume :: k) []
        (((s.setReadyList rest).readyToRun s.currentThread).run next)
  | resume {k s₁} (h : s.afterSwitch = .ok s₁) : Rule s .resume k k [] s₁
  | childFunction {k} (space : s.currentSpace ≠ none) :
      Rule s .childFunction k [.user] [.begins s.currentThread s.restoreUserState.registers]
        s.restoreUserState
  | allocatePCB {call p o k} (h : s.allocatePCB = .ok (p, o)) :
      Rule s (.allocatePCB call) k (releaseLock .pcbManagerLock ++ .saveParent call p :: k) []
        (s.withObjects o)
  | saveParent {call p k} :
      Rule s (.saveParent call p) k (acquireLock .mmLock ++ .copySpace call p :: k) []
        s.saveUserState
  | copySpace {call p a k} (space : s.currentSpace = some a)
      (room : (s.space.get a).numPages ≤ s.mm.getFreePageCount) :
      Rule s (.copySpace call p) k
        (releaseLock .mmLock ++ .startChild call p s.space.next :: k) []
        (s.withObjects (s.newSpace none (s.space.get a).numPages).2)
  | startChild {call p a q k} (pcb : s.currentPCB = .ok (some q)) :
      Rule s (.startChild call p a) k (.tick :: .forkReturn call p :: k)
        [.forked s.thread.next call]
        ((((s.withObjects (s.linkChild p q a (childRegisters (call.gpr 4) s.registers)).2
          ).restoreUserState).spawn s.thread.next).readyToRun s.thread.next)
  | forkReturn {call p k} :
      Rule s (.forkReturn call p) k k
        [.resumes s.currentThread call (s.pcb.get p).pid
          (returned s.registers (BitVec.ofNat 32 (s.pcb.get p).pid))]
        (s.withRegisters (returned s.registers (BitVec.ofNat 32 (s.pcb.get p).pid)))
  | loadFail {e p k} : Rule s (.load e p) k k [] s.dropSpace
  | load {e p k} (room : e.numPages ≤ s.mm.getFreePageCount) :
      Rule s (.load e p) k k [] (s.dropSpace.loaded p e.numPages)
  | orphan {p c ahead k} (child : c ∈ (s.pcb.get p).children)
      (alive : (s.pcb.get c).hasExited = false) :
      Rule s (.mapcar p (c :: ahead)) k (.mapcar p ahead :: k) []
        (s.withObjects (s.setPCB c fun pcb => { pcb with parent := none }))
  | finish {k next rest} (ready : s.readyList = next :: rest) :
      Rule s .finish k [] []
        ((({ s with threadToBeDestroyed := some s.currentThread } : State).setReadyList rest).run
          next)
  | clearPid {p b k} (live : s.pcb.live p = true)
      (clear : s.bitmap.clear (s.pcb.get p).pid = .ok b) :
      Rule s (.clearPid p) k
        (s.destroyPCB p ++ .forgetPid (s.pcb.get p).pid :: releaseLock .pcbManagerLock ++ k) []
        (s.withObjects { s.toObjects with bitmap := b })
  | forgetPid {pid k} :
      Rule s (.forgetPid pid) k k []
        (s.withObjects { s.toObjects with pcbs := Function.update s.pcbs pid none })
  | unlinkPCB {p o k} (h : (s.unlink p).freePCB p = .ok o) :
      Rule s (.unlinkPCB p) k k [] (s.withObjects o)
  | freeFrames {a o k} (h : s.freeFrames a = .ok o) :
      Rule s (.freeFrames a) k k [.destroys s.currentThread a] (s.withObjects o)
  | freeSpace {a o k} (h : s.freeSpace a = .ok o) :
      Rule s (.freeSpace a) k k [] (s.withObjects o)
  | killReturn {p k} :
      Rule s (.killReturn p) k (.ret 0 :: k) [.killed s.currentThread p] s
  | incrementPC {k} :
      Rule s .incrementPC k k [] (s.withRegisters (Userprog.incrementPC s.registers))
  | ret {value k} : Rule s (.ret value) k k [] (s.withRegisters (returned s.registers value))

/-- The running thread makes a step. -/
def Does (s : State) (st : Stmt) (k : List Stmt) (es : List Event) (s' : State) : Prop :=
  ∃ k' s₁, Rule s st k k' es s₁ ∧ s' = s₁.setCode s.currentThread k'

lemma Rule.does {s s₁ : State} {st : Stmt} {k k' : List Stmt} {es : List Event}
    (h : Rule s st k k' es s₁) : Does s st k es (s₁.setCode s.currentThread k') := ⟨k', s₁, h, rfl⟩

lemma State.run_goto {s : State} {k : List Stmt} {next : Tid} {rest : List Tid} :
    ((s.goto k).setReadyList rest).run next =
      ((s.setReadyList rest).run next).setCode s.currentThread k := by
  have hk : ((s.goto k).setReadyList rest).currentSpace = s.currentSpace := rfl
  have hs : (s.setReadyList rest).currentSpace = s.currentSpace := rfl
  by_cases h : s.currentSpace = none
  · simp only [State.run, hk, hs, if_pos h]
    rfl
  · simp only [State.run, hk, hs, if_neg h]
    rfl

/-! ### The running thread -/

section CurrentThread

variable {s s₁ : State} {o o' : Objects}

@[simp] lemma currentThread_removeThread (t : Option Tid) :
    (o.removeThread t).currentThread = o.currentThread := by
  cases t <;> rfl

@[simp] lemma currentThread_releaseOf (l : LockName) :
    (s.releaseOf l).currentThread = s.currentThread := by
  unfold State.releaseOf
  split
  · split <;> rfl
  · rfl

lemma currentThread_afterSwitch (h : s.afterSwitch = .ok s₁) :
    s₁.currentThread = s.currentThread := by
  unfold State.afterSwitch at h
  dsimp only at h
  split at h
  · cases h
    split <;> rfl
  · split at h
    · cases h
    · cases h
      split <;> rfl

lemma currentThread_detach (p : PCBId) : (o.detach p).currentThread = o.currentThread := by
  unfold Objects.detach
  dsimp only
  split
  · exact currentThread_removeThread ..
  · exact currentThread_removeThread ..

lemma currentThread_exiting (p : PCBId) (status : Word) :
    (s.exiting p status).currentThread = s.currentThread :=
  currentThread_removeThread ..

lemma currentThread_allocatePCB {p : PCBId} (h : o.allocatePCB = .ok (p, o')) :
    o'.currentThread = o.currentThread := by
  unfold Objects.allocatePCB at h
  split at h
  · cases h
  · cases h
    rfl

lemma currentThread_unlink (p : PCBId) : (o.unlink p).currentThread = o.currentThread := by
  unfold Objects.unlink
  split <;> rfl

lemma currentThread_freePCB {p : PCBId} (h : o.freePCB p = .ok o') :
    o'.currentThread = o.currentThread := by
  unfold Objects.freePCB at h
  split at h
  · cases h
    rfl
  · cases h

lemma currentThread_freeFrames {a : SpaceId} (h : o.freeFrames a = .ok o') :
    o'.currentThread = o.currentThread := by
  unfold Objects.freeFrames at h
  split at h
  · cases h
  · obtain ⟨mm, -, h⟩ := bind_eq_ok h
    cases h
    rfl

lemma currentThread_freeSpace {a : SpaceId} (h : o.freeSpace a = .ok o') :
    o'.currentThread = o.currentThread := by
  unfold Objects.freeSpace at h
  split at h
  · cases h
    rfl
  · cases h

/-- Statements are pushed by the thread that ran before. -/
lemma State.goto_eq (k : List Stmt) (h : s₁.currentThread = s.currentThread) :
    s₁.goto k = s₁.setCode s.currentThread k := by
  rw [State.goto, h]
  rfl

lemma Rule.does_goto {st : Stmt} {k k' : List Stmt} {es : List Event} (h : Rule s st k k' es s₁)
    (hc : s₁.currentThread = s.currentThread) : Does s st k es (s₁.goto k') := by
  rw [State.goto_eq k' hc]
  exact h.does

end CurrentThread

/-! ### The system calls -/

section Calls

variable {s s' : State} {k : List Stmt}

lemma doExit_rule {status : Word} {k' : List Stmt} (h : s.trapped.doExit status k' = .ok s') :
    s' = s.trapped.goto k' ∨ Does s .user k [] s' := by
  unfold State.doExit at h
  split at h
  · cases h
  next a ha =>
    split at h
    · cases h
      exact .inl rfl
    next ht =>
      split at h
      · cases h
      next p hp =>
        cases h
        exact .inr ((Rule.exit (s := s) ha hp ht).does_goto (currentThread_exiting ..))

lemma doExec_rule {e : Option Executable} (h : s.trapped.doExec e [.incrementPC, .user] = .ok s')
    (htype : (s.trapped.registers.gpr 2).toNat = 2) :
    ∃ k', Trap s.trapped k k' ∧ s' = s.trapped.goto k' := by
  unfold State.doExec at h
  split at h
  · cases h
    exact ⟨_, .execFail, rfl⟩
  · split at h
    · cases h
      exact ⟨_, .execFail, rfl⟩
    next a ha =>
      split at h
      · cases h
      next p hp =>
        cases h
        exact ⟨_, .exec ha hp htype, rfl⟩

lemma doJoin_rule {pid : Word} (h : s.trapped.doJoin pid k = .ok s') :
    ∃ k', Trap s.trapped k k' ∧ s' = s.trapped.goto k' := by
  obtain ⟨joinPCB, hj, h⟩ := bind_eq_ok h
  obtain ⟨pcb, hp, h⟩ := bind_eq_ok h
  split at h
  · split at h
    next hparent =>
      cases h
      exact ⟨_, .join hj hp hparent, rfl⟩
    next =>
      cases h
      exact ⟨_, .fail, rfl⟩
  · cases h
    exact ⟨_, .fail, rfl⟩

lemma doFork_rule (h : s.trapped.doFork k = .ok s') :
    ∃ k', Trap s.trapped k k' ∧ s' = s.trapped.goto k' := by
  unfold State.doFork at h
  split at h
  · cases h
  next a ha =>
    split at h
    · cases h
      exact ⟨_, .fail, rfl⟩
    · cases h
      exact ⟨_, .fork ha, rfl⟩

lemma doYield_rule (h : s.trapped.doYield k = .ok s') :
    ∃ k', Trap s.trapped k k' ∧ s' = s.trapped.goto k' := by
  unfold State.doYield at h
  split at h
  · cases h
  next space =>
    cases h
    exact ⟨_, .yield space, rfl⟩

lemma doKill_rule {pid : Word} (h : s.trapped.doKill pid (.tick :: .user :: k) = .ok s') :
    Does s .user k [] s' := by
  obtain ⟨entry, he, h⟩ := bind_eq_ok h
  cases entry with
  | none =>
    cases h
    exact (Rule.trap .fail).does
  | some p =>
    obtain ⟨self, hself, h⟩ := bind_eq_ok h
    split at h
    · obtain rfl | h := doExit_rule h
      · exact (Rule.trap .killSelfGone).does
      · exact h
    next hne =>
      cases h
      have hself' : s.currentPCB = .ok self := hself
      refine (Rule.kill (s := s) he (fun hp => hne ?_) fun hspace => ?_).does_goto
        (currentThread_detach p)
      · rw [hself'] at hp
        exact Except.ok.inj hp
      · rw [Objects.currentPCB, hspace] at hself'
        cases hself'

lemma exceptionHandler_rule {e : Option Executable}
    (h : s.trapped.exceptionHandler e (.tick :: .user :: k) = .ok s') : Does s .user k [] s' := by
  have trap : (∃ k', Trap s.trapped (.tick :: .user :: k) k' ∧ s' = s.trapped.goto k') →
      Does s .user k [] s' := by
    rintro ⟨k', ht, rfl⟩
    exact (Rule.trap ht).does
  unfold State.exceptionHandler at h
  dsimp only at h
  split at h
  · cases h
  · obtain rfl | h := doExit_rule h
    · exact (Rule.trap .exitGone).does
    · exact h
  next htype => exact trap (doExec_rule h htype)
  · exact trap (doJoin_rule h)
  · cases h
    exact (Rule.trap .create).does
  · exact trap (doFork_rule h)
  · exact trap (doYield_rule h)
  · exact doKill_rule h
  · cases h

end Calls

/-! ### The statements -/

section Statements

variable {s s' : State} {k : List Stmt} {es : List Event}

lemma execTick_rule {c : Choice} {st : Stmt} (hst : st = .tick ∨ st = .threadRoot)
    (h : s.execTick c threadYield k = .ok s') : Does s st k [] s' := by
  cases c <;> cases h
  · obtain rfl | rfl := hst
    · exact (Rule.control .tick).does
    · exact (Rule.control .threadRoot).does
  · exact (Rule.interrupt hst).does
  · exact (Rule.timeSlice hst).does

lemma execAcquire_rule {l : LockName} (h : s.execAcquire l k = .ok s') :
    Does s (.acquire l) k [] s' := by
  unfold State.execAcquire at h
  dsimp only at h
  split at h
  next free =>
    cases h
    exact (Rule.take free).does
  next busy =>
    unfold State.sleep at h
    split at h
    · cases h
    next next rest ready =>
      cases h
      rw [State.run_goto]
      exact (Rule.block (eq_false_of_ne_true busy) ready).does

lemma execYield_rule : Does s .yield k [] (s.execYield k) := by
  unfold State.execYield
  split
  next ready => exact (Rule.control (.yield ready)).does
  next next rest ready =>
    have h : (((s.setReadyList rest).readyToRun s.currentThread).goto (.resume :: k)).run next =
        (((s.setReadyList rest).readyToRun s.currentThread).run next).setCode s.currentThread
          (.resume :: k) :=
      @State.run_goto ((s.setReadyList rest).readyToRun s.currentThread) _ _
        (rest ++ [s.currentThread])
    rw [h]
    exact (Rule.yield ready).does

lemma execUser_rule {c : Choice} (h : s.execUser c k = .ok s') : Does s .user k [] s' := by
  cases c with
  | instruction r =>
    cases h
    exact Rule.instruction.does
  | syscall e => exact exceptionHandler_rule h
  | _ => cases h

lemma execCopySpace_rule {call : Registers} {p : PCBId} (h : s.execCopySpace call p k = .ok s') :
    Does s (.copySpace call p) k [] s' := by
  unfold State.execCopySpace at h
  split at h
  · cases h
  next a ha =>
    dsimp only at h
    split at h
    · cases h
      exact (Rule.control .copySpace).does
    next room =>
      cases h
      exact (Rule.copySpace ha (Nat.le_of_not_lt room)).does

lemma execStartChild_rule {call : Registers} {p : PCBId} {a : SpaceId}
    (h : s.execStartChild call p a k = .ok (es, s')) : Does s (.startChild call p a) k es s' := by
  obtain ⟨q, hq, h⟩ := bind_eq_ok h
  cases q with
  | none => cases h
  | some q =>
    cases h
    exact (Rule.startChild hq).does

lemma execLoad_rule {e : Executable} {p : PCBId} : Does s (.load e p) k [] (s.execLoad e p k) := by
  unfold State.execLoad
  dsimp only
  split
  · exact Rule.loadFail.does
  next h =>
    rw [Bool.or_eq_true, not_or, decide_eq_true_eq] at h
    exact (Rule.load (s := s) (Nat.le_of_not_lt h.2)).does

lemma execMapcar_rule {p : PCBId} {ahead : List PCBId} :
    Does s (.mapcar p ahead) k [] (s.execMapcar p ahead k) := by
  unfold State.execMapcar
  split
  · exact (Rule.control .mapcarNil).does
  next c ahead =>
    split
    next child =>
      split
      next exited => exact (Rule.control (.mapcarExited child exited)).does
      next alive => exact (Rule.orphan child (eq_false_of_ne_true alive)).does
    next => exact (Rule.control .mapcarGone).does

lemma execClearPid_rule {p : PCBId} (h : s.execClearPid p k = .ok s') :
    Does s (.clearPid p) k [] s' := by
  unfold State.execClearPid at h
  dsimp only at h
  split at h
  next live =>
    obtain ⟨b, hb, h⟩ := bind_eq_ok h
    cases h
    exact (Rule.clearPid live hb).does
  next => cases h

lemma execJoinWait_rule {j : PCBId} : Does s (.joinWait j) k [] (s.execJoinWait j k) := by
  unfold State.execJoinWait
  split
  next exited => exact (Rule.control (.joinExited exited)).does
  next => exact (Rule.control .joinWait).does

lemma quiet_eq_ok {r : Except Fault State} (h : (r.map fun s => (([] : List Event), s)) = .ok (es, s')) :
    es = [] ∧ r = .ok s' := by
  cases r with
  | error f => cases h
  | ok s => cases h; exact ⟨rfl, rfl⟩

lemma exec_rule {c : Choice} {st : Stmt} (h : s.exec c st k = .ok (es, s')) : Does s st k es s' := by
  cases st
  case user =>
    obtain ⟨hes, hs⟩ := quiet_eq_ok h
    subst hes
    exact execUser_rule hs
  case acquire l =>
    obtain ⟨hes, hs⟩ := quiet_eq_ok h
    subst hes
    exact execAcquire_rule hs
  case release l =>
    cases h
    exact Rule.release.does_goto (currentThread_releaseOf l)
  case tick =>
    obtain ⟨hes, hs⟩ := quiet_eq_ok h
    subst hes
    exact execTick_rule (.inl rfl) hs
  case threadRoot =>
    obtain ⟨hes, hs⟩ := quiet_eq_ok h
    subst hes
    exact execTick_rule (.inr rfl) hs
  case yield =>
    cases h
    exact execYield_rule
  case resume =>
    obtain ⟨hes, hs⟩ := quiet_eq_ok h
    subst hes
    cases ha : s.afterSwitch with
    | error f =>
      rw [ha] at hs
      cases hs
    | ok s₁ =>
      rw [ha] at hs
      cases hs
      exact (Rule.resume ha).does_goto (currentThread_afterSwitch ha)
  case childFunction =>
    simp only [State.exec] at h
    split at h
    · cases h
    next space =>
      cases h
      exact (Rule.childFunction space).does
  case allocatePCB call =>
    obtain ⟨⟨p, o⟩, hp, h⟩ := bind_eq_ok h
    cases h
    exact (Rule.allocatePCB hp).does_goto (currentThread_allocatePCB hp)
  case saveParent call p =>
    cases h
    exact Rule.saveParent.does
  case copySpace call p =>
    obtain ⟨hes, hs⟩ := quiet_eq_ok h
    subst hes
    exact execCopySpace_rule hs
  case startChild call p a => exact execStartChild_rule h
  case forkReturn call p =>
    cases h
    exact Rule.forkReturn.does
  case load e p =>
    cases h
    exact execLoad_rule
  case mapcar p ahead =>
    cases h
    exact execMapcar_rule
  case exitDeallocate p =>
    cases h
    split
    next parent => exact (Rule.control (.exitDeallocate parent)).does
    next => exact (Rule.control .exitParent).does
  case exitSpace =>
    simp only [State.exec] at h
    split at h
    next hnone =>
      cases h
      exact (Rule.control (.exitSpaceGone hnone)).does
    next a ha =>
      cases h
      exact (Rule.control (.exitSpace ha)).does
  case finish =>
    obtain ⟨hes, hs⟩ := quiet_eq_ok h
    subst hes
    unfold State.sleep at hs
    split at hs
    · cases hs
    next next rest ready =>
      cases hs
      rw [State.run_goto]
      exact (Rule.finish (s := s) ready).does
  case clearPid p =>
    obtain ⟨hes, hs⟩ := quiet_eq_ok h
    subst hes
    exact execClearPid_rule hs
  case forgetPid pid =>
    cases h
    exact Rule.forgetPid.does
  case destroyPCB p =>
    simp only [State.exec] at h
    split at h
    next live =>
      cases h
      exact (Rule.control (.destroyPCB live)).does
    next => cases h
  case unlinkPCB p =>
    obtain ⟨o, ho, h⟩ := bind_eq_ok h
    cases h
    exact (Rule.unlinkPCB ho).does_goto
      ((currentThread_freePCB ho).trans (currentThread_unlink p))
  case freeFrames a =>
    obtain ⟨o, ho, h⟩ := bind_eq_ok h
    cases h
    exact (Rule.freeFrames ho).does_goto (currentThread_freeFrames ho)
  case freeSpace a =>
    obtain ⟨o, ho, h⟩ := bind_eq_ok h
    cases h
    exact (Rule.freeSpace ho).does_goto (currentThread_freeSpace ho)
  case joinWait j =>
    cases h
    exact execJoinWait_rule
  case joinReturn status =>
    simp only [State.exec] at h
    split at h
    · cases h
    · cases h
      exact (Rule.control .joinReturn).does
  case killReturn p =>
    simp only [State.exec] at h
    split at h
    · cases h
    · cases h
      exact Rule.killReturn.does
  case incrementPC =>
    cases h
    exact Rule.incrementPC.does
  case assertFalse => cases h
  case ret value =>
    cases h
    exact Rule.ret.does

end Statements

/-- The statements of `delete pcb`, up to `delete thread->space` or to its end. -/
lemma destroyPCB_eq (s : State) (p : PCBId) : s.destroyPCB p = [.unlinkPCB p] ∨
    ∃ a, s.spaceToDelete p = some a ∧ s.destroyPCB p = deleteSpace a ++ [.unlinkPCB p] := by
  unfold State.destroyPCB
  split
  next => exact .inl rfl
  next a ha => exact .inr ⟨a, ha, rfl⟩

/-- **A step of the machine is a rule.** -/
theorem step_rule {c : Choice} {s s' : State} {es : List Event} (h : step c s = .ok (es, s')) :
    ∃ st k k' s₁, s.code s.currentThread = st :: k ∧ Rule s st k k' es s₁ ∧
      s' = s₁.setCode s.currentThread k' := by
  unfold step at h
  split at h
  next => cases h
  next st k hcode =>
    obtain ⟨k', s₁, hr, hs⟩ := exec_rule h
    exact ⟨st, k, k', s₁, hcode, hr, hs⟩

end Nachos.Process
