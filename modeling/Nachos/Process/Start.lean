import Nachos.Process.Owners

/-!
# Where a forked child starts

`doFork` saves the register file of the parent, with the PC of the child, into the new thread, and
`childFunction` loads it. In between the new thread runs in `ThreadRoot` and `InterruptEnable`,
with the register file of another thread; when it loses the processor there, `Scheduler::Run` saves
that register file over its own. As long as no thread loses the processor so, every child starts at
the function it was told, with the registers of its parent, and the parent goes on with only `r2`
changed.
-/

namespace Nachos.Process

open Lib Threads Mips Userprog

/-! ### The statements that start a child -/

namespace Stmt

/-- The register file at the call of the `Fork` that the statement belongs to. -/
def call : Stmt → Option Registers
  | allocatePCB call | saveParent call _ | copySpace call _ | startChild call _ _
  | forkReturn call _ => some call
  | _ => none

/-- The statements of `doFork` between `SaveUserState` and `RestoreUserState`. -/
def saved : Stmt → Bool
  | copySpace _ _ | startChild _ _ _ => true
  | _ => false

def isUser : Stmt → Bool
  | user => true
  | _ => false

def isChildFunction : Stmt → Bool
  | childFunction => true
  | _ => false

/-- The statements of `doFork`, and `childFunction`. -/
def starting (st : Stmt) : Bool := st.inFork || st.isChildFunction

/-- The statements that neither schedule nor start a child. -/
def works : Stmt → Bool
  | threadRoot => false
  | st => !(st.scheduling || st.starting)

lemma inFork_of_call {st : Stmt} {r : Registers} (h : st.call = some r) : st.inFork = true := by
  cases st <;> first | rfl | cases h

lemma inExit_of_call {st : Stmt} {r : Registers} (h : st.call = some r) : st.inExit = false := by
  cases st <;> first | rfl | cases h

lemma isChildFunction_iff {st : Stmt} : st.isChildFunction = true ↔ st = .childFunction := by
  cases st <;> simp [isChildFunction]

end Stmt

/-- The thread waits for the processor. -/
def waits : List Stmt → Bool
  | .resume :: _ => true
  | _ => false

/-- The code of a thread that does not run. -/
def Parked (l : List Stmt) : Prop :=
  l = [] ∨ (∃ k, l = .resume :: k) ∨ l = [.threadRoot, .childFunction]

/-- A thread that does not run, and is in a call, waits for the processor. -/
lemma Parked.waits {l : List Stmt} (h : Parked l) {st : Stmt} (hst : st ∈ l)
    (hroot : st ≠ .threadRoot) (hchild : st ≠ .childFunction) : waits l = true := by
  obtain rfl | ⟨k, rfl⟩ | rfl := h
  · cases hst
  · rfl
  · obtain rfl | rfl : st = .threadRoot ∨ st = .childFunction := by simpa using hst
    · exact absurd rfl hroot
    · exact absurd rfl hchild

/-- The code of a thread before `childFunction`. -/
def Fresh (l : List Stmt) : Prop :=
  l = [.threadRoot, .childFunction] ∨ l = [.yield, .tick, .childFunction] ∨
    l = [.tick, .childFunction] ∨ l = [.childFunction]

section Shape

variable {s s₁ : State} {st : Stmt} {k k' : List Stmt} {es : List Event}

lemma waits_eq_false (h : .resume ∉ k) : waits k = false := by
  cases k with
  | nil => rfl
  | cons st k =>
    cases st
    case resume => exact absurd (.head _) h
    all_goals rfl

/-- Only a thread that gives the processor away waits for it. -/
lemma Rule.resume_notMem_tail (hr : Rule s st k k' es s₁) (h : .resume ∉ k) :
    .resume ∉ k'.tail := by
  cases hr
  case control hc =>
    cases hc
    case destroyPCB p _ =>
      obtain he | ⟨a, -, he⟩ := destroyPCB_eq s p <;> simp [he, deleteSpace, acquireLock, releaseLock, h]
    case tick | threadRoot | mapcarNil | exitParent | exitSpaceGone | yield =>
      exact fun hk => h (List.mem_of_mem_tail hk)
    all_goals
      simp [acquireLock, releaseLock, deallocatePCB, deleteSpace, threadYield, h]
  case trap ht =>
    cases ht <;> simp [acquireLock, releaseLock, deleteSpace, threadYield, h]
  case clearPid p _ _ _ =>
    obtain he | ⟨a, -, he⟩ := destroyPCB_eq s p <;>
      simp [he, acquireLock, releaseLock, deleteSpace, h]
  case interrupt | take | release | resume | forkReturn | loadFail | load | forgetPid | unlinkPCB |
      freeFrames | freeSpace | incrementPC | ret =>
    exact fun hk => h (List.mem_of_mem_tail hk)
  all_goals simp [acquireLock, releaseLock, threadYield, h]

lemma Control.plain (hc : Control s st k k') (hst : st.works = true)
    (h : ∀ st' ∈ k, st'.starting = false) : ∀ st' ∈ k', st'.starting = false := by
  cases hc
  case destroyPCB p _ =>
    obtain he | ⟨a, -, he⟩ := destroyPCB_eq s p <;>
      simpa [he, deleteSpace, acquireLock, releaseLock, Stmt.starting, Stmt.inFork,
        Stmt.isChildFunction] using h
  case tick | threadRoot | yield | copySpace => cases hst
  all_goals
    simpa [acquireLock, releaseLock, deallocatePCB, deleteSpace, threadYield, Stmt.starting,
      Stmt.inFork, Stmt.isChildFunction] using h

lemma Trap.plain (ht : Trap s k k') (h : ∀ st' ∈ k, st'.starting = false) :
    (∀ st' ∈ k', st'.starting = false) ∨ s.currentSpace ≠ none ∧
      k' = acquireLock .pcbManagerLock ++ .allocatePCB s.registers :: k := by
  cases ht
  case fork space => exact .inr ⟨by simp [space], rfl⟩
  all_goals
    refine .inl ?_
    simpa [acquireLock, releaseLock, deleteSpace, threadYield, Stmt.starting, Stmt.inFork,
      Stmt.isChildFunction] using h

/-- A statement that works on something else starts no child, except for the `Fork` of a user
program. -/
lemma Rule.plain (hr : Rule s st k k' es s₁) (hst : st.works = true)
    (h : ∀ st' ∈ k, st'.starting = false) : (∀ st' ∈ k', st'.starting = false) ∨
      s.currentSpace ≠ none ∧ s₁ = s.trapped ∧
        k' = acquireLock .pcbManagerLock ++ .allocatePCB s.trapped.registers :: .tick :: .user :: k := by
  cases hr
  case trap ht =>
    obtain ht | ⟨hspace, ht⟩ := ht.plain (by simpa [Stmt.starting, Stmt.inFork,
      Stmt.isChildFunction] using h)
    · exact .inl ht
    · exact .inr ⟨hspace, rfl, ht⟩
  all_goals refine .inl ?_
  case control hc => exact hc.plain hst h
  case clearPid p _ _ _ =>
    obtain he | ⟨a, -, he⟩ := destroyPCB_eq s p <;>
      simpa [he, acquireLock, releaseLock, deleteSpace, Stmt.starting, Stmt.inFork,
        Stmt.isChildFunction] using h
  case interrupt hst' | timeSlice hst' => obtain rfl | rfl := hst' <;> cases hst
  case take | block | release | yield | resume | childFunction | allocatePCB | saveParent |
      copySpace | startChild | forkReturn => cases hst
  all_goals simpa [Stmt.starting, Stmt.inFork, Stmt.isChildFunction] using h

/-- Only `new Thread` makes a `childFunction`. -/
lemma Rule.childFunction_mem (hr : Rule s st k k' es s₁) (h : .childFunction ∈ k') :
    .childFunction ∈ k := by
  cases hr
  case control hc =>
    cases hc
    case destroyPCB p _ =>
      obtain he | ⟨a, -, he⟩ := destroyPCB_eq s p <;>
        simpa [he, deleteSpace, acquireLock, releaseLock] using h
    all_goals
      simpa [acquireLock, releaseLock, deallocatePCB, deleteSpace, threadYield] using h
  case trap ht =>
    cases ht <;> simpa [acquireLock, releaseLock, deleteSpace, threadYield] using h
  case clearPid p _ _ _ =>
    obtain he | ⟨a, -, he⟩ := destroyPCB_eq s p <;>
      simpa [he, acquireLock, releaseLock, deleteSpace] using h
  all_goals simpa [acquireLock, releaseLock, threadYield] using h

end Shape

/-! ### What a step does to the threads -/

section Threads

variable {s s₁ : State} {o o' : Objects}

lemma thread_removeThread (t : Option Tid) : (o.removeThread t).thread = o.thread := by
  cases t <;> rfl

lemma thread_detach (p : PCBId) : (o.detach p).thread = o.thread := by
  unfold Objects.detach
  dsimp only
  split
  · exact thread_removeThread _
  · exact thread_removeThread _

lemma thread_allocatePCB {p : PCBId} (h : o.allocatePCB = .ok (p, o')) : o'.thread = o.thread := by
  unfold Objects.allocatePCB at h
  split at h
  · cases h
  · cases h
    rfl

lemma thread_freeFrames {a : SpaceId} (h : o.freeFrames a = .ok o') : o'.thread = o.thread := by
  unfold Objects.freeFrames at h
  split at h
  · cases h
  · obtain ⟨mm, -, h⟩ := bind_eq_ok h
    cases h
    rfl

lemma thread_freeSpace {a : SpaceId} (h : o.freeSpace a = .ok o') : o'.thread = o.thread := by
  unfold Objects.freeSpace at h
  split at h
  · cases h
    rfl
  · cases h

lemma thread_releaseOf (l : LockName) : (s.releaseOf l).thread = s.thread := by
  unfold State.releaseOf
  split
  · split <;> rfl
  · rfl

lemma registers_releaseOf (l : LockName) : (s.releaseOf l).registers = s.registers := by
  unfold State.releaseOf
  split
  · split <;> rfl
  · rfl

lemma thread_saveUserState : s.saveUserState.thread =
    s.thread.modify s.currentThread fun t => ⟨t.space, s.registers⟩ := rfl

lemma thread_dropSpace : s.dropSpace.thread =
    s.thread.modify s.currentThread fun t => ⟨none, t.userRegisters⟩ := rfl

lemma thread_loaded (p : PCBId) (n : ℕ) : (s.loaded p n).thread =
    s.thread.modify s.currentThread fun t => ⟨some s.space.next, t.userRegisters⟩ := rfl

/-- `Scheduler::Run` saves the register file for the thread that leaves the processor. -/
lemma thread_run (next t : Tid) : (s.run next).thread.get t =
    if t = s.currentThread ∧ s.currentSpace ≠ none then
      ⟨(s.thread.get t).space, s.registers⟩ else s.thread.get t := by
  unfold State.run
  by_cases hspace : s.currentSpace = none
  · rw [if_pos hspace, if_neg (fun h => h.2 hspace)]
    rfl
  · rw [if_neg hspace]
    show (s.thread.modify s.currentThread fun t => ⟨t.space, s.registers⟩).get t = _
    rw [Heap.get_modify]
    by_cases ht : t = s.currentThread
    · rw [if_pos ht, if_pos ⟨ht, hspace⟩]
    · rw [if_neg ht, if_neg (fun h => ht h.1)]

lemma next_run (next : Tid) : (s.run next).thread.next = s.thread.next := by
  unfold State.run
  dsimp only
  split <;> rfl

lemma registers_run (next : Tid) : (s.run next).registers = s.registers := by
  unfold State.run
  dsimp only
  split <;> rfl

lemma get_afterSwitch (h : s.afterSwitch = .ok s₁) : s₁.thread.get = s.thread.get := by
  unfold State.afterSwitch at h
  dsimp only at h
  split at h
  · cases h
    split <;> rfl
  · split at h
    · cases h
    · cases h
      split <;> rfl

lemma next_afterSwitch (h : s.afterSwitch = .ok s₁) : s₁.thread.next = s.thread.next := by
  unfold State.afterSwitch at h
  dsimp only at h
  split at h
  · cases h
    split <;> rfl
  · split at h
    · cases h
    · cases h
      split <;> rfl

/-- A thread that has come back goes on with its own register file. -/
lemma registers_afterSwitch (h : s.afterSwitch = .ok s₁) (hspace : s.currentSpace ≠ none) :
    s₁.registers = (s.thread.get s.currentThread).userRegisters := by
  unfold State.afterSwitch at h
  dsimp only at h
  split at h
  · cases h
    rw [if_neg hspace]
    rfl
  · split at h
    · cases h
    · cases h
      rw [if_neg]
      · rfl
      · exact hspace

/-- The end of a PCB touches the thread that is cut off only. -/
lemma thread_unlink {p : PCBId} (h : (o.unlink p).freePCB p = .ok o') (t : Tid) :
    (o'.thread.get t).userRegisters = (o.thread.get t).userRegisters ∧
      ((o'.thread.get t).space = (o.thread.get t).space ∨ o.othersThread p = some t) := by
  unfold Objects.freePCB at h
  split at h
  next =>
    cases h
    unfold Objects.unlink
    split
    next => exact ⟨rfl, .inl rfl⟩
    next t' ht' =>
      show ((o.thread.modify t' fun th => ⟨none, th.userRegisters⟩).get t).userRegisters = _ ∧
        (((o.thread.modify t' fun th => ⟨none, th.userRegisters⟩).get t).space = _ ∨ _)
      rw [Heap.get_modify]
      by_cases ht : t = t'
      · rw [if_pos ht, ht]
        exact ⟨rfl, .inr ht'⟩
      · rw [if_neg ht]
        exact ⟨rfl, .inl rfl⟩
  next => cases h

lemma next_unlink {p : PCBId} (h : (o.unlink p).freePCB p = .ok o') :
    o'.thread.next = o.thread.next := by
  unfold Objects.freePCB at h
  split at h
  next =>
    cases h
    unfold Objects.unlink
    split <;> rfl
  next => cases h

/-- The thread keeps its registers, and its space unless it has exited. -/
def Kept (s s₁ : State) (t : Tid) : Prop :=
  (s₁.thread.get t).userRegisters = (s.thread.get t).userRegisters ∧
    ((s₁.thread.get t).space = (s.thread.get t).space ∨ Dying (s.code t))

lemma Kept.of_eq {t : Tid} (h : s₁.thread.get t = s.thread.get t) : Kept s s₁ t := by
  rw [Kept, h]
  exact ⟨rfl, .inl rfl⟩

variable {st : Stmt} {k k' : List Stmt} {es : List Event}

/-- **A step keeps the other threads.** -/
lemma Rule.kept (hr : Rule s st k k' es s₁) (hcode : s.code s.currentThread = st :: k)
    (ho : Owned s) {t : Tid} (ht : t ≠ s.currentThread) (hnext : t ≠ s.thread.next) :
    Kept s s₁ t := by
  cases hr
  case exit p status _ _ _ _ =>
    exact .of_eq (congrArg (Heap.get · t) (thread_removeThread _))
  case kill p _ _ _ _ => exact .of_eq (congrArg (Heap.get · t) (thread_detach p))
  case block | yield | finish =>
    exact .of_eq ((thread_run ..).trans (if_neg fun h => ht h.1))
  case release l => exact .of_eq (congrArg (Heap.get · t) (thread_releaseOf l))
  case resume h => exact .of_eq (congrFun (get_afterSwitch h) t)
  case allocatePCB h => exact .of_eq (congrArg (Heap.get · t) (thread_allocatePCB h))
  case saveParent =>
    refine .of_eq ?_
    rw [thread_saveUserState, Heap.get_modify_of_ne ht]
  case startChild => exact .of_eq (Heap.get_new_of_ne hnext)
  case loadFail =>
    refine .of_eq ?_
    rw [thread_dropSpace, Heap.get_modify_of_ne ht]
  case load e p _ =>
    have hcur : s.dropSpace.currentThread = s.currentThread := rfl
    refine .of_eq ?_
    rw [thread_loaded, hcur, Heap.get_modify_of_ne ht, thread_dropSpace, Heap.get_modify_of_ne ht]
  case unlinkPCB p o h =>
    obtain ⟨ow, os, hp, hout⟩ := ho
    refine (thread_unlink h t).imp_right (Or.imp_right fun hothers => ?_)
    exact hout.dying_of_unlink hp (hcode ▸ .head _) (othersThread_eq_some hothers).1 ht
  case freeFrames h => exact .of_eq (congrArg (Heap.get · t) (thread_freeFrames h))
  case freeSpace h => exact .of_eq (congrArg (Heap.get · t) (thread_freeSpace h))
  all_goals exact .of_eq rfl

/-- No other thread gets statements, except one that a `Fork` makes. -/
lemma Rule.code_of_ne (hr : Rule s st k k' es s₁) {t : Tid} (hnext : t ≠ s.thread.next) :
    s₁.code t = s.code t := by
  cases hr
  case block | yield | finish => exact congrFun (code_run ..) t
  case release => exact congrFun (code_releaseOf ..) t
  case resume h => exact congrFun (code_afterSwitch s h) t
  case startChild => exact Function.update_of_ne hnext ..
  all_goals rfl

/-- The processor is given away by a thread that waits, or has finished. -/
lemma Rule.currentThread (hr : Rule s st k k' es s₁) :
    s₁.currentThread = s.currentThread ∨ waits k' = true ∨ k' = [] := by
  cases hr
  case block | yield => exact .inr (.inl rfl)
  case finish => exact .inr (.inr rfl)
  case exit => exact .inl (currentThread_exiting ..)
  case kill p _ _ _ _ => exact .inl (currentThread_detach p)
  case release => exact .inl (currentThread_releaseOf _)
  case resume h => exact .inl (currentThread_afterSwitch h)
  case allocatePCB h => exact .inl (currentThread_allocatePCB h)
  case unlinkPCB p o h =>
    exact .inl ((currentThread_freePCB h).trans (currentThread_unlink p))
  case freeFrames h => exact .inl (currentThread_freeFrames h)
  case freeSpace h => exact .inl (currentThread_freeSpace h)
  all_goals exact .inl rfl

/-- The threads that are made. -/
lemma Rule.next_eq (hr : Rule s st k k' es s₁) : s₁.thread.next = s.thread.next ∨
    s₁.thread.next = s.thread.next + 1 ∧ ∃ call p a, st = .startChild call p a ∧
      es = [.forked s.thread.next call] := by
  cases hr
  case exit => exact .inl (congrArg Heap.next (thread_removeThread _))
  case kill p _ _ _ _ => exact .inl (congrArg Heap.next (thread_detach p))
  case block | yield | finish => exact .inl (next_run _)
  case release l => exact .inl (congrArg Heap.next (thread_releaseOf l))
  case resume h => exact .inl (next_afterSwitch h)
  case allocatePCB h => exact .inl (congrArg Heap.next (thread_allocatePCB h))
  case startChild call p a q _ => exact .inr ⟨rfl, call, p, a, rfl, rfl⟩
  case unlinkPCB h => exact .inl (next_unlink h)
  case freeFrames h => exact .inl (congrArg Heap.next (thread_freeFrames h))
  case freeSpace h => exact .inl (congrArg Heap.next (thread_freeSpace h))
  all_goals exact .inl rfl

end Threads

/-! ### The register file of each thread -/

/-- The register file that the thread goes on with: that of the machine, unless it waits for the
processor. -/
def State.context (s : State) (t : Tid) : Registers :=
  if t = s.currentThread ∧ waits (s.code t) = false then s.registers
  else (s.thread.get t).userRegisters

/-- What holds for a thread in a `Fork`: it goes on with the register file of the call. -/
structure Forking (r : Registers) (th : Thread) (st : Stmt) (call : Registers) : Prop where
  context : r = call
  flush : call.flush = call
  space : th.space ≠ none
  saved : st.saved = true → th.userRegisters = call

/-- **Every thread goes on with its own registers**, in a run with the trace `tr`. -/
structure Restored (tr : List Event) (s : State) : Prop where
  tail : ∀ t, .resume ∉ (s.code t).tail
  parked : ∀ {t}, t ≠ s.currentThread → Parked (s.code t)
  fork : ∀ {t st call}, st ∈ s.code t → st.call = some call →
    Forking (s.context t) (s.thread.get t) st call
  child : ∀ {t}, .childFunction ∈ s.code t → Fresh (s.code t) ∧ ∃ call, .forked t call ∈ tr ∧
    (s.thread.get t).userRegisters = childRegisters (call.gpr 4) call
  forked : ∀ {c call}, .forked c call ∈ tr → c < s.thread.next ∧
    ∀ {call'}, .forked c call' ∈ tr → call' = call

section Restored

variable {s s₁ : State} {st : Stmt} {k k' : List Stmt} {es tr : List Event}

lemma code_setCode_self (t : Tid) : (s.setCode t k).code t = k := Function.update_self ..

lemma code_setCode_of_ne {t t' : Tid} (h : t' ≠ t) : (s.setCode t k).code t' = s.code t' :=
  Function.update_of_ne h ..

lemma context_self {t : Tid} (ht : s₁.currentThread = t) (hw : waits k' = false) :
    (s₁.setCode t k').context t = s₁.registers :=
  if_pos ⟨ht.symm, by rwa [code_setCode_self]⟩

lemma context_waits {t : Tid} (hw : waits k' = true) :
    (s₁.setCode t k').context t = (s₁.thread.get t).userRegisters :=
  if_neg fun h => by
    have hw' := h.2
    rw [code_setCode_self, hw] at hw'
    cases hw'

/-- A thread that is not running goes on with what was saved. -/
lemma context_of_parked {t : Tid} (h : t = s.currentThread → waits (s.code t) = true) :
    s.context t = (s.thread.get t).userRegisters :=
  if_neg fun hc => by
    rw [h hc.1] at hc
    cases hc.2

/-- The running thread goes on with the register file of the machine. -/
lemma context_of_code (hcode : s.code s.currentThread = st :: k) (hst : waits (st :: k) = false) :
    s.context s.currentThread = s.registers :=
  if_pos ⟨rfl, hcode ▸ hst⟩

/-- A thread with work to do outside `doExit` has not exited. -/
lemma Owned.not_dying (ho : Owned s) {t : Tid} (hst : st ∈ s.code t) (hwork : st.inExit = false) :
    ¬ Dying (s.code t) := by
  obtain ⟨ow, os, -, hout⟩ := ho
  rintro (hd | hd)
  · rw [hd] at hst
    cases hst
  · have hexit := hout.exitOnly t hd st hst
    rw [hwork] at hexit
    cases hexit

lemma Owned.born (ho : Owned s) {t : Tid} (hcode : s.code t = st :: k) : t < s.thread.next := by
  obtain ⟨ow, os, -, hout⟩ := ho
  exact hout.born hcode

lemma Forking.mono {r : Registers} {th : Thread} {st' : Stmt} {call : Registers}
    (h : Forking r th st call) (hs : st'.saved = true → st.saved = true) :
    Forking r th st' call :=
  ⟨h.context, h.flush, h.space, fun hst => h.saved (hs hst)⟩

lemma Forking.of_eq {r r' : Registers} {th : Thread} {call : Registers} (hr : r = r')
    (h : Forking r' th st call) : Forking r th st call := hr ▸ h

/-- What is left behind a statement that works starts no child. -/
lemma Restored.plain (h : Restored tr s) (ho : Owned s) (hcode : s.code s.currentThread = st :: k)
    (hs : st.scheduling = false) (ht : st ≠ .threadRoot) : ∀ st' ∈ k, st'.starting = false := by
  obtain ⟨ow, os, -, hout⟩ := ho
  have honce := hout.once s.currentThread
  rw [hcode] at honce
  intro st' hst
  rw [Stmt.starting, honce.tail hs hst, Bool.false_or, ← Bool.not_eq_true, Stmt.isChildFunction_iff]
  rintro rfl
  have hmem : .childFunction ∈ s.code s.currentThread := hcode ▸ List.mem_cons_of_mem _ hst
  obtain hf | hf | hf | hf := (h.child hmem).1
  · exact ht (List.cons.inj (hcode.symm.trans hf)).1
  · cases (List.cons.inj (hcode.symm.trans hf)).1
    cases hs
  · cases (List.cons.inj (hcode.symm.trans hf)).1
    cases hs
  · cases (List.cons.inj (hcode.symm.trans hf)).2
    cases hst

/-- The load that was pending at a system call has been done. -/
lemma flush_raised (r : Registers) : (raised r).flush = raised r := Registers.flush_flush _

/-- The running thread, in a `Fork`. -/
lemma Rule.own_fork (hr : Rule s st k k' es s₁) (hcode : s.code s.currentThread = st :: k)
    (ho : Owned s) (h : Restored tr s) {st' : Stmt} {call : Registers} (hst : st' ∈ k')
    (hcall : st'.call = some call) :
    Forking ((s₁.setCode s.currentThread k').context s.currentThread)
      (s₁.thread.get s.currentThread) st' call := by
  have htail : .resume ∉ k := by
    have ht := h.tail s.currentThread
    rwa [hcode] at ht
  have old : ∀ {st₀ r}, st₀ ∈ st :: k → st₀.call = some r →
      Forking (s.context s.currentThread) (s.thread.get s.currentThread) st₀ r :=
    fun hst₀ => h.fork (hcode ▸ hst₀)
  -- nothing that starts a child is left
  have gone : (∀ st' ∈ k', st'.starting = false) → False := by
    intro hplain
    have hf := hplain st' hst
    rw [Stmt.starting, Stmt.inFork_of_call hcall] at hf
    cases hf
  have works : st.works = true → Forking ((s₁.setCode s.currentThread k').context s.currentThread)
      (s₁.thread.get s.currentThread) st' call := by
    intro hw
    have hs : st.scheduling = false := by cases st <;> first | rfl | cases hw
    have ht : st ≠ .threadRoot := by rintro rfl; cases hw
    have hplain := h.plain ho hcode hs ht
    obtain hplain' | ⟨hspace, hs₁, hk⟩ := hr.plain hw hplain
    · exact (gone hplain').elim
    · -- the call of a `Fork`
      have hcall' : call = s.trapped.registers := by
        simp only [hk, acquireLock, List.cons_append, List.nil_append, List.mem_cons] at hst
        obtain rfl | rfl | rfl | rfl | rfl | hst := hst
        case inr.inr.inl => exact (Option.some.inj hcall).symm
        case inr.inr.inr.inr.inr =>
          have hf := hplain st' hst
          rw [Stmt.starting, Stmt.inFork_of_call hcall] at hf
          cases hf
        all_goals cases hcall
      have hsaved : st'.saved = false := by
        simp only [hk, acquireLock, List.cons_append, List.nil_append, List.mem_cons] at hst
        obtain rfl | rfl | rfl | rfl | rfl | hst := hst
        case inr.inr.inr.inr.inr =>
          have hf := hplain st' hst
          rw [Stmt.starting, Stmt.inFork_of_call hcall] at hf
          cases hf
        all_goals rfl
      have hcontext : (s₁.setCode s.currentThread k').context s.currentThread = s₁.registers := by
        refine context_self ?_ ?_
        · rw [hs₁]
          rfl
        · rw [hk]
          rfl
      rw [hcontext, hs₁, hcall']
      refine ⟨rfl, flush_raised _, hspace, fun hs => ?_⟩
      rw [hsaved] at hs
      cases hs
  -- the thread goes on, with its register file
  have keep : s₁.currentThread = s.currentThread →
      (s₁.registers = s.registers ∨ s₁.registers = s.registers.flush) →
      s₁.thread.get s.currentThread = s.thread.get s.currentThread → waits (st :: k) = false →
      waits k' = false → (∃ st₀ ∈ st :: k, st₀.call = some call ∧
        (st'.saved = true → st₀.saved = true)) →
      Forking ((s₁.setCode s.currentThread k').context s.currentThread)
        (s₁.thread.get s.currentThread) st' call := by
    rintro hcur hregs hth hw hw' ⟨st₀, hst₀, hcall₀, hsaved⟩
    have hf := old hst₀ hcall₀
    rw [context_of_code hcode hw] at hf
    rw [context_self hcur hw', hth]
    refine Forking.mono ⟨?_, hf.flush, hf.space, hf.saved⟩ hsaved
    obtain hregs | hregs := hregs
    · exact hregs.trans hf.context
    · rw [hregs, hf.context, hf.flush]
  -- the thread loses the processor, and its register file is saved
  have switch : ∀ {s₂ : State} {next : Tid}, s₁ = s₂.run next → st' ∈ st :: k →
      waits (st :: k) = false → waits k' = true → s₂.thread = s.thread →
      s₂.currentThread = s.currentThread → s₂.registers = s.registers →
      Forking ((s₁.setCode s.currentThread k').context s.currentThread)
        (s₁.thread.get s.currentThread) st' call := by
    intro s₂ next hs₁ hst₀ hw hw' hth hcur hregs
    have hf := old hst₀ hcall
    rw [context_of_code hcode hw] at hf
    have hspace : s₂.currentSpace ≠ none := by
      rw [Objects.currentSpace, hth, hcur]
      exact hf.space
    have hget : s₁.thread.get s.currentThread =
        ⟨(s.thread.get s.currentThread).space, s.registers⟩ := by
      rw [hs₁, thread_run, if_pos ⟨hcur.symm, hspace⟩, hth, hregs]
    rw [context_waits hw', hget]
    exact ⟨hf.context, hf.flush, hf.space, fun _ => hf.context⟩
  have notMem : (∀ st' ∈ k, st'.starting = false) → st' ∉ k := by
    intro hplain hst'
    have hf := hplain st' hst'
    rw [Stmt.starting, Stmt.inFork_of_call hcall] at hf
    cases hf
  cases hr
  case control hc =>
    cases hc
    case tick => exact keep rfl (.inl rfl) rfl rfl (waits_eq_false htail) ⟨st', .tail _ hst, hcall, id⟩
    case threadRoot =>
      exact keep rfl (.inl rfl) rfl rfl (waits_eq_false htail) ⟨st', .tail _ hst, hcall, id⟩
    case yield =>
      exact keep rfl (.inl rfl) rfl rfl (waits_eq_false htail) ⟨st', .tail _ hst, hcall, id⟩
    case copySpace =>
      refine (gone (List.forall_mem_cons.mpr ⟨rfl, h.plain ho hcode rfl (fun h => by cases h)⟩)).elim
    all_goals exact works rfl
  case interrupt hst₀ =>
    refine keep rfl (.inr rfl) rfl ?_ (waits_eq_false htail) ⟨st', .tail _ hst, hcall, id⟩
    obtain rfl | rfl := hst₀ <;> rfl
  case timeSlice hst₀ =>
    refine keep rfl (.inr rfl) rfl ?_ rfl ?_
    · obtain rfl | rfl := hst₀ <;> rfl
    · simp only [threadYield, List.cons_append, List.nil_append, List.mem_cons] at hst
      obtain rfl | rfl | hst := hst
      · cases hcall
      · cases hcall
      · exact ⟨st', .tail _ hst, hcall, id⟩
  case take =>
    exact keep rfl (.inl rfl) rfl rfl (waits_eq_false htail) ⟨st', .tail _ hst, hcall, id⟩
  case release l =>
    exact keep (currentThread_releaseOf l) (.inl (registers_releaseOf l))
      (congrArg (Heap.get · s.currentThread) (thread_releaseOf l)) rfl (waits_eq_false htail)
      ⟨st', .tail _ hst, hcall, id⟩
  case allocatePCB r p o hp =>
    refine keep (currentThread_allocatePCB hp) (.inl rfl)
      (congrArg (Heap.get · s.currentThread) (thread_allocatePCB hp)) rfl rfl ?_
    simp only [releaseLock, List.cons_append, List.nil_append, List.mem_cons] at hst
    obtain rfl | rfl | rfl | hst := hst
    · cases hcall
    · cases hcall
    · exact ⟨_, .head _, hcall, fun h => by cases h⟩
    · exact absurd hst (notMem (h.plain ho hcode rfl (fun h => by cases h)))
  case copySpace r p a _ _ =>
    refine keep rfl (.inl rfl) rfl rfl rfl ?_
    simp only [releaseLock, List.cons_append, List.nil_append, List.mem_cons] at hst
    obtain rfl | rfl | rfl | hst := hst
    · cases hcall
    · cases hcall
    · exact ⟨_, .head _, hcall, fun _ => rfl⟩
    · exact absurd hst (notMem (h.plain ho hcode rfl (fun h => by cases h)))
  case block l next rest _ _ =>
    simp only [List.mem_cons] at hst
    obtain rfl | rfl | hst := hst
    · cases hcall
    · cases hcall
    · exact switch rfl (.tail _ hst) rfl rfl rfl rfl rfl
  case yield next rest _ =>
    obtain rfl | hst := List.mem_cons.mp hst
    · cases hcall
    · exact switch rfl (.tail _ hst) rfl rfl rfl rfl rfl
  case resume hs₁ =>
    have hf := old (.tail _ hst) hcall
    rw [context_of_parked fun _ => hcode ▸ rfl] at hf
    rw [context_self (currentThread_afterSwitch hs₁) (waits_eq_false htail),
      registers_afterSwitch hs₁ hf.space, get_afterSwitch hs₁]
    exact hf
  case saveParent r p =>
    have hf := old (.head _) rfl
    simp only [acquireLock, List.cons_append, List.nil_append, List.mem_cons] at hst
    obtain rfl | rfl | rfl | hst := hst
    · cases hcall
    · cases hcall
    · obtain rfl : r = call := Option.some.inj hcall
      rw [context_of_code hcode rfl] at hf
      rw [thread_saveUserState, Heap.get_modify_self]
      exact .of_eq (context_self rfl rfl) ⟨hf.context, hf.flush, hf.space, fun _ => hf.context⟩
    · exact absurd hst (notMem (h.plain ho hcode rfl (fun h => by cases h)))
  case startChild r p a q _ =>
    have hf := old (.head _) rfl
    have hget : (s.thread.new ⟨some a, childRegisters (r.gpr 4) s.registers⟩).get s.currentThread =
        s.thread.get s.currentThread := Heap.get_new_of_ne (Nat.ne_of_lt (ho.born hcode))
    simp only [List.mem_cons] at hst
    obtain rfl | rfl | hst := hst
    · cases hcall
    · obtain rfl : r = call := Option.some.inj hcall
      refine .of_eq (context_self rfl rfl) ⟨?_, hf.flush, ?_, fun h => by cases h⟩
      · exact (congrArg Thread.userRegisters hget).trans (hf.saved rfl)
      · exact (congrArg Thread.space hget).trans_ne hf.space
    · exact absurd hst (notMem (h.plain ho hcode rfl (fun h => by cases h)))
  case forkReturn => exact (gone (h.plain ho hcode rfl (fun h => by cases h))).elim
  case childFunction => exact (gone (List.forall_mem_singleton.mpr rfl)).elim
  all_goals exact works rfl

/-- The running thread, before `childFunction`. -/
lemma Rule.own_child (hr : Rule s st k k' es s₁) (hcode : s.code s.currentThread = st :: k)
    (h : Restored tr s) (guard : st = .yield → .childFunction ∈ k → s.readyList = [])
    (hst : .childFunction ∈ k') : Fresh k' ∧ s₁.thread = s.thread ∧
      .childFunction ∈ s.code s.currentThread := by
  have hk := hr.childFunction_mem hst
  have hmem : .childFunction ∈ s.code s.currentThread := hcode ▸ List.mem_cons_of_mem _ hk
  have hfresh := (h.child hmem).1
  rw [hcode] at hfresh
  simp only [Fresh, List.cons.injEq] at hfresh
  obtain ⟨rfl, rfl⟩ | ⟨rfl, rfl⟩ | ⟨rfl, rfl⟩ | ⟨rfl, rfl⟩ := hfresh
  · cases hr
    case control hc =>
      cases hc
      exact ⟨.inr (.inr (.inr rfl)), rfl, hmem⟩
    case interrupt => exact ⟨.inr (.inr (.inr rfl)), rfl, hmem⟩
    case timeSlice => exact ⟨.inr (.inl rfl), rfl, hmem⟩
  · cases hr
    case control hc =>
      cases hc
      exact ⟨.inr (.inr (.inl rfl)), rfl, hmem⟩
    case yield next rest ready => cases (guard rfl hk).symm.trans ready
    case interrupt hyield => obtain hyield | hyield := hyield <;> cases hyield
    case timeSlice hyield => obtain hyield | hyield := hyield <;> cases hyield
  · cases hr
    case control hc =>
      cases hc
      exact ⟨.inr (.inr (.inr rfl)), rfl, hmem⟩
    case interrupt => exact ⟨.inr (.inr (.inr rfl)), rfl, hmem⟩
    case timeSlice => exact ⟨.inr (.inl rfl), rfl, hmem⟩
  · cases hk

/-- The events of a step, in a run with the trace `tr`. -/
lemma Rule.forked_mem (hr : Rule s st k k' es s₁) {c : Tid} {call : Registers}
    (h : .forked c call ∈ es) : c = s.thread.next ∧ s₁.thread.next = s.thread.next + 1 ∧
      es = [.forked c call] := by
  cases hr
  case startChild =>
    obtain ⟨rfl, rfl⟩ := Event.forked.inj (List.mem_singleton.mp h)
    exact ⟨rfl, rfl, rfl⟩
  case childFunction | forkReturn | freeFrames | killReturn =>
    cases List.mem_singleton.mp h
  all_goals cases h

/-- What becomes of another thread: nothing, or it is made. -/
lemma Rule.thread_cases (hr : Rule s st k k' es s₁) (hcode : s.code s.currentThread = st :: k)
    (ho : Owned s) {t : Tid} (ht : t ≠ s.currentThread) :
    s₁.code t = s.code t ∧ (Kept s s₁ t ∨ s.code t = []) ∨
      ∃ call p a, st = .startChild call p a ∧ es = [.forked t call] ∧
        s₁.code t = [.threadRoot, .childFunction] ∧ t = s.thread.next ∧
        (s₁.thread.get t).userRegisters = childRegisters (call.gpr 4) s.registers := by
  by_cases hnext : t = s.thread.next
  · subst hnext
    cases hr
    case startChild call p a q _ =>
      refine .inr ⟨call, p, a, rfl, rfl, Function.update_self .., rfl, ?_⟩
      exact congrArg Thread.userRegisters Heap.get_new_next
    all_goals
      refine .inl ⟨?_, .inr ?_⟩
      · first | rfl | exact congrFun (code_run ..) _ | exact congrFun (code_releaseOf ..) _ | exact congrFun (code_afterSwitch s ‹_›) _
      · obtain ⟨ow, os, -, hout⟩ := ho
        exact hout.unborn (Nat.le_refl _)
  · exact .inl ⟨hr.code_of_ne hnext, .inl (hr.kept hcode ho ht hnext)⟩

/-- A thread waits for the processor only where it has given it away. -/
lemma Rule.keeps_tail (hr : Rule s st k k' es s₁) (hcode : s.code s.currentThread = st :: k)
    (ho : Owned s) (h : ∀ t, .resume ∉ (s.code t).tail) (t : Tid) :
    .resume ∉ ((s₁.setCode s.currentThread k').code t).tail := by
  by_cases ht : t = s.currentThread
  · subst ht
    have htail := h s.currentThread
    rw [hcode] at htail
    rw [code_setCode_self]
    exact hr.resume_notMem_tail htail
  · rw [code_setCode_of_ne ht]
    obtain ⟨hc, -⟩ | ⟨_, _, _, -, -, hc, -⟩ := hr.thread_cases hcode ho ht
    · rw [hc]
      exact h t
    · rw [hc]
      simp

/-- A thread that does not run has been switched out, has finished, or has not started. -/
lemma Rule.keeps_parked (hr : Rule s st k k' es s₁) (hcode : s.code s.currentThread = st :: k)
    (ho : Owned s) (h : ∀ {t}, t ≠ s.currentThread → Parked (s.code t)) {t : Tid}
    (hcur : t ≠ s₁.currentThread) : Parked ((s₁.setCode s.currentThread k').code t) := by
  by_cases ht : t = s.currentThread
  · subst ht
    rw [code_setCode_self]
    obtain heq | hw | hnil := hr.currentThread
    · exact absurd heq.symm hcur
    · refine .inr (.inl ?_)
      match k', hw with
      | .resume :: k', _ => exact ⟨k', rfl⟩
    · exact .inl hnil
  · rw [code_setCode_of_ne ht]
    obtain ⟨hc, -⟩ | ⟨_, _, _, -, -, hc, -⟩ := hr.thread_cases hcode ho ht
    · rw [hc]
      exact h ht
    · exact .inr (.inr hc)

/-- **Every step keeps the register files**, unless a child loses the processor too early. -/
theorem Rule.restored (hr : Rule s st k k' es s₁) (hcode : s.code s.currentThread = st :: k)
    (ho : Owned s) (h : Restored tr s)
    (guard : st = .yield → .childFunction ∈ k → s.readyList = []) :
    Restored (tr ++ es) (s₁.setCode s.currentThread k') := by
  have old : ∀ {c call}, .forked c call ∈ tr → Event.forked c call ∈ tr ++ es :=
    fun hc => List.mem_append_left _ hc
  refine ⟨hr.keeps_tail hcode ho h.tail, hr.keeps_parked hcode ho h.parked,
    fun {t st' call} hst hcall => ?_, fun {t} hst => ?_,
    fun {c call} hc => ⟨?_, fun {call'} hc' => ?_⟩⟩
  case refine_1 =>
    by_cases ht : t = s.currentThread
    · subst ht
      rw [code_setCode_self] at hst
      exact hr.own_fork hcode ho h hst hcall
    · rw [code_setCode_of_ne ht] at hst
      obtain ⟨hc, hkept | hnil⟩ | ⟨_, _, _, -, -, hc, -⟩ := hr.thread_cases hcode ho ht
      · rw [hc] at hst
        have hf := h.fork hst hcall
        have hspace : (s₁.thread.get t).space = (s.thread.get t).space := by
          obtain hspace | hd := hkept.2
          · exact hspace
          · exact absurd hd (ho.not_dying hst (Stmt.inExit_of_call hcall))
        have hwaits : waits (s.code t) = true :=
          (h.parked ht).waits hst (by rintro rfl; cases hcall) (by rintro rfl; cases hcall)
        rw [context_of_parked fun _ => hwaits, ← hkept.1] at hf
        refine .of_eq (context_of_parked fun _ => ?_) ⟨hf.context, hf.flush, ?_, fun _ => hf.context⟩
        · rw [code_setCode_of_ne ht, hc]
          exact hwaits
        · exact hspace.trans_ne hf.space
      · rw [hc, hnil] at hst
        cases hst
      · rw [hc] at hst
        obtain rfl | rfl : st' = .threadRoot ∨ st' = .childFunction := by simpa using hst
        · cases hcall
        · cases hcall
  case refine_2 =>
    by_cases ht : t = s.currentThread
    · subst ht
      rw [code_setCode_self] at hst ⊢
      obtain ⟨hfresh, hth, hmem⟩ := hr.own_child hcode h guard hst
      obtain ⟨-, call, hc, hregs⟩ := h.child hmem
      refine ⟨hfresh, call, old hc, ?_⟩
      show (s₁.thread.get _).userRegisters = _
      rw [hth]
      exact hregs
    · rw [code_setCode_of_ne ht] at hst ⊢
      obtain ⟨hc, hkept | hnil⟩ | ⟨call, p, a, rfl, hes, hc, -, hregs⟩ :=
        hr.thread_cases hcode ho ht
      · rw [hc] at hst ⊢
        obtain ⟨hfresh, call, hc', hregs⟩ := h.child hst
        exact ⟨hfresh, call, old hc', hkept.1.trans hregs⟩
      · rw [hc, hnil] at hst
        cases hst
      · have hf : Forking _ _ (.startChild call p a) call :=
          h.fork (hcode.symm ▸ List.mem_cons_self) rfl
        rw [context_of_code hcode rfl] at hf
        rw [hf.context] at hregs
        refine ⟨.inl hc, call, ?_, hregs⟩
        rw [hes]
        exact List.mem_append_right _ (.head _)
  case refine_3 =>
    show c < s₁.thread.next
    obtain hc | hc := List.mem_append.mp hc
    · have hlt := (h.forked hc).1
      obtain hn | ⟨hn, -⟩ := hr.next_eq
      · rwa [hn]
      · rw [hn]
        exact Nat.lt_succ_of_lt hlt
    · obtain ⟨rfl, hn, -⟩ := hr.forked_mem hc
      rw [hn]
      exact Nat.lt_succ_self _
  case refine_4 =>
    obtain hc | hc := List.mem_append.mp hc
    · obtain hc' | hc' := List.mem_append.mp hc'
      · exact (h.forked hc).2 hc'
      · obtain ⟨rfl, -, -⟩ := hr.forked_mem hc'
        exact absurd (h.forked hc).1 (Nat.lt_irrefl _)
    · obtain ⟨rfl, -, hes⟩ := hr.forked_mem hc
      obtain hc' | hc' := List.mem_append.mp hc'
      · exact absurd (h.forked hc').1 (Nat.lt_irrefl _)
      · rw [hes] at hc'
        exact (Event.forked.inj (List.mem_singleton.mp hc')).2

end Restored

/-! ### Runs -/

/-- What the events of a run say: a child starts at the function that its `Fork` was given, with the
general registers of the call; a parent goes on after the system call with only `r2` changed. -/
structure Told (tr : List Event) : Prop where
  origin : ∀ {c r}, .begins c r ∈ tr → ∃ call, Event.forked c call ∈ tr
  child : ∀ {c call r}, .forked c call ∈ tr → .begins c r ∈ tr →
    r.pc = call.gpr 4 ∧ r.nextPC = call.gpr 4 + 4 ∧ r.gpr = call.gpr
  parent : ∀ {t call pid r}, .resumes t call pid r ∈ tr →
    r.pc = call.pc + 4 ∧ r.nextPC = call.pc + 8 ∧
      r.gpr = Function.update call.gpr 2 (BitVec.ofNat 32 pid) ∧ r.hi = call.hi ∧ r.lo = call.lo

/-- No thread gives the processor away before it has loaded the registers it starts with. -/
def LoadsFirst (s : State) (_ : List Event) (_ : State) : Prop :=
  ∀ k, s.code s.currentThread = .yield :: k → .childFunction ∈ k → s.readyList = []

/-- The register files of the events. -/
structure Shown (tr : List Event) : Prop where
  begins : ∀ {c r}, .begins c r ∈ tr →
    ∃ call, .forked c call ∈ tr ∧ r = childRegisters (call.gpr 4) call
  resumes : ∀ {t call pid r}, .resumes t call pid r ∈ tr → r = returned call (BitVec.ofNat 32 pid)

section Runs

variable {s₀ s s₁ : State} {e : Executable} {st : Stmt} {k k' : List Stmt} {es tr : List Event}

lemma Rule.begins_mem (hr : Rule s st k k' es s₁) {c : Tid} {r : Registers}
    (h : .begins c r ∈ es) : c = s.currentThread ∧ st = .childFunction ∧
      r = (s.thread.get s.currentThread).userRegisters := by
  cases hr
  case childFunction =>
    obtain ⟨rfl, rfl⟩ := Event.begins.inj (List.mem_singleton.mp h)
    exact ⟨rfl, rfl, rfl⟩
  case startChild | forkReturn | freeFrames | killReturn => cases List.mem_singleton.mp h
  all_goals cases h

lemma Rule.resumes_mem (hr : Rule s st k k' es s₁) {t : Tid} {call r : Registers} {pid : ℕ}
    (h : .resumes t call pid r ∈ es) :
    (∃ p, st = .forkReturn call p) ∧ r = returned s.registers (BitVec.ofNat 32 pid) := by
  cases hr
  case forkReturn call' p =>
    obtain ⟨-, rfl, rfl, rfl⟩ := Event.resumes.inj (List.mem_singleton.mp h)
    exact ⟨⟨p, rfl⟩, rfl⟩
  case startChild | childFunction | freeFrames | killReturn => cases List.mem_singleton.mp h
  all_goals cases h

lemma Rule.shown (hr : Rule s st k k' es s₁) (hcode : s.code s.currentThread = st :: k)
    (h : Restored tr s) (hshown : Shown tr) : Shown (tr ++ es) := by
  refine ⟨fun {c r} hb => ?_, fun {t call pid r} hres => ?_⟩
  · obtain hb | hb := List.mem_append.mp hb
    · obtain ⟨call, hc, hreg⟩ := hshown.begins hb
      exact ⟨call, List.mem_append_left _ hc, hreg⟩
    · obtain ⟨rfl, rfl, rfl⟩ := hr.begins_mem hb
      have hmem : .childFunction ∈ s.code s.currentThread := hcode.symm ▸ List.mem_cons_self
      obtain ⟨-, call, hc, hreg⟩ := h.child hmem
      exact ⟨call, List.mem_append_left _ hc, hreg⟩
  · obtain hres | hres := List.mem_append.mp hres
    · exact hshown.resumes hres
    · obtain ⟨⟨p, rfl⟩, rfl⟩ := hr.resumes_mem hres
      have hf : Forking _ _ (.forkReturn call p) call :=
        h.fork (hcode.symm ▸ List.mem_cons_self) rfl
      rw [context_of_code hcode rfl] at hf
      rw [hf.context]

/-- The first process. -/
lemma restored_startProcess (h : startProcess e = .ok s₀) : Restored [] s₀ := by
  obtain ⟨-, hcode, hcur⟩ := view_startProcess h
  have hmem : ∀ {t st}, st ∈ s₀.code t → t = 0 ∧ st = .user := by
    intro t st hst
    rw [hcode] at hst
    by_cases ht : t = 0
    · subst ht
      rw [Function.update_self] at hst
      exact ⟨rfl, List.mem_singleton.mp hst⟩
    · rw [Function.update_of_ne ht] at hst
      cases hst
  refine ⟨fun t hst => ?_, fun {t} ht => ?_, fun hst hcall => ?_, fun hst => ?_, nofun⟩
  · cases (hmem (List.mem_of_mem_tail hst)).2
  · rw [hcur] at ht
    rw [hcode, Function.update_of_ne ht]
    exact .inl rfl
  · rw [(hmem hst).2] at hcall
    cases hcall
  · cases (hmem hst).2

/-- **In every run in which a child loads its registers before it loses the processor, every child
starts where it was told, and its parent goes on after the call.** -/
theorem told_of_run (h₀ : startProcess e = .ok s₀) (h : Run (Guarded LoadsFirst Step) s₀ tr s) :
    Told tr := by
  have hinv : Restored tr s ∧ Shown tr := by
    refine h.invariant (I := fun tr s => Restored tr s ∧ Shown tr) ?_ ?_
    · exact ⟨restored_startProcess h₀, nofun, nofun⟩
    · rintro tr s es s' hrun ⟨hres, hshown⟩ ⟨⟨c, hs⟩, hguard⟩
      have ho := owned_of_run h₀ hrun.of_guarded
      obtain ⟨st, k, k', s₁, hcode, hr, rfl⟩ := step_rule hs
      refine ⟨hr.restored hcode ho hres ?_, hr.shown hcode hres hshown⟩
      rintro rfl
      exact hguard k hcode
  obtain ⟨hres, hshown⟩ := hinv
  refine ⟨fun hb => ?_, fun {c call r} hc hb => ?_, fun hp => ?_⟩
  · obtain ⟨call, hc, -⟩ := hshown.begins hb
    exact ⟨call, hc⟩
  · obtain ⟨call', hc', rfl⟩ := hshown.begins hb
    obtain rfl := (hres.forked hc).2 hc'
    exact ⟨rfl, rfl, rfl⟩
  · rw [hshown.resumes hp]
    exact ⟨rfl, rfl, rfl, rfl, rfl⟩

end Runs

/-! ### A child that is switched out too early -/

/-- At `SYSCALL`, with the number of a system call and its argument. -/
def callRegisters (number arg : Word) : Registers := ((initRegisters 1).write 2 number).write 4 arg

/-- A program of one page. -/
def small : Executable := ⟨true, 1⟩

/-- The parent calls `Fork(400)`, and loses the processor to the child when it is back in user
mode. -/
def forkChoices : List Choice :=
  [.instruction (callRegisters 9 400), .go, .syscall none] ++ List.replicate 14 .go ++
    [.timeSlice, .go]

/-- A child begins at another address than it was told. -/
def strayed (tr : List Event) : Bool :=
  tr.any fun e => tr.any fun e' =>
    match e, e' with
    | .forked c call, .begins c' r => c == c' && r.pc != call.gpr 4
    | _, _ => false

lemma not_told_of_strayed {tr : List Event} (h : strayed tr = true) : ¬ Told tr := by
  intro htold
  obtain ⟨e, he, h⟩ := List.any_eq_true.mp h
  obtain ⟨e', he', h⟩ := List.any_eq_true.mp h
  split at h
  next c call c' r =>
    rw [Bool.and_eq_true, beq_iff_eq, bne_iff_ne] at h
    obtain ⟨rfl, hne⟩ := h
    exact hne (htold.child he he').1
  next => cases h

/-- The timer asks for a `Yield` in `ThreadRoot`: `Scheduler::Run` saves the register file of the
parent into the child, and the child begins after the `Fork` of the parent. -/
theorem not_told : ¬ ∀ e s₀ tr s, startProcess e = .ok s₀ → Run Step s₀ tr s → Told tr := by
  intro h
  obtain ⟨s₀, tr, s, h₀, hr, hp⟩ := run_of_startProcess small
    (forkChoices ++ [.timeSlice, .go, .go, .go, .instruction (callRegisters 0 0), .timeSlice, .go,
      .go, .go, .go]) (fun tr _ => strayed tr) (by decide +kernel)
  exact not_told_of_strayed hp (h small s₀ tr s h₀ hr)

/-- Does the step keep the guard? -/
def loadsFirst (s : State) : Bool :=
  match s.code s.currentThread with
  | .yield :: k => !k.any Stmt.isChildFunction || s.readyList.isEmpty
  | _ => true

lemma loadsFirst_of_test {s s' : State} {es : List Event} (h : loadsFirst s = true) :
    LoadsFirst s es s' := by
  intro k hcode hk
  simp only [loadsFirst, hcode, Bool.or_eq_true, Bool.not_eq_true'] at h
  obtain h | h := h
  · have hany : k.any Stmt.isChildFunction = true := List.any_eq_true.mpr ⟨_, hk, rfl⟩
    rw [h] at hany
    cases hany
  · exact List.isEmpty_iff.mp h

/-- The thread is in user mode. -/
def inUserMode : List Stmt → Bool
  | [.user] => true
  | _ => false

lemma eq_of_inUserMode {l : List Stmt} (h : inUserMode l = true) : l = [.user] := by
  unfold inUserMode at h
  split at h
  · rfl
  · cases h

/-- Without the timer in `ThreadRoot`, the child of the same `Fork` gets to user mode. -/
theorem told_of_run_fork : ∃ s₀ tr s, startProcess small = .ok s₀ ∧
    Run (Guarded LoadsFirst Step) s₀ tr s ∧ s.code 1 = [.user] ∧ Told tr := by
  obtain ⟨s₀, tr, s, h₀, hr, hp⟩ := guarded_of_startProcess (G := LoadsFirst)
    (fun {s es s'} h _ => loadsFirst_of_test h) small (forkChoices ++ [.go, .go])
    (fun s => inUserMode (s.code 1)) (by decide +kernel)
  exact ⟨s₀, tr, s, h₀, hr, eq_of_inUserMode hp, told_of_run h₀ hr⟩

end Nachos.Process
