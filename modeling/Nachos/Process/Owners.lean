import Nachos.Process.Rules

/-!
# Who owns a PCB and an address space

A PCB belongs to the thread whose address space points to it; while a `Fork` is under way, the PCB
of the child belongs to the call. The owner is not a field of any object: it is a map that the
proof keeps beside the machine. Every statement that names an object has an assertion about its
owner, and the steps of the other threads keep it. What comes out is that a thread whose PCB is
destroyed by another thread has exited.
-/

namespace Nachos.Process

open Lib Threads Mips Userprog

/-! ### The pointers between the objects -/

/-- The pointers that decide who owns an object, and which processes have exited. -/
structure View where
  spaceOf : Tid → Option SpaceId
  pcbOf : SpaceId → Option PCBId
  threadOf : PCBId → Option Tid
  exited : PCBId → Bool
  nextPCB : PCBId
  nextSpace : SpaceId
  nextThread : Tid

namespace View

variable (v : View)

/-- A PCB gets an exit status. -/
def exit (p : PCBId) (b : Bool) : View := { v with exited := Function.update v.exited p b }

/-- A new PCB. -/
def newPCB : View where
  spaceOf := v.spaceOf
  pcbOf := v.pcbOf
  threadOf := Function.update v.threadOf v.nextPCB none
  exited := Function.update v.exited v.nextPCB false
  nextPCB := v.nextPCB + 1
  nextSpace := v.nextSpace
  nextThread := v.nextThread

/-- A new address space. -/
def newSpace (p : Option PCBId) : View :=
  { v with pcbOf := Function.update v.pcbOf v.nextSpace p, nextSpace := v.nextSpace + 1 }

def setSpaceOf (t : Tid) (a : Option SpaceId) : View :=
  { v with spaceOf := Function.update v.spaceOf t a }

/-- A new thread with the address space `a` and the PCB `p`. -/
def link (p : PCBId) (a : SpaceId) : View where
  spaceOf := Function.update v.spaceOf v.nextThread (some a)
  pcbOf := Function.update v.pcbOf a (some p)
  threadOf := Function.update v.threadOf p (some v.nextThread)
  exited := v.exited
  nextPCB := v.nextPCB
  nextSpace := v.nextSpace
  nextThread := v.nextThread + 1

/-- The PCB `p` and the space of its thread `t` are cut off. -/
def unlink (p : PCBId) (t : Tid) : View :=
  { v with
    spaceOf := Function.update v.spaceOf t none
    threadOf := Function.update v.threadOf p none }

lemma exited_newPCB : v.newPCB.exited v.nextPCB = false := Function.update_self ..

end View

def Objects.view (o : Objects) : View where
  spaceOf t := (o.thread.get t).space
  pcbOf a := (o.space.get a).pcb
  threadOf p := (o.pcb.get p).thread
  exited p := (o.pcb.get p).hasExited
  nextPCB := o.pcb.next
  nextSpace := o.space.next
  nextThread := o.thread.next

section View

/-- A field of the objects after `new`. -/
lemma comp_update {α β : Type} (f : α → β) (g : ℕ → α) (i : ℕ) (a : α) :
    (fun j => f (Function.update g i a j)) = Function.update (fun j => f (g j)) i (f a) := by
  funext j
  rw [Function.update_apply, Function.update_apply]
  split <;> rfl

lemma othersThread_eq_some {o : Objects} {p : PCBId} {t : Tid} (h : o.othersThread p = some t) :
    (o.pcb.get p).thread = some t ∧ t ≠ o.currentThread := by
  unfold Objects.othersThread at h
  split at h
  · cases h
  next t' ht =>
    split at h
    · cases h
    next hne =>
      cases h
      exact ⟨ht, hne⟩

variable (s : State) (o : Objects)

lemma view_setThread (t : Tid) (f : Thread → Thread) :
    (o.setThread t f).view =
      { o.view with spaceOf := Function.update o.view.spaceOf t (f (o.thread.get t)).space } := by
  have h : (o.setThread t f).view.spaceOf =
      Function.update o.view.spaceOf t (f (o.thread.get t)).space := by
    funext t'
    show ((o.thread.modify t f).get t').space = _
    rw [Heap.get_modify, Function.update_apply]
    split
    next h => rw [h]
    next => rfl
  exact congrArg (fun g => { o.view with spaceOf := g }) h

lemma view_setPCB (p : PCBId) (f : PCB → PCB) :
    (o.setPCB p f).view = { o.view with
      threadOf := Function.update o.view.threadOf p (f (o.pcb.get p)).thread
      exited := Function.update o.view.exited p (f (o.pcb.get p)).hasExited } := by
  have hthread : (o.setPCB p f).view.threadOf =
      Function.update o.view.threadOf p (f (o.pcb.get p)).thread := by
    funext q
    show ((o.pcb.modify p f).get q).thread = _
    rw [Heap.get_modify, Function.update_apply]
    split
    next h => rw [h]
    next => rfl
  have hexited : (o.setPCB p f).view.exited =
      Function.update o.view.exited p (f (o.pcb.get p)).hasExited := by
    funext q
    show ((o.pcb.modify p f).get q).hasExited = _
    rw [Heap.get_modify, Function.update_apply]
    split
    next h => rw [h]
    next => rfl
  exact congrArg₂ (fun g e => { o.view with threadOf := g, exited := e }) hthread hexited

lemma view_setSpace (a : SpaceId) (f : AddrSpace → AddrSpace) :
    (o.setSpace a f).view =
      { o.view with pcbOf := Function.update o.view.pcbOf a (f (o.space.get a)).pcb } := by
  have h : (o.setSpace a f).view.pcbOf =
      Function.update o.view.pcbOf a (f (o.space.get a)).pcb := by
    funext b
    show ((o.space.modify a f).get b).pcb = _
    rw [Heap.get_modify, Function.update_apply]
    split
    next h => rw [h]
    next => rfl
  exact congrArg (fun g => { o.view with pcbOf := g }) h

@[simp] lemma view_removeThread (t : Option Tid) : (o.removeThread t).view = o.view := by
  cases t <;> rfl

@[simp] lemma view_saveUserState : s.saveUserState.view = s.view :=
  (view_setThread ..).trans (congrArg (fun g => { s.view with spaceOf := g })
    (Function.update_eq_self ..))

@[simp] lemma view_run (next : Tid) : (s.run next).view = s.view := by
  unfold State.run
  dsimp only
  split
  · rfl
  · exact view_saveUserState s

@[simp] lemma view_releaseOf (l : LockName) : (s.releaseOf l).view = s.view := by
  unfold State.releaseOf
  split
  · split <;> rfl
  · rfl

lemma view_afterSwitch {s₁ : State} (h : s.afterSwitch = .ok s₁) : s₁.view = s.view := by
  unfold State.afterSwitch at h
  dsimp only at h
  split at h
  · cases h
    split <;> rfl
  · split at h
    · cases h
    · cases h
      split <;> rfl

/-- An assignment to a PCB that leaves the thread and the status alone. -/
lemma view_setPCB_same (p : PCBId) (f : PCB → PCB) (ht : ∀ pcb, (f pcb).thread = pcb.thread)
    (he : ∀ pcb, (f pcb).hasExited = pcb.hasExited) : (o.setPCB p f).view = o.view := by
  rw [view_setPCB, ht, he]
  exact congrArg₂ (fun g e => { o.view with threadOf := g, exited := e })
    (Function.update_eq_self ..) (Function.update_eq_self ..)

lemma view_detach (p : PCBId) : (o.detach p).view = o.view := by
  unfold Objects.detach
  dsimp only
  split
  · exact view_removeThread ..
  · rw [view_setPCB_same, view_removeThread]
    · exact fun _ => rfl
    · exact fun _ => rfl

lemma view_freeFrames {a : SpaceId} {o' : Objects} (h : o.freeFrames a = .ok o') :
    o'.view = o.view := by
  unfold Objects.freeFrames at h
  split at h
  · cases h
  · obtain ⟨mm, -, h⟩ := bind_eq_ok h
    cases h
    rw [view_setSpace]
    exact congrArg (fun g => { o.view with pcbOf := g }) (Function.update_eq_self ..)

lemma view_freeSpace {a : SpaceId} {o' : Objects} (h : o.freeSpace a = .ok o') :
    o'.view = o.view := by
  unfold Objects.freeSpace at h
  split at h
  · cases h
    rfl
  · cases h

@[simp] lemma code_run (next : Tid) : (s.run next).code = s.code := by
  unfold State.run
  dsimp only
  split <;> rfl

@[simp] lemma code_releaseOf (l : LockName) : (s.releaseOf l).code = s.code := by
  unfold State.releaseOf
  split
  · split <;> rfl
  · rfl

lemma code_afterSwitch {s₁ : State} (h : s.afterSwitch = .ok s₁) : s₁.code = s.code := by
  unfold State.afterSwitch at h
  dsimp only at h
  split at h
  · cases h
    split <;> rfl
  · split at h
    · cases h
    · cases h
      split <;> rfl

/-! ### The changes -/

lemma view_exiting (p : PCBId) (status : Word) :
    (s.exiting p status).view = s.view.exit p (status != PCB.notExited) := by
  rw [State.exiting]
  show (Objects.removeThread _ _).view = _
  rw [view_removeThread]
  show (s.setPCB p _).view = _
  rw [view_setPCB]
  exact congrArg (fun g => { s.view with
    threadOf := g, exited := Function.update s.view.exited p (status != PCB.notExited) })
    (Function.update_eq_self ..)

lemma view_newPCB (pid : ℕ) (pcbs : ℕ → Option PCBId) (b : BitMap) :
    ({ o with pcb := o.pcb.new (.new pid), pcbs := pcbs, bitmap := b } : Objects).view =
      o.view.newPCB := by
  have hthread : (fun p => ((o.pcb.new (.new pid)).get p).thread) =
      Function.update o.view.threadOf o.pcb.next none :=
    comp_update PCB.thread o.pcb.get o.pcb.next (.new pid)
  have hexited : (fun p => ((o.pcb.new (.new pid)).get p).hasExited) =
      Function.update o.view.exited o.pcb.next false :=
    comp_update PCB.hasExited o.pcb.get o.pcb.next (.new pid)
  exact congrArg₂ (fun g e => { o.view with
    threadOf := g, exited := e, nextPCB := o.view.nextPCB + 1 }) hthread hexited

lemma view_allocatePCB {p : PCBId} {o' : Objects} (h : o.allocatePCB = .ok (p, o')) :
    p = o.view.nextPCB ∧ o'.view = o.view.newPCB := by
  unfold Objects.allocatePCB at h
  split at h
  · cases h
  · cases h
    exact ⟨rfl, view_newPCB ..⟩

lemma view_newSpace (p : Option PCBId) (n : ℕ) :
    (o.newSpace p n).2.view = o.view.newSpace p := by
  have hpcb : (fun a => ((o.space.new ⟨p, some (allocatePages n o.mm).1, n⟩).get a).pcb) =
      Function.update o.view.pcbOf o.space.next p :=
    comp_update AddrSpace.pcb o.space.get o.space.next _
  exact congrArg (fun g => { o.view with pcbOf := g, nextSpace := o.view.nextSpace + 1 }) hpcb

lemma view_linkChild (p q : PCBId) (a : SpaceId) (r : Registers) :
    (o.linkChild p q a r).2.view = o.view.link p a := by
  have hspace : (fun t => ((o.thread.new ⟨some a, r⟩).get t).space) =
      Function.update o.view.spaceOf o.thread.next (some a) :=
    comp_update Thread.space o.thread.get o.thread.next _
  have hview : ({ o with thread := o.thread.new ⟨some a, r⟩ } : Objects).view =
      { o.view with
        spaceOf := Function.update o.view.spaceOf o.view.nextThread (some a)
        nextThread := o.view.nextThread + 1 } :=
    congrArg (fun g => { o.view with spaceOf := g, nextThread := o.view.nextThread + 1 }) hspace
  unfold Objects.linkChild
  dsimp only
  rw [view_setPCB_same, view_setPCB, view_setSpace, hview]
  rotate_left
  · exact fun _ => rfl
  · exact fun _ => rfl
  refine congrArg (fun g => ({ o.view with
    spaceOf := Function.update o.view.spaceOf o.view.nextThread (some a)
    pcbOf := Function.update o.view.pcbOf a (some p)
    threadOf := Function.update o.view.threadOf p (some o.view.nextThread)
    exited := g
    nextThread := o.view.nextThread + 1 } : View)) ?_
  exact Function.update_eq_self ..

lemma view_dropSpace :
    s.dropSpace.view = s.view.setSpaceOf s.currentThread none :=
  view_setThread ..

lemma view_loaded (p : PCBId) (n : ℕ) :
    (s.loaded p n).view =
      (s.view.newSpace (some p)).setSpaceOf s.currentThread (some s.view.nextSpace) := by
  show ((s.newSpace (some p) n).2.setThread s.currentThread _).view = _
  rw [view_setThread, view_newSpace]
  rfl

/-- The end of a PCB: it lets go of the thread, and the thread of its space. -/
lemma view_unlink {p : PCBId} {o' : Objects} (h : (o.unlink p).freePCB p = .ok o') :
    (o.othersThread p = none ∧ o'.view = o.view) ∨
      ∃ t, o.view.threadOf p = some t ∧ t ≠ o.currentThread ∧
        o'.view = o.view.unlink p t := by
  unfold Objects.freePCB at h
  split at h
  next =>
    cases h
    unfold Objects.unlink
    split
    next hnone => exact .inl ⟨hnone, rfl⟩
    next t ht =>
      refine .inr ⟨t, ?_, ?_, ?_⟩
      · exact (othersThread_eq_some ht).1
      · exact (othersThread_eq_some ht).2
      · show (((o.setThread t fun th => { th with space := none }).removeThread (some t)).setPCB p
          fun pcb => { pcb with thread := none }).view = _
        rw [view_setPCB, view_removeThread, view_setThread]
        exact congrArg (fun g => ({ o.view with
          spaceOf := Function.update o.view.spaceOf t none
          threadOf := Function.update o.view.threadOf p none
          exited := g } : View)) (Function.update_eq_self ..)
  next => cases h

end View

/-! ### The shape of the code of a thread -/

namespace Stmt

/-- The statements of `doFork` after the first switch. -/
def inFork : Stmt → Bool
  | allocatePCB _ | saveParent _ _ | copySpace _ _ | startChild _ _ _ | forkReturn _ _ => true
  | _ => false

/-- The statements between those of a system call. -/
def scheduling : Stmt → Bool
  | acquire _ | release _ | tick | yield | resume => true
  | _ => false

/-- The statements of `doExit`. -/
def inExit : Stmt → Bool
  | acquire _ | release _ | tick | yield | resume => true
  | mapcar _ _ | exitDeallocate _ | exitSpace | finish => true
  | clearPid _ | forgetPid _ | unlinkPCB _ | freeFrames _ | freeSpace _ => true
  | _ => false

end Stmt

/-- A statement of `doFork` has only scheduling before it. -/
def Once : List Stmt → Prop
  | [] => True
  | st :: k => if st.scheduling then Once k else ∀ st' ∈ k, st'.inFork = false

/-- After `doExit` has started, nothing else follows. -/
def ExitOnly (l : List Stmt) : Prop := .finish ∈ l → ∀ st ∈ l, st.inExit = true

/-- The thread is in `doExit`, or has finished. -/
def Dying (l : List Stmt) : Prop := l = [] ∨ .finish ∈ l

section Shape

variable {s s₁ : State} {st : Stmt} {k k' : List Stmt} {es : List Event}

/-- No statement of a `Fork` is left behind a statement that does work. -/
lemma Once.tail (h : Once (st :: k)) (hs : st.scheduling = false) {st' : Stmt} (hst : st' ∈ k) :
    st'.inFork = false := by
  rw [Once, hs] at h
  exact h st' hst

lemma Once.of_scheduling (h : Once (st :: k)) (hs : st.scheduling = true) : Once k := by
  rw [Once, hs] at h
  exact h

lemma once_of_free (h : ∀ st' ∈ k, st'.inFork = false) : Once k := by
  induction k with
  | nil => trivial
  | cons st k ih =>
    rw [Once]
    split
    · exact ih fun st' hst => h st' (.tail _ hst)
    · exact fun st' hst => h st' (.tail _ hst)

lemma once_append (h : Once k) {l : List Stmt} (hl : ∀ st' ∈ l, st'.inFork = false) :
    Once (k ++ l) := by
  induction k with
  | nil => exact once_of_free hl
  | cons st k ih =>
    by_cases hs : st.scheduling = true
    · rw [List.cons_append, Once, if_pos hs]
      exact ih (h.of_scheduling hs)
    · rw [List.cons_append, Once, if_neg hs]
      intro st' hst
      obtain hst | hst := List.mem_append.1 hst
      · exact h.tail (Bool.eq_false_of_not_eq_true hs) hst
      · exact hl st' hst

lemma once_append_of_scheduling (h : Once k) {l : List Stmt}
    (hl : ∀ st' ∈ l, st'.scheduling = true) : Once (l ++ k) := by
  induction l with
  | nil => exact h
  | cons st l ih =>
    rw [List.cons_append, Once, if_pos (hl st (.head _))]
    exact ih fun st' hst => hl st' (.tail _ hst)

/-- What the statement `st` pushes: scheduling pushes scheduling, at most one statement of a `Fork`
comes with it, `doExit` pushes statements of its own, and the end of the thread is not pushed. -/
structure Pushes (st : Stmt) (new : List Stmt) : Prop where
  scheduling : st.scheduling = true → ∀ st' ∈ new, st'.scheduling = true
  once : Once new
  inExit : st.inExit = true → ∀ st' ∈ new, st'.inExit = true
  finish : .finish ∉ new

/-- The statements of `delete pcb`. -/
lemma pushes_destroyPCB (s : State) (p : PCBId) {l : List Stmt}
    (hl : ∀ st' ∈ l, st'.inExit = true ∧ st'.inFork = false ∧ st' ≠ .finish)
    (hst : st.scheduling = false) : Pushes st (s.destroyPCB p ++ l) := by
  have hall : ∀ st' ∈ s.destroyPCB p ++ l,
      st'.inExit = true ∧ st'.inFork = false ∧ st' ≠ .finish := by
    intro st' hmem
    obtain hmem | hmem := List.mem_append.1 hmem
    · obtain he | ⟨a, -, he⟩ := destroyPCB_eq s p <;> rw [he] at hmem
      · rw [List.mem_singleton.1 hmem]
        exact ⟨rfl, rfl, nofun⟩
      · simp only [deleteSpace, acquireLock, releaseLock, List.cons_append, List.nil_append,
          List.mem_cons, List.not_mem_nil, or_false] at hmem
        rcases hmem with rfl | rfl | rfl | rfl | rfl | rfl | rfl <;> exact ⟨rfl, rfl, nofun⟩
    · exact hl st' hmem
  exact
    { scheduling := fun h => absurd h (by simp [hst])
      once := once_of_free fun st' h => (hall st' h).2.1
      inExit := fun _ st' h => (hall st' h).1
      finish := fun h => (hall _ h).2.2 rfl }

/-- The end of the thread. -/
def Stmt.ends : Stmt → Bool
  | .finish => true
  | _ => false

/-- Is there work for a `Fork` only behind scheduling? -/
def onceIn : List Stmt → Bool
  | [] => true
  | st :: k => if st.scheduling then onceIn k else k.all fun st' => !st'.inFork

lemma once_of_onceIn (h : onceIn k = true) : Once k := by
  induction k with
  | nil => trivial
  | cons st k ih =>
    by_cases hs : st.scheduling = true
    · rw [onceIn, if_pos hs] at h
      rw [Once, if_pos hs]
      exact ih h
    · rw [onceIn, if_neg hs] at h
      rw [Once, if_neg hs]
      simpa using h

/-- The same of statements that are given. -/
lemma pushes_of_all {new : List Stmt} (once : onceIn new = true)
    (all : (new.all fun st' => (!st.scheduling || st'.scheduling) &&
      (!st.inExit || st'.inExit) && !st'.ends) = true) : Pushes st new := by
  simp only [List.all_eq_true, Bool.and_eq_true, Bool.or_eq_true, Bool.not_eq_true'] at all
  exact
    { scheduling := fun h st' hst => by simpa [h] using (all st' hst).1.1
      once := once_of_onceIn once
      inExit := fun h st' hst => by simpa [h] using (all st' hst).1.2
      finish := fun hst => absurd (all _ hst).2 nofun }

/-- A control statement goes on with what is behind it. -/
lemma Control.pushes (hc : Control s st k k') : ∃ new, k' = new ++ k ∧ Pushes st new := by
  cases hc with
  | tick | threadRoot | yield | mapcarNil | exitParent | exitSpaceGone =>
    exact ⟨[], rfl, pushes_of_all rfl rfl⟩
  | copySpace => exact ⟨[.ret (-1)], rfl, pushes_of_all rfl rfl⟩
  | @mapcarExited p c ahead =>
    exact ⟨deallocatePCB c ++ [.mapcar p ahead], rfl, pushes_of_all rfl rfl⟩
  | @mapcarGone p c ahead => exact ⟨[.mapcar p ahead], rfl, pushes_of_all rfl rfl⟩
  | @exitDeallocate p => exact ⟨deallocatePCB p, rfl, pushes_of_all rfl rfl⟩
  | @exitSpace a => exact ⟨deleteSpace a, rfl, pushes_of_all rfl rfl⟩
  | @destroyPCB p =>
    exact ⟨s.destroyPCB p ++ [], by rw [List.append_nil], pushes_destroyPCB s p nofun rfl⟩
  | @joinExited j =>
    exact ⟨[.destroyPCB j, .joinReturn (s.pcb.get j).exitStatus], rfl, pushes_of_all rfl rfl⟩
  | @joinWait j => exact ⟨threadYield ++ [.joinWait j], rfl, pushes_of_all rfl rfl⟩
  | @joinReturn status => exact ⟨[.ret status], rfl, pushes_of_all rfl rfl⟩

/-- A system call goes on with the program, or `Exec` with another one. -/
lemma Trap.pushes (ht : Trap s k k') :
    ∃ new rest, k' = new ++ rest ∧ (rest = k ∨ rest = []) ∧ Pushes .user new := by
  cases ht with
  | exitGone => exact ⟨[], _, rfl, .inl rfl, pushes_of_all rfl rfl⟩
  | execFail => exact ⟨[.incrementPC, .user], [], rfl, .inr rfl, pushes_of_all rfl rfl⟩
  | @exec a e p =>
    exact ⟨deleteSpace a ++ [.load e p, .incrementPC, .user], [], rfl, .inr rfl,
      pushes_of_all rfl rfl⟩
  | fail => exact ⟨[.ret (-1)], _, rfl, .inl rfl, pushes_of_all rfl rfl⟩
  | @join j => exact ⟨[.joinWait j], _, rfl, .inl rfl, pushes_of_all rfl rfl⟩
  | create => exact ⟨[.incrementPC], _, rfl, .inl rfl, pushes_of_all rfl rfl⟩
  | fork =>
    exact ⟨acquireLock .pcbManagerLock ++ [.allocatePCB s.registers], _, rfl, .inl rfl,
      pushes_of_all rfl rfl⟩
  | yield => exact ⟨threadYield ++ [.incrementPC], _, rfl, .inl rfl, pushes_of_all rfl rfl⟩
  | killSelfGone => exact ⟨[.assertFalse], _, rfl, .inl rfl, pushes_of_all rfl rfl⟩

/-- **What a step pushes**: `Exec`, `Exit` and a new thread give up what is behind them, the end of
the thread leaves nothing, and every other step goes on with what is behind it. -/
lemma Rule.pushes (hr : Rule s st k k' es s₁) :
    (∃ new, k' = new ++ k ∧ Pushes st new) ∨
      (st.inExit = false ∧ Once k' ∧ (.finish ∈ k' → ∀ st' ∈ k', st'.inExit = true)) ∨
        (st = .finish ∧ k' = []) := by
  cases hr with
  | control hc => exact .inl hc.pushes
  | @instruction r => exact .inl ⟨[.tick, .user], rfl, pushes_of_all rfl rfl⟩
  | trap ht =>
    obtain ⟨new, rest, rfl, rfl | rfl, hp⟩ := ht.pushes
    · exact .inl ⟨new ++ [.tick, .user], by simp, nofun,
        once_append hp.once (by simp [Stmt.inFork]), nofun, by simpa using hp.finish⟩
    · rw [List.append_nil]
      exact .inr (.inl ⟨rfl, hp.once, fun h => absurd h hp.finish⟩)
  | exit =>
    refine .inr (.inl ⟨rfl, once_of_onceIn rfl, fun _ => ?_⟩)
    simp [Stmt.inExit]
  | @kill p =>
    exact .inl ⟨[.mapcar p _, .killReturn p, .tick, .user], rfl, pushes_of_all rfl rfl⟩
  | interrupt hst => obtain rfl | rfl := hst <;> exact .inl ⟨[], rfl, pushes_of_all rfl rfl⟩
  | timeSlice hst =>
    obtain rfl | rfl := hst <;> exact .inl ⟨threadYield, rfl, pushes_of_all rfl rfl⟩
  | take | release | resume | forkReturn | loadFail | load | forgetPid | unlinkPCB | freeFrames
  | freeSpace | incrementPC | ret => exact .inl ⟨[], rfl, pushes_of_all rfl rfl⟩
  | @block l => exact .inl ⟨[.resume, .acquire l], rfl, pushes_of_all rfl rfl⟩
  | yield => exact .inl ⟨[.resume], rfl, pushes_of_all rfl rfl⟩
  | childFunction => exact .inr (.inl ⟨rfl, once_of_onceIn rfl, fun h => by simp at h⟩)
  | @allocatePCB call p =>
    exact .inl ⟨releaseLock .pcbManagerLock ++ [.saveParent call p], rfl, pushes_of_all rfl rfl⟩
  | @saveParent call p =>
    exact .inl ⟨acquireLock .mmLock ++ [.copySpace call p], rfl, pushes_of_all rfl rfl⟩
  | @copySpace call p =>
    exact .inl ⟨releaseLock .mmLock ++ [.startChild call p s.space.next], rfl,
      pushes_of_all rfl rfl⟩
  | @startChild call p => exact .inl ⟨[.tick, .forkReturn call p], rfl, pushes_of_all rfl rfl⟩
  | @orphan p c ahead => exact .inl ⟨[.mapcar p ahead], rfl, pushes_of_all rfl rfl⟩
  | finish => exact .inr (.inr ⟨rfl, rfl⟩)
  | @clearPid p =>
    refine .inl ⟨s.destroyPCB p ++ .forgetPid (s.pcb.get p).pid :: releaseLock .pcbManagerLock,
      by simp, pushes_destroyPCB s p ?_ rfl⟩
    simp [releaseLock, Stmt.inExit, Stmt.inFork]
  | killReturn => exact .inl ⟨[.ret 0], rfl, pushes_of_all rfl rfl⟩

/-- What is pushed by a statement that does work has at most one statement of a `Fork`, behind
scheduling. -/
lemma Rule.once (hr : Rule s st k k' es s₁) (h : Once (st :: k)) : Once k' := by
  obtain ⟨new, rfl, hp⟩ | ⟨-, honce, -⟩ | ⟨-, rfl⟩ := hr.pushes
  · by_cases hs : st.scheduling = true
    · exact once_append_of_scheduling (h.of_scheduling hs) (hp.scheduling hs)
    · exact once_append hp.once fun st' hst => h.tail (Bool.eq_false_of_not_eq_true hs) hst
  · exact honce
  · trivial

/-- `doExit` pushes statements of its own only. -/
lemma Rule.exitOnly (hr : Rule s st k k' es s₁) (h : ExitOnly (st :: k)) : ExitOnly k' := by
  obtain ⟨new, rfl, hp⟩ | ⟨-, -, hexit⟩ | ⟨-, rfl⟩ := hr.pushes
  · intro hf st' hst'
    obtain hf | hf := List.mem_append.1 hf
    · exact absurd hf hp.finish
    have hall := h (.tail _ hf)
    obtain hst' | hst' := List.mem_append.1 hst'
    · exact hp.inExit (hall st (.head _)) st' hst'
    · exact hall st' (.tail _ hst')
  · exact hexit
  · exact fun hf => absurd hf List.not_mem_nil

/-- A thread that is in `doExit` stays there. -/
lemma Rule.dying (hr : Rule s st k k' es s₁) (h : ExitOnly (st :: k)) (hd : Dying (st :: k)) :
    Dying k' := by
  obtain hd | hd := hd
  · cases hd
  have hst : st.inExit = true := h hd st (.head _)
  by_cases hfinish : st = .finish
  · subst hfinish
    cases hr with
    | control hc => cases hc
    | interrupt hst | timeSlice hst => obtain hst | hst := hst <;> cases hst
    | finish => exact .inl rfl
  obtain ⟨new, rfl, -⟩ | ⟨hnot, -⟩ | ⟨-, rfl⟩ := hr.pushes
  · obtain heq | hk := List.mem_cons.1 hd
    · exact absurd heq.symm hfinish
    · exact .inr (List.mem_append_right _ hk)
  · rw [hst] at hnot
    cases hnot
  · exact .inl rfl

end Shape

/-! ### Owners -/

/-- An owner: a thread, or the `Fork` that a thread is in. -/
abbrev Owner := Tid × Bool

/-- What a statement of the thread `t` says about the objects it names. -/
def Asserts (ow os : ℕ → Owner) (v : View) (t : Tid) : Stmt → Prop
  | .saveParent _ p | .copySpace _ p => p < v.nextPCB ∧ ow p = (t, true)
  | .startChild _ p a => (p < v.nextPCB ∧ ow p = (t, true)) ∧ a < v.nextSpace ∧ os a = (t, true)
  | .load _ p | .exitDeallocate p => p < v.nextPCB ∧ ow p = (t, false)
  | .clearPid p | .destroyPCB p | .unlinkPCB p =>
    p < v.nextPCB ∧ (ow p).2 = false ∧ (v.exited p = true ∨ ow p = (t, false))
  | _ => True

/-- **The pointers agree with the owners** `ow` of the PCBs and `os` of the address spaces. -/
structure Pointers (ow os : ℕ → Owner) (v : View) : Prop where
  space : ∀ {t a}, v.spaceOf t = some a → a < v.nextSpace ∧ os a = (t, false)
  pcb : ∀ {t a p}, v.spaceOf t = some a → v.pcbOf a = some p → p < v.nextPCB ∧ ow p = (t, false)
  thread : ∀ {p t}, v.threadOf p = some t → t < v.nextThread ∧ ow p = (t, false)
  exited : ∀ {p}, v.exited p = true → p < v.nextPCB ∧ (ow p).2 = false
  born : ∀ {p}, v.exited p = true → (ow p).1 < v.nextThread
  unborn : ∀ {t}, v.nextThread ≤ t → v.spaceOf t = none

/-- The statements agree with the owners. -/
structure Outlined (ow os : ℕ → Owner) (v : View) (code : Tid → List Stmt) : Prop where
  unborn : ∀ {t}, v.nextThread ≤ t → code t = []
  stmt : ∀ {t st}, st ∈ code t → Asserts ow os v t st
  dying : ∀ {p}, v.exited p = true → Dying (code (ow p).1)
  once : ∀ t, Once (code t)
  exitOnly : ∀ t, ExitOnly (code t)

/-- Every object has its owner. -/
def Owned (s : State) : Prop := ∃ ow os, Pointers ow os s.view ∧ Outlined ow os s.view s.code

/-! ### The pointers after a step -/

section Pointers

variable {ow os : ℕ → Owner} {v : View}

/-- The thread exits that the PCB belongs to. -/
lemma Pointers.exit (h : Pointers ow os v) {t : Tid} {a : SpaceId} {p : PCBId} (b : Bool)
    (ht : v.spaceOf t = some a) (hp : v.pcbOf a = some p) : Pointers ow os (v.exit p b) := by
  have hlt : t < v.nextThread := by
    by_contra hlt
    rw [h.unborn (Nat.le_of_not_lt hlt)] at ht
    cases ht
  obtain ⟨hp, how⟩ := h.pcb ht hp
  obtain ⟨hspace, hpcb, hthread, hexited, hborn, hunborn⟩ := h
  constructor <;> intros <;> simp only [View.exit, Function.update_apply] at * <;> grind

lemma Pointers.newPCB (h : Pointers ow os v) (c : Owner) :
    Pointers (Function.update ow v.nextPCB c) os v.newPCB := by
  obtain ⟨hspace, hpcb, hthread, hexited, hborn, hunborn⟩ := h
  constructor <;> intros <;> simp only [View.newPCB, Function.update_apply] at * <;> grind

lemma Pointers.newSpace (h : Pointers ow os v) (c : Owner) (p : Option PCBId) :
    Pointers ow (Function.update os v.nextSpace c) (v.newSpace p) := by
  obtain ⟨hspace, hpcb, hthread, hexited, hborn, hunborn⟩ := h
  constructor <;> intros <;> simp only [View.newSpace, Function.update_apply] at * <;> grind

lemma Pointers.dropSpace (h : Pointers ow os v) (t : Tid) :
    Pointers ow os (v.setSpaceOf t none) := by
  obtain ⟨hspace, hpcb, hthread, hexited, hborn, hunborn⟩ := h
  constructor <;> intros <;> simp only [View.setSpaceOf, Function.update_apply] at * <;> grind

lemma Pointers.setSpaceOf (h : Pointers ow os v) {t : Tid} {a : SpaceId} (ht : t < v.nextThread)
    (ha : a < v.nextSpace ∧ os a = (t, false))
    (hp : ∀ {p}, v.pcbOf a = some p → p < v.nextPCB ∧ ow p = (t, false)) :
    Pointers ow os (v.setSpaceOf t (some a)) := by
  obtain ⟨hspace, hpcb, hthread, hexited, hborn, hunborn⟩ := h
  constructor <;> intros <;> simp only [View.setSpaceOf, Function.update_apply] at * <;> grind

lemma Pointers.unlink (h : Pointers ow os v) (p : PCBId) (t : Tid) :
    Pointers ow os (v.unlink p t) := by
  obtain ⟨hspace, hpcb, hthread, hexited, hborn, hunborn⟩ := h
  constructor <;> intros <;> simp only [View.unlink, Function.update_apply] at * <;> grind

/-- The `Fork` hands the PCB and the space over to the thread of the child. -/
lemma Pointers.link (h : Pointers ow os v) {p : PCBId} {a : SpaceId} {u : Tid}
    (hp : p < v.nextPCB ∧ ow p = (u, true)) (ha : a < v.nextSpace ∧ os a = (u, true)) :
    Pointers (Function.update ow p (v.nextThread, false))
      (Function.update os a (v.nextThread, false)) (v.link p a) := by
  obtain ⟨hspace, hpcb, hthread, hexited, hborn, hunborn⟩ := h
  constructor <;> intros <;> simp only [View.link, Function.update_apply] at * <;> grind

end Pointers

section Outlined

variable {ow os ow' os' : ℕ → Owner} {v v' : View} {code : Tid → List Stmt}

/-- A PCB that another thread destroys is that of a thread that has exited. -/
lemma Outlined.dying_of_unlink (h : Outlined ow os v code) (hp : Pointers ow os v) {u t : Tid}
    {p : PCBId} (hst : .unlinkPCB p ∈ code u) (ht : v.threadOf p = some t) (hne : t ≠ u) :
    Dying (code t) := by
  have how := (hp.thread ht).2
  obtain ⟨-, -, he | he⟩ := h.stmt hst
  · have hd := h.dying he
    rwa [how] at hd
  · exact absurd (congrArg Prod.fst (how.symm.trans he)) hne

/-- An assertion survives where the owners that it names stay. -/
lemma Asserts.mono {t : Tid} {st : Stmt} (h : Asserts ow os v t st) (hpcb : v.nextPCB ≤ v'.nextPCB)
    (hspace : v.nextSpace ≤ v'.nextSpace) (exited : ∀ {p}, v.exited p = true → v'.exited p = true)
    (fork : st.inFork = true → ∀ {p}, p < v.nextPCB → ow p = (t, true) → ow' p = ow p)
    (forkSpace : st.inFork = true → ∀ {a}, a < v.nextSpace → os a = (t, true) → os' a = os a)
    (thread : ∀ {p}, p < v.nextPCB → (ow p).2 = false → ow' p = ow p) :
    Asserts ow' os' v' t st := by
  have pending : ∀ {p}, st.inFork = true → p < v.nextPCB ∧ ow p = (t, true) →
      p < v'.nextPCB ∧ ow' p = (t, true) :=
    fun hst hp => ⟨Nat.lt_of_lt_of_le hp.1 hpcb, (fork hst hp.1 hp.2).trans hp.2⟩
  have owned : ∀ {p}, p < v.nextPCB ∧ ow p = (t, false) → p < v'.nextPCB ∧ ow' p = (t, false) :=
    fun hp => ⟨Nat.lt_of_lt_of_le hp.1 hpcb, (thread hp.1 (congrArg Prod.snd hp.2)).trans hp.2⟩
  have destroyed : ∀ {p},
      p < v.nextPCB ∧ (ow p).2 = false ∧ (v.exited p = true ∨ ow p = (t, false)) →
      p < v'.nextPCB ∧ (ow' p).2 = false ∧ (v'.exited p = true ∨ ow' p = (t, false)) := by
    rintro p ⟨hlt, how, he⟩
    rw [thread hlt how]
    exact ⟨Nat.lt_of_lt_of_le hlt hpcb, how, he.imp exited id⟩
  cases st
  case saveParent | copySpace => exact pending rfl h
  case startChild =>
    obtain ⟨hp, hlt, hos⟩ := h
    exact ⟨pending rfl hp, Nat.lt_of_lt_of_le hlt hspace, (forkSpace rfl hlt hos).trans hos⟩
  case load | exitDeallocate => exact owned h
  case clearPid | destroyPCB | unlinkPCB => exact destroyed h
  all_goals trivial

/-- **Non-interference**: a step of the thread `u` keeps the outline, when the assertions of the
other threads survive the change of the objects, and the ones of its own new code hold. -/
lemma Outlined.goto (h : Outlined ow os v code) {u : Tid} {st : Stmt} {k k' : List Stmt}
    (hcode : code u = st :: k) (once : Once (st :: k) → Once k')
    (exitOnly : ExitOnly (st :: k) → ExitOnly k')
    (dying : ExitOnly (st :: k) → Dying (st :: k) → Dying k')
    (next : v.nextThread ≤ v'.nextThread)
    (others : ∀ {t st}, t ≠ u → Asserts ow os v t st → Asserts ow' os' v' t st)
    (own : ∀ st' ∈ k', Asserts ow' os' v' u st')
    (exited : ∀ {p}, v'.exited p = true →
      v.exited p = true ∧ ow' p = ow p ∨ (ow' p).1 = u ∧ Dying k') :
    Outlined ow' os' v' (Function.update code u k') := by
  have hu : ∀ {t}, v.nextThread ≤ t → t ≠ u := by
    rintro t ht rfl
    have hnil := h.unborn ht
    rw [hcode] at hnil
    cases hnil
  refine ⟨fun {t} ht => ?_, fun {t st'} hst => ?_, fun {p} he => ?_, fun t => ?_, fun t => ?_⟩
  · rw [Function.update_of_ne (hu (Nat.le_trans next ht))]
    exact h.unborn (Nat.le_trans next ht)
  · by_cases ht : t = u
    · subst ht
      rw [Function.update_self] at hst
      exact own st' hst
    · rw [Function.update_of_ne ht] at hst
      exact others ht (h.stmt hst)
  · obtain ⟨he', how⟩ | ⟨how, hd⟩ := exited he
    · have hd := h.dying he'
      rw [← how] at hd
      by_cases ht : (ow' p).1 = u
      · rw [ht, hcode] at hd
        rw [ht, Function.update_self]
        exact dying (hcode ▸ h.exitOnly u) hd
      · rwa [Function.update_of_ne ht]
    · rw [how, Function.update_self]
      exact hd
  · by_cases ht : t = u
    · subst ht
      rw [Function.update_self]
      exact once (hcode ▸ h.once t)
    · rw [Function.update_of_ne ht]
      exact h.once t
  · by_cases ht : t = u
    · subst ht
      rw [Function.update_self]
      exact exitOnly (hcode ▸ h.exitOnly t)
    · rw [Function.update_of_ne ht]
      exact h.exitOnly t

/-- A thread that has no statements gets those of a child. -/
lemma Outlined.spawn (h : Outlined ow os v code) {c : Tid} (hc : c < v.nextThread)
    (hnew : ∀ {p}, v.exited p = true → (ow p).1 ≠ c) :
    Outlined ow os v (Function.update code c [.threadRoot, .childFunction]) := by
  refine ⟨fun {t} ht => ?_, fun {t st'} hst => ?_, fun {p} he => ?_, fun t => ?_, fun t => ?_⟩
  · rw [Function.update_of_ne (Nat.ne_of_gt (Nat.lt_of_lt_of_le hc ht))]
    exact h.unborn ht
  · by_cases ht : t = c
    · subst ht
      rw [Function.update_self] at hst
      obtain rfl | rfl : st' = .threadRoot ∨ st' = .childFunction := by simpa using hst
      · trivial
      · trivial
    · rw [Function.update_of_ne ht] at hst
      exact h.stmt hst
  · rw [Function.update_of_ne (hnew he)]
    exact h.dying he
  · by_cases ht : t = c
    · subst ht
      rw [Function.update_self]
      simp [Once, Stmt.scheduling, Stmt.inFork]
    · rw [Function.update_of_ne ht]
      exact h.once t
  · by_cases ht : t = c
    · subst ht
      rw [Function.update_self]
      simp [ExitOnly]
    · rw [Function.update_of_ne ht]
      exact h.exitOnly t

/-- A thread that has statements has been made. -/
lemma Outlined.born (h : Outlined ow os v code) {t : Tid} {st : Stmt} {k : List Stmt}
    (hcode : code t = st :: k) : t < v.nextThread := by
  by_contra hlt
  rw [h.unborn (Nat.le_of_not_lt hlt)] at hcode
  cases hcode

end Outlined

/-! ### The steps -/

section Step

variable {s s₁ : State} {st : Stmt} {k k' : List Stmt} {es : List Event} {ow os : ℕ → Owner}

/-- The statements pushed by a statement that changes no data. -/
lemma Control.asserts (hc : Control s st k k') (hp : Pointers ow os s.view)
    (h : ∀ st' ∈ st :: k, Asserts ow os s.view s.currentThread st') :
    ∀ st' ∈ k', Asserts ow os s.view s.currentThread st' := by
  rw [List.forall_mem_cons] at h
  obtain ⟨hst, hk⟩ := h
  cases hc
  case mapcarExited c _ _ exited =>
    obtain ⟨hlt, how⟩ := hp.exited exited
    simpa [deallocatePCB, acquireLock, Asserts, hlt, how] using ⟨.inl exited, hk⟩
  case joinExited j exited =>
    obtain ⟨hlt, how⟩ := hp.exited exited
    simpa [Asserts, hlt, how] using ⟨.inl exited, hk⟩
  case exitDeallocate p _ =>
    obtain ⟨hlt, how⟩ : _ ∧ _ := hst
    simpa [deallocatePCB, acquireLock, Asserts, hlt, how] using hk
  case destroyPCB p _ =>
    obtain ⟨hlt, how, he⟩ : _ ∧ _ ∧ _ := hst
    obtain hd | ⟨a, -, hd⟩ := destroyPCB_eq s p
    · simpa [hd, Asserts, hlt, how] using ⟨he, hk⟩
    · simpa [hd, deleteSpace, acquireLock, releaseLock, Asserts, hlt, how] using ⟨he, hk⟩
  case exitSpace => simpa [deleteSpace, acquireLock, releaseLock, Asserts] using hk
  case joinWait => simpa [threadYield, Asserts] using hk
  all_goals simpa [Asserts] using hk

/-- The statements pushed by a system call that changes no data. -/
lemma Trap.asserts (ht : Trap s k k') (hp : Pointers ow os s.view)
    (h : ∀ st' ∈ k, Asserts ow os s.view s.currentThread st') :
    ∀ st' ∈ k', Asserts ow os s.view s.currentThread st' := by
  cases ht
  case exec a e p space pcb _ =>
    obtain ⟨hlt, how⟩ := hp.pcb space pcb
    simp [deleteSpace, acquireLock, releaseLock, Asserts, hlt, how]
  case exitGone => exact h
  case execFail => simp [Asserts]
  all_goals simpa [acquireLock, threadYield, Asserts] using h

/-- **Every step keeps the owners**, of the PCBs and spaces there were. -/
theorem Rule.owned (hr : Rule s st k k' es s₁) (hcode : s.code s.currentThread = st :: k)
    (h : Owned s) : Owned (s₁.setCode s.currentThread k') := by
  obtain ⟨ow, os, hp, ho⟩ := h
  have hst : ∀ st' ∈ st :: k, Asserts ow os s.view s.currentThread st' :=
    fun st' hst => ho.stmt (hcode ▸ hst)
  -- the steps that change no pointer
  have same : s₁.view = s.view → s₁.code = s.code →
      (∀ st' ∈ k', Asserts ow os s.view s.currentThread st') →
      Owned (s₁.setCode s.currentThread k') := by
    intro hv hc hk
    refine ⟨ow, os, ?_, ?_⟩
    · show Pointers ow os s₁.view
      rwa [hv]
    · show Outlined ow os s₁.view (Function.update s₁.code _ _)
      rw [hv, hc]
      exact ho.goto hcode hr.once hr.exitOnly hr.dying (Nat.le_refl _) (fun _ h => h) hk
        fun he => .inl ⟨he, rfl⟩
  obtain ⟨hst₀, hk⟩ := List.forall_mem_cons.mp hst
  have rule := hr
  cases hr
  case control hc => exact same rfl rfl (hc.asserts hp hst)
  case instruction => exact same rfl rfl (by simpa [Asserts] using hk)
  case trap ht =>
    refine same rfl rfl (ht.asserts hp ?_)
    exact List.forall_mem_cons.mpr ⟨trivial, List.forall_mem_cons.mpr ⟨trivial, hk⟩⟩
  case kill p _ _ _ _ =>
    exact same (view_detach _ p) rfl (by simpa [Asserts] using hk)
  case interrupt => exact same rfl rfl hk
  case timeSlice => exact same rfl rfl (by simpa [threadYield, Asserts] using hk)
  case take => exact same rfl rfl hk
  case block => exact same (view_run ..) (code_run ..) (by simpa [Asserts] using hk)
  case release => exact same (view_releaseOf ..) (code_releaseOf ..) hk
  case yield => exact same (view_run ..) (code_run ..) (by simpa [Asserts] using hk)
  case resume h => exact same (view_afterSwitch s h) (code_afterSwitch s h) hk
  case childFunction => exact same rfl rfl (by simp [Asserts])
  case saveParent call p =>
    refine same (view_saveUserState s) rfl ?_
    simp only [acquireLock, List.cons_append, List.nil_append, List.forall_mem_cons]
    exact ⟨trivial, trivial, hst₀, hk⟩
  case forkReturn => exact same rfl rfl hk
  case orphan p c ahead _ _ =>
    refine same (view_setPCB_same _ c _ ?_ ?_) rfl (by simpa [Asserts] using hk)
    · exact fun _ => rfl
    · exact fun _ => rfl
  case finish => exact same (view_run ..) (code_run ..) nofun
  case clearPid p b live clear =>
    obtain ⟨hlt, how, he⟩ : _ ∧ _ ∧ _ := hst₀
    refine same rfl rfl ?_
    obtain hd | ⟨a, -, hd⟩ := destroyPCB_eq s p
    · simpa [hd, releaseLock, Asserts, hlt, how] using ⟨he, hk⟩
    · simpa [hd, deleteSpace, acquireLock, releaseLock, Asserts, hlt, how] using ⟨he, hk⟩
  case forgetPid => exact same rfl rfl hk
  case freeFrames h => exact same (view_freeFrames _ h) rfl hk
  case freeSpace h => exact same (view_freeSpace _ h) rfl hk
  case killReturn => exact same rfl rfl (by simpa [Asserts] using hk)
  case incrementPC => exact same rfl rfl hk
  case ret => exact same rfl rfl hk
  case exit a p status space pcb pageTable =>
    -- a thread in user mode is not in `doExit`
    have halive : ∀ {q}, s.view.exited q = true → (ow q).1 ≠ s.currentThread := by
      intro q hq hu
      have hd := ho.dying hq
      have hx := ho.exitOnly s.currentThread
      rw [hu] at hd
      rw [hcode] at hd hx
      obtain hd | hd := hd
      · cases hd
      · exact Bool.noConfusion (hx hd .user (.head _))
    obtain ⟨hlt, how⟩ := hp.pcb space pcb
    refine ⟨ow, os, ?_, ?_⟩
    · show Pointers ow os (s.trapped.exiting p status).view
      rw [view_exiting]
      exact hp.exit _ space pcb
    · show Outlined ow os (s.trapped.exiting p status).view (Function.update s.code _ _)
      rw [view_exiting]
      refine ho.goto hcode (fun _ => by simp [Once, Stmt.scheduling, Stmt.inFork])
        (fun _ => by simp [ExitOnly, Stmt.inExit]) (fun _ _ => by simp [Dying]) (Nat.le_refl _)
        (fun _ ha => ha.mono (Nat.le_refl _) (Nat.le_refl _) ?_ (fun _ _ _ _ => rfl)
          (fun _ _ _ _ => rfl) (fun _ _ => rfl)) ?_ ?_
      · intro q hq
        have hne : q ≠ p := by
          rintro rfl
          exact halive hq (congrArg Prod.fst how)
        exact (Function.update_of_ne hne ..).trans hq
      · simpa [Asserts] using ⟨hlt, how⟩
      · intro q hq
        by_cases hqp : q = p
        · subst hqp
          exact .inr ⟨congrArg Prod.fst how, by simp [Dying]⟩
        · exact .inl ⟨(Function.update_of_ne hqp ..).symm.trans hq, rfl⟩
  case allocatePCB call p o h =>
    obtain ⟨rfl, hv⟩ := view_allocatePCB _ h
    have stays : ∀ {q}, q < s.view.nextPCB →
        Function.update ow s.view.nextPCB (s.currentThread, true) q = ow q :=
      fun hq => Function.update_of_ne (Nat.ne_of_lt hq) ..
    have exited : ∀ {q}, s.view.exited q = true → s.view.newPCB.exited q = true := fun hq =>
      (Function.update_of_ne (Nat.ne_of_lt (hp.exited hq).1) ..).trans hq
    have mono : ∀ {t st}, Asserts ow os s.view t st →
        Asserts (Function.update ow s.view.nextPCB (s.currentThread, true)) os s.view.newPCB t st :=
      fun ha => ha.mono (Nat.le_succ _) (Nat.le_refl _) exited (fun _ _ hq _ => stays hq)
        (fun _ _ _ _ => rfl) (fun hq _ => stays hq)
    refine ⟨Function.update ow s.view.nextPCB (s.currentThread, true), os, ?_, ?_⟩
    · show Pointers _ _ o.view
      rw [hv]
      exact hp.newPCB _
    · show Outlined _ _ o.view (Function.update s.code _ _)
      rw [hv]
      refine ho.goto hcode rule.once rule.exitOnly
        rule.dying (Nat.le_refl _) (fun _ => mono) ?_ ?_
      · simp only [releaseLock, List.cons_append, List.nil_append, List.forall_mem_cons]
        exact ⟨trivial, trivial, ⟨Nat.lt_succ_self _, Function.update_self ..⟩,
          fun st' hst => mono (hk st' hst)⟩
      · intro q hq
        have hne : q ≠ s.view.nextPCB := by
          rintro rfl
          cases (Function.update_self ..).symm.trans hq
        exact .inl ⟨(Function.update_of_ne hne ..).symm.trans hq, Function.update_of_ne hne ..⟩
  case copySpace call p a space room =>
    have stays : ∀ {b}, b < s.view.nextSpace →
        Function.update os s.view.nextSpace (s.currentThread, true) b = os b :=
      fun hb => Function.update_of_ne (Nat.ne_of_lt hb) ..
    have mono : ∀ {t st}, Asserts ow os s.view t st →
        Asserts ow (Function.update os s.view.nextSpace (s.currentThread, true))
          (s.view.newSpace none) t st :=
      fun ha => ha.mono (Nat.le_refl _) (Nat.le_succ _) id (fun _ _ _ _ => rfl)
        (fun _ _ hb _ => stays hb) (fun _ _ => rfl)
    refine ⟨ow, Function.update os s.view.nextSpace (s.currentThread, true), ?_, ?_⟩
    · show Pointers _ _ (s.newSpace none _).2.view
      rw [view_newSpace]
      exact hp.newSpace _ _
    · show Outlined _ _ (s.newSpace none _).2.view (Function.update s.code _ _)
      rw [view_newSpace]
      refine ho.goto hcode rule.once rule.exitOnly
        rule.dying (Nat.le_refl _) (fun _ => mono) ?_ (fun he => .inl ⟨he, rfl⟩)
      simp only [releaseLock, List.cons_append, List.nil_append, List.forall_mem_cons]
      exact ⟨trivial, trivial, ⟨hst₀, Nat.lt_succ_self _, Function.update_self ..⟩,
        fun st' hst => mono (hk st' hst)⟩
  case startChild call p a q pcb =>
    obtain ⟨hpu, hau⟩ : _ ∧ _ := hst₀
    have hne : s.view.nextThread ≠ s.currentThread := (Nat.ne_of_lt (ho.born hcode)).symm
    have thread : ∀ {q}, q < s.view.nextPCB → (ow q).2 = false →
        Function.update ow p (s.view.nextThread, false) q = ow q := by
      intro q _ hq
      refine Function.update_of_ne ?_ ..
      rintro rfl
      cases hq.symm.trans (congrArg Prod.snd hpu.2)
    have others : ∀ {t st}, (st.inFork = true → t ≠ s.currentThread) → Asserts ow os s.view t st →
        Asserts (Function.update ow p (s.view.nextThread, false))
          (Function.update os a (s.view.nextThread, false)) (s.view.link p a) t st := by
      intro t st hfork ha
      refine ha.mono (Nat.le_refl _) (Nat.le_refl _) id ?_ ?_ thread
      · intro hf q _ hq
        refine Function.update_of_ne ?_ ..
        rintro rfl
        exact hfork hf (congrArg Prod.fst (hq.symm.trans hpu.2))
      · intro hf b _ hb
        refine Function.update_of_ne ?_ ..
        rintro rfl
        exact hfork hf (congrArg Prod.fst (hb.symm.trans hau.2))
    refine ⟨Function.update ow p (s.view.nextThread, false),
      Function.update os a (s.view.nextThread, false), ?_, ?_⟩
    · show Pointers _ _ (s.linkChild p q a _).2.view
      rw [view_linkChild]
      exact hp.link hpu hau
    · show Outlined _ _ (s.linkChild p q a _).2.view
        (Function.update (Function.update s.code s.view.nextThread _) _ _)
      rw [view_linkChild, Function.update_comm hne]
      refine Outlined.spawn ?_ (Nat.lt_succ_self _) ?_
      · refine ho.goto hcode rule.once rule.exitOnly
          rule.dying (Nat.le_succ _) (fun ht => others fun _ => ht) ?_
          (fun he => .inl ⟨he, thread (hp.exited he).1 (hp.exited he).2⟩)
        have honce := ho.once s.currentThread
        rw [hcode] at honce
        refine List.forall_mem_cons.mpr ⟨trivial, List.forall_mem_cons.mpr ⟨trivial, ?_⟩⟩
        intro st' hst
        refine others (fun hfork => ?_) (hk st' hst)
        cases (honce.tail rfl hst).symm.trans hfork
      · intro q hq
        rw [thread (hp.exited hq).1 (hp.exited hq).2]
        exact Nat.ne_of_lt (hp.born hq)
  case loadFail e p =>
    refine ⟨ow, os, ?_, ?_⟩
    · show Pointers _ _ s.dropSpace.view
      rw [view_dropSpace]
      exact hp.dropSpace _
    · show Outlined _ _ s.dropSpace.view (Function.update s.code _ _)
      rw [view_dropSpace]
      exact ho.goto hcode rule.once
        rule.exitOnly rule.dying
        (Nat.le_refl _)
        (fun _ ha => ha.mono (Nat.le_refl _) (Nat.le_refl _) id (fun _ _ _ _ => rfl)
          (fun _ _ _ _ => rfl) (fun _ _ => rfl))
        (fun st' hst => (hk st' hst).mono (Nat.le_refl _) (Nat.le_refl _) id (fun _ _ _ _ => rfl)
          (fun _ _ _ _ => rfl) (fun _ _ => rfl))
        (fun he => .inl ⟨he, rfl⟩)
  case load e p room =>
    obtain ⟨hlt, how⟩ : _ ∧ _ := hst₀
    have hv : (s.dropSpace.loaded p e.numPages).view =
        (((s.view.setSpaceOf s.currentThread none).newSpace (some p)).setSpaceOf s.currentThread
          (some s.view.nextSpace)) := by
      rw [view_loaded, view_dropSpace]
      rfl
    have stays : ∀ {b}, b < s.view.nextSpace →
        Function.update os s.view.nextSpace (s.currentThread, false) b = os b :=
      fun hb => Function.update_of_ne (Nat.ne_of_lt hb) ..
    have mono : ∀ {t st}, Asserts ow os s.view t st →
        Asserts ow (Function.update os s.view.nextSpace (s.currentThread, false))
          (s.dropSpace.loaded p e.numPages).view t st := by
      intro t st ha
      rw [hv]
      exact ha.mono (Nat.le_refl _) (Nat.le_succ _) id (fun _ _ _ _ => rfl)
        (fun _ _ hb _ => stays hb) (fun _ _ => rfl)
    refine ⟨ow, Function.update os s.view.nextSpace (s.currentThread, false), ?_, ?_⟩
    · show Pointers _ _ (s.dropSpace.loaded p e.numPages).view
      rw [hv]
      refine ((hp.dropSpace _).newSpace _ _).setSpaceOf (ho.born hcode)
        ⟨Nat.lt_succ_self _, Function.update_self ..⟩ ?_
      intro q hq
      have hnew : ((s.view.setSpaceOf s.currentThread none).newSpace (some p)).pcbOf
          s.view.nextSpace = some p := Function.update_self ..
      obtain rfl : p = q := Option.some.inj (hnew.symm.trans hq)
      exact ⟨hlt, how⟩
    · show Outlined _ _ (s.dropSpace.loaded p e.numPages).view (Function.update s.code _ _)
      refine ho.goto hcode rule.once rule.exitOnly
        rule.dying ?_ (fun _ => mono) (fun st' hst => mono (hk st' hst)) ?_
      · rw [hv]
        exact Nat.le_refl _
      · rw [hv]
        exact fun he => .inl ⟨he, rfl⟩
  case unlinkPCB p o h =>
    obtain ⟨-, hv⟩ | ⟨t, -, -, hv⟩ := view_unlink _ h
    · exact same hv rfl hk
    · refine ⟨ow, os, ?_, ?_⟩
      · show Pointers _ _ o.view
        rw [hv]
        exact hp.unlink p t
      · show Outlined _ _ o.view (Function.update s.code _ _)
        rw [hv]
        exact ho.goto hcode rule.once rule.exitOnly
          rule.dying (Nat.le_refl _)
          (fun _ ha => ha.mono (Nat.le_refl _) (Nat.le_refl _) id (fun _ _ _ _ => rfl)
            (fun _ _ _ _ => rfl) (fun _ _ => rfl))
          (fun st' hst => (hk st' hst).mono (Nat.le_refl _) (Nat.le_refl _) id
            (fun _ _ _ _ => rfl) (fun _ _ _ _ => rfl) (fun _ _ => rfl))
          (fun he => .inl ⟨he, rfl⟩)

end Step

/-! ### Runs -/

section Runs

variable {s₀ s s' : State} {e : Executable} {es tr : List Event}

/-- The pointers of the first process. -/
def View.first : View where
  spaceOf := Function.update (fun _ => none) 0 (some 0)
  pcbOf := Function.update (fun _ => none) 0 (some 0)
  threadOf := Function.update (fun _ => none) 0 (some 0)
  exited _ := false
  nextPCB := 1
  nextSpace := 1
  nextThread := 1

lemma hasExited_new (pid : ℕ) : (PCB.new pid).hasExited = false := by
  simp [PCB.new, PCB.hasExited]

lemma view_startProcess (h : startProcess e = .ok s₀) : s₀.view = .first ∧
    s₀.code = Function.update (fun _ => []) 0 [.user] ∧ s₀.currentThread = 0 := by
  unfold startProcess at h
  dsimp only at h
  split at h
  · cases h
  · obtain ⟨⟨p, o⟩, hp, h⟩ := bind_eq_ok h
    obtain ⟨rfl, hv⟩ := view_allocatePCB _ hp
    have hcur := currentThread_allocatePCB hp
    cases h
    refine ⟨?_, rfl, hcur⟩
    show (Objects.setThread _ _ _).view = _
    rw [view_setThread, view_newSpace, view_setPCB, hv]
    have hnext : o.space.next = 0 := congrArg View.nextSpace hv
    have hexited : (o.pcb.get 0).hasExited = false := by
      have hnew := boot.view.exited_newPCB
      rwa [← hv] at hnew
    simp only [View.first, View.newPCB, View.newSpace, Objects.view, boot, Heap.new, Heap.empty,
      Objects.newSpace, hasExited_new, View.mk.injEq, Function.update_idem,
      Function.update_eq_self, Objects.setPCB, hnext]
    refine ⟨?_, trivial, rfl, ?_, trivial, trivial, trivial⟩
    · simp
    · exact (Function.update_eq_iff).mpr ⟨hexited, fun _ _ => rfl⟩

/-- **The owners of a running system.** -/
theorem owned_of_run (h₀ : startProcess e = .ok s₀) (h : Run Step s₀ tr s) : Owned s := by
  refine h.invariant_state ?_ ?_
  · obtain ⟨hv, hcode, -⟩ := view_startProcess h₀
    refine ⟨fun _ => (0, false), fun _ => (0, false), ?_, ?_⟩
    · rw [hv]
      constructor <;> intros <;> simp only [View.first, Function.update_apply] at * <;> grind
    · rw [hv, hcode]
      constructor <;> intros <;> simp only [View.first, Function.update_apply] at * <;>
        grind [Asserts, Dying, Once, ExitOnly]
  · rintro s es s' ho ⟨c, hs⟩
    obtain ⟨st, k, k', s₁, hcode, hr, rfl⟩ := step_rule hs
    exact hr.owned hcode ho

/-- The runs that pass a test, from the start of a program. -/
lemma run_of_startProcess (e : Executable) (cs : List Choice) (p : List Event → State → Bool)
    (h : (match startProcess e with
      | .ok s₀ => passes step cs s₀ p
      | .error _ => false) = true) :
    ∃ s₀ tr s, startProcess e = .ok s₀ ∧ Run Step s₀ tr s ∧ p tr s = true := by
  split at h
  next s₀ h₀ =>
    obtain ⟨tr, s, hr, hp⟩ := run_of_passes step cs s₀ p h
    exact ⟨s₀, tr, s, h₀, hr, hp⟩
  next => cases h

/-- The guarded runs that pass a test, from the start of a program. -/
lemma guarded_of_startProcess {G : State → List Event → State → Prop} {ok : State → Bool}
    (hok : ∀ {s es s'}, ok s = true → Step s es s' → G s es s') (e : Executable)
    (cs : List Choice) (p : State → Bool)
    (h : (match startProcess e with
      | .ok s₀ => passesAll step (fun _ s => ok s) p cs s₀
      | .error _ => false) = true) :
    ∃ s₀ tr s, startProcess e = .ok s₀ ∧ Run (Guarded G Step) s₀ tr s ∧ p s = true := by
  split at h
  next s₀ h₀ =>
    obtain ⟨tr, s, hr, -, hp⟩ := run_of_passesAll (G := G) (fun _ => True)
      (fun {c} _ _ _ _ hs hstep => ⟨trivial, hok hs ⟨c, hstep⟩⟩) .start trivial h
    exact ⟨s₀, tr, s, h₀, hr, hp⟩
  next => cases h

end Runs

end Nachos.Process
