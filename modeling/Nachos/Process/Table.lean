import Nachos.Process.Start

/-!
# The process table under its lock

`AllocatePCB` and `DeallocatePCB` change the bitmap and the array of the `PCBManager` with the lock
held; `delete pcb` comes between the two halves of `DeallocatePCB`, and may lose the processor. The
lock keeps the other changes out, so that a PCB that has not been deleted is always found in the
array, at its pid.
-/

namespace Nachos.Process

open Lib Threads Mips Userprog

/-! ### The table -/

/-- What the process table consists of. -/
structure Table where
  live : PCBId → Bool
  pid : PCBId → ℕ
  pcbs : ℕ → Option PCBId
  bitmap : BitMap
  next : PCBId

def Objects.table (o : Objects) : Table where
  live := o.pcb.live
  pid p := (o.pcb.get p).pid
  pcbs := o.pcbs
  bitmap := o.bitmap
  next := o.pcb.next

section Frame

variable {s s₁ : State} {o o' : Objects}

/-- An assignment to a PCB that leaves the pid alone. -/
lemma table_setPCB (p : PCBId) (f : PCB → PCB) (hf : ∀ pcb, (f pcb).pid = pcb.pid) :
    (o.setPCB p f).table = o.table := by
  have hpid : (fun q => ((o.pcb.modify p f).get q).pid) = fun q => (o.pcb.get q).pid := by
    funext q
    rw [Heap.get_modify]
    split
    · exact hf _
    · rfl
  exact congrArg (fun g => { o.table with pid := g }) hpid

lemma table_removeThread (t : Option Tid) : (o.removeThread t).table = o.table := by
  cases t <;> rfl

lemma table_detach (p : PCBId) : (o.detach p).table = o.table := by
  unfold Objects.detach
  dsimp only
  split
  · exact table_removeThread _
  · rw [table_setPCB, table_removeThread]
    exact fun _ => rfl

lemma table_exiting (p : PCBId) (status : Word) : (s.exiting p status).table = s.table := by
  rw [State.exiting]
  show (Objects.removeThread _ _).table = _
  rw [table_removeThread]
  exact table_setPCB (o := s.toObjects) _ _ fun _ => rfl

lemma table_linkChild (p q : PCBId) (a : SpaceId) (r : Registers) :
    (o.linkChild p q a r).2.table = o.table := by
  unfold Objects.linkChild
  dsimp only
  rw [table_setPCB, table_setPCB]
  · rfl
  · exact fun _ => rfl
  · exact fun _ => rfl

lemma table_freeFrames {a : SpaceId} (h : o.freeFrames a = .ok o') : o'.table = o.table := by
  unfold Objects.freeFrames at h
  split at h
  · cases h
  · obtain ⟨mm, -, h⟩ := bind_eq_ok h
    cases h
    rfl

lemma table_freeSpace {a : SpaceId} (h : o.freeSpace a = .ok o') : o'.table = o.table := by
  unfold Objects.freeSpace at h
  split at h
  · cases h
    rfl
  · cases h

lemma table_run (next : Tid) : (s.run next).table = s.table := by
  unfold State.run
  dsimp only
  split <;> rfl

lemma table_releaseOf (l : LockName) : (s.releaseOf l).table = s.table := by
  unfold State.releaseOf
  split
  · split <;> rfl
  · rfl

lemma table_afterSwitch (h : s.afterSwitch = .ok s₁) : s₁.table = s.table := by
  unfold State.afterSwitch at h
  dsimp only at h
  split at h
  · cases h
    split <;> rfl
  · split at h
    · cases h
    · cases h
      split <;> rfl

/-- `delete pcb` ends the life of one PCB. -/
lemma table_unlink {p : PCBId} (h : (o.unlink p).freePCB p = .ok o') :
    o'.table = { o.table with live := Function.update o.table.live p false } := by
  have hunlink : (o.unlink p).table = o.table := by
    unfold Objects.unlink
    split
    · rfl
    · rw [table_setPCB, table_removeThread]
      · rfl
      · exact fun _ => rfl
  unfold Objects.freePCB at h
  split at h
  next =>
    cases h
    exact congrArg (fun T => { T with live := Function.update T.live p false }) hunlink
  next => cases h

/-- `AllocatePCB`: a clear bit is set, and the entry leads to a new PCB. -/
lemma table_allocatePCB {p : PCBId} (h : o.allocatePCB = .ok (p, o')) :
    p = o.table.next ∧ ∃ pid, o.bitmap.bit pid = false ∧ o'.table = {
      live := Function.update o.table.live p true
      pid := Function.update o.table.pid p pid
      pcbs := Function.update o.table.pcbs pid (some p)
      bitmap := o.bitmap.setBit pid
      next := p + 1 } := by
  unfold Objects.allocatePCB at h
  split at h
  · cases h
  next hne =>
    obtain ⟨i, -, hbit, -, hfind⟩ | ⟨-, hfind⟩ := o.bitmap.find_cases
    · rw [hfind] at h
      cases h
      refine ⟨rfl, i, hbit, ?_⟩
      have hpid := comp_update PCB.pid o.pcb.get o.pcb.next (.new i)
      exact congrArg (fun g => ({
        live := Function.update o.pcb.live o.pcb.next true
        pid := g
        pcbs := Function.update o.pcbs i (some o.pcb.next)
        bitmap := o.bitmap.setBit i
        next := o.pcb.next + 1 } : Table)) hpid
    · rw [hfind] at hne
      exact absurd rfl hne

end Frame

/-! ### The lock of the table -/

/-- No second half of a `DeallocatePCB` is left. -/
def NoForget (l : List Stmt) : Prop := ∀ pid, .forgetPid pid ∉ l

/-- The code of a thread that holds the lock of the table, or does not: the lock is taken and given
back in turns, and what needs it comes in between. -/
def Bracketed : Bool → List Stmt → Prop
  | b, [] => b = false
  | b, .acquire .pcbManagerLock :: k => b = false ∧ NoForget k ∧ Bracketed true k
  | b, .release .pcbManagerLock :: k => b = true ∧ NoForget k ∧ Bracketed false k
  | b, .allocatePCB _ :: k => b = true ∧ NoForget k ∧ Bracketed false k
  | b, .clearPid _ :: k => b = true ∧ NoForget k ∧ Bracketed false k
  | b, .forgetPid _ :: k => b = true ∧ NoForget k ∧ Bracketed true k
  | b, .user :: k => b = false ∧ Bracketed false k
  | b, .childFunction :: k => b = false ∧ Bracketed false k
  | b, .finish :: k => b = false ∧ Bracketed false k
  | b, .mapcar _ _ :: k => b = false ∧ Bracketed false k
  | b, .exitDeallocate _ :: k => b = false ∧ Bracketed false k
  | b, _ :: k => Bracketed b k

section Bracketed

variable {s s₁ : State} {st : Stmt} {k k' : List Stmt} {es : List Event} {b : Bool}

@[simp] lemma noForget_cons : NoForget (st :: k) ↔ (∀ pid, st ≠ .forgetPid pid) ∧ NoForget k := by
  simp only [NoForget, List.mem_cons, not_or, forall_and, ne_comm (a := st), ne_eq]

/-- Outside the lock nothing is left to forget. -/
lemma Bracketed.noForget (h : Bracketed false k) : NoForget k := by
  induction k with
  | nil => exact fun _ => List.not_mem_nil
  | cons st k ih =>
    rw [noForget_cons]
    cases st
    case acquire l =>
      cases l
      · exact ⟨nofun, ih h⟩
      · exact ⟨nofun, h.2.1⟩
    case release l =>
      cases l
      · exact ⟨nofun, ih h⟩
      · cases h.1
    case allocatePCB | clearPid | forgetPid => cases h.1
    case user | childFunction | finish | mapcar | exitDeallocate => exact ⟨nofun, ih h.2⟩
    all_goals exact ⟨nofun, ih h⟩

lemma Control.bracketed (hc : Control s st k k') (h : Bracketed b (st :: k)) : Bracketed b k' := by
  cases hc
  case mapcarExited | exitDeallocate =>
    obtain ⟨rfl, h⟩ : b = false ∧ _ := h
    simpa [Bracketed, acquireLock, deallocatePCB, h] using h.noForget
  case destroyPCB p _ =>
    obtain he | ⟨a, -, he⟩ := destroyPCB_eq s p <;>
      simpa [he, Bracketed, deleteSpace, acquireLock, releaseLock] using h
  case mapcarNil | mapcarGone | exitParent =>
    obtain ⟨rfl, h⟩ : b = false ∧ _ := h
    simpa [Bracketed] using h
  all_goals
    simpa [Bracketed, acquireLock, releaseLock, deleteSpace, threadYield] using h

lemma Trap.bracketed (ht : Trap s k k') (h : Bracketed false k) : Bracketed false k' := by
  cases ht
  case fork => simpa [Bracketed, acquireLock, h] using h.noForget
  all_goals
    simpa [Bracketed, acquireLock, releaseLock, deleteSpace, threadYield] using h

/-- The thread has the lock of the table. -/
def State.Has (s : State) (t : Tid) : Prop :=
  (s.lock .pcbManagerLock).free = false ∧ (s.lock .pcbManagerLock).activeThread = some t

lemma State.Has.congr {t : Tid} (h : s₁.lock .pcbManagerLock = s.lock .pcbManagerLock) (hs : s.Has t) :
    s₁.Has t := by
  rwa [State.Has, h]

lemma lock_setLock_self (l : LockName) (v : Lock) : (s.setLock l v).lock l = v :=
  Function.update_self ..

lemma lock_setLock_of_ne {l l' : LockName} (v : Lock) (h : l' ≠ l) :
    (s.setLock l v).lock l' = s.lock l' := Function.update_of_ne h ..

lemma lock_setReadyList (ts : List Tid) : (s.setReadyList ts).lock = s.lock := rfl

lemma lock_run (next : Tid) : (s.run next).lock = s.lock := by
  unfold State.run
  dsimp only
  split <;> rfl

lemma lock_afterSwitch (h : s.afterSwitch = .ok s₁) : s₁.lock = s.lock := by
  unfold State.afterSwitch at h
  dsimp only at h
  split at h
  · cases h
    split <;> rfl
  · split at h
    · cases h
    · cases h
      split <;> rfl

/-- `Release` of one lock leaves the other alone. -/
lemma lock_releaseOf_of_ne {l l' : LockName} (h : l' ≠ l) : (s.releaseOf l).lock l' = s.lock l' := by
  unfold State.releaseOf
  split
  · split
    · exact Function.update_of_ne h ..
    · exact Function.update_of_ne h ..
  · rfl

/-- A thread that does not have the lock does not give it back. -/
lemma lock_releaseOf_of_not {l : LockName} (h : (s.lock l).activeThread ≠ some s.currentThread) :
    (s.releaseOf l).lock l = s.lock l := by
  unfold State.releaseOf
  rw [if_neg h]

/-- **Every step keeps the brackets**, and what is in them has the lock. -/
lemma Rule.bracketed (hr : Rule s st k k' es s₁) (h : Bracketed b (st :: k))
    (hb : b = true → s.Has s.currentThread) :
    ∃ b', Bracketed b' k' ∧ (b' = true → s₁.Has s.currentThread) := by
  cases hr
  case control hc => exact ⟨b, hc.bracketed h, hb⟩
  case instruction =>
    obtain ⟨rfl, h⟩ : b = false ∧ _ := h
    exact ⟨false, ⟨rfl, h⟩, fun h => by cases h⟩
  case trap ht =>
    obtain ⟨rfl, h⟩ : b = false ∧ _ := h
    exact ⟨false, ht.bracketed ⟨rfl, h⟩, fun h => by cases h⟩
  case exit =>
    obtain ⟨rfl, h⟩ : b = false ∧ _ := h
    exact ⟨false, by simp [Bracketed], fun h => by cases h⟩
  case kill =>
    obtain ⟨rfl, h⟩ : b = false ∧ _ := h
    exact ⟨false, by simpa [Bracketed] using h, fun h => by cases h⟩
  case interrupt hst =>
    refine ⟨b, ?_, hb⟩
    obtain rfl | rfl := hst <;> simpa [Bracketed] using h
  case timeSlice hst =>
    refine ⟨b, ?_, hb⟩
    obtain rfl | rfl := hst <;> simpa [Bracketed, threadYield] using h
  case take l _ =>
    cases l
    case mmLock =>
      refine ⟨b, h, fun hb' => .congr (lock_setLock_of_ne _ ?_) (hb hb')⟩
      exact fun h => by cases h
    case pcbManagerLock =>
      refine ⟨true, h.2.2, fun _ => ?_⟩
      rw [State.Has, lock_setLock_self]
      exact ⟨rfl, rfl⟩
  case block l next rest _ _ =>
    cases l
    case mmLock =>
      refine ⟨b, by simpa [Bracketed] using h, fun hb' => .congr ?_ (hb hb')⟩
      rw [lock_run, lock_setReadyList, lock_setLock_of_ne]
      exact fun h => by cases h
    case pcbManagerLock =>
      obtain ⟨rfl, h⟩ : b = false ∧ _ := h
      exact ⟨false, ⟨rfl, h⟩, fun h => by cases h⟩
  case release l =>
    cases l
    case mmLock =>
      refine ⟨b, h, fun hb' => .congr (lock_releaseOf_of_ne ?_) (hb hb')⟩
      exact fun h => by cases h
    case pcbManagerLock => exact ⟨false, h.2.2, fun h => by cases h⟩
  case yield =>
    exact ⟨b, h, fun hb' => .congr (congrFun (lock_run _) _) (hb hb')⟩
  case resume hs₁ =>
    exact ⟨b, h, fun hb' => .congr (congrFun (lock_afterSwitch hs₁) _) (hb hb')⟩
  case childFunction =>
    obtain ⟨rfl, h⟩ : b = false ∧ _ := h
    exact ⟨false, ⟨rfl, rfl⟩, fun h => by cases h⟩
  case finish =>
    obtain ⟨rfl, h⟩ : b = false ∧ _ := h
    exact ⟨false, rfl, fun h => by cases h⟩
  case clearPid p _ _ _ =>
    obtain ⟨rfl, hk, h⟩ : b = true ∧ _ ∧ _ := h
    refine ⟨true, ?_, hb⟩
    obtain he | ⟨a, -, he⟩ := destroyPCB_eq s p <;>
      simpa [he, Bracketed, deleteSpace, acquireLock, releaseLock, h] using hk
  case forgetPid =>
    obtain ⟨rfl, -, h⟩ : b = true ∧ _ ∧ _ := h
    exact ⟨true, h, hb⟩
  case orphan =>
    obtain ⟨rfl, h⟩ : b = false ∧ _ := h
    exact ⟨false, ⟨rfl, h⟩, fun h => by cases h⟩
  all_goals exact ⟨b, by simpa [Bracketed, acquireLock, releaseLock] using h, hb⟩

/-- Another thread keeps the lock. -/
lemma Rule.has (hr : Rule s st k k' es s₁) {t : Tid} (ht : t ≠ s.currentThread) (h : s.Has t) :
    s₁.Has t := by
  cases hr
  case take l free =>
    cases l
    case mmLock => exact .congr (lock_setLock_of_ne _ nofun) h
    case pcbManagerLock => cases h.1.symm.trans free
  case block l next rest _ _ =>
    cases l
    case mmLock =>
      refine .congr ?_ h
      rw [lock_run, lock_setReadyList, lock_setLock_of_ne]
      exact nofun
    case pcbManagerLock =>
      rw [State.Has, lock_run, lock_setReadyList, lock_setLock_self]
      exact h
  case release l =>
    cases l
    case mmLock => exact .congr (lock_releaseOf_of_ne nofun) h
    case pcbManagerLock =>
      refine .congr (lock_releaseOf_of_not ?_) h
      rw [h.2]
      exact fun hs => ht (Option.some.inj hs)
  case yield | finish => exact .congr (congrFun (lock_run _) _) h
  case resume hs₁ => exact .congr (congrFun (lock_afterSwitch hs₁) _) h
  all_goals exact h

/-- **Mutual exclusion**: a thread in the bracket has the lock of the table. -/
def Held (s : State) : Prop := ∀ t, ∃ b, Bracketed b (s.code t) ∧ (b = true → s.Has t)

/-- A thread that still has to clear an entry has the lock. -/
lemma Held.has (h : Held s) {t : Tid} {pid : ℕ} (hmem : .forgetPid pid ∈ s.code t) : s.Has t := by
  obtain ⟨b, hb, hlock⟩ := h t
  cases b
  · exact absurd hmem (hb.noForget pid)
  · exact hlock rfl

/-- **Every step keeps mutual exclusion.** -/
lemma Rule.held (hr : Rule s st k k' es s₁) (hcode : s.code s.currentThread = st :: k)
    (ho : Owned s) (h : Held s) : Held (s₁.setCode s.currentThread k') := by
  intro t
  by_cases ht : t = s.currentThread
  · subst ht
    rw [code_setCode_self]
    obtain ⟨b, hb, hlock⟩ := h s.currentThread
    rw [hcode] at hb
    exact hr.bracketed hb hlock
  · rw [code_setCode_of_ne ht]
    obtain ⟨hc, -⟩ | ⟨_, _, _, -, -, hc, -⟩ := hr.thread_cases hcode ho ht
    · obtain ⟨b, hb, hlock⟩ := h t
      exact ⟨b, hc ▸ hb, fun hb' => hr.has ht (hlock hb')⟩
    · rw [hc]
      exact ⟨false, ⟨rfl, rfl⟩, nofun⟩

end Bracketed

/-! ### The entries -/

/-- Before the entry of a pid is cleared, the PCB with this pid is deleted; `q` is one that is
deleted right now. -/
def Forgets (T : Table) : Option PCBId → List Stmt → Prop
  | _, [] => True
  | q, .forgetPid pid :: k =>
    (∀ x, T.live x = true → T.pid x = pid → q = some x) ∧ Forgets T none k
  | _, .unlinkPCB p :: k => Forgets T (some p) k
  | _, _ :: k => Forgets T none k

/-- **Every PCB that has not been deleted has its entry**, and its bit until `DeallocatePCB`. -/
structure Listed (s : State) : Prop where
  entry : ∀ {x}, s.table.live x = true → s.table.pcbs (s.table.pid x) = some x
  bit : ∀ {x}, s.table.live x = true → s.table.bitmap.bit (s.table.pid x) = true ∨
    ∃ t, .forgetPid (s.table.pid x) ∈ s.code t
  forgets : ∀ t, Forgets s.table none (s.code t)

/-- The rules for the table: the other statements leave it alone. -/
inductive Tabled (s s₁ : State) : Stmt → List Stmt → List Stmt → Prop
  | same {st k k'} (table : s₁.table = s.table) (forgets : Forgets s.table none (st :: k) →
      Forgets s.table none k') (mem : ∀ {b}, Bracketed b (st :: k) → ∀ {pid},
        .forgetPid pid ∈ st :: k → .forgetPid pid ∈ k') : Tabled s s₁ st k k'
  | allocatePCB {call p pid k} (clear : s.table.bitmap.bit pid = false) (fresh : p = s.table.next)
      (table : s₁.table = {
        live := Function.update s.table.live p true
        pid := Function.update s.table.pid p pid
        pcbs := Function.update s.table.pcbs pid (some p)
        bitmap := s.table.bitmap.setBit pid
        next := p + 1 }) :
      Tabled s s₁ (.allocatePCB call) k (releaseLock .pcbManagerLock ++ .saveParent call p :: k)
  | clearPid {p k} (live : s.table.live p = true)
      (table : s₁.table =
        { s.table with bitmap := s.table.bitmap.clearBit (s.table.pid p) }) :
      Tabled s s₁ (.clearPid p) k
        (s.destroyPCB p ++ .forgetPid (s.table.pid p) :: releaseLock .pcbManagerLock ++ k)
  | unlinkPCB {p k} (table : s₁.table =
      { s.table with live := Function.update s.table.live p false }) :
      Tabled s s₁ (.unlinkPCB p) k k
  | forgetPid {pid k} (table : s₁.table =
      { s.table with pcbs := Function.update s.table.pcbs pid none }) :
      Tabled s s₁ (.forgetPid pid) k k

section Listed

variable {s s₁ : State} {st : Stmt} {k k' : List Stmt} {es : List Event} {T T' : Table}
  {q : Option PCBId} {b : Bool}

lemma Forgets.mono (h : Forgets T none k) : Forgets T q k := by
  cases k with
  | nil => trivial
  | cons st k =>
    cases st
    case forgetPid => exact ⟨fun x hx hpid => (nomatch h.1 x hx hpid), h.2⟩
    all_goals exact h

lemma Forgets.of_noForget (h : NoForget k) : Forgets T q k := by
  induction k generalizing q with
  | nil => trivial
  | cons st k ih =>
    obtain ⟨hst, hk⟩ := noForget_cons.mp h
    cases st
    case forgetPid pid => exact absurd rfl (hst pid)
    all_goals exact ih hk

/-- With fewer PCBs there is less to check. -/
lemma Forgets.antitone (hlive : ∀ {x}, T'.live x = true → T.live x = true) (hpid : T'.pid = T.pid)
    (h : Forgets T q k) : Forgets T' q k := by
  induction k generalizing q with
  | nil => trivial
  | cons st k ih =>
    cases st
    case forgetPid => exact ⟨fun x hx hp => h.1 x (hlive hx) (hpid ▸ hp), ih h.2⟩
    all_goals exact ih h

/-- The PCB is deleted. -/
lemma Forgets.delete {p : PCBId} (hlive : ∀ {x}, T'.live x = true → T.live x = true ∧ x ≠ p)
    (hpid : T'.pid = T.pid) (h : Forgets T (some p) k) : Forgets T' none k := by
  cases k with
  | nil => trivial
  | cons st k =>
    cases st
    case forgetPid =>
      refine ⟨fun x hx hp => ?_, h.2.antitone (fun hx => (hlive hx).1) hpid⟩
      have hq := h.1 x (hlive hx).1 (hpid ▸ hp)
      exact absurd (Option.some.inj hq).symm (hlive hx).2
    all_goals exact Forgets.antitone (fun hx => (hlive hx).1) hpid h

/-- The statements pushed by a statement that leaves the table alone. -/
lemma Control.forgets (hc : Control s st k k') (h : Forgets T none (st :: k)) :
    Forgets T none k' := by
  cases hc
  case destroyPCB p _ =>
    have hk : Forgets T none k := h
    obtain he | ⟨a, -, he⟩ := destroyPCB_eq s p <;>
      simpa [he, Forgets, deleteSpace, acquireLock, releaseLock] using hk.mono
  case joinExited => exact Forgets.mono (q := none) h
  all_goals
    simpa [Forgets, acquireLock, releaseLock, deallocatePCB, deleteSpace, threadYield] using h

lemma Control.forget_mem (hc : Control s st k k') {pid : ℕ} (h : .forgetPid pid ∈ st :: k) :
    .forgetPid pid ∈ k' := by
  cases hc
  case destroyPCB p _ =>
    obtain he | ⟨a, -, he⟩ := destroyPCB_eq s p <;>
      simpa [he, deleteSpace, acquireLock, releaseLock] using h
  all_goals
    simpa [acquireLock, releaseLock, deallocatePCB, deleteSpace, threadYield] using h

lemma Trap.forgets (ht : Trap s k k') (h : Forgets T none k) : Forgets T none k' := by
  cases ht
  all_goals
    simpa [Forgets, acquireLock, releaseLock, deleteSpace, threadYield] using h

/-- **What a step does to the table.** -/
lemma Rule.tabled (hr : Rule s st k k' es s₁) : Tabled s s₁ st k k' := by
  -- what is discarded is outside the bracket
  have outside : ∀ {b l pid} {P : Prop}, b = false → Bracketed b l → .forgetPid pid ∈ l → P := by
    rintro b l pid P rfl hb hmem
    exact absurd hmem (hb.noForget pid)
  cases hr
  case control hc => exact .same rfl hc.forgets fun _ => hc.forget_mem
  case instruction => exact .same rfl id fun _ => by simp
  case trap ht => exact .same rfl ht.forgets fun hb _ hmem => outside hb.1 hb hmem
  case exit =>
    exact .same (table_exiting _ _) (fun _ => by simp [Forgets]) fun hb _ hmem => outside hb.1 hb hmem
  case kill => exact .same (table_detach _) id fun _ => by simp
  case interrupt hst =>
    obtain rfl | rfl := hst
    · exact .same rfl id fun _ => by simp
    · exact .same rfl id fun _ => by simp
  case timeSlice hst =>
    obtain rfl | rfl := hst
    · exact .same rfl id fun _ => by simp [threadYield]
    · exact .same rfl id fun _ => by simp [threadYield]
  case take => exact .same rfl id fun _ => by simp
  case block => exact .same (table_run _) id fun _ => by simp
  case release => exact .same (table_releaseOf _) id fun _ => by simp
  case yield => exact .same (table_run _) id fun _ => by simp
  case resume h => exact .same (table_afterSwitch h) id fun _ => by simp
  case childFunction =>
    exact .same rfl (fun _ => by simp [Forgets]) fun hb _ hmem => outside hb.1 hb hmem
  case allocatePCB h =>
    obtain ⟨hp, pid, hbit, htable⟩ := table_allocatePCB h
    exact .allocatePCB hbit hp htable
  case saveParent => exact .same rfl id fun _ => by simp [acquireLock]
  case copySpace => exact .same rfl id fun _ => by simp [releaseLock]
  case startChild => exact .same (table_linkChild ..) id fun _ => by simp
  case forkReturn => exact .same rfl id fun _ => by simp
  case loadFail => exact .same rfl id fun _ => by simp
  case load => exact .same rfl id fun _ => by simp
  case orphan => exact .same (table_setPCB _ _ fun _ => rfl) id fun _ => by simp
  case finish =>
    exact .same (table_run _) (fun _ => trivial) fun hb _ hmem => outside hb.1 hb hmem
  case clearPid live clear =>
    refine .clearPid live ?_
    unfold BitMap.clear at clear
    split at clear
    · cases clear
      rfl
    · cases clear
  case forgetPid => exact .forgetPid rfl
  case unlinkPCB h => exact .unlinkPCB (table_unlink h)
  case freeFrames h => exact .same (table_freeFrames h) id fun _ => by simp
  case freeSpace h => exact .same (table_freeSpace h) id fun _ => by simp
  case killReturn => exact .same rfl id fun _ => by simp
  case incrementPC => exact .same rfl id fun _ => by simp
  case ret => exact .same rfl id fun _ => by simp

lemma Owned.code_next (ho : Owned s) : s.code s.thread.next = [] := by
  obtain ⟨ow, os, -, hout⟩ := ho
  exact hout.unborn (Nat.le_refl _)

/-- **Every step keeps the entries.** -/
theorem Rule.listed (hr : Rule s st k k' es s₁) (hcode : s.code s.currentThread = st :: k)
    (ho : Owned s) (hheld : Held s) (h : Listed s) : Listed (s₁.setCode s.currentThread k') := by
  have hforgets := h.forgets s.currentThread
  obtain ⟨b, hb, hlock⟩ := hheld s.currentThread
  rw [hcode] at hforgets hb
  -- the statements of the other threads
  have other : ∀ {t pid}, t ≠ s.currentThread → .forgetPid pid ∈ s.code t →
      .forgetPid pid ∈ (s₁.setCode s.currentThread k').code t := by
    intro t pid ht hmem
    rw [code_setCode_of_ne ht]
    obtain ⟨hc, -⟩ | ⟨_, _, _, -, -, -, rfl, -⟩ := hr.thread_cases hcode ho ht
    · rwa [hc]
    · rw [ho.code_next] at hmem
      cases hmem
  have others : ∀ {T}, (∀ {t}, t ≠ s.currentThread → Forgets T none (s.code t)) →
      Forgets T none k' → ∀ t, Forgets T none ((s₁.setCode s.currentThread k').code t) := by
    intro T hT hk t
    by_cases ht : t = s.currentThread
    · rw [ht, code_setCode_self]
      exact hk
    · rw [code_setCode_of_ne ht]
      obtain ⟨hc, -⟩ | ⟨_, _, _, -, -, hc, -⟩ := hr.thread_cases hcode ho ht
      · rw [hc]
        exact hT ht
      · rw [hc]
        trivial
  have htable : (s₁.setCode s.currentThread k').table = s₁.table := rfl
  have inj : ∀ {x y}, s.table.live x = true → s.table.live y = true →
      s.table.pid x = s.table.pid y → x = y := by
    intro x y hx hy hpid
    have hy' := h.entry hy
    rw [← hpid, h.entry hx] at hy'
    exact Option.some.inj hy'
  cases hr.tabled
  case same table forgets mem =>
    refine ⟨?_, ?_, ?_⟩
    · rw [htable, table]
      exact h.entry
    · rw [htable, table]
      intro x hx
      refine (h.bit hx).imp_right fun ⟨t, hmem⟩ => ⟨t, ?_⟩
      by_cases ht : t = s.currentThread
      · subst ht
        rw [hcode] at hmem
        rw [code_setCode_self]
        exact mem hb hmem
      · exact other ht hmem
    · rw [htable, table]
      exact others (fun _ => h.forgets _) (forgets hforgets)
  case allocatePCB call p pid clear fresh table =>
    obtain ⟨rfl, hk, -⟩ : b = true ∧ _ ∧ _ := hb
    -- no other thread is in `DeallocatePCB`, since the lock is taken
    have hnone : ∀ t, NoForget (s.code t) := by
      intro t pid' hmem
      have ht : some s.currentThread = some t :=
        (hlock rfl).2.symm.trans (hheld.has hmem).2
      cases ht
      have hall : NoForget (.allocatePCB call :: k) := noForget_cons.mpr ⟨fun _ => Stmt.noConfusion, hk⟩
      exact hall pid' (hcode ▸ hmem)
    have hbit : ∀ {x}, s.table.live x = true → s.table.bitmap.bit (s.table.pid x) = true :=
      fun hx => (h.bit hx).resolve_right fun ⟨t, hmem⟩ => hnone t _ hmem
    have hlive : ∀ {x}, x ≠ p → Function.update s.table.live p true x = true →
        s.table.live x = true := fun hx hl => (Function.update_of_ne hx ..).symm.trans hl
    refine ⟨?_, ?_, ?_⟩
    · rw [htable, table]
      intro x hx
      by_cases hxp : x = p
      · subst hxp
        simp
      · have hne : s.table.pid x ≠ pid := by
          rintro rfl
          cases clear.symm.trans (hbit (hlive hxp hx))
        simpa [hxp, hne] using h.entry (hlive hxp hx)
    · rw [htable, table]
      intro x hx
      refine .inl ?_
      by_cases hxp : x = p
      · subst hxp
        simp [BitMap.bit_setBit]
      · simpa [hxp, BitMap.bit_setBit] using .inr (hbit (hlive hxp hx))
    · rw [htable]
      refine others (fun _ => .of_noForget (hnone _)) (.of_noForget ?_)
      simpa [releaseLock] using hk
  case clearPid p live table =>
    obtain ⟨rfl, hk, -⟩ : b = true ∧ _ ∧ _ := hb
    refine ⟨?_, ?_, ?_⟩
    · rw [htable, table]
      exact h.entry
    · rw [htable, table]
      intro x hx
      by_cases hxp : x = p
      · subst hxp
        refine .inr ⟨s.currentThread, ?_⟩
        rw [code_setCode_self]
        simp
      · have hne : s.table.pid x ≠ s.table.pid p := fun hpid => hxp (inj hx live hpid)
        refine (h.bit hx).imp (fun hbit => ?_) fun ⟨t, hmem⟩ => ⟨t, ?_⟩
        · simpa [BitMap.bit_clearBit, hne] using hbit
        · refine other (fun ht => ?_) hmem
          subst ht
          have hall : NoForget (.clearPid p :: k) := noForget_cons.mpr ⟨fun _ => Stmt.noConfusion, hk⟩
          exact hall _ (hcode ▸ hmem)
    · rw [htable, table]
      refine others (fun _ => Forgets.antitone (T := s.table) id rfl (h.forgets _)) ?_
      refine Forgets.antitone (T := s.table) id rfl ?_
      have hown : ∀ x, s.table.live x = true → s.table.pid x = s.table.pid p → p = x :=
        fun x hx hpid => inj live hx hpid.symm
      obtain he | ⟨a, -, he⟩ := destroyPCB_eq s p <;>
        simpa [he, Forgets, deleteSpace, acquireLock, releaseLock, Forgets.of_noForget hk] using hown
  case unlinkPCB p table =>
    have hlive : ∀ {x}, Function.update s.table.live p false x = true →
        s.table.live x = true ∧ x ≠ p := by
      intro x hx
      rw [Function.update_apply] at hx
      split at hx
      · cases hx
      next hne => exact ⟨hx, hne⟩
    refine ⟨?_, ?_, ?_⟩
    · rw [htable, table]
      exact fun hx => h.entry (hlive hx).1
    · rw [htable, table]
      intro x hx
      refine (h.bit (hlive hx).1).imp_right fun ⟨t, hmem⟩ => ⟨t, ?_⟩
      by_cases ht : t = s.currentThread
      · subst ht
        rw [hcode] at hmem
        rw [code_setCode_self]
        simpa using hmem
      · exact other ht hmem
    · rw [htable, table]
      exact others (fun _ => (h.forgets _).antitone (fun hx => (hlive hx).1) rfl)
        (Forgets.delete hlive rfl hforgets)
  case forgetPid pid table =>
    obtain ⟨hgone, hforgets⟩ : _ ∧ _ := hforgets
    have hne : ∀ {x}, s.table.live x = true → s.table.pid x ≠ pid :=
      fun hx hpid => by cases hgone _ hx hpid
    refine ⟨?_, ?_, ?_⟩
    · rw [htable, table]
      intro x hx
      exact (Function.update_of_ne (hne hx) ..).trans (h.entry hx)
    · rw [htable, table]
      intro x hx
      refine (h.bit hx).imp_right fun ⟨t, hmem⟩ => ⟨t, ?_⟩
      by_cases ht : t = s.currentThread
      · subst ht
        rw [hcode] at hmem
        rw [code_setCode_self]
        obtain hmem | hmem := List.mem_cons.mp hmem
        · exact absurd (Stmt.forgetPid.inj hmem) (hne hx)
        · exact hmem
      · exact other ht hmem
    · rw [htable, table]
      exact others (fun _ => Forgets.antitone (T := s.table) id rfl (h.forgets _)) (Forgets.antitone (T := s.table) id rfl hforgets)

end Listed

/-! ### Runs -/

section Runs

variable {s₀ s : State} {e : Executable} {tr : List Event}

lemma table_startProcess (h : startProcess e = .ok s₀) : ∃ pid, s₀.table = {
    live := Function.update boot.table.live 0 true
    pid := Function.update boot.table.pid 0 pid
    pcbs := Function.update boot.table.pcbs pid (some 0)
    bitmap := boot.bitmap.setBit pid
    next := 1 } := by
  unfold startProcess at h
  dsimp only at h
  split at h
  · cases h
  · obtain ⟨⟨p, o⟩, hp, h⟩ := bind_eq_ok h
    obtain ⟨rfl, pid, -, htable⟩ := table_allocatePCB hp
    cases h
    refine ⟨pid, ?_⟩
    refine Eq.trans ?_ htable
    exact table_setPCB (o := o) _ _ fun _ => rfl

lemma listed_startProcess (h : startProcess e = .ok s₀) : Held s₀ ∧ Listed s₀ := by
  obtain ⟨-, hcode, -⟩ := view_startProcess h
  obtain ⟨pid, htable⟩ := table_startProcess h
  have hlive : ∀ {x}, s₀.table.live x = true → x = 0 := by
    intro x hx
    by_contra hne
    rw [htable] at hx
    cases (Function.update_of_ne hne ..).symm.trans hx
  have hall : ∀ t, s₀.code t = [.user] ∨ s₀.code t = [] := by
    intro t
    rw [hcode, Function.update_apply]
    split
    · exact .inl rfl
    · exact .inr rfl
  refine ⟨fun t => ⟨false, ?_, nofun⟩, fun hx => ?_, fun hx => .inl ?_, fun t => ?_⟩
  · obtain ht | ht := hall t
    · rw [ht]
      exact ⟨rfl, rfl⟩
    · rw [ht]
      rfl
  · obtain rfl := hlive hx
    rw [htable]
    simp
  · obtain rfl := hlive hx
    rw [htable]
    simp [BitMap.bit_setBit]
  · obtain ht | ht := hall t
    · rw [ht]
      trivial
    · rw [ht]
      trivial

/-- **The process table of a running system.** -/
theorem listed_of_run (h₀ : startProcess e = .ok s₀) (h : Run Step s₀ tr s) :
    Held s ∧ Listed s := by
  refine h.invariant (I := fun _ s => Held s ∧ Listed s) (listed_startProcess h₀) ?_
  rintro tr s es s' hrun ⟨hheld, hlisted⟩ ⟨c, hs⟩
  have ho := owned_of_run h₀ hrun
  obtain ⟨st, k, k', s₁, hcode, hr, rfl⟩ := step_rule hs
  exact ⟨hr.held hcode ho hheld, hr.listed hcode ho hheld hlisted⟩

end Runs

end Nachos.Process
