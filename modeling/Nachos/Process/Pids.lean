import Nachos.Process.Kill

/-!
# The pid of a Join or a Kill

`doJoin` and `doKill` take a pid from the user program, and `GetPCB` looks it up in the table
without a check. The only PCBs that are deleted and keep their entry are those that a `Join` has
deleted: `doJoin` calls `delete joinPCB` where the other deletions go through `DeallocatePCB`. And
an entry that is not `NULL` is all that `doKill` asks for, although a process that has exited or
was killed keeps its entry.
-/

namespace Nachos.Process

open Lib Threads Mips Userprog

/-- What is seen of the life of a process. -/
inductive PidEvent where
  /-- `doExit` sets the exit status. -/
  | exited (p : PCBId)
  /-- `doKill` takes another process off the ready list. -/
  | killed (p : PCBId)
  /-- `doJoin` has deleted the PCB. -/
  | joined (p : PCBId)
  deriving DecidableEq

namespace State

variable (s : State)

/-- The number of the system call that a `SYSCALL` makes, and its argument. -/
def callNumber : ℕ := ((raised s.registers).gpr 2).toNat

def callArg : Word := (raised s.registers).gpr 4

/-- The process that `doExit` ends. -/
def exitEvents : List PidEvent :=
  match s.currentSpace with
  | none => []
  | some a =>
    match (s.space.get a).pageTable, (s.space.get a).pcb with
    | some _, some p => [.exited p]
    | _, _ => []

/-- What a system call does to processes. -/
def callEvents : List PidEvent :=
  match s.callNumber with
  | 1 => s.exitEvents
  | 11 =>
    match s.getPCB s.callArg with
    | .ok (some p) =>
      match s.currentPCB with
      | .ok self => if self = some p then s.exitEvents else [.killed p]
      | .error _ => []
    | _ => []
  | _ => []

end State

/-- **What a step shows** of the life of the processes. -/
def pidEvents (c : Choice) (s : State) : List PidEvent :=
  match s.code s.currentThread with
  | .user :: _ =>
    match c with
    | .syscall _ => s.callEvents
    | _ => []
  | .unlinkPCB p :: .joinReturn _ :: _ => [.joined p]
  | _ => []

/-! ### What is asked of a Join and a Kill -/

section Asked

variable (os : List PidEvent) (s : State) (k : List Stmt)

/-- The system call returns -1, and has done nothing. -/
def Refused : Prop :=
  ∀ e, step (.syscall e) s = .ok ([], s.trapped.goto (.ret (-1) :: .tick :: .user :: k))

end Asked

/-! ### The entries of deleted PCBs -/

/-- What follows the deletion of a PCB: the second half of `DeallocatePCB`, or the return of
`doJoin`. -/
def Ends (T : Table) : List Stmt → Prop
  | [] => True
  | .unlinkPCB p :: k => ((∃ k', k = .forgetPid (T.pid p) :: k' ∧ p < T.next) ∨
      ∃ status k', k = .joinReturn status :: k') ∧ Ends T k
  | .destroyPCB _ :: k => (∃ status k', k = .joinReturn status :: k') ∧ Ends T k
  | _ :: k => Ends T k

/-- **The entries of the table**: each leads to a PCB with its pid, which has not been deleted,
unless a `Join` did so, or the entry is cleared by the next statement. -/
structure Entries (os : List PidEvent) (s : State) : Prop where
  numBits : s.table.bitmap.numBits = maxProcesses
  pid : ∀ {pid p}, s.table.pcbs pid = some p → s.table.pid p = pid ∧ p < s.table.next
  live : ∀ {pid p}, s.table.pcbs pid = some p → s.table.live p = true ∨ .joined p ∈ os ∨
    ∃ k, s.code s.currentThread = .forgetPid pid :: k
  joined : ∀ {p}, .joined p ∈ os → s.table.live p = false ∧ p < s.table.next
  ends : ∀ t, Ends s.table (s.code t)

section Ends

variable {s s₁ : State} {st : Stmt} {k k' : List Stmt} {es : List Event} {T T' : Table}

/-- The pids of the PCBs do not change. -/
lemma Ends.mono (hnext : T.next ≤ T'.next) (hpid : ∀ p < T.next, T'.pid p = T.pid p)
    (h : Ends T k) : Ends T' k := by
  induction k with
  | nil => trivial
  | cons st k ih =>
    cases st
    case unlinkPCB p =>
      obtain ⟨hp, hk⟩ := h
      refine ⟨hp.imp_left ?_, ih hk⟩
      rintro ⟨k', hk', hlt⟩
      exact ⟨k', by rw [hk', hpid p hlt], Nat.lt_of_lt_of_le hlt hnext⟩
    case destroyPCB => exact ⟨h.1, ih h.2⟩
    all_goals exact ih h

lemma Control.ends (hc : Control s st k k') (h : Ends T (st :: k)) : Ends T k' := by
  cases hc
  case destroyPCB p _ =>
    obtain ⟨hjoin, hk⟩ := h
    obtain he | ⟨a, -, he⟩ := destroyPCB_eq s p <;>
      simpa [he, Ends, deleteSpace, acquireLock, releaseLock, hk] using .inr hjoin
  case joinExited => exact ⟨⟨_, _, rfl⟩, h⟩
  all_goals
    simpa [Ends, acquireLock, deallocatePCB, deleteSpace, releaseLock, threadYield] using h

lemma Trap.ends (ht : Trap s k k') (h : Ends T k) : Ends T k' := by
  cases ht
  all_goals simpa [Ends, acquireLock, deleteSpace, releaseLock, threadYield] using h

lemma lt_next_of_live {p : PCBId} (h : s.table.live p = true) : p < s.table.next := by
  by_contra hp
  have hlive : s.table.live p = false := s.pcb.fresh p (Nat.le_of_not_lt hp)
  rw [hlive] at h
  cases h

/-- The statements that a step pushes end as they should. -/
lemma Rule.ends (hr : Rule s st k k' es s₁) (h : Ends s.table (st :: k)) : Ends s.table k' := by
  cases hr
  case control hc => exact hc.ends h
  case trap ht => exact ht.ends (k := .tick :: .user :: k) h
  case exit => trivial
  case interrupt hst => obtain rfl | rfl := hst <;> exact h
  case timeSlice hst => obtain rfl | rfl := hst <;> exact h
  case childFunction => trivial
  case finish => trivial
  case clearPid p b live clear =>
    have hk : Ends s.table k := h
    have hlt : p < s.table.next := lt_next_of_live live
    have hpid : s.table.pid p = (s.pcb.get p).pid := rfl
    obtain he | ⟨a, -, he⟩ := destroyPCB_eq s p <;>
      simp [he, Ends, deleteSpace, acquireLock, releaseLock, hk, hlt, hpid]
  case unlinkPCB => exact h.2
  all_goals simpa [Ends, acquireLock, releaseLock] using h

/-- What a step does to the PCBs that there were. -/
lemma Tabled.frame (ht : Tabled s s₁ st k k') : s.table.next ≤ s₁.table.next ∧
    (∀ p < s.table.next, s₁.table.pid p = s.table.pid p) ∧
    s₁.table.bitmap.numBits = s.table.bitmap.numBits := by
  cases ht
  case same table _ _ => rw [table]; exact ⟨le_rfl, fun _ _ => rfl, rfl⟩
  case allocatePCB fresh table =>
    rw [table, fresh]
    exact ⟨Nat.le_succ _, fun p hp => Function.update_of_ne (Nat.ne_of_lt hp) .., rfl⟩
  case clearPid table => rw [table]; exact ⟨le_rfl, fun _ _ => rfl, rfl⟩
  case unlinkPCB table => rw [table]; exact ⟨le_rfl, fun _ _ => rfl, rfl⟩
  case forgetPid table => rw [table]; exact ⟨le_rfl, fun _ _ => rfl, rfl⟩

/-- A PCB is deleted once. -/
lemma live_of_freePCB {o o' : Objects} {p : PCBId} (h : (o.unlink p).freePCB p = .ok o') :
    o.pcb.live p = true := by
  have hlive : (o.unlink p).pcb.live = o.pcb.live := by
    unfold Objects.unlink
    split
    · rfl
    next t => rfl
  unfold Objects.freePCB at h
  split at h
  next hp => rwa [hlive] at hp
  next => cases h

/-- A `Join` is seen when it deletes the PCB. -/
lemma joined_mem {c : Choice} {p : PCBId} (h : .joined p ∈ pidEvents c s) :
    ∃ status k, s.code s.currentThread = .unlinkPCB p :: .joinReturn status :: k := by
  have hexit : ∀ s : State, .joined p ∉ s.exitEvents := by
    intro s h
    unfold State.exitEvents at h
    split at h
    · cases h
    · split at h
      · cases List.mem_singleton.mp h
      · cases h
  unfold pidEvents at h
  split at h
  · split at h
    · unfold State.callEvents at h
      split at h
      · exact absurd h (hexit s)
      · split at h
        · split at h
          · split at h
            · exact absurd h (hexit s)
            · cases List.mem_singleton.mp h
          · cases h
        · cases h
      · cases h
    · cases h
  next q status k hcode =>
    cases List.mem_singleton.mp h
    exact ⟨status, k, hcode⟩
  · cases h

/-- `pcbs[pid] = NULL`. -/
lemma Rule.of_forgetPid {pid : ℕ} (hr : Rule s (.forgetPid pid) k k' es s₁) :
    s₁.table = { s.table with pcbs := Function.update s.table.pcbs pid none } := by
  cases hr
  case control hc => cases hc
  case interrupt hst => obtain h | h := hst <;> cases h
  case timeSlice hst => obtain h | h := hst <;> cases h
  case forgetPid => rfl

/-- `delete` of a PCB, from a `DeallocatePCB` or a `doJoin`. -/
lemma Rule.of_unlinkPCB {p : PCBId} (hr : Rule s (.unlinkPCB p) k k' es s₁) :
    k' = k ∧ s₁.currentThread = s.currentThread ∧ s.table.live p = true ∧
      s₁.table.live p = false := by
  cases hr
  case control hc => cases hc
  case interrupt hst => obtain h | h := hst <;> cases h
  case timeSlice hst => obtain h | h := hst <;> cases h
  case unlinkPCB h =>
    refine ⟨rfl, (currentThread_freePCB h).trans (currentThread_unlink p), live_of_freePCB h, ?_⟩
    rw [show (s.withObjects _).table = _ from table_unlink h]
    exact Function.update_self ..

/-- An entry after a step is an old one, or leads to a new PCB. -/
lemma Tabled.entry_cases (ht : Tabled s s₁ st k k') {pid : ℕ} {q : PCBId}
    (hq : s₁.table.pcbs pid = some q) : s.table.pcbs pid = some q ∨
      (q = s.table.next ∧ s₁.table.pid q = pid ∧ s₁.table.live q = true ∧
        q < s₁.table.next) := by
  cases ht
  case same table _ _ => exact .inl (table ▸ hq)
  case allocatePCB p pid' _ fresh table =>
    rw [table] at hq ⊢
    by_cases hpid : pid = pid'
    · subst hpid
      obtain rfl : p = q := by simpa using hq
      exact .inr ⟨fresh, by simp, by simp, Nat.lt_succ_self _⟩
    · exact .inl (by simpa [hpid] using hq)
  case clearPid table => exact .inl (by rw [table] at hq; exact hq)
  case unlinkPCB table => exact .inl (by rw [table] at hq; exact hq)
  case forgetPid pid' table =>
    rw [table] at hq
    by_cases hpid : pid = pid'
    · subst hpid
      simp at hq
    · exact .inl (by simpa [hpid] using hq)

/-- A PCB that there was is deleted by one statement. -/
lemma Tabled.live_cases (ht : Tabled s s₁ st k k') {q : PCBId} (hq : q < s.table.next) :
    s₁.table.live q = s.table.live q ∨ (st = .unlinkPCB q ∧ s₁.table.live q = false) := by
  cases ht
  case same table _ _ => exact .inl (by rw [table])
  case allocatePCB fresh table =>
    rw [table, fresh]
    exact .inl (Function.update_of_ne (Nat.ne_of_lt hq) ..)
  case clearPid table => exact .inl (by rw [table])
  case unlinkPCB p table =>
    rw [table]
    by_cases hqp : q = p
    · exact .inr ⟨by rw [hqp], by simp [hqp]⟩
    · exact .inl (Function.update_of_ne hqp ..)
  case forgetPid table => exact .inl (by rw [table])

/-- **Every step keeps the entries.** -/
theorem Rule.entries (hr : Rule s st k k' es s₁) (hcode : s.code s.currentThread = st :: k)
    (ho : Owned s) {os : List PidEvent} (h : Entries os s) (c : Choice) :
    Entries (os ++ pidEvents c s) (s₁.setCode s.currentThread k') := by
  obtain ⟨hnext, hpid, hbits⟩ := hr.tabled.frame
  have htable : (s₁.setCode s.currentThread k').table = s₁.table := rfl
  have hends := h.ends s.currentThread
  rw [hcode] at hends
  refine ⟨hbits.trans h.numBits, ?_, ?_, ?_, ?_⟩
  · intro pid q hq
    obtain hq | ⟨-, hqpid, -, hlt⟩ := hr.tabled.entry_cases hq
    · obtain ⟨hqpid, hlt⟩ := h.pid hq
      exact ⟨(hpid q hlt).trans hqpid, Nat.lt_of_lt_of_le hlt hnext⟩
    · exact ⟨hqpid, hlt⟩
  · intro pid q hq
    obtain hold | ⟨-, -, hlive, -⟩ := hr.tabled.entry_cases hq
    · obtain ⟨hqpid, hlt⟩ := h.pid hold
      obtain hlive | hjoined | ⟨k₀, hforget⟩ := h.live hold
      · obtain hsame | ⟨rfl, hdead⟩ := hr.tabled.live_cases hlt
        · exact .inl (hsame.trans hlive)
        · -- the PCB is deleted, by `DeallocatePCB` or by `doJoin`
          obtain ⟨rfl, hcur, -, -⟩ := hr.of_unlinkPCB
          obtain ⟨⟨k₀, rfl, -⟩ | ⟨status, k₀, rfl⟩, -⟩ := hends
          · refine .inr (.inr ⟨k₀, ?_⟩)
            rw [← hqpid]
            exact (congrArg _ hcur).trans (code_setCode_self _)
          · refine .inr (.inl (List.mem_append_right _ ?_))
            simp [pidEvents, hcode]
      · exact .inr (.inl (List.mem_append_left _ hjoined))
      · -- the entry is cleared now
        rw [hcode] at hforget
        obtain ⟨rfl, rfl⟩ := List.cons.inj hforget
        rw [htable, hr.of_forgetPid] at hq
        simp at hq
    · exact .inl hlive
  · intro p hp
    obtain hp | hp := List.mem_append.mp hp
    · obtain ⟨hdead, hlt⟩ := h.joined hp
      obtain hsame | ⟨-, hdead'⟩ := hr.tabled.live_cases hlt
      · exact ⟨hsame.trans hdead, Nat.lt_of_lt_of_le hlt hnext⟩
      · exact ⟨hdead', Nat.lt_of_lt_of_le hlt hnext⟩
    · obtain ⟨status, k₀, hjoin⟩ := joined_mem hp
      rw [hcode] at hjoin
      obtain ⟨rfl, rfl⟩ := List.cons.inj hjoin
      obtain ⟨-, -, hlive, hdead⟩ := hr.of_unlinkPCB
      exact ⟨hdead, Nat.lt_of_lt_of_le (lt_next_of_live hlive) hnext⟩
  · -- the statements of all threads
    intro t
    rw [htable]
    by_cases ht : t = s.currentThread
    · rw [ht, code_setCode_self]
      exact (hr.ends hends).mono hnext hpid
    · rw [code_setCode_of_ne ht]
      obtain ⟨hc, -⟩ | ⟨_, _, _, -, -, hc, -⟩ := hr.thread_cases hcode ho ht
      · rw [hc]
        exact (h.ends t).mono hnext hpid
      · rw [hc]
        trivial

end Ends

/-! ### Runs -/

section Runs

variable {s₀ s : State} {e : Executable} {os : List PidEvent} {k : List Stmt}

lemma entries_startProcess (h : startProcess e = .ok s₀) : Entries [] s₀ := by
  obtain ⟨-, hcode, -⟩ := view_startProcess h
  obtain ⟨pid, htable⟩ := table_startProcess h
  have hentry : ∀ {pid' p}, s₀.table.pcbs pid' = some p → pid' = pid ∧ p = 0 := by
    intro pid' p hp
    rw [htable] at hp
    by_cases hpid : pid' = pid
    · subst hpid
      exact ⟨rfl, by simpa [eq_comm] using hp⟩
    · have hnone : boot.table.pcbs pid' = some p := by simpa [hpid] using hp
      cases hnone
  refine ⟨by rw [htable]; rfl, fun {pid' p} hp => ?_, fun {pid' p} hp => .inl ?_, nofun, fun t => ?_⟩
  · obtain ⟨rfl, rfl⟩ := hentry hp
    rw [htable]
    exact ⟨by simp, Nat.zero_lt_one⟩
  · obtain ⟨rfl, rfl⟩ := hentry hp
    rw [htable]
    simp
  · rw [hcode, Function.update_apply]
    split <;> trivial

/-- The runs, with what is seen of the life of the processes. -/
abbrev PidRun (s₀ : State) : List PidEvent → State → Prop :=
  Run (StepOf (observed step pidEvents)) s₀

/-- What `doJoin` goes on with, once the two PCBs are read. -/
def State.joins (s : State) : Option PCBId → Option PCBId → Stmt
  | some p, some j => if (s.pcb.get j).parent = some p then .joinWait j else .ret (-1)
  | _, _ => .ret (-1)

end Runs

/-! ### A Join of -1, and a second Kill -/

/-- The runs that pass a test, from the start of a program. -/
lemma pidRun_of_startProcess (e : Executable) (cs : List Choice)
    (p : List PidEvent → State → Bool)
    (h : (match startProcess e with
      | .ok s₀ => passes (observed step pidEvents) cs s₀ p
      | .error _ => false) = true) :
    ∃ s₀ os s, startProcess e = .ok s₀ ∧ PidRun s₀ os s ∧ p os s = true := by
  split at h
  next s₀ h₀ =>
    obtain ⟨os, s, hr, hp⟩ := run_of_passes _ cs s₀ p h
    exact ⟨s₀, os, s, h₀, hr, hp⟩
  next => cases h

end Nachos.Process
