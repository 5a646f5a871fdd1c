import Nachos.Process.Pids

/-!
# A Fork that fails

`doFork` checks twice that there is memory for the child: first itself, and again in the copy
constructor of `AddrSpace`, with `mmLock`. Between the two it calls `AllocatePCB`, and other
processes can take the frames. What the second check finds missing ends the call with -1 as the
first one does, but the new PCB keeps its pid, and the constructor returns with the lock.

What a call does is read from the steps of its own thread: for each pid, entry of the table, frame
and child, how often it is taken less how often it is given back.
-/

namespace Nachos.Process

open Lib Threads Mips Userprog

/-- What a process can take. -/
inductive Resource where
  | pidBit (pid : ℕ)
  | entry (pid : ℕ) (p : PCBId)
  | frame (f : ℕ)
  | child (q c : PCBId)

/-- Is it taken, or how often? -/
def State.taken (s : State) : Resource → ℤ
  | .pidBit pid => if s.bitmap.bit pid then 1 else 0
  | .entry pid p => if s.pcbs pid = some p then 1 else 0
  | .frame f => if s.mm.InUse f then 1 else 0
  | .child q c => (s.pcb.get q).children.count c

/-- What a step takes, less what it gives back. -/
def change (s s' : State) (r : Resource) : ℤ := s'.taken r - s.taken r

/-- What follows a system call of user mode. -/
def afterCall (k : List Stmt) : List Stmt := .tick :: .user :: k

/-- **A call of `Fork`** by the thread `t`, from the `SYSCALL` in `s` on: what its own steps have
changed, and the state now. Other threads may run in between. -/
inductive ForkCall (t : Tid) (k : List Stmt) (s : State) : (Resource → ℤ) → State → Prop
  | start {e es s'} (thread : s.currentThread = t) (code : s.code t = .user :: k)
      (number : s.callNumber = 9) (step : step (.syscall e) s = .ok (es, s')) :
      ForkCall t k s (change s s') s'
  | own {d s₁ c es s'} (call : ForkCall t k s d s₁) (thread : s₁.currentThread = t)
      (going : s₁.code t ≠ afterCall k) (step : step c s₁ = .ok (es, s')) :
      ForkCall t k s (fun r => d r + change s₁ s' r) s'
  | other {d s₁ c es s'} (call : ForkCall t k s d s₁) (thread : s₁.currentThread ≠ t)
      (step : step c s₁ = .ok (es, s')) : ForkCall t k s d s'

/-- **The call returns -1**, with the last step. -/
def FailedFork (t : Tid) (k : List Stmt) (s : State) (d : Resource → ℤ) (s' : State) : Prop :=
  ∃ d₁ s₁ c es, ForkCall t k s d₁ s₁ ∧ s₁.currentThread = t ∧
    s₁.code t = .ret (-1) :: afterCall k ∧ step c s₁ = .ok (es, s') ∧
      d = fun r => d₁ r + change s₁ s' r

/-- The registers are the same, but for `r2` and the program counters. -/
structure SameRegisters (r r' : Registers) : Prop where
  gpr : ∀ i, i ≠ 2 → r'.gpr i = r.gpr i
  hi : r'.hi = r.hi
  lo : r'.lo = r.lo
  loadReg : r'.loadReg = r.loadReg
  loadValue : r'.loadValue = r.loadValue
  badVAddr : r'.badVAddr = r.badVAddr

/-- **The call has changed nothing**: it gave back what it took, `mmLock` too, and left the
registers alone that it was called with. -/
structure Unchanged (t : Tid) (s : State) (d : Resource → ℤ) (s' : State) : Prop where
  taken : ∀ r, d r = 0
  lock : (s'.lock .mmLock).activeThread ≠ some t
  registers : SameRegisters (raised s.registers) s'.registers

/-- The first check of `doFork` does not find memory for a copy of the address space. -/
def NoRoom (s : State) : Prop :=
  ∃ a, s.currentSpace = some a ∧ (s.space.get a).numPages > s.mm.getFreePageCount

/-! ### The statements of a Fork -/

/-- The statements between the parts of `doFork`: locks and context switches. -/
def Stmt.isWaiting : Stmt → Bool
  | .acquire _ => true
  | .release _ => true
  | .tick => true
  | .yield => true
  | .resume => true
  | _ => false

/-- The code stands before a statement, but for locks and context switches. -/
def Before (l : List Stmt) (st : Stmt) (k : List Stmt) : Prop :=
  ∃ pre, l = pre ++ st :: k ∧ ∀ st' ∈ pre, st'.isWaiting = true

section Statements

variable {s s₁ : State} {st st' : Stmt} {k k' l : List Stmt} {es : List Event}

lemma before_self : Before (st :: k) st k := ⟨[], rfl, nofun⟩

lemma Before.cons (h : Before l st k) (hst : st'.isWaiting = true) : Before (st' :: l) st k := by
  obtain ⟨pre, rfl, hpre⟩ := h
  exact ⟨st' :: pre, rfl, by simpa [hst] using hpre⟩

/-- The next statement is one of waiting, or the one that is waited for. -/
lemma Before.head (h : Before (st' :: l) st k) :
    (st'.isWaiting = true ∧ Before l st k) ∨ (st' = st ∧ l = k) := by
  obtain ⟨pre, heq, hpre⟩ := h
  cases pre with
  | nil =>
    obtain ⟨rfl, rfl⟩ := List.cons.inj heq
    exact .inr ⟨rfl, rfl⟩
  | cons x pre =>
    obtain ⟨rfl, rfl⟩ := List.cons.inj heq
    exact .inl ⟨hpre _ List.mem_cons_self, pre, rfl, fun y hy => hpre y (List.mem_cons_of_mem _ hy)⟩

/-- A statement of waiting does not touch the table, and is followed by such statements. -/
lemma Rule.waiting (hr : Rule s st l k' es s₁) (hst : st.isWaiting = true) (h : Before l st' k) :
    Before k' st' k ∧ s₁.table = s.table := by
  cases hr
  case control hc =>
    cases hc
    case tick => exact ⟨h, rfl⟩
    case yield => exact ⟨h, rfl⟩
    all_goals cases hst
  case interrupt => exact ⟨h, rfl⟩
  case timeSlice => exact ⟨(h.cons rfl).cons rfl, rfl⟩
  case take => exact ⟨h, rfl⟩
  case block => exact ⟨(h.cons rfl).cons rfl, table_run _⟩
  case release => exact ⟨h, table_releaseOf _⟩
  case yield => exact ⟨h.cons rfl, table_run _⟩
  case resume hs₁ => exact ⟨h, table_afterSwitch hs₁⟩
  all_goals cases hst

/-- A step that leaves the table alone takes no pid. -/
lemma change_pidBit_of_table (h : s₁.table = s.table) (pid : ℕ) :
    change s s₁ (.pidBit pid) = 0 := by
  have hbitmap : s₁.bitmap = s.bitmap := congrArg Table.bitmap h
  rw [change, State.taken, State.taken, hbitmap]
  omega

/-- `AllocatePCB` takes a pid. -/
lemma change_allocatePCB {p : PCBId} {o : Objects} (h : s.allocatePCB = .ok (p, o)) :
    ∃ pid, change s (s.withObjects o) (.pidBit pid) = 1 := by
  obtain ⟨-, pid, hclear, htable⟩ := table_allocatePCB h
  have hbitmap : o.bitmap = s.bitmap.setBit pid := congrArg Table.bitmap htable
  refine ⟨pid, ?_⟩
  rw [change, State.taken, State.taken, show (s.withObjects o).bitmap = _ from hbitmap, hclear,
    BitMap.bit_setBit]
  simp

/-- **Where a call is whose first check found memory**, with what it has changed. -/
inductive Stage (k : List Stmt) (d : Resource → ℤ) : List Stmt → Prop
  | checked {l call} (place : Before l (.allocatePCB call) (afterCall k))
      (none : ∀ pid, d (.pidBit pid) = 0) : Stage k d l
  | allocated {l call p pid} (place : Before l (.saveParent call p) (afterCall k))
      (taken : d (.pidBit pid) = 1) : Stage k d l
  | copying {l call p pid} (place : Before l (.copySpace call p) (afterCall k))
      (taken : d (.pidBit pid) = 1) : Stage k d l
  | failed {pid} (taken : d (.pidBit pid) = 1) : Stage k d (.ret (-1) :: afterCall k)
  | copied {l call p a} (place : Before l (.startChild call p a) (afterCall k)) : Stage k d l
  | started {l call p} (place : Before l (.forkReturn call p) (afterCall k)) : Stage k d l
  | returned : Stage k d (afterCall k)

/-- **One step of the call.** -/
lemma Rule.stage {d : Resource → ℤ} (hr : Rule s st l k' es s₁) (h : Stage k d (st :: l))
    (going : st :: l ≠ afterCall k) : Stage k (fun r => d r + change s s₁ r) k' := by
  have kept : ∀ {pid x}, s₁.table = s.table → d (.pidBit pid) = x →
      d (.pidBit pid) + change s s₁ (.pidBit pid) = x := by
    intro pid x htable hx
    rw [change_pidBit_of_table htable, hx, add_zero]
  cases h
  case checked call none place =>
    obtain ⟨hst, hl⟩ | ⟨rfl, rfl⟩ := place.head
    · obtain ⟨hk', htable⟩ := hr.waiting hst hl
      exact .checked hk' fun pid => kept htable (none pid)
    · cases hr
      case control hc => cases hc
      case interrupt hst | timeSlice hst => obtain h | h := hst <;> cases h
      case allocatePCB p o h =>
        obtain ⟨pid, hpid⟩ := change_allocatePCB h
        have place : Before (releaseLock .pcbManagerLock ++ .saveParent call p :: afterCall k)
            (.saveParent call p) (afterCall k) := (before_self.cons rfl).cons rfl
        have taken : d (.pidBit pid) + change s (s.withObjects o) (.pidBit pid) = 1 := by
          rw [none, hpid, zero_add]
        exact .allocated place taken
  case allocated call p pid taken place =>
    obtain ⟨hst, hl⟩ | ⟨rfl, rfl⟩ := place.head
    · obtain ⟨hk', htable⟩ := hr.waiting hst hl
      exact .allocated hk' (kept htable taken)
    · cases hr
      case control hc => cases hc
      case interrupt hst | timeSlice hst => obtain h | h := hst <;> cases h
      case saveParent => exact .copying ((before_self.cons rfl).cons rfl) (kept rfl taken)
  case copying call p pid taken place =>
    obtain ⟨hst, hl⟩ | ⟨rfl, rfl⟩ := place.head
    · obtain ⟨hk', htable⟩ := hr.waiting hst hl
      exact .copying hk' (kept htable taken)
    · cases hr
      case control hc =>
        cases hc
        exact .failed (kept rfl taken)
      case interrupt hst | timeSlice hst => obtain h | h := hst <;> cases h
      case copySpace => exact .copied ((before_self.cons rfl).cons rfl)
  case failed pid taken =>
    cases hr
    case control hc => cases hc
    case interrupt hst | timeSlice hst => obtain h | h := hst <;> cases h
    case ret => exact .returned
  case copied call p a place =>
    obtain ⟨hst, hl⟩ | ⟨rfl, rfl⟩ := place.head
    · exact .copied (hr.waiting hst hl).1
    · cases hr
      case control hc => cases hc
      case interrupt hst | timeSlice hst => obtain h | h := hst <;> cases h
      case startChild => exact .started (before_self.cons rfl)
  case started call p place =>
    obtain ⟨hst, hl⟩ | ⟨rfl, rfl⟩ := place.head
    · exact .started (hr.waiting hst hl).1
    · cases hr
      case control hc => cases hc
      case interrupt hst | timeSlice hst => obtain h | h := hst <;> cases h
      case forkReturn => exact .returned
  case returned => exact absurd rfl going

end Statements

/-! ### The call -/

section Calls

variable {s₀ s s' : State} {e : Executable} {tr : List Event} {t : Tid} {k : List Stmt}
  {d : Resource → ℤ}

lemma step_fork (hcode : s.code s.currentThread = .user :: k) (hcall : s.callNumber = 9)
    (e : Option Executable) : step (.syscall e) s =
      (s.trapped.doFork (afterCall k)).map fun s' => ([], s') := by
  have hnumber : (s.trapped.registers.gpr 2).toNat = 9 := hcall
  unfold step
  rw [hcode]
  show (s.trapped.exceptionHandler e (.tick :: .user :: k)).map _ = _
  unfold State.exceptionHandler
  simp only [hnumber]
  rfl

/-- The first check of `doFork`. -/
lemma doFork_cases (h : s.trapped.doFork (afterCall k) = .ok s') :
    (NoRoom s ∧ s' = s.trapped.goto (.ret (-1) :: afterCall k)) ∨
      (¬ NoRoom s ∧ s' = s.trapped.goto
        (acquireLock .pcbManagerLock ++ .allocatePCB (raised s.registers) :: afterCall k)) := by
  unfold State.doFork at h
  split at h
  · cases h
  next a ha =>
    have hspace : s.currentSpace = some a := ha
    split at h
    next hroom =>
      cases h
      exact .inl ⟨⟨a, hspace, hroom⟩, rfl⟩
    next hroom =>
      cases h
      refine .inr ⟨?_, rfl⟩
      rintro ⟨a', ha', hroom'⟩
      rw [hspace] at ha'
      cases ha'
      exact hroom hroom'

/-- What the trap takes: nothing. -/
lemma change_goto (s : State) (r : Registers) (k : List Stmt) (x : Resource) :
    change s ((s.withRegisters r).goto k) x = 0 := by
  rw [change, show ((s.withRegisters r).goto k).taken x = s.taken x by cases x <;> rfl]
  omega

/-- The return of a system call. -/
lemma step_ret {v : Word} {c : Choice} {es : List Event} (h : step c s = .ok (es, s'))
    (hcode : s.code s.currentThread = .ret v :: k) :
    s' = (s.withRegisters (returned s.registers v)).goto k := by
  unfold step at h
  rw [hcode] at h
  cases h
  rfl

lemma code_goto_self (s : State) (k : List Stmt) : (s.goto k).code s.currentThread = k :=
  Function.update_self ..

/-- **A call whose first check fails** returns at once. -/
lemma ForkCall.noRoom (h : ForkCall t k s d s') (hroom : NoRoom s) : s'.currentThread = t ∧
    ((s' = s.trapped.goto (.ret (-1) :: afterCall k) ∧ ∀ r, d r = 0) ∨ s'.code t = afterCall k) := by
  induction h with
  | @start e es s' thread code number hstep =>
    rw [step_fork (thread ▸ code) number] at hstep
    obtain ⟨-, rfl⟩ | ⟨hnot, -⟩ := doFork_cases (quiet_eq_ok hstep).2
    · exact ⟨thread, .inl ⟨rfl, change_goto s _ _⟩⟩
    · exact absurd hroom hnot
  | @own d s₁ c es s' call thread going hstep ih =>
    obtain ⟨-, ⟨rfl, -⟩ | hcode⟩ := ih
    · obtain rfl := step_ret hstep (code_goto_self s.trapped _)
      subst thread
      exact ⟨rfl, .inr (code_goto_self _ _)⟩
    · exact absurd hcode going
  | other call thread hstep ih => exact absurd ih.1 thread

lemma change_setCode (s s₁ : State) (t : Tid) (k : List Stmt) :
    change s (s₁.setCode t k) = change s s₁ := by
  funext r
  cases r <;> rfl

lemma Stage.ne_nil {l : List Stmt} (h : Stage k d l) : l ≠ [] := by
  rintro rfl
  cases h
  case checked place => obtain ⟨pre, heq, -⟩ := place; cases pre <;> cases heq
  case allocated place => obtain ⟨pre, heq, -⟩ := place; cases pre <;> cases heq
  case copying place => obtain ⟨pre, heq, -⟩ := place; cases pre <;> cases heq
  case copied place => obtain ⟨pre, heq, -⟩ := place; cases pre <;> cases heq
  case started place => obtain ⟨pre, heq, -⟩ := place; cases pre <;> cases heq

/-- **A call whose first check succeeds** goes through the stages. -/
lemma ForkCall.stage (h : ForkCall t k s d s') (ho : Owned s) (hroom : ¬ NoRoom s) :
    Owned s' ∧ Stage k d (s'.code t) := by
  induction h with
  | @start e es s' thread code number hstep =>
    subst thread
    obtain ⟨st, k₁, k', s₁, hcode, hr, heq⟩ := step_rule hstep
    refine ⟨heq ▸ hr.owned hcode ho, ?_⟩
    rw [step_fork code number] at hstep
    obtain ⟨hyes, -⟩ | ⟨-, rfl⟩ := doFork_cases (quiet_eq_ok hstep).2
    · exact absurd hyes hroom
    · rw [show s.currentThread = s.trapped.currentThread from rfl, code_goto_self]
      exact .checked ((before_self.cons rfl).cons rfl) fun pid => change_goto s _ _ _
  | @own d s₁ c es s' call thread going hstep ih =>
    subst thread
    obtain ⟨ho₁, hstage⟩ := ih
    obtain ⟨st, k₁, k', s₂, hcode, hr, rfl⟩ := step_rule hstep
    refine ⟨hr.owned hcode ho₁, ?_⟩
    rw [hcode] at hstage going
    rw [code_setCode_self, change_setCode]
    exact hr.stage hstage going
  | @other d s₁ c es s' call thread hstep ih =>
    obtain ⟨ho₁, hstage⟩ := ih
    obtain ⟨st, k₁, k', s₂, hcode, hr, rfl⟩ := step_rule hstep
    refine ⟨hr.owned hcode ho₁, ?_⟩
    have hborn : t ≠ s₁.thread.next := by
      rintro rfl
      exact hstage.ne_nil ho₁.code_next
    rw [code_setCode_of_ne (Ne.symm thread), hr.code_of_ne hborn]
    exact hstage

/-- What a return changes: nothing that can be taken. -/
lemma Stage.failed_taken {l : List Stmt} (h : Stage k d l) (hl : l = .ret (-1) :: afterCall k) :
    ∃ pid, d (.pidBit pid) = 1 := by
  have hhead : ∀ {st}, Before (.ret (-1) :: afterCall k) st (afterCall k) → .ret (-1) = st := by
    intro st hb
    obtain ⟨hst, -⟩ | ⟨hst, -⟩ := hb.head
    · cases hst
    · exact hst
  cases h
  case failed pid taken => exact ⟨pid, taken⟩
  case checked place => cases hhead (hl ▸ place)
  case allocated place => cases hhead (hl ▸ place)
  case copying place => cases hhead (hl ▸ place)
  case copied place => cases hhead (hl ▸ place)
  case started place => cases hhead (hl ▸ place)
  case returned => cases hl

lemma sameRegisters_returned (r : Registers) (v : Word) : SameRegisters r (returned r v) where
  gpr _ hi := Registers.write_of_ne r v hi
  hi := rfl
  lo := rfl
  loadReg := rfl
  loadValue := rfl
  badVAddr := rfl

/-- **Which failed Forks change nothing**: in every run, a `Fork` that returns -1 has changed
nothing if and only if its first check has found too little memory, and its thread did not hold
`mmLock` before, from an earlier `Fork` that failed later. -/
theorem unchanged_iff (h₀ : startProcess e = .ok s₀) (h : Run Step s₀ tr s)
    (hfail : FailedFork t k s d s') :
    Unchanged t s d s' ↔ NoRoom s ∧ (s.lock .mmLock).activeThread ≠ some t := by
  obtain ⟨d₁, s₁, c, es, hcall, ht, hcode, hstep, rfl⟩ := hfail
  have hret := step_ret hstep (ht ▸ hcode)
  by_cases hroom : NoRoom s
  · obtain ⟨-, ⟨rfl, hzero⟩ | hafter⟩ := hcall.noRoom hroom
    · have hlock : s'.lock = s.lock := by rw [hret]; rfl
      refine ⟨fun hun => ⟨hroom, hlock ▸ hun.lock⟩, fun hok => ⟨fun r => ?_, ?_, ?_⟩⟩
      · rw [hzero, hret, change_goto, add_zero]
      · rw [hlock]
        exact hok.2
      · rw [hret]
        exact sameRegisters_returned _ _
    · rw [hcode] at hafter
      cases hafter
  · -- the pid of the new PCB is still taken
    refine ⟨fun hun => ?_, fun hok => absurd hok.1 hroom⟩
    obtain ⟨-, hstage⟩ := hcall.stage (owned_of_run h₀ h) hroom
    obtain ⟨pid, hpid⟩ := hstage.failed_taken hcode
    have hzero := hun.taken (.pidBit pid)
    rw [hpid, hret, change_goto] at hzero
    cases hzero

end Calls

/-! ### Another process takes the memory -/

/-- The thread is in a call that has not returned. -/
def going (t : Tid) (s : State) : Bool :=
  match s.code t with
  | .tick :: .user :: _ => s.currentThread != t
  | _ => true

/-- The thread is about to return -1, and the state after that passes a test. -/
def failing (t : Tid) (p : State → Bool) (s : State) : Bool :=
  s.currentThread == t &&
    match s.code t, step .go s with
    | [.ret v, .tick, .user], .ok (_, s') => v == -1 && p s'
    | _, _ => false

/-- The running thread calls `Fork`, and returns -1 after the choices. -/
def failsFork (cs : List Choice) (p : State → Bool) (s : State) : Bool :=
  inUserMode (s.code s.currentThread) && s.callNumber == 9 &&
    match step (.syscall none) s with
    | .ok (_, s₁) => passesAll step (fun _ => going s.currentThread) (failing s.currentThread p) cs s₁
    | .error _ => false

section Follow

variable {s s₁ : State} {t : Tid} {k : List Stmt} {d : Resource → ℤ} {p : State → Bool}
  {cs : List Choice}

/-- A call goes on with the choices. -/
lemma ForkCall.follow (h : ForkCall t k s d s₁)
    (hp : passesAll step (fun _ => going t) p cs s₁ = true) :
    ∃ d' s', ForkCall t k s d' s' ∧ p s' = true := by
  induction cs generalizing d s₁ with
  | nil => exact ⟨d, s₁, h, hp⟩
  | cons c cs ih =>
    simp only [passesAll, Bool.and_eq_true] at hp
    obtain ⟨hgoing, hp⟩ := hp
    split at hp
    next => cases hp
    next es s' hstep =>
      by_cases ht : s₁.currentThread = t
      · refine ih (h.own ht (fun hcode => ?_) hstep) hp
        rw [going, hcode, afterCall] at hgoing
        simp [ht] at hgoing
      · exact ih (h.other ht hstep) hp

lemma failedFork_of_test (h : failsFork cs p s = true) :
    ∃ d s', FailedFork s.currentThread [] s d s' ∧ p s' = true := by
  rw [failsFork, Bool.and_eq_true, Bool.and_eq_true, beq_iff_eq] at h
  obtain ⟨⟨hcode, hcall⟩, h⟩ := h
  split at h
  next es s₁ hstep =>
    obtain ⟨d, s₂, hfork, hp⟩ :=
      (ForkCall.start rfl (eq_of_inUserMode hcode) hcall hstep).follow h
    rw [failing, Bool.and_eq_true, beq_iff_eq] at hp
    obtain ⟨ht, hp⟩ := hp
    split at hp
    next v es' s' hret hstep' =>
      rw [Bool.and_eq_true, beq_iff_eq] at hp
      obtain ⟨rfl, hp⟩ := hp
      exact ⟨_, s', ⟨d, s₂, .go, es', hfork, ht, hret, hstep', rfl⟩, hp⟩
    next => cases hp
  next => cases h

end Follow

/-- A program that takes less than a third of the memory, but more than a quarter. -/
def quarter : Executable := ⟨true, 20⟩

/-- The parent has a child, and is about to fork once more. -/
def forksAgain : List Choice :=
  [.instruction (callRegisters 9 400), .go, .syscall none] ++ List.replicate 15 .go ++
    [.instruction (callRegisters 9 400), .go]

/-- The parent loses the processor after `AllocatePCB`. The child forks, and takes the frames. -/
def childForks : List Choice :=
  List.replicate 4 .go ++ .timeSlice :: List.replicate 3 .go ++
    [.instruction (callRegisters 9 400), .go, .syscall none] ++ List.replicate 14 .go ++
    .timeSlice :: List.replicate 7 .go

/-- The parent goes on without memory, and keeps `mmLock`. -/
theorem not_unchanged : ¬ ∀ e s₀ tr s t k d s', startProcess e = .ok s₀ → Run Step s₀ tr s →
    FailedFork t k s d s' → Unchanged t s d s' := by
  intro hall
  obtain ⟨s₀, tr, s, h₀, hr, hp⟩ := run_of_startProcess quarter forksAgain
    (fun _ s => s.currentThread == 0 && failsFork childForks
      (fun s' => (s'.lock .mmLock).activeThread == some 0) s) (by decide +kernel)
  rw [Bool.and_eq_true, beq_iff_eq] at hp
  obtain ⟨ht, hp⟩ := hp
  obtain ⟨d, s', hfail, hlock⟩ := failedFork_of_test hp
  rw [ht] at hfail
  exact (hall quarter s₀ tr s 0 [] d s' h₀ hr hfail).lock (beq_iff_eq.mp hlock)

/-- A program that takes more than half of the memory cannot be forked. -/
theorem unchanged_iff_half : ∃ s₀ tr s d s', startProcess ⟨true, 40⟩ = .ok s₀ ∧
    Run Step s₀ tr s ∧ FailedFork s.currentThread [] s d s' ∧
      (Unchanged s.currentThread s d s' ↔
        NoRoom s ∧ (s.lock .mmLock).activeThread ≠ some s.currentThread) := by
  obtain ⟨s₀, tr, s, h₀, hr, hp⟩ := run_of_startProcess ⟨true, 40⟩
    [.instruction (callRegisters 9 400), .go] (fun _ s => failsFork [] (fun _ => true) s)
    (by decide +kernel)
  obtain ⟨d, s', hfail, -⟩ := failedFork_of_test hp
  exact ⟨s₀, tr, s, d, s', h₀, hr, hfail, unchanged_iff h₀ hr hfail⟩

end Nachos.Process
