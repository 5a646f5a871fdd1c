import Nachos.Process.Pids

/-!
# Where a system call returns to

The handler returns through `incrementPC`, which computes the two counters from the PC alone, where
every other instruction takes the PC from the NextPC. A thread that is switched out in a system call
comes back with the PC of its `SYSCALL`; so the program goes on at the instruction after the
`SYSCALL`, whichever instruction was to come next.
-/

namespace Nachos.Process

open Lib Threads Mips Userprog

/-! ### What is seen of a system call -/

/-- A thread executes a `SYSCALL`: the number of the system call, and the register file before. -/
structure CallEvent where
  thread : Tid
  type : ℕ
  registers : Registers

/-- **What a step shows** of the system calls. -/
def syscallEvents (c : Choice) (s : State) : List CallEvent :=
  match s.code s.currentThread with
  | .user :: _ =>
    match c with
    | .syscall _ => [⟨s.currentThread, s.callNumber, s.registers⟩]
    | _ => []
  | _ => []

/-- The last system call of the thread. -/
def lastCall (t : Tid) (os : List CallEvent) : Option CallEvent :=
  (os.filter fun o => o.thread = t).getLast?

/-- The runs, with the system calls that they show. -/
abbrev CallRun : State → List CallEvent → State → Prop := Run (StepOf (observed step syscallEvents))

namespace Stmt

/-- The handler returns to the program. -/
def leaves : Stmt → Bool
  | ret _ | incrementPC | forkReturn _ _ => true
  | _ => false

/-- The system call is to return after the statement. -/
def returns : Stmt → Bool
  | allocatePCB _ | saveParent _ _ | copySpace _ _ | startChild _ _ _ => true
  | load _ _ | joinWait _ | joinReturn _ | killReturn _ => true
  | st => st.leaves

/-- No system call is left behind the statement. -/
def closes : Stmt → Bool
  | user => true
  | load _ _ => false
  | st => st.returns

/-- `SaveUserState` of a `Fork`. -/
def saves : Stmt → Bool
  | saveParent _ _ => true
  | _ => false

def isLoad : Stmt → Bool
  | load _ _ => true
  | _ => false

lemma isUser_eq_false {st : Stmt} (h : st ≠ user) : st.isUser = false := by
  cases st <;> first | rfl | exact absurd rfl h

lemma returns_of_isLoad {st : Stmt} (h : st.isLoad = true) : st.returns = true := by
  cases st <;> first | rfl | cases h

lemma closes_of_leaves {st : Stmt} (h : st.leaves = true) : st.closes = true := by
  cases st <;> first | rfl | cases h

lemma closes_of_saved {st : Stmt} (h : st.saved = true) : st.closes = true := by
  cases st <;> first | rfl | cases h

lemma inExit_of_returns {st : Stmt} (h : st.returns = true) : st.inExit = false := by
  cases st <;> first | rfl | cases h

end Stmt

/-- The next statement returns to the program. -/
def leaving : List Stmt → Bool
  | st :: _ => st.leaves
  | [] => false

/-- `SC_Join`, `SC_Create`, `SC_Fork`, `SC_Yield` and `SC_Kill`. -/
def returningCalls : List ℕ := [3, 4, 9, 10, 11]

/-- **The program goes on** where it would have gone after another instruction. -/
def Continues (call r : Registers) : Prop := r.pc = call.nextPC ∧ r.nextPC = call.nextPC + 4

/-! ### One system call at a time -/

/-- A thread is in one system call at most. -/
def single : List Stmt → Bool
  | [] => true
  | st :: k => (!st.closes || k.all fun st' => !st'.returns) && single k

section Shape

variable {s s₁ : State} {st st' : Stmt} {k k' new : List Stmt} {es : List Event}

lemma single_tail (h : single (st :: k) = true) : single k = true := by
  rw [single, Bool.and_eq_true] at h
  exact h.2

/-- Nothing of a system call is behind its return, or behind a user program. -/
lemma notMem_of_closes (h : single (st :: k) = true) (hst : st.closes = true)
    (hr : st'.returns = true) : st' ∉ k := by
  intro hk
  rw [single, hst, Bool.not_true, Bool.false_or, Bool.and_eq_true, List.all_eq_true] at h
  have hno := h.1 st' hk
  rw [hr] at hno
  cases hno

/-- The statements of `delete pcb`. -/
lemma single_destroyPCB (s : State) (p : PCBId) (h : single k = true) :
    single (s.destroyPCB p ++ k) = true := by
  obtain he | ⟨a, -, he⟩ := destroyPCB_eq s p <;> rw [he] <;> exact h

/-- Back in user mode. -/
lemma single_user (h : single (.user :: k) = true) :
    single (.user :: .tick :: .user :: k) = true := by
  have hand : ∀ a b : Bool, (a && b) = true → (a && (a && b)) = true := by decide
  exact hand (k.all fun st' => !st'.returns) (single k) h

lemma Control.single (hc : Control s st k k') (h : single (st :: k) = true) :
    single k' = true := by
  cases hc
  case destroyPCB p _ => exact single_destroyPCB s p (single_tail h)
  -- a statement of the system call takes the place of another one
  case copySpace | joinExited | joinWait | joinReturn => exact h
  all_goals exact single_tail h

lemma Trap.single (ht : Trap s k k') (h : single (.user :: k) = true) : single k' = true := by
  cases ht
  case exitGone | killSelfGone => exact single_tail h
  case execFail | exec => rfl
  all_goals exact h

/-- **Every step keeps a thread in one system call at most.** -/
lemma Rule.single (hr : Rule s st k k' es s₁) (h : single (st :: k) = true) :
    single k' = true := by
  cases hr
  case control hc => exact hc.single h
  case trap ht =>
    exact ht.single (single_user h)
  case clearPid p _ _ _ =>
    rw [List.append_assoc]
    exact single_destroyPCB s p (single_tail h)
  case timeSlice hst | interrupt hst => obtain rfl | rfl := hst <;> exact single_tail h
  case exit | childFunction | finish => rfl
  case kill => exact single_user h
  case instruction | allocatePCB | saveParent | copySpace | startChild | killReturn =>
    exact h
  all_goals exact single_tail h

/-- What is pushed by a statement goes on with the system call that the statement belongs to. -/
def carries (st : Stmt) (l : List Stmt) : Bool :=
  l.all fun a => !a.returns ||
    (st.returns && !st.leaves && !a.isLoad && (!a.saved || st.saved || st.saves))

/-- A statement comes from one of the same system call. -/
structure Carried (st st' : Stmt) : Prop where
  returns : st.returns = true
  stays : st.leaves = false
  image : st'.isLoad = false
  saved : st'.saved = true → st.saved = true ∨ st.saves = true

lemma carried_of_mem {l : List Stmt} (hl : carries st l = true) (h : st' ∈ l ++ k)
    (hr : st'.returns = true) : st' ∈ k ∨ Carried st st' := by
  obtain h | h := List.mem_append.mp h
  · have hst := List.all_eq_true.mp hl st' h
    rw [hr, Bool.not_true, Bool.false_or] at hst
    simp only [Bool.and_eq_true, Bool.not_eq_true'] at hst
    obtain ⟨⟨⟨hret, hleave⟩, hload⟩, hsaved⟩ := hst
    refine .inr ⟨hret, hleave, hload, fun hs => ?_⟩
    rwa [hs, Bool.not_true, Bool.false_or, Bool.or_eq_true] at hsaved
  · exact .inl h

lemma carries_destroyPCB (s : State) (p : PCBId) : carries st (s.destroyPCB p) = true := by
  obtain he | ⟨a, -, he⟩ := destroyPCB_eq s p <;> rw [he] <;> rfl

lemma Control.carried (hc : Control s st k k') (h : st' ∈ k') (hr : st'.returns = true) :
    st' ∈ k ∨ Carried st st' := by
  cases hc
  case destroyPCB p _ => exact carried_of_mem (carries_destroyPCB s p) h hr
  case mapcarExited p c ahead _ _ =>
    exact carried_of_mem (l := deallocatePCB c ++ [.mapcar p ahead]) rfl h hr
  case mapcarGone p c ahead => exact carried_of_mem (l := [.mapcar p ahead]) rfl h hr
  case exitDeallocate p _ => exact carried_of_mem (l := deallocatePCB p) rfl h hr
  case exitSpace a _ => exact carried_of_mem (l := deleteSpace a) rfl h hr
  case copySpace => exact carried_of_mem (l := [.ret (-1)]) rfl h hr
  case joinExited j _ =>
    exact carried_of_mem (l := [.destroyPCB j, .joinReturn (s.pcb.get j).exitStatus]) rfl h hr
  case joinWait j => exact carried_of_mem (l := threadYield ++ [.joinWait j]) rfl h hr
  case joinReturn status => exact carried_of_mem (l := [.ret status]) rfl h hr
  all_goals exact .inl h

/-- **What is left of a system call** after a step comes from what there was. -/
lemma Rule.carried (hr : Rule s st k k' es s₁) (hst : st.isUser = false) (h : st' ∈ k')
    (hret : st'.returns = true) : st' ∈ k ∨ Carried st st' := by
  cases hr
  case instruction | trap | exit | kill => cases hst
  case control hc => exact hc.carried h hret
  case timeSlice => exact carried_of_mem (l := threadYield) rfl h hret
  case block l _ _ _ _ => exact carried_of_mem (l := [.resume, .acquire l]) rfl h hret
  case yield => exact carried_of_mem (l := [.resume]) rfl h hret
  case childFunction =>
    obtain rfl := List.mem_singleton.mp h
    cases hret
  case allocatePCB call p _ _ =>
    exact carried_of_mem (l := releaseLock .pcbManagerLock ++ [.saveParent call p]) rfl h hret
  case saveParent call p =>
    exact carried_of_mem (l := acquireLock .mmLock ++ [.copySpace call p]) rfl h hret
  case copySpace call p _ _ _ =>
    exact carried_of_mem (l := releaseLock .mmLock ++ [.startChild call p s.space.next]) rfl h hret
  case startChild call p _ _ _ =>
    exact carried_of_mem (l := [.tick, .forkReturn call p]) rfl h hret
  case orphan p _ ahead _ _ => exact carried_of_mem (l := [.mapcar p ahead]) rfl h hret
  case finish => cases h
  case clearPid p _ _ _ =>
    rw [List.append_assoc] at h
    obtain h | h := carried_of_mem (carries_destroyPCB s p) h hret
    · exact carried_of_mem (l := .forgetPid (s.pcb.get p).pid :: releaseLock .pcbManagerLock)
        rfl h hret
    · exact .inr h
  case killReturn => exact carried_of_mem (l := [.ret 0]) rfl h hret
  all_goals exact .inl h

end Shape

/-! ### The PC of a thread in a system call -/

/-- The thread goes on at the PC of its `SYSCALL`. -/
structure AtCall (r : Registers) (th : Thread) (l : List Stmt) (st : Stmt) (pc : Word) : Prop where
  context : r.pc = pc
  saved : st.saved = true → th.userRegisters.pc = pc
  space : th.space ≠ none ∨ leaving l = true
  image : st.isLoad = false

/-- **Every thread in a system call goes on at its PC**, unless the call is an `Exec`. -/
structure Calling (os : List CallEvent) (s : State) : Prop where
  tail : ∀ t, .resume ∉ (s.code t).tail
  parked : ∀ {t}, t ≠ s.currentThread → Parked (s.code t)
  single : ∀ t, single (s.code t) = true
  call : ∀ {t st}, st ∈ s.code t → st.returns = true → ∃ o, lastCall t os = some o ∧
    (o.type ≠ 2 → AtCall (s.context t) (s.thread.get t) (s.code t) st o.registers.pc)

section Calling

variable {s s₁ : State} {st st' : Stmt} {k k' : List Stmt} {es : List Event} {os : List CallEvent}
  {pc : Word}

lemma Control.waits_eq (hc : Control s st k k') (h : .resume ∉ k) : waits k' = false := by
  cases hc
  case destroyPCB p _ => obtain he | ⟨a, -, he⟩ := destroyPCB_eq s p <;> rw [he] <;> rfl
  case tick | threadRoot | yield | mapcarNil | exitParent | exitSpaceGone => exact waits_eq_false h
  all_goals rfl

/-- **A statement keeps the PC of a thread in a system call**, through every context switch. -/
lemma Rule.keeps_pc (hr : Rule s st k k' es s₁) (hcode : s.code s.currentThread = st :: k)
    (ho : Owned s) (htail : .resume ∉ k) (hk : st' ∈ k') (hret : st'.returns = true)
    (hst : st.isUser = false) (hleave : st.leaves = false) (hload : st.isLoad = false)
    (hspace : (s.thread.get s.currentThread).space ≠ none)
    (hpc : (s.context s.currentThread).pc = pc)
    (hsaved : st.saved = true → (s.thread.get s.currentThread).userRegisters.pc = pc)
    (hsaved' : st'.saved = true →
      (s.thread.get s.currentThread).userRegisters.pc = pc ∨ st.saves = true)
    (himage : st'.isLoad = false) :
    AtCall ((s₁.setCode s.currentThread k').context s.currentThread)
      (s₁.thread.get s.currentThread) k' st' pc := by
  have hwaits : waits k = false := waits_eq_false htail
  -- the thread goes on, with its register file
  have keep : st.saves = false → s₁.currentThread = s.currentThread →
      s₁.registers.pc = s.registers.pc →
      (s₁.thread.get s.currentThread).userRegisters =
        (s.thread.get s.currentThread).userRegisters →
      (s₁.thread.get s.currentThread).space = (s.thread.get s.currentThread).space →
      waits (st :: k) = false → waits k' = false →
      AtCall ((s₁.setCode s.currentThread k').context s.currentThread)
        (s₁.thread.get s.currentThread) k' st' pc := by
    intro hno hcur hregs hth hsp hw hw'
    rw [context_of_code hcode hw] at hpc
    refine ⟨?_, fun hs => ?_, .inl (hsp.trans_ne hspace), himage⟩
    · rw [context_self hcur hw', hregs, hpc]
    · obtain h | h := hsaved' hs
      · rw [hth, h]
      · rw [hno] at h
        cases h
  -- the thread loses the processor, and its register file is saved
  have switch : ∀ {s₂ : State} {next : Tid}, s₁ = s₂.run next → waits (st :: k) = false →
      waits k' = true → s₂.thread = s.thread → s₂.currentThread = s.currentThread →
      s₂.registers = s.registers →
      AtCall ((s₁.setCode s.currentThread k').context s.currentThread)
        (s₁.thread.get s.currentThread) k' st' pc := by
    intro s₂ next hs₁ hw hw' hth hcur hregs
    rw [context_of_code hcode hw] at hpc
    have hspace₂ : s₂.currentSpace ≠ none := by
      rw [Objects.currentSpace, hth, hcur]
      exact hspace
    have hget : s₁.thread.get s.currentThread =
        ⟨(s.thread.get s.currentThread).space, s.registers⟩ := by
      rw [hs₁, thread_run, if_pos ⟨hcur.symm, hspace₂⟩, hth, hregs]
    rw [context_waits hw', hget]
    exact ⟨hpc, fun _ => hpc, .inl hspace, himage⟩
  cases hr
  case instruction | trap | exit | kill => cases hst
  case forkReturn | incrementPC | ret => cases hleave
  case load | loadFail => cases hload
  case control hc =>
    refine keep ?_ rfl rfl rfl rfl ?_ (hc.waits_eq htail)
    · cases hc <;> rfl
    · cases hc <;> rfl
  case interrupt hst₀ => obtain rfl | rfl := hst₀ <;> exact keep rfl rfl rfl rfl rfl rfl hwaits
  case timeSlice hst₀ => obtain rfl | rfl := hst₀ <;> exact keep rfl rfl rfl rfl rfl rfl rfl
  case take => exact keep rfl rfl rfl rfl rfl rfl hwaits
  case block => exact switch rfl rfl rfl rfl rfl rfl
  case release l =>
    have hth := congrArg (Heap.get · s.currentThread) (thread_releaseOf (s := s) l)
    exact keep rfl (currentThread_releaseOf l) (congrArg Registers.pc (registers_releaseOf l))
      (congrArg Thread.userRegisters hth) (congrArg Thread.space hth) rfl hwaits
  case yield => exact switch rfl rfl rfl rfl rfl rfl
  case resume hs₁ =>
    rw [context_of_parked fun _ => hcode ▸ rfl] at hpc
    refine ⟨?_, fun hs => ?_, .inl ?_, himage⟩
    · rw [context_self (currentThread_afterSwitch hs₁) hwaits, registers_afterSwitch hs₁ hspace]
      exact hpc
    · obtain h | h := hsaved' hs
      · rw [get_afterSwitch hs₁, h]
      · cases h
    · rw [get_afterSwitch hs₁]
      exact hspace
  case childFunction =>
    obtain rfl := List.mem_singleton.mp hk
    cases hret
  case allocatePCB hp =>
    have hth := congrArg (Heap.get · s.currentThread) (thread_allocatePCB hp)
    exact keep rfl (currentThread_allocatePCB hp) rfl (congrArg Thread.userRegisters hth)
      (congrArg Thread.space hth) rfl rfl
  case saveParent =>
    rw [context_of_code hcode rfl] at hpc
    rw [thread_saveUserState, Heap.get_modify_self]
    exact ⟨(congrArg Registers.pc (context_self rfl rfl)).trans hpc, fun _ => hpc, .inl hspace,
      himage⟩
  case copySpace => exact keep rfl rfl rfl rfl rfl rfl rfl
  case startChild r p a q _ =>
    -- `RestoreUserState`
    have hget : (s.thread.new ⟨some a, childRegisters (r.gpr 4) s.registers⟩).get s.currentThread =
        s.thread.get s.currentThread := Heap.get_new_of_ne (Nat.ne_of_lt (ho.born hcode))
    have hur : ((s.thread.new ⟨some a, childRegisters (r.gpr 4) s.registers⟩).get
        s.currentThread).userRegisters.pc = pc := by
      rw [hget]
      exact hsaved rfl
    exact ⟨(congrArg Registers.pc (context_self rfl rfl)).trans hur, fun _ => hur,
      .inl ((congrArg Thread.space hget).trans_ne hspace), himage⟩
  case orphan => exact keep rfl rfl rfl rfl rfl rfl rfl
  case finish => cases hk
  case clearPid p _ _ _ =>
    refine keep rfl rfl rfl rfl rfl rfl ?_
    obtain he | ⟨a, -, he⟩ := destroyPCB_eq s p <;> rw [he] <;> rfl
  case forgetPid => exact keep rfl rfl rfl rfl rfl rfl hwaits
  case unlinkPCB p o h =>
    obtain ⟨hth, hsp | hothers⟩ := thread_unlink h s.currentThread
    · exact keep rfl ((currentThread_freePCB h).trans (currentThread_unlink p)) rfl hth hsp rfl
        hwaits
    · exact absurd rfl (othersThread_eq_some hothers).2
  case freeFrames h =>
    have hth := congrArg (Heap.get · s.currentThread) (thread_freeFrames h)
    exact keep rfl (currentThread_freeFrames h) rfl (congrArg Thread.userRegisters hth)
      (congrArg Thread.space hth) rfl hwaits
  case freeSpace h =>
    have hth := congrArg (Heap.get · s.currentThread) (thread_freeSpace h)
    exact keep rfl (currentThread_freeSpace h) rfl (congrArg Thread.userRegisters hth)
      (congrArg Thread.space hth) rfl hwaits
  case killReturn => exact keep rfl rfl rfl rfl rfl rfl rfl

/-- A system call starts at the PC of its `SYSCALL`. -/
lemma Rule.starts_call (hr : Rule s .user k k' es s₁) (hk : st' ∈ k') (hret : st'.returns = true)
    (hno : st' ∉ k) (htype : s.callNumber ≠ 2) :
    AtCall ((s₁.setCode s.currentThread k').context s.currentThread)
      (s₁.thread.get s.currentThread) k' st' s.registers.pc := by
  cases hr
  case control hc => cases hc
  case interrupt hst | timeSlice hst => obtain h | h := hst <;> cases h
  case instruction =>
    simp only [List.mem_cons] at hk
    obtain rfl | rfl | hk := hk
    · cases hret
    · cases hret
    · exact absurd hk hno
  case exit =>
    simp only [List.mem_cons, List.not_mem_nil, or_false] at hk
    obtain rfl | rfl | rfl | rfl := hk <;> cases hret
  case kill p pid entry other space =>
    have hth : (s.detach p).thread = s.thread := thread_detach p
    have hget := congrArg (Heap.get · s.currentThread) hth
    simp only [List.mem_cons] at hk
    obtain rfl | rfl | rfl | rfl | hk := hk
    case inr.inl =>
      refine ⟨?_, fun h => (by cases h), .inl ((congrArg Thread.space hget).trans_ne space), rfl⟩
      have hpc : s.trapped.registers.pc = s.registers.pc := rfl
      rw [context_self (currentThread_detach p) rfl]
      exact hpc
    case inr.inr.inr.inr => exact absurd hk hno
    all_goals cases hret
  case trap ht =>
    have start : waits k' = false → st'.saved = false → st'.isLoad = false →
        (s.currentSpace ≠ none ∨ leaving k' = true) →
        AtCall ((s.trapped.setCode s.currentThread k').context s.currentThread)
          (s.trapped.thread.get s.currentThread) k' st' s.registers.pc := by
      intro hw hs hl hspace
      have hcontext : (s.trapped.setCode s.currentThread k').context s.currentThread =
        s.trapped.registers := context_self rfl hw
      refine ⟨(congrArg Registers.pc hcontext).trans rfl, fun h => ?_, hspace, hl⟩
      rw [hs] at h
      cases h
    have hno' : st' ∉ Stmt.tick :: .user :: k := by
      simp only [List.mem_cons, not_or]
      refine ⟨?_, ?_, hno⟩ <;> rintro rfl <;> cases hret
    cases ht
    case exitGone => exact absurd hk hno'
    case execFail =>
      simp only [List.mem_cons, List.not_mem_nil, or_false] at hk
      obtain rfl | rfl := hk
      · exact start rfl rfl rfl (.inr rfl)
      · cases hret
    case exec => exact absurd ‹_› htype
    case fail =>
      obtain rfl | hk := List.mem_cons.mp hk
      · exact start rfl rfl rfl (.inr rfl)
      · exact absurd hk hno'
    case join pcb _ =>
      have hspace : s.currentSpace ≠ none := by
        intro hnone
        rw [Objects.currentPCB, show s.trapped.currentSpace = none from hnone] at pcb
        cases pcb
      obtain rfl | hk := List.mem_cons.mp hk
      · exact start rfl rfl rfl (.inl hspace)
      · exact absurd hk hno'
    case create =>
      obtain rfl | hk := List.mem_cons.mp hk
      · exact start rfl rfl rfl (.inr rfl)
      · exact absurd hk hno'
    case fork a space =>
      have hspace : s.currentSpace ≠ none := fun hnone => by cases hnone.symm.trans space
      simp only [acquireLock, List.cons_append, List.nil_append, List.mem_cons] at hk
      obtain rfl | rfl | rfl | hk := hk
      · cases hret
      · cases hret
      · exact start rfl rfl rfl (.inl hspace)
      · exact absurd (by simpa using hk) hno'
    case yield space =>
      simp only [threadYield, List.cons_append, List.nil_append, List.mem_cons] at hk
      obtain rfl | rfl | rfl | hk := hk
      · cases hret
      · cases hret
      · exact start rfl rfl rfl (.inl space)
      · exact absurd (by simpa using hk) hno'
    case killSelfGone =>
      obtain rfl | hk := List.mem_cons.mp hk
      · cases hret
      · exact absurd hk hno'

lemma lastCall_concat (t : Tid) (o : CallEvent) :
    lastCall t (os ++ [o]) = if o.thread = t then some o else lastCall t os := by
  unfold lastCall
  by_cases ht : o.thread = t
  · rw [if_pos ht, List.filter_append, List.filter_singleton, decide_eq_true ht]
    exact List.getLast?_concat
  · rw [if_neg ht, List.filter_append, List.filter_singleton, decide_eq_false ht]
    simp

/-- The running thread, in a system call. -/
lemma Rule.own_call (hr : Rule s st k k' es s₁) (hcode : s.code s.currentThread = st :: k)
    (ho : Owned s) (h : Calling os s) {new : List CallEvent}
    (hnew : (new = [] ∧ (st = .user → k' = .tick :: .user :: k)) ∨
      (st = .user ∧ new = [⟨s.currentThread, s.callNumber, s.registers⟩]))
    (hst : st' ∈ k') (hret : st'.returns = true) :
    ∃ o, lastCall s.currentThread (os ++ new) = some o ∧
      (o.type ≠ 2 → AtCall ((s₁.setCode s.currentThread k').context s.currentThread)
        (s₁.thread.get s.currentThread) k' st' o.registers.pc) := by
  have htail := h.tail s.currentThread
  have hsingle := h.single s.currentThread
  have hcall : ∀ {a}, a ∈ st :: k → a.returns = true → ∃ o, lastCall s.currentThread os = some o ∧
      (o.type ≠ 2 → AtCall (s.context s.currentThread) (s.thread.get s.currentThread) (st :: k) a
        o.registers.pc) := by
    intro a ha hr
    have hold := h.call (hcode.symm ▸ ha) hr
    rwa [hcode] at hold
  rw [hcode] at htail hsingle
  obtain ⟨rfl, huser⟩ | ⟨rfl, rfl⟩ := hnew
  · rw [List.append_nil]
    by_cases hst₀ : st = .user
    · -- an instruction
      subst hst₀
      rw [huser rfl] at hst
      simp only [List.mem_cons] at hst
      obtain rfl | rfl | hst := hst
      · cases hret
      · cases hret
      · exact absurd hst (notMem_of_closes hsingle rfl hret)
    have hno : st.isUser = false := Stmt.isUser_eq_false hst₀
    obtain hk | hc := hr.carried hno hst hret
    · -- the statement was behind
      obtain ⟨o, ho', hat⟩ := hcall (.tail _ hk) hret
      have hclose : st.closes ≠ true := fun hc => notMem_of_closes hsingle hc hret hk
      have hleave : st.leaves = false :=
        Bool.eq_false_of_not_eq_true fun hl => hclose (Stmt.closes_of_leaves hl)
      refine ⟨o, ho', fun hn => ?_⟩
      -- an image is loaded in an `Exec`
      have hload : st.isLoad = false := by
        refine Bool.eq_false_of_not_eq_true fun hl => ?_
        obtain ⟨o', ho'', hat'⟩ := hcall (.head _) (Stmt.returns_of_isLoad hl)
        obtain rfl := Option.some.inj (ho''.symm.trans ho')
        rw [(hat' hn).image] at hl
        cases hl
      obtain hspace | hleaving := (hat hn).space
      · exact hr.keeps_pc hcode ho htail hst hret hno hleave hload hspace (hat hn).context
          (fun hs => absurd (Stmt.closes_of_saved hs) hclose)
          (fun hs => .inl ((hat hn).saved hs)) (hat hn).image
      · exact absurd (hleave.symm.trans hleaving) Bool.false_ne_true
    · -- the statement takes the place of another one
      obtain ⟨o, ho', hat⟩ := hcall (.head _) hc.returns
      refine ⟨o, ho', fun hn => ?_⟩
      obtain hspace | hleaving := (hat hn).space
      · exact hr.keeps_pc hcode ho htail hst hret hno hc.stays (hat hn).image hspace (hat hn).context
          (hat hn).saved (fun hs => (hc.saved hs).imp_left (hat hn).saved) hc.image
      · exact absurd (hc.stays.symm.trans hleaving) Bool.false_ne_true
  · rw [lastCall_concat, if_pos rfl]
    exact ⟨_, rfl, fun hn => hr.starts_call hst hret (notMem_of_closes hsingle rfl hret) hn⟩

/-- **Every step keeps the PC of the threads in a system call.** -/
theorem Rule.calling (hr : Rule s st k k' es s₁) (hcode : s.code s.currentThread = st :: k)
    (ho : Owned s) (h : Calling os s) {new : List CallEvent}
    (hnew : (new = [] ∧ (st = .user → k' = .tick :: .user :: k)) ∨
      (st = .user ∧ new = [⟨s.currentThread, s.callNumber, s.registers⟩])) :
    Calling (os ++ new) (s₁.setCode s.currentThread k') := by
  refine ⟨hr.keeps_tail hcode ho h.tail, hr.keeps_parked hcode ho h.parked, fun t => ?_,
    fun {t a} ha hret => ?_⟩
  · by_cases ht : t = s.currentThread
    · subst ht
      rw [code_setCode_self]
      exact hr.single (hcode ▸ h.single s.currentThread)
    · rw [code_setCode_of_ne ht]
      obtain ⟨hc, -⟩ | ⟨_, _, _, -, -, hc, -⟩ := hr.thread_cases hcode ho ht
      · rw [hc]
        exact h.single t
      · rw [hc]
        rfl
  · by_cases ht : t = s.currentThread
    · subst ht
      rw [code_setCode_self] at ha ⊢
      exact hr.own_call hcode ho h hnew ha hret
    · have hlast : lastCall t (os ++ new) = lastCall t os := by
        obtain ⟨rfl, -⟩ | ⟨-, rfl⟩ := hnew
        · rw [List.append_nil]
        · rw [lastCall_concat, if_neg (Ne.symm ht)]
      rw [hlast]
      rw [code_setCode_of_ne ht] at ha ⊢
      obtain ⟨hc, hkept | hnil⟩ | ⟨_, _, _, -, -, hc, -⟩ := hr.thread_cases hcode ho ht
      · rw [hc] at ha ⊢
        obtain ⟨o, ho', hat⟩ := h.call ha hret
        refine ⟨o, ho', fun hn => ?_⟩
        have hwaits : waits (s.code t) = true :=
          (h.parked ht).waits ha (by rintro rfl; cases hret) (by rintro rfl; cases hret)
        have hspace : (s₁.thread.get t).space = (s.thread.get t).space := by
          obtain hspace | hd := hkept.2
          · exact hspace
          · exact absurd hd (ho.not_dying ha (Stmt.inExit_of_returns hret))
        have hold := hat hn
        have hcontext := hold.context
        rw [context_of_parked fun _ => hwaits, ← hkept.1] at hcontext
        refine ⟨?_, fun hs => hkept.1 ▸ hold.saved hs, hold.space.imp_left hspace.trans_ne,
          hold.image⟩
        rw [context_of_parked fun _ => by rwa [code_setCode_of_ne ht, hc]]
        exact hcontext
      · rw [hc, hnil] at ha
        cases ha
      · rw [hc] at ha
        obtain rfl | rfl : a = .threadRoot ∨ a = .childFunction := by simpa using ha
        · cases hret
        · cases hret

end Calling

/-! ### Runs -/

section Runs

variable {s₀ s s' : State} {e : Executable} {c : Choice} {st : Stmt} {k : List Stmt}
  {es : List Event} {os : List CallEvent}

lemma syscallEvents_of_ne (hcode : s.code s.currentThread = st :: k) (hst : st ≠ .user) :
    syscallEvents c s = [] := by
  unfold syscallEvents
  rw [hcode]
  cases st <;> first | rfl | exact absurd rfl hst

/-- A step of the machine. -/
theorem step_calling (hs : step c s = .ok (es, s')) (ho : Owned s) (h : Calling os s) :
    Calling (os ++ syscallEvents c s) s' := by
  obtain ⟨st, k, k', s₁, hcode, hr, rfl⟩ := step_rule hs
  by_cases hst : st = .user
  · subst hst
    have hstep : s.exec c .user k = .ok (es, s₁.setCode s.currentThread k') := by
      rw [← hs, step, hcode]
    cases c with
    | instruction r =>
      -- the user program goes on
      refine hr.calling hcode ho h (.inl ⟨?_, fun _ => ?_⟩)
      · simp [syscallEvents, hcode]
      · have hgo : (({ s with registers := r }.goto (.tick :: .user :: k) : State)) =
            s₁.setCode s.currentThread k' := (Prod.mk.inj (Except.ok.inj hstep)).2
        have hcode' := congrArg (fun s' : State => s'.code s.currentThread) hgo
        exact ((code_setCode_self _).symm.trans hcode'.symm).trans (Function.update_self ..)
    | syscall x =>
      refine hr.calling hcode ho h (.inr ⟨rfl, ?_⟩)
      rw [syscallEvents, hcode]
    | _ => cases hstep
  · exact hr.calling hcode ho h (.inl ⟨syscallEvents_of_ne hcode hst, fun h => absurd h hst⟩)

/-- The first process. -/
lemma calling_startProcess (h : startProcess e = .ok s₀) : Calling [] s₀ := by
  have hres := restored_startProcess h
  obtain ⟨-, hcode, -⟩ := view_startProcess h
  have hcases : ∀ t, s₀.code t = [.user] ∨ s₀.code t = [] := by
    intro t
    rw [hcode]
    by_cases ht : t = 0
    · subst ht
      exact .inl (Function.update_self ..)
    · exact .inr (Function.update_of_ne ht ..)
  refine ⟨hres.tail, hres.parked, fun t => ?_, fun {t st} hst hret => ?_⟩
  · obtain hc | hc := hcases t <;> rw [hc] <;> rfl
  · obtain hc | hc := hcases t <;> rw [hc] at hst
    · obtain rfl := List.mem_singleton.mp hst
      cases hret
    · cases hst

lemma calling_of_run (h₀ : startProcess e = .ok s₀) (h : CallRun s₀ os s) :
    (∃ tr, Run Step s₀ tr s) ∧ Calling os s :=
  h.observed_invariant (I := Calling) (calling_startProcess h₀)
    fun hr hi hs => step_calling hs (owned_of_run h₀ hr) hi

/-- A return increments the PC. -/
lemma returned_registers (hcode : s.code s.currentThread = st :: k) (hst : st.leaves = true)
    (hs : step c s = .ok (es, s')) :
    s'.registers.pc = s.registers.pc + 4 ∧ s'.registers.nextPC = s.registers.pc + 8 := by
  unfold step at hs
  rw [hcode] at hs
  cases st
  case ret | incrementPC | forkReturn =>
    cases hs
    exact ⟨rfl, rfl⟩
  all_goals cases hst

/-- **A system call returns behind the `SYSCALL`.** In every run, when a `Join`, a `Create`, a
`Fork`, a `Yield` or a `Kill` returns, the program goes on as after another instruction if and only
if the NextPC at the `SYSCALL` was the address behind it. -/
theorem continues_iff (h₀ : startProcess e = .ok s₀) (h : CallRun s₀ os s)
    (hleave : leaving (s.code s.currentThread) = true) (hs : step c s = .ok (es, s')) :
    ∃ o, lastCall s.currentThread os = some o ∧ (o.type ∈ returningCalls →
      (Continues o.registers s'.registers ↔ o.registers.nextPC = o.registers.pc + 4)) := by
  obtain ⟨-, hcalling⟩ := calling_of_run h₀ h
  cases hcode : s.code s.currentThread with
  | nil =>
    rw [hcode] at hleave
    cases hleave
  | cons st k =>
    rw [hcode] at hleave
    have hst : st.leaves = true := hleave
    have hret : st.returns = true := by cases st <;> first | rfl | cases hst
    obtain ⟨o, ho, hat⟩ := hcalling.call (hcode.symm ▸ List.mem_cons_self) hret
    refine ⟨o, ho, fun htype => ?_⟩
    have hn : o.type ≠ 2 := by
      rintro h2
      rw [h2] at htype
      revert htype
      decide
    have hpc := (hat hn).context
    rw [context_of_code hcode (by cases st <;> first | rfl | cases hst)] at hpc
    obtain ⟨hpc', hnext⟩ := returned_registers hcode hst hs
    rw [Continues, hpc', hnext, hpc]
    constructor
    · exact fun h => h.1.symm
    · intro h
      rw [h]
      exact ⟨rfl, (BitVec.add_assoc o.registers.pc 4 4).symm⟩

end Runs

/-! ### A Yield in the delay slot of a jump -/

/-- At a `SYSCALL` at `pc`, with the number of a `Yield`. -/
def yieldRegisters (pc nextPC : Word) : Registers :=
  { callRegisters 10 0 with pc := pc, nextPC := nextPC }

/-- The next step returns from a `Yield` at 100, to 104. -/
def yieldReturns (nextPC : Word) (os : List CallEvent) (s : State) : Bool :=
  leaving (s.code s.currentThread) &&
    match lastCall s.currentThread os, step .go s with
    | some o, .ok (_, s') =>
      o.type == 10 && o.registers.pc == 100 && o.registers.nextPC == nextPC && s'.registers.pc == 104
    | _, _ => false

lemma of_yieldReturns {nextPC : Word} {os : List CallEvent} {s : State}
    (h : yieldReturns nextPC os s = true) : leaving (s.code s.currentThread) = true ∧
      ∃ o es s', lastCall s.currentThread os = some o ∧ step .go s = .ok (es, s') ∧ o.type = 10 ∧
        o.registers.pc = 100 ∧ o.registers.nextPC = nextPC ∧ s'.registers.pc = 104 := by
  rw [yieldReturns, Bool.and_eq_true] at h
  obtain ⟨hleave, h⟩ := h
  split at h
  next o es s' ho hs =>
    simp only [Bool.and_eq_true, beq_iff_eq] at h
    obtain ⟨⟨⟨htype, hcall⟩, hnext⟩, hpc⟩ := h
    exact ⟨hleave, o, es, s', ho, hs, htype, hcall, hnext, hpc⟩
  next => cases h

/-- The runs that pass a test, from the start of a program. -/
lemma callRun_of_startProcess (e : Executable) (cs : List Choice)
    (p : List CallEvent → State → Bool)
    (h : (match startProcess e with
      | .ok s₀ => passes (observed step syscallEvents) cs s₀ p
      | .error _ => false) = true) :
    ∃ s₀ os s, startProcess e = .ok s₀ ∧ CallRun s₀ os s ∧ p os s = true := by
  split at h
  next s₀ h₀ =>
    obtain ⟨os, s, hr, hp⟩ := run_of_passes _ cs s₀ p h
    exact ⟨s₀, os, s, h₀, hr, hp⟩
  next => cases h

/-- A `Yield` in the delay slot of a jump from 96 to 400 returns to 104. -/
theorem not_continues : ¬ ∀ e s₀ os s c es s', startProcess e = .ok s₀ → CallRun s₀ os s →
    leaving (s.code s.currentThread) = true → step c s = .ok (es, s') →
      ∃ o, lastCall s.currentThread os = some o ∧
        (o.type ∈ returningCalls → Continues o.registers s'.registers) := by
  intro hall
  obtain ⟨s₀, os, s, h₀, hr, hp⟩ := callRun_of_startProcess small
    [.instruction (yieldRegisters 100 400), .go, .syscall none, .go, .go] (yieldReturns 400)
    (by decide +kernel)
  obtain ⟨hleave, o, es, s', ho, hs, htype, -, hnext, hpc⟩ := of_yieldReturns hp
  obtain ⟨o', ho', hcont⟩ := hall small s₀ os s .go es s' h₀ hr hleave hs
  obtain rfl := Option.some.inj (ho.symm.trans ho')
  have hgo := (hcont (htype ▸ by decide)).1
  rw [hnext, hpc] at hgo
  revert hgo
  decide

/-- A `Yield` that is followed by the instruction behind it, after the child has run. -/
theorem continues_iff_yield : ∃ s₀ os s es s' o, startProcess small = .ok s₀ ∧ CallRun s₀ os s ∧
    step .go s = .ok (es, s') ∧ lastCall s.currentThread os = some o ∧ o.type = 10 ∧
      Continues o.registers s'.registers := by
  obtain ⟨s₀, os, s, h₀, hr, hp⟩ := callRun_of_startProcess small
    ([.instruction (callRegisters 9 400), .go, .syscall none] ++ List.replicate 15 .go ++
      [.instruction (yieldRegisters 100 104), .go, .syscall none, .go, .go, .go,
        .instruction (callRegisters 0 0), .timeSlice, .go, .go, .go]) (yieldReturns 104)
    (by decide +kernel)
  obtain ⟨hleave, o, es, s', ho, hs, htype, hcall, hnext, -⟩ := of_yieldReturns hp
  refine ⟨s₀, os, s, es, s', o, h₀, hr, hs, ho, htype, ?_⟩
  obtain ⟨o', ho', hiff⟩ := continues_iff h₀ hr hleave hs
  obtain rfl := Option.some.inj (ho.symm.trans ho')
  refine (hiff (htype ▸ by decide)).mpr ?_
  rw [hnext, hcall]
  rfl

end Nachos.Process
