import Nachos.Process.Family

/-!
# The integrity of the families

In every run in which a process exits only when it has no parent, and is killed by another one only
when it has neither parent nor children, the links of all PCBs are right, but for the list of a
process inside `doExit`, which still has the children that it has given up. Where a process that
exits has no children either, the lists are right throughout.
-/

namespace Nachos.Process

open Lib Threads Mips Userprog

/-! ### The statement -/

/-- The parent of every PCB is a PCB that has it on its list once, and its thread is a thread; none
of them has been deleted. -/
structure TiesRight (s : State) : Prop where
  parent : ∀ c q, s.pcb.live c = true → (s.pcb.get c).parent = some q →
    s.pcb.live q = true ∧ (s.pcb.get q).children.count c = 1
  thread : ∀ p t, s.pcb.live p = true → (s.pcb.get p).thread = some t → s.thread.live t = true

/-- The list of the process has its children only. -/
def ListRight (s : State) (p : PCBId) : Prop :=
  ∀ c ∈ (s.pcb.get p).children, s.pcb.live c = true ∧ (s.pcb.get c).parent = some p

/-- **The links of the PCBs that have not been deleted.** -/
structure FamilyRight (s : State) : Prop extends TiesRight s where
  children : ∀ p, s.pcb.live p = true → ListRight s p

/-- The process is in `doExit`. -/
def Exiting (s : State) (p : PCBId) : Prop :=
  ∃ t, (s.pcb.get p).thread = some t ∧ .finish ∈ s.code t

/-- A process that exits has no parent; one that is killed by another one has neither parent nor
children. -/
def Unattached (s : State) (os : List PidEvent) (_ : State) : Prop :=
  (∀ p, .exited p ∈ os → (s.pcb.get p).parent = none) ∧
    ∀ p, .killed p ∈ os → (s.pcb.get p).parent = none ∧ (s.pcb.get p).children = []

/-- A process that exits, or is killed by another one, has neither parent nor children. -/
def Alone (s : State) (os : List PidEvent) (_ : State) : Prop :=
  ∀ p, .exited p ∈ os ∨ .killed p ∈ os →
    (s.pcb.get p).parent = none ∧ (s.pcb.get p).children = []

lemma Alone.unattached {s s' : State} {os : List PidEvent} (h : Alone s os s') :
    Unattached s os s' :=
  ⟨fun p hp => (h p (.inl hp)).1, fun p hp => h p (.inr hp)⟩

/-! ### Steps -/

section Step

variable {s s₁ : State} {st : Stmt} {k k' : List Stmt} {es : List Event}

/-- Only `new Thread` gives code to another thread. -/
lemma Rule.turn (hr : Rule s st k k' es s₁) (hcode : s.code s.currentThread = st :: k)
    (ho : Owned s) (hst : st.isStartChild = false) : Turn s s₁ st k k' := by
  obtain ⟨ow, os, hp, hout⟩ := ho
  refine ⟨hcode, fun t ht => ?_, hcode ▸ hout.exitOnly s.currentThread⟩
  obtain ⟨hc, -⟩ | ⟨call, p, a, rfl, -⟩ := hr.thread_cases hcode ⟨ow, os, hp, hout⟩ ht
  · exact hc
  · cases hst

/-- **Every step keeps the links**, when a process that exits has no parent, and one that is killed
by another one has neither parent nor children. -/
theorem Rule.family (hr : Rule s st k k' es s₁) (hcode : s.code s.currentThread = st :: k)
    (ho : Owned s) (h : Family s) {c : Choice}
    (hstep : step c s = .ok (es, s₁.setCode s.currentThread k'))
    (guard : Unattached s (pidEvents c s) (s₁.setCode s.currentThread k'))
    (hlive : st = .user → ∀ i p, s.pcbs i = some p → s.pcb.live p = true) :
    Family (s₁.setCode s.currentThread k') := by
  have hexit : ExitOnly (st :: k) := by
    obtain ⟨ow, os, -, hout⟩ := ho
    exact hcode ▸ hout.exitOnly s.currentThread
  have hborn : s.currentThread < s.view.nextThread := by
    obtain ⟨ow, os, -, hout⟩ := ho
    exact hout.born hcode
  have turn := hr.turn hcode ho
  have hown := h.stands s.currentThread
  rw [hcode] at hown
  obtain ⟨hst, hk⟩ := List.forall_mem_cons.mp hown.knows
  have hself : ∀ l, (s₁.setCode s.currentThread l).code s.currentThread = l :=
    fun l => code_setCode_self _
  cases hr
  case control hc => exact hc.family h hstep (turn (by cases hc <;> rfl))
  case trap ht => exact ht.family h (turn rfl) (hlive rfl)
  case exit a p status space pcb pageTable =>
    have hevent := pidEvents_of_mapcar hstep hcode (hself _)
    obtain ⟨-, hevent⟩ | ⟨hfalse, -⟩ := hevent
    · have hchildren : ((s.trapped.exiting p status).pcb.get p).children = s.kin.children p :=
        congrFun (congrArg Kin.children (kin_exiting (s := s.trapped) p status)) p
      have turn := turn rfl
      rw [hchildren] at turn ⊢
      exact h.exit turn rfl (kin_exiting ..) (view_exiting s.trapped p status) rfl space pcb
        (guard.1 p hevent)
    · cases hfalse
  case kill p pid entry other _ =>
    obtain ⟨hfalse, -⟩ | ⟨-, hevent⟩ := pidEvents_of_mapcar hstep hcode (hself _)
    · cases hfalse
    · obtain ⟨hparent, hchildren⟩ := guard.2 p hevent
      have hkin := kin_detach (o := s.toObjects) hparent
      have hnil : ((s.detach p).pcb.get p).children = [] :=
        (congrFun (congrArg Kin.children hkin) p).trans hchildren
      have turn := turn rfl
      rw [hnil] at turn ⊢
      exact h.goOn turn hkin (view_detach _ p) rfl rfl id (by simp) (by simpa [Knows] using hk)
  case instruction =>
    exact h.goOn (turn rfl) rfl rfl rfl rfl id (by simp) (by simpa [Knows] using hk)
  case interrupt heq =>
    obtain rfl | rfl := heq <;> exact h.goOn (turn rfl) rfl rfl rfl rfl id (by simp) hk
  case timeSlice heq =>
    obtain rfl | rfl := heq <;>
      exact h.goOn (turn rfl) rfl rfl rfl rfl id (by simp [threadYield])
        (by simpa [threadYield, Knows] using hk)
  case take => exact h.goOn (turn rfl) rfl rfl rfl rfl id (by simp) hk
  case block =>
    exact h.goOn (turn rfl) (kin_run _) (view_run ..) (threadToBeDestroyed_run _) rfl id (by simp)
      (by simpa [Knows] using hk)
  case release =>
    exact h.goOn (turn rfl) (kin_releaseOf _) (view_releaseOf ..) (threadToBeDestroyed_releaseOf _)
      rfl id (by simp) hk
  case yield =>
    exact h.goOn (turn rfl) (kin_run _) (view_run ..) (threadToBeDestroyed_run _) rfl id (by simp)
      (by simpa [Knows] using hk)
  case resume hs₁ =>
    obtain ⟨hdoomed, hkin⟩ := kin_afterSwitch hs₁
    exact h.resume (turn rfl) (view_afterSwitch s hs₁) hdoomed hkin
  case childFunction =>
    have hf : .finish ∉ .childFunction :: k := not_finish hexit rfl
    exact h.same (turn rfl) rfl rfl rfl
      (hown.anew (List.cons_ne_nil _ _) hf rfl trivial (by simp) (by simp [Knows]))
      fun p ahead hp => absurd (hown.pending p ahead hp).1 hf
  case allocatePCB call p o ha =>
    obtain ⟨hp, hkin⟩ := kin_allocatePCB ha
    obtain ⟨-, hview⟩ := view_allocatePCB s.toObjects ha
    refine h.newPCB (turn rfl) ?_ hp hkin hview rfl (by simp [releaseLock, pending])
      (by simp [releaseLock, Tidy]) (by simp [releaseLock]) ?_
    · rw [hp]
      exact s.pcb.not_live_next
    · simp only [releaseLock, List.cons_append, List.nil_append, List.forall_mem_cons]
      exact ⟨.inr (.inr fun _ _ => trivial), .inr (.inr fun _ _ => trivial), .inr (.inl rfl),
        fun st' hst => .inl hst⟩
  case saveParent call p =>
    exact h.goOn (turn rfl) rfl (view_saveUserState s) rfl rfl id (by simp [acquireLock])
      (by simpa [acquireLock, Knows] using ⟨hst, hk⟩)
  case copySpace call p a space room =>
    have hview : (s.withObjects (s.newSpace none (s.space.get a).numPages).2).view =
      s.view.newSpace none := view_newSpace ..
    have hthread : (s.withObjects (s.newSpace none (s.space.get a).numPages).2).view.threadOf =
      s.view.threadOf := by rw [hview]; rfl
    -- the new space has no PCB yet
    have old : ∀ t b x, (s.view.newSpace none).spaceOf t = some b →
        (s.view.newSpace none).pcbOf b = some x → s.view.spaceOf t = some b ∧
          s.view.pcbOf b = some x := by
      intro t b x hb hx
      have hbn : b ≠ s.view.nextSpace := by
        rintro rfl
        cases (Function.update_self ..).symm.trans hx
      exact ⟨hb, (Function.update_of_ne hbn ..).symm.trans hx⟩
    have hown' : Stands s.kin s.view s.currentThread
        (releaseLock .mmLock ++ .startChild call p s.space.next :: k) :=
      hown.goOn (by simp [releaseLock, pending]) (by simp [releaseLock, Tidy]) (by simp [releaseLock])
        (List.cons_ne_nil _ _) (by simpa [releaseLock, Knows] using ⟨hst, hk⟩)
    refine h.spaces (turn rfl) rfl hthread ?_ ?_ rfl (fun t b x _ hb hx => ?_)
      (hown'.spaces hthread fun hf hl b x hb hx => ?_)
      fun p ahead hp => ⟨ahead, by simpa [releaseLock, pending] using hp⟩
    · rw [hview]
      rfl
    · rw [hview]
      exact Nat.le_refl _
    · rw [hview] at hb hx
      exact old t b x hb hx
    · rw [hview] at hb hx
      obtain ⟨hb, hx⟩ := old _ b x hb hx
      exact hown'.own hf hl b x hb hx
  case startChild call p a q pcb =>
    obtain ⟨a₀, ha₀, hq⟩ := space_of_currentPCB pcb
    exact h.link ho rfl hcode ha₀ hq (fun hpq => kin_linkChild a _ hpq) (view_linkChild ..) rfl rfl
  case forkReturn => exact h.goOn (turn rfl) rfl rfl rfl rfl id (by simp) hk
  case loadFail e p =>
    have hview : s.dropSpace.view = s.view.setSpaceOf s.currentThread none := view_dropSpace ..
    have hthread : s.dropSpace.view.threadOf = s.view.threadOf := by rw [hview]; rfl
    have hown' : Stands s.kin s.view s.currentThread k :=
      hown.goOn rfl id (by simp) (List.cons_ne_nil _ _) hk
    refine h.spaces (turn rfl) rfl hthread ?_ ?_ rfl (fun t b x ht hb hx => ?_)
      (hown'.spaces hthread fun _ _ b x hb _ => ?_) fun p ahead hp => ⟨ahead, hp⟩
    · rw [hview]
      rfl
    · rw [hview]
      exact Nat.le_refl _
    · rw [hview] at hb hx
      exact ⟨(Function.update_of_ne ht ..).symm.trans hb, hx⟩
    · rw [hview] at hb
      cases (Function.update_self ..).symm.trans hb
  case load e p room =>
    have hview : (s.dropSpace.loaded p e.numPages).view = ((s.view.setSpaceOf s.currentThread
        none).newSpace (some p)).setSpaceOf s.currentThread (some s.view.nextSpace) := by
      rw [view_loaded, view_dropSpace]
      rfl
    have hthread : (s.dropSpace.loaded p e.numPages).view.threadOf = s.view.threadOf := by
      rw [hview]
      rfl
    have hown' : Stands s.kin s.view s.currentThread k :=
      hown.goOn rfl id (by simp) (List.cons_ne_nil _ _) hk
    refine h.spaces (turn rfl) rfl hthread ?_ ?_ rfl (fun t b x ht hb hx => ?_)
      (hown'.spaces hthread fun _ _ b x hb hx => ?_) fun p ahead hp => ⟨ahead, hp⟩
    · rw [hview]
      rfl
    · rw [hview]
      exact Nat.le_refl _
    · -- the new space is that of the running thread
      rw [hview] at hb hx
      have hb' : s.view.spaceOf t = some b :=
        (Function.update_of_ne ht ..).symm.trans ((Function.update_of_ne ht ..).symm.trans hb)
      refine ⟨hb', (Function.update_of_ne ?_ ..).symm.trans hx⟩
      rintro rfl
      obtain ⟨ow, os, hp, -⟩ := ho
      exact absurd (hp.space hb').1 (Nat.lt_irrefl _)
    · rw [hview] at hb hx
      obtain rfl : s.view.nextSpace = b := by simpa [View.setSpaceOf] using hb
      obtain rfl : p = x := by simpa [View.setSpaceOf, View.newSpace] using hx
      exact hst
  case orphan p c ahead child alive =>
    exact h.orphan (turn rfl) (kin_orphan (o := s.toObjects) c)
      (view_setPCB_same _ c _ (fun _ => rfl) fun _ => rfl) rfl
  case finish next rest _ =>
    exact h.finish (turn rfl) (kin_run _) (view_run ..) (threadToBeDestroyed_run _) hborn
  case clearPid p b live clear =>
    obtain ⟨-, -, hthread, -⟩ := hown.pending p [] rfl
    have hnone : s.othersThread p = none := by
      unfold Objects.othersThread
      rw [show (s.pcb.get p).thread = some s.currentThread from hthread]
      exact if_pos rfl
    have hdelete : s.destroyPCB p = [.unlinkPCB p] := by
      unfold State.destroyPCB Objects.spaceToDelete
      rw [hnone]
    have turn := turn rfl
    rw [hdelete] at turn ⊢
    exact h.goOn turn rfl rfl rfl rfl (by simp [releaseLock, Tidy, pending])
      (by simp [releaseLock]) (by simpa [releaseLock, Knows] using hk)
  case forgetPid => exact h.goOn (turn rfl) rfl rfl rfl rfl id (by simp) hk
  case unlinkPCB p o ho' =>
    obtain ⟨-, -, hthread, -⟩ := hown.pending p [] rfl
    obtain ⟨-, hview⟩ | ⟨t, ht, hne, -⟩ := view_unlink s.toObjects ho'
    · exact h.delete (turn rfl) (kin_unlink ho') hview rfl
    · exact absurd (Option.some.inj (ht.symm.trans hthread)) hne
  case freeFrames ho' =>
    exact h.goOn (turn rfl) (kin_freeFrames ho') (view_freeFrames _ ho') rfl rfl id (by simp) hk
  case freeSpace ho' =>
    exact h.goOn (turn rfl) (kin_freeSpace ho') (view_freeSpace _ ho') rfl rfl id (by simp) hk
  case killReturn =>
    exact h.goOn (turn rfl) rfl rfl rfl rfl id (by simp) (by simpa [Knows] using hk)
  case incrementPC => exact h.goOn (turn rfl) rfl rfl rfl rfl id (by simp) hk
  case ret => exact h.goOn (turn rfl) rfl rfl rfl rfl id (by simp) hk

/-- The lists of the processes that exit are empty. -/
def Childless (s : State) : Prop :=
  ∀ p t, s.kin.live p = true → s.view.threadOf p = some t → .finish ∈ s.code t →
    s.kin.children p = []

/-- Only `doExit` comes to the end of a thread. -/
lemma Rule.finish_mem (hr : Rule s st k k' es s₁)
    (hexit : st.isUser = false ∨ ∀ p ahead l, k' ≠ .mapcar p ahead :: .exitDeallocate p :: l)
    (h : .finish ∈ k') : .finish ∈ st :: k := by
  cases hr
  case exit =>
    obtain hst | hno := hexit
    · cases hst
    · exact absurd rfl (hno _ _ _)
  case control hc =>
    obtain ⟨new, rfl, hp⟩ := hc.pushes
    exact .tail _ ((List.mem_append.mp h).resolve_left hp.finish)
  case trap ht =>
    obtain ⟨new, rest, rfl, hrest, hp⟩ := ht.pushes
    have hf := (List.mem_append.mp h).resolve_left hp.finish
    obtain rfl | rfl := hrest
    · exact List.mem_cons_of_mem _ (by simpa using hf)
    · cases hf
  case clearPid p _ _ _ =>
    have hp : Pushes (.clearPid p) _ := pushes_destroyPCB s p
      (l := .forgetPid (s.pcb.get p).pid :: releaseLock .pcbManagerLock)
      (by simp [releaseLock, Stmt.inExit, Stmt.inFork]) rfl
    exact .tail _ ((List.mem_append.mp h).resolve_left hp.finish)
  case childFunction => simp at h
  case finish => exact .head _
  all_goals
    exact List.mem_cons_of_mem _ (by simpa [acquireLock, releaseLock, threadYield] using h)

/-- A step after which there are no other lists, and no thread has got another process. -/
lemma Childless.keep (h : Childless s) (turn : Turn s s₁ st k k')
    (kin : ∀ p, s₁.kin.live p = true → s₁.kin.children p = [] ∨
      s.kin.live p = true ∧ s₁.kin.children p = s.kin.children p)
    (thread : ∀ p t, s₁.view.threadOf p = some t → s.view.threadOf p = some t)
    (finish : .finish ∈ k' → .finish ∈ st :: k) : Childless (s₁.setCode s.currentThread k') := by
  intro p t hlive ht hf
  obtain hnil | ⟨hlive', hsame⟩ := kin p hlive
  · exact hnil
  · have hf' : .finish ∈ s.code t := by
      by_cases htc : t = s.currentThread
      · subst htc
        rw [code_setCode_self] at hf
        rw [turn.code]
        exact finish hf
      · rw [code_setCode_of_ne htc, turn.others t htc] at hf
        exact hf
    exact hsame.trans (h p t hlive' (thread p t ht) hf')

/-- **Every step keeps the lists of the processes that exit empty**, if they are empty at the
beginning. -/
lemma Rule.childless (hr : Rule s st k k' es s₁) (hcode : s.code s.currentThread = st :: k)
    (ho : Owned s) (hfam : Family s) (h : Childless s) {c : Choice}
    (hstep : step c s = .ok (es, s₁.setCode s.currentThread k'))
    (guard : Alone s (pidEvents c s) (s₁.setCode s.currentThread k')) :
    Childless (s₁.setCode s.currentThread k') := by
  have hexit : ExitOnly (st :: k) := by
    obtain ⟨ow, os, -, hout⟩ := ho
    exact hcode ▸ hout.exitOnly s.currentThread
  have turn := hr.turn hcode ho
  have hown := hfam.stands s.currentThread
  rw [hcode] at hown
  have hself : ∀ l, (s₁.setCode s.currentThread l).code s.currentThread = l :=
    fun l => code_setCode_self _
  have finish := hr.finish_mem
  -- a step that leaves the links alone
  have same : st.isStartChild = false → s₁.kin = s.kin → s₁.view.threadOf = s.view.threadOf →
      (.finish ∈ k' → .finish ∈ st :: k) → Childless (s₁.setCode s.currentThread k') := by
    intro hst hkin hthread hf
    refine h.keep (turn hst) (fun p hp => .inr ?_) (fun p t ht => hthread ▸ ht) hf
    rw [hkin] at hp ⊢
    exact ⟨hp, rfl⟩
  cases hr
  case control hc => exact same (by cases hc <;> rfl) rfl rfl (finish (.inl (by cases hc <;> rfl)))
  case instruction => exact same rfl rfl rfl (finish (.inr (by simp)))
  case trap ht => exact same rfl rfl rfl (finish (.inr fun p ahead l => ht.not_mapcar p ahead _))
  case exit a p status space pcb pageTable =>
    obtain ⟨-, hevent⟩ | ⟨hfalse, -⟩ := pidEvents_of_mapcar hstep hcode (hself _)
    case inr => cases hfalse
    obtain ⟨-, hnil⟩ := guard p (.inl hevent)
    obtain ⟨hlive, hthread⟩ := hown.own (not_finish (turn rfl).exitOnly rfl) (List.cons_ne_nil _ _)
      a p space pcb
    have hkin : (s.trapped.exiting p status).kin = s.kin := kin_exiting (s := s.trapped) p status
    have hthreads : (s.trapped.exiting p status).view.threadOf = s.view.threadOf := by
      rw [view_exiting]
      rfl
    intro x t hx ht hf
    have hx' : s.kin.live x = true := by
      rw [← hkin]
      exact hx
    have ht' : s.view.threadOf x = some t := by
      rw [← hthreads]
      exact ht
    refine (congrFun (congrArg Kin.children hkin) x).trans ?_
    by_cases htc : t = s.currentThread
    · -- the process that begins to exit
      subst htc
      obtain rfl := hfam.unique x p _ hx' hlive ht' hthread
      exact hnil
    · rw [code_setCode_of_ne htc, (turn rfl).others t htc] at hf
      exact h x t hx' ht' hf
  case kill p pid entry other _ =>
    obtain ⟨hfalse, -⟩ | ⟨-, hevent⟩ := pidEvents_of_mapcar hstep hcode (hself _)
    · cases hfalse
    · obtain ⟨hparent, -⟩ := guard p (.inr hevent)
      exact same rfl (kin_detach (o := s.toObjects) hparent)
        (congrArg View.threadOf (view_detach s.toObjects p)) (finish (.inr (by simp)))
  case interrupt heq => obtain rfl | rfl := heq <;> exact same rfl rfl rfl (finish (.inl rfl))
  case timeSlice heq => obtain rfl | rfl := heq <;> exact same rfl rfl rfl (finish (.inl rfl))
  case block | yield | finish =>
    exact same rfl (kin_run _) (congrArg View.threadOf (view_run ..)) (finish (.inl rfl))
  case release =>
    exact same rfl (kin_releaseOf _) (congrArg View.threadOf (view_releaseOf ..)) (finish (.inl rfl))
  case resume hs₁ =>
    obtain ⟨-, hkin⟩ := kin_afterSwitch hs₁
    have hview := congrArg View.threadOf (view_afterSwitch s hs₁)
    refine h.keep (turn rfl) (fun p hp => .inr ?_) (fun p t ht => hview ▸ ht) (finish (.inl rfl))
    obtain hkin | ⟨t, -, hkin⟩ := hkin <;> rw [hkin] at hp ⊢ <;> exact ⟨hp, rfl⟩
  case allocatePCB call p o ha =>
    obtain ⟨hp, hkin⟩ := kin_allocatePCB ha
    obtain ⟨-, hview⟩ := view_allocatePCB s.toObjects ha
    have hkin' : (s.withObjects o).kin = _ := hkin
    have hview' : (s.withObjects o).view = _ := hview
    refine h.keep (turn rfl) (fun x hx => ?_) (fun x t ht => ?_) (finish (.inl rfl))
    · rw [hkin'] at hx ⊢
      by_cases hxp : x = p
      · subst hxp
        exact .inl (Function.update_self ..)
      · exact .inr ⟨(Function.update_of_ne hxp ..).symm.trans hx, Function.update_of_ne hxp ..⟩
    · rw [hview'] at ht
      by_cases hxp : x = s.view.nextPCB
      · subst hxp
        cases (Function.update_self ..).symm.trans ht
      · exact (Function.update_of_ne hxp ..).symm.trans ht
  case saveParent =>
    exact same rfl rfl (congrArg View.threadOf (view_saveUserState s)) (finish (.inl rfl))
  case startChild call p a q pcb =>
    obtain ⟨a₀, ha₀, hq⟩ := space_of_currentPCB pcb
    have hf : .finish ∉ .startChild call p a :: k := not_finish hexit rfl
    obtain ⟨-, hqthread⟩ := hown.own hf (List.cons_ne_nil _ _) a₀ q ha₀ hq
    obtain ⟨-, hpthread, -⟩ := hown.knows _ (.head _)
    have hpq : p ≠ q := by
      rintro rfl
      cases hpthread.symm.trans hqthread
    have hkin := kin_linkChild (o := s.toObjects) a (childRegisters (call.gpr 4) s.registers) hpq
    have hview := view_linkChild s.toObjects p q a (childRegisters (call.gpr 4) s.registers)
    have hne : s.thread.next ≠ s.currentThread := Nat.ne_of_gt (ho.born hcode)
    intro x t hx ht hft
    by_cases htc : t = s.currentThread
    · -- the thread is not in `doExit`
      subst htc
      rw [code_setCode_self] at hft
      exact absurd (by simpa using hft) hf
    rw [code_setCode_of_ne htc] at hft
    have hspawn : .finish ∈ Function.update s.code s.thread.next [.threadRoot, .childFunction] t :=
      hft
    by_cases htn : t = s.thread.next
    · subst htn
      rw [Function.update_self] at hspawn
      simp at hspawn
    rw [Function.update_of_ne htn] at hspawn
    have hx' : s.kin.live x = true := (congrFun (congrArg Kin.live hkin) x).symm.trans hx
    have hxthread : Function.update s.view.threadOf p (some s.view.nextThread) x = some t :=
      (congrFun (congrArg View.threadOf hview) x).symm.trans ht
    have hxp : x ≠ p := by
      rintro rfl
      rw [Function.update_self] at hxthread
      exact htn (Option.some.inj hxthread).symm
    have ht' : s.view.threadOf x = some t := (Function.update_of_ne hxp ..).symm.trans hxthread
    have hxq : x ≠ q := by
      rintro rfl
      exact htc (Option.some.inj (ht'.symm.trans hqthread))
    refine (congrFun (congrArg Kin.children hkin) x).trans ?_
    exact (Function.update_of_ne hxq ..).trans (h x t hx' ht' hspawn)
  case orphan p c ahead _ _ =>
    have hkin : (s.withObjects (s.setPCB c fun pcb => { pcb with parent := none })).kin = _ :=
      kin_orphan (o := s.toObjects) c
    have hview := congrArg View.threadOf (view_setPCB_same s.toObjects c
      (fun pcb => { pcb with parent := none }) (fun _ => rfl) fun _ => rfl)
    refine h.keep (turn rfl) (fun x hx => .inr ?_) (fun x t ht => hview ▸ ht) (finish (.inl rfl))
    rw [hkin] at hx ⊢
    exact ⟨hx, rfl⟩
  case unlinkPCB p o ho' =>
    have hkin : (s.withObjects o).kin = _ := kin_unlink ho'
    refine h.keep (turn rfl) (fun x hx => .inr ?_) (fun x t ht => ?_) (finish (.inl rfl))
    · rw [hkin] at hx ⊢
      have hxp : x ≠ p := by
        rintro rfl
        cases (Function.update_self ..).symm.trans hx
      exact ⟨(Function.update_of_ne hxp ..).symm.trans hx, rfl⟩
    · obtain ⟨-, hview⟩ | ⟨u, -, -, hview⟩ := view_unlink s.toObjects ho'
      · exact hview ▸ ht
      · have ht' : (s.view.unlink p u).threadOf x = some t := hview ▸ ht
        have hxp : x ≠ p := by
          rintro rfl
          cases (Function.update_self ..).symm.trans ht'
        exact (Function.update_of_ne hxp ..).symm.trans ht'
  case freeFrames ho' =>
    exact same rfl (kin_freeFrames ho') (congrArg View.threadOf (view_freeFrames _ ho'))
      (finish (.inl rfl))
  case freeSpace ho' =>
    exact same rfl (kin_freeSpace ho') (congrArg View.threadOf (view_freeSpace _ ho'))
      (finish (.inl rfl))
  all_goals exact same rfl rfl rfl (finish (.inl rfl))

end Step

/-! ### Runs -/

section Runs

variable {s₀ s : State} {e : Executable} {os : List PidEvent}

/-- The first process has no links but its thread. -/
lemma kin_startProcess (h : startProcess e = .ok s₀) : s₀.kin = {
    live := Function.update (fun _ => false) 0 true
    parent := fun _ => none
    children := fun _ => []
    thread := Function.update (fun _ => false) 0 true } ∧ s₀.threadToBeDestroyed = none := by
  unfold startProcess at h
  dsimp only at h
  split at h
  · cases h
  · obtain ⟨⟨p, o⟩, hp, h⟩ := bind_eq_ok h
    obtain ⟨rfl, hkin⟩ := kin_allocatePCB hp
    cases h
    refine ⟨?_, rfl⟩
    have hlink : (o.setPCB boot.view.nextPCB fun p =>
        { p with thread := some boot.currentThread }).kin = o.kin :=
      kin_setPCB_same _ _ (fun _ => rfl) fun _ => rfl
    refine (Eq.trans ?_ (hlink.trans hkin)).trans ?_
    · rfl
    · exact congrArg₂ (fun g l => ({
        live := Function.update (fun _ => false) 0 true
        parent := g
        children := l
        thread := Function.update (fun _ => false) 0 true } : Kin))
        (Function.update_eq_self 0 (fun _ => none)) (Function.update_eq_self 0 (fun _ => []))

lemma family_startProcess (h : startProcess e = .ok s₀) : Family s₀ ∧ Childless s₀ := by
  obtain ⟨hkin, hdoomed⟩ := kin_startProcess h
  obtain ⟨hview, hcode, -⟩ := view_startProcess h
  have hlive : ∀ {p}, s₀.kin.live p = true → p = 0 := by
    intro p hp
    by_contra hne
    simp [hkin, hne] at hp
  have hparent : ∀ p, s₀.kin.parent p = none := by simp [hkin]
  have hchildren : ∀ p, s₀.kin.children p = [] := by simp [hkin]
  refine ⟨⟨?_, ?_, ?_, ?_, ?_, ?_, ?_, ?_⟩, fun p _ _ _ _ => hchildren p⟩
  · intro c q _ hq
    rw [hparent] at hq
    cases hq
  · intro p _ _ c hc
    rw [hchildren] at hc
    cases hc
  · intro p t hp ht
    rw [hlive hp, hview] at ht
    obtain rfl : 0 = t := by simpa [View.first] using ht
    simp [hkin]
  · exact fun p p' _ hp hp' _ _ => (hlive hp).trans (hlive hp').symm
  · exact fun c _ _ => hparent c
  · rw [hdoomed]
    exact fun _ _ ht => by cases ht
  · rw [hdoomed]
    exact fun _ ht => by cases ht
  · intro t
    by_cases ht : t = 0
    · subst ht
      rw [hcode, Function.update_self]
      refine ⟨trivial, fun p ahead hp => (by cases hp), fun hf => (by simp at hf),
        fun _ _ a p ha hp => ?_, by simp [Knows]⟩
      rw [hview] at ha hp ⊢
      obtain rfl : 0 = a := by simpa [View.first] using ha
      obtain rfl : 0 = p := by simpa [View.first] using hp
      simp [hkin, View.first]
    · rw [hcode, Function.update_of_ne ht]
      exact stands_nil

/-- What holds in a run, with the events `os`. -/
structure Integrity (os : List PidEvent) (s : State) : Prop where
  family : Family s
  entries : Entries os s
  joined : ∀ p, .joined p ∉ os

/-- **Every step keeps the integrity**, if it exits or kills only processes without links. -/
lemma Integrity.step {tr : List Event} {os : List PidEvent} {c : Choice} {s s' : State}
    {es : List Event} (h : Integrity os s) (hrun : Run Step s₀ tr s) (h₀ : startProcess e = .ok s₀)
    (hs : step c s = .ok (es, s')) (guard : Unattached s (pidEvents c s) s') :
    Integrity (os ++ pidEvents c s) s' := by
  have ho := owned_of_run h₀ hrun
  obtain ⟨st, k, k', s₁, hcode, hr, rfl⟩ := step_rule hs
  refine ⟨hr.family hcode ho h.family hs guard fun hst i p hp => ?_, hr.entries hcode ho h.entries c,
    fun p hp => ?_⟩
  · -- a PCB that is found has not been deleted
    obtain hlive | hjoined | ⟨k₀, hforget⟩ := h.entries.live hp
    · exact hlive
    · exact absurd hjoined (h.joined p)
    · rw [hcode, hst] at hforget
      cases hforget
  · obtain hp | hp := List.mem_append.1 hp
    · exact h.joined p hp
    · obtain ⟨status, k₀, hjoin⟩ := joined_mem hp
      have hknows := (h.family.stands s.currentThread).knows (.joinReturn status)
      rw [hjoin] at hknows
      exact hknows (.tail _ (.head _))

/-- The state of a run that keeps the integrity. -/
lemma Integrity.ties (h : Integrity os s) : TiesRight s :=
  ⟨h.family.parent, h.family.thread⟩

lemma Integrity.lists (h : Integrity os s) {p : PCBId} (hlive : s.pcb.live p = true)
    (hp : ¬ Exiting s p) : ListRight s p := by
  refine h.family.children p hlive fun t ahead hpend => hp ?_
  obtain ⟨hf, -, ht, -⟩ := (h.family.stands t).pending p ahead hpend
  exact ⟨t, ht, hf⟩


/-- The runs whose steps meet a condition on the life of the processes. -/
abbrev GuardedPidRun (G : State → List PidEvent → State → Prop) :
    State → List PidEvent → State → Prop :=
  Run (Guarded G (StepOf (observed step pidEvents)))

lemma GuardedPidRun.run {G : State → List PidEvent → State → Prop} (h : GuardedPidRun G s₀ os s) :
    ∃ tr, Run Step s₀ tr s := by
  have hrun : PidRun s₀ os s := h.of_guarded
  exact (hrun.observed_invariant (I := fun _ _ => True) trivial fun _ _ _ => trivial).1

lemma integrity_of_run (h₀ : startProcess e = .ok s₀) (h : GuardedPidRun Unattached s₀ os s) :
    Integrity os s := by
  refine h.invariant (I := Integrity) ?_ ?_
  · exact ⟨(family_startProcess h₀).1, entries_startProcess h₀, fun p hp => by cases hp⟩
  · rintro os s os' s' hrun hi ⟨⟨c, hc⟩, hguard⟩
    obtain ⟨tr, hr⟩ := GuardedPidRun.run hrun
    obtain ⟨rfl, es, hs⟩ := observed_eq_ok hc
    exact hi.step hr h₀ hs hguard

lemma childless_of_run (h₀ : startProcess e = .ok s₀) (h : GuardedPidRun Alone s₀ os s) :
    Childless s := by
  refine h.invariant (I := fun _ s => Childless s) (family_startProcess h₀).2 ?_
  rintro os s os' s' hrun hi ⟨⟨c, hc⟩, hguard⟩
  obtain ⟨tr, hr⟩ := GuardedPidRun.run hrun
  have hfam := (integrity_of_run h₀ (hrun.mono fun hs => ⟨hs.1, hs.2.unattached⟩)).family
  obtain ⟨rfl, es, hs⟩ := observed_eq_ok hc
  obtain ⟨st, k, k', s₁, hcode, hrule, rfl⟩ := step_rule hs
  exact hrule.childless hcode (owned_of_run h₀ hr) hfam hi hs hguard

/-- **The links of the processes.** In every run in which a process exits only when it has no parent,
and is killed by another one only when it has neither parent nor children, parents and threads are
right in every state, and so are the lists of all processes that are not inside `doExit`. In a run in
which a process that exits has no children either, all of the links are right in every state. -/
theorem family_of_run (h₀ : startProcess e = .ok s₀) :
    (GuardedPidRun Unattached s₀ os s →
      TiesRight s ∧ ∀ p, s.pcb.live p = true → ¬ Exiting s p → ListRight s p) ∧
    (GuardedPidRun Alone s₀ os s → FamilyRight s) := by
  refine ⟨fun h => ?_, fun h => ?_⟩
  · have hi := integrity_of_run h₀ h
    exact ⟨hi.ties, fun p => hi.lists⟩
  · have hi := integrity_of_run h₀ (h.mono fun hs => ⟨hs.1, hs.2.unattached⟩)
    have hchildless := childless_of_run h₀ h
    refine ⟨hi.ties, fun p hlive => ?_⟩
    by_cases hp : Exiting s p
    · -- the list of a process that exits is empty
      obtain ⟨t, ht, hf⟩ := hp
      have hnil : (s.pcb.get p).children = [] := hchildless p t hlive ht hf
      intro c hc
      rw [hnil] at hc
      cases hc
    · exact hi.lists hlive hp

end Runs

/-! ### A child that is joined, and a parent that exits -/

/-- After the `Join` the deleted child is still on the list of its parent. -/
theorem not_family : ¬ ∀ e s₀ os s, startProcess e = .ok s₀ → PidRun s₀ os s → FamilyRight s := by
  intro h
  obtain ⟨s₀, os, s, h₀, hr, hp⟩ := pidRun_of_startProcess small joinChoices
    (fun _ s => decide (s.pcb.live 0 = true ∧ 1 ∈ (s.pcb.get 0).children ∧ s.pcb.live 1 = false))
    (by decide +kernel)
  obtain ⟨hlive, hmem, hdeleted⟩ := of_decide_eq_true hp
  have hchild := ((h small s₀ os s h₀ hr).children 0 hlive 1 hmem).1
  rw [hdeleted] at hchild
  cases hchild

/-- Has the process no parent, and, where `both` is set, no children? -/
def hasNoLinks (both : Bool) (s : State) (p : PCBId) : Bool :=
  (s.pcb.get p).parent.isNone && (!both || (s.pcb.get p).children.isEmpty)

/-- Do the processes that exit or are killed have no links? -/
def PidEvent.detached (heirs : Bool) (s : State) : PidEvent → Bool
  | exited p => hasNoLinks (!heirs) s p
  | killed p => hasNoLinks true s p
  | joined _ => true

lemma of_hasNoLinks {both : Bool} {s : State} {p : PCBId} (h : hasNoLinks both s p = true) :
    (s.pcb.get p).parent = none ∧ (both = true → (s.pcb.get p).children = []) := by
  rw [hasNoLinks, Bool.and_eq_true, Option.isNone_iff_eq_none] at h
  refine ⟨h.1, fun hb => ?_⟩
  have hempty := h.2
  rw [hb, Bool.not_true, Bool.false_or] at hempty
  exact List.isEmpty_iff.mp hempty

lemma unattached_of_test {os : List PidEvent} {s s' : State}
    (h : os.all (PidEvent.detached true s) = true) : Unattached s os s' := by
  rw [List.all_eq_true] at h
  refine ⟨fun p hp => (of_hasNoLinks (h _ hp)).1, fun p hp => ?_⟩
  obtain ⟨hparent, hchildren⟩ := of_hasNoLinks (h _ hp)
  exact ⟨hparent, hchildren rfl⟩

lemma alone_of_test {os : List PidEvent} {s s' : State}
    (h : os.all (PidEvent.detached false s) = true) : Alone s os s' := by
  rw [List.all_eq_true] at h
  rintro p (hp | hp) <;>
  · obtain ⟨hparent, hchildren⟩ := of_hasNoLinks (h _ hp)
    exact ⟨hparent, hchildren rfl⟩

/-- The guarded runs that pass a test, from the start of a program. -/
lemma guardedPidRun_of_startProcess {G : State → List PidEvent → State → Prop} {heirs : Bool}
    (hok : ∀ {os s s'}, os.all (PidEvent.detached heirs s) = true → G s os s') (e : Executable)
    (cs : List Choice) (p : State → Bool)
    (h : (match startProcess e with
      | .ok s₀ => passesAll (observed step pidEvents)
          (fun c s => (pidEvents c s).all (PidEvent.detached heirs s)) p cs s₀
      | .error _ => false) = true) :
    ∃ s₀ os s, startProcess e = .ok s₀ ∧ GuardedPidRun G s₀ os s ∧ p s = true := by
  split at h
  next s₀ h₀ =>
    obtain ⟨os, s, hr, -, hp⟩ := run_of_passesAll (G := G) (fun _ => True)
      (fun {c s os s'} _ ht hs => by
        obtain ⟨rfl, -⟩ := observed_eq_ok hs
        exact ⟨trivial, hok ht⟩) .start trivial h
    exact ⟨s₀, os, s, h₀, hr, hp⟩
  next => cases h

/-- A parent exits before its child; before that, a process with a child. -/
theorem family_of_run_fork :
    (∃ s₀ os s, startProcess small = .ok s₀ ∧ GuardedPidRun Unattached s₀ os s ∧
      s.pcb.live 0 = false ∧ s.pcb.live 1 = true ∧ TiesRight s) ∧
    ∃ s₀ os s, startProcess small = .ok s₀ ∧ GuardedPidRun Alone s₀ os s ∧
      (s.pcb.get 0).children = [1] ∧ FamilyRight s := by
  refine ⟨?_, ?_⟩
  · obtain ⟨s₀, os, s, h₀, hr, hp⟩ := guardedPidRun_of_startProcess (G := Unattached)
      unattached_of_test small (forkCall ++ systemCall 1 7 ++ List.replicate 18 .go)
      (fun s => !s.pcb.live 0 && s.pcb.live 1) (by decide +kernel)
    rw [Bool.and_eq_true, Bool.not_eq_true'] at hp
    exact ⟨s₀, os, s, h₀, hr, hp.1, hp.2, ((family_of_run h₀).1 hr).1⟩
  · obtain ⟨s₀, os, s, h₀, hr, hp⟩ := guardedPidRun_of_startProcess (G := Alone)
      alone_of_test small forkCall (fun s => decide ((s.pcb.get 0).children = [1]))
      (by decide +kernel)
    exact ⟨s₀, os, s, h₀, hr, of_decide_eq_true hp, (family_of_run h₀).2 hr⟩

end Nachos.Process
