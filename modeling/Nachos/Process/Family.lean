import Nachos.Process.PidTable

/-!
# Parents and children

`AddChild` links two PCBs in both directions. `RemoveChild` and `decspn` cut one direction only,
and `delete joinPCB` none; the thread of a process that has exited is deleted by the next one that
runs. What is left of the links is right as long as a process exits when it has no parent, and is
killed by another one when it has neither parent nor children.

While a process exits, its list still has the children that it has given up. Those that it has not
are the ones ahead of it in its walk over the list.
-/

namespace Nachos.Process

open Lib Threads Mips Userprog

/-! ### Which call a step makes -/

section Calls

variable {s s' : State} {st : Stmt} {k k' l : List Stmt} {es : List Event} {c : Choice}
  {p : PCBId} {ahead : List PCBId}

lemma code_goto (r : State) {t : Tid} (h : r.currentThread = t) : (r.goto k).code t = k := by
  subst h
  exact Function.update_self ..

/-- The walk of `doExit`. -/
lemma doExit_mapcar {status : Word} {first : Stmt} (h : s.trapped.doExit status (first :: k) = .ok s')
    (hfirst : first ≠ .mapcar p ahead) (hcode : s'.code s.currentThread = .mapcar p ahead :: st :: l) :
    st = .exitDeallocate p ∧ .exited p ∈ s.exitEvents := by
  unfold State.doExit at h
  split at h
  · cases h
  next a ha =>
    split at h
    · cases h
      have hcode' := (code_goto s.trapped rfl).symm.trans hcode
      exact absurd (List.cons.inj hcode').1 hfirst
    next ht =>
      split at h
      · cases h
      next q hq =>
        cases h
        have hcode' := (code_goto (s.trapped.exiting q status)
          (currentThread_exiting (s := s.trapped) q status)).symm.trans hcode
        obtain ⟨hmapcar, hrest⟩ := List.cons.inj hcode'
        obtain ⟨rfl, -⟩ := Stmt.mapcar.inj hmapcar
        refine ⟨(List.cons.inj hrest).1.symm, ?_⟩
        have ha' : s.currentSpace = some a := ha
        obtain ⟨pages, hpages⟩ := Option.ne_none_iff_exists'.1 ht
        have hpages' : (s.space.get a).pageTable = some pages := hpages
        have hq' : (s.space.get a).pcb = some q := hq
        simp [State.exitEvents, ha', hpages', hq']

/-- The walk of `doKill`. -/
lemma doKill_mapcar {pid : Word} (h : s.trapped.doKill pid (.tick :: k) = .ok s')
    (hcode : s'.code s.currentThread = .mapcar p ahead :: st :: l) :
    (st = .exitDeallocate p ∧ s.getPCB pid = .ok (some p) ∧ s.currentPCB = .ok (some p) ∧
      .exited p ∈ s.exitEvents) ∨
    st = .killReturn p ∧ s.getPCB pid = .ok (some p) ∧ ∃ self, s.currentPCB = .ok self ∧
      self ≠ some p := by
  obtain ⟨entry, he, h⟩ := bind_eq_ok h
  cases entry with
  | none =>
    cases h
    have hcode' := (code_goto s.trapped rfl).symm.trans hcode
    cases hcode'
  | some q =>
    obtain ⟨self, hself, h⟩ := bind_eq_ok h
    split at h
    next heq =>
      obtain ⟨hst, hexit⟩ := doExit_mapcar h (fun heq => by cases heq) hcode
      have hpq : q = p := by
        subst heq
        have hcur : s.currentPCB = .ok (some q) := hself
        unfold State.exitEvents at hexit
        unfold Objects.currentPCB at hcur
        split at hexit
        · cases hexit
        next a ha =>
          rw [ha] at hcur
          split at hexit
          next pages p' _ hp' =>
            cases List.mem_singleton.mp hexit
            have hq : (s.space.get a).pcb = some q := Except.ok.inj hcur
            exact Option.some.inj (hq.symm.trans hp')
          next => cases hexit
      subst hpq
      exact .inl ⟨hst, he, heq ▸ hself, hexit⟩
    next hne =>
      cases h
      have hcode' := (code_goto (s.trapped.withObjects (s.trapped.detach q))
        (currentThread_detach q)).symm.trans hcode
      obtain ⟨hmapcar, hrest⟩ := List.cons.inj hcode'
      obtain ⟨rfl, -⟩ := Stmt.mapcar.inj hmapcar
      exact .inr ⟨(List.cons.inj hrest).1.symm, he, self, hself, hne⟩

lemma Trap.not_mapcar (ht : Trap s (.tick :: k) k') : ∀ p ahead l, k' ≠ .mapcar p ahead :: l := by
  intro p ahead l
  cases ht <;> simp [deleteSpace, acquireLock, threadYield]

/-- **A walk over the children starts in an `Exit` or in a `Kill`.** -/
lemma pidEvents_of_mapcar (hstep : step c s = .ok (es, s'))
    (hcode : s.code s.currentThread = .user :: k)
    (hcode' : s'.code s.currentThread = .mapcar p ahead :: st :: l) :
    (st = .exitDeallocate p ∧ .exited p ∈ pidEvents c s) ∨
      (st = .killReturn p ∧ .killed p ∈ pidEvents c s) := by
  unfold step at hstep
  rw [hcode] at hstep
  have hs := (quiet_eq_ok hstep).2
  have trap : (∃ k', Trap s.trapped (.tick :: .user :: k) k' ∧ s' = s.trapped.goto k') → False := by
    rintro ⟨k', ht, rfl⟩
    exact ht.not_mapcar p ahead _ ((code_goto s.trapped rfl).symm.trans hcode')
  cases c with
  | instruction r =>
    cases hs
    have hcode'' := (code_goto { s with registers := r } rfl).symm.trans hcode'
    cases hcode''
  | go | interrupt | timeSlice => cases hs
  | syscall e =>
    have hcall : pidEvents (.syscall e) s = s.callEvents := by
      unfold pidEvents
      rw [hcode]
    rw [hcall]
    have hs' : s.trapped.exceptionHandler e (.tick :: .user :: k) = .ok s' := hs
    unfold State.exceptionHandler at hs'
    unfold State.callEvents State.callNumber
    have hnum : ((raised s.registers).gpr 2).toNat = (s.trapped.registers.gpr 2).toNat := rfl
    rw [hnum]
    dsimp only at hs'
    split at hs'
    · cases hs'
    next h1 =>
      obtain ⟨hst, he⟩ := doExit_mapcar hs' (fun heq => by cases heq) hcode'
      rw [h1]
      exact .inl ⟨hst, he⟩
    next h2 => exact (trap (doExec_rule hs' h2)).elim
    next h3 => exact (trap (doJoin_rule hs')).elim
    next h4 =>
      cases hs'
      exact (trap ⟨_, .create, rfl⟩).elim
    next h9 => exact (trap (doFork_rule hs')).elim
    next h10 => exact (trap (doYield_rule hs')).elim
    next h11 =>
      rw [h11]
      obtain ⟨hst, hentry, hself, hexit⟩ | ⟨hst, hentry, self, hself, hne⟩ := doKill_mapcar hs' hcode'
      · have hentry' : s.getPCB s.callArg = .ok (some p) := hentry
        refine .inl ⟨hst, ?_⟩
        simpa [hentry', hself] using hexit
      · have hentry' : s.getPCB s.callArg = .ok (some p) := hentry
        refine .inr ⟨hst, ?_⟩
        simp [hentry', hself, hne]
    next => cases hs'

/-- The PCB of a thread is that of its address space. -/
lemma space_of_currentPCB {o : Objects} (h : o.currentPCB = .ok (some p)) :
    ∃ a, o.currentSpace = some a ∧ (o.space.get a).pcb = some p := by
  unfold Objects.currentPCB at h
  split at h
  · cases h
  next a ha => exact ⟨a, ha, Except.ok.inj h⟩

end Calls

/-! ### The links -/

/-- The links between the PCBs, and the threads that have not been deleted. -/
structure Kin where
  live : PCBId → Bool
  parent : PCBId → Option PCBId
  children : PCBId → List PCBId
  thread : Tid → Bool

def Objects.kin (o : Objects) : Kin where
  live := o.pcb.live
  parent p := (o.pcb.get p).parent
  children p := (o.pcb.get p).children
  thread := o.thread.live

section Kin

variable {s s₁ : State} {o o' : Objects}

lemma kin_setPCB (p : PCBId) (f : PCB → PCB) :
    (o.setPCB p f).kin = { o.kin with
      parent := Function.update o.kin.parent p (f (o.pcb.get p)).parent
      children := Function.update o.kin.children p (f (o.pcb.get p)).children } := by
  have hparent : (o.setPCB p f).kin.parent =
      Function.update o.kin.parent p (f (o.pcb.get p)).parent := by
    funext q
    show ((o.pcb.modify p f).get q).parent = _
    rw [Heap.get_modify, Function.update_apply]
    split
    next h => rw [h]
    next => rfl
  have hchildren : (o.setPCB p f).kin.children =
      Function.update o.kin.children p (f (o.pcb.get p)).children := by
    funext q
    show ((o.pcb.modify p f).get q).children = _
    rw [Heap.get_modify, Function.update_apply]
    split
    next h => rw [h]
    next => rfl
  exact congrArg₂ (fun g h => { o.kin with parent := g, children := h }) hparent hchildren

/-- An assignment to a PCB that leaves the links alone. -/
lemma kin_setPCB_same (p : PCBId) (f : PCB → PCB) (hp : ∀ pcb, (f pcb).parent = pcb.parent)
    (hc : ∀ pcb, (f pcb).children = pcb.children) : (o.setPCB p f).kin = o.kin := by
  rw [kin_setPCB, hp, hc]
  exact congrArg₂ (fun g h => { o.kin with parent := g, children := h })
    (Function.update_eq_self ..) (Function.update_eq_self ..)

lemma kin_removeThread (t : Option Tid) : (o.removeThread t).kin = o.kin := by
  cases t <;> rfl

lemma kin_run (next : Tid) : (s.run next).kin = s.kin := by
  unfold State.run
  dsimp only
  split <;> rfl

lemma kin_releaseOf (l : LockName) : (s.releaseOf l).kin = s.kin := by
  unfold State.releaseOf
  split
  · split <;> rfl
  · rfl

lemma threadToBeDestroyed_run (next : Tid) :
    (s.run next).threadToBeDestroyed = s.threadToBeDestroyed := by
  unfold State.run
  dsimp only
  split <;> rfl

lemma threadToBeDestroyed_releaseOf (l : LockName) :
    (s.releaseOf l).threadToBeDestroyed = s.threadToBeDestroyed := by
  unfold State.releaseOf
  split
  · split <;> rfl
  · rfl

/-- The thread that is to be destroyed is deleted. -/
lemma kin_afterSwitch (h : s.afterSwitch = .ok s₁) : s₁.threadToBeDestroyed = none ∧
    (s₁.kin = s.kin ∨ ∃ t, s.threadToBeDestroyed = some t ∧
      s₁.kin = { s.kin with thread := Function.update s.kin.thread t false }) := by
  unfold State.afterSwitch at h
  dsimp only at h
  split at h
  next hnone =>
    cases h
    split
    · exact ⟨hnone, .inl rfl⟩
    · exact ⟨hnone, .inl rfl⟩
  next t ht =>
    split at h
    · cases h
    · cases h
      split
      · exact ⟨rfl, .inr ⟨t, ht, rfl⟩⟩
      · exact ⟨rfl, .inr ⟨t, ht, rfl⟩⟩

lemma kin_detach {p : PCBId} (h : (o.pcb.get p).parent = none) : (o.detach p).kin = o.kin := by
  unfold Objects.detach
  have hparent : ((o.removeThread (o.pcb.get p).thread).pcb.get p).parent = none := by
    cases (o.pcb.get p).thread <;> exact h
  dsimp only
  rw [hparent]
  exact kin_removeThread _

lemma kin_exiting (p : PCBId) (status : Word) : (s.exiting p status).kin = s.kin := by
  rw [State.exiting]
  show (Objects.removeThread _ _).kin = _
  rw [kin_removeThread]
  exact kin_setPCB_same (o := s.toObjects) _ _ (fun _ => rfl) fun _ => rfl

lemma kin_freeFrames {a : SpaceId} (h : o.freeFrames a = .ok o') : o'.kin = o.kin := by
  unfold Objects.freeFrames at h
  split at h
  · cases h
  · obtain ⟨mm, -, h⟩ := bind_eq_ok h
    cases h
    rfl

lemma kin_freeSpace {a : SpaceId} (h : o.freeSpace a = .ok o') : o'.kin = o.kin := by
  unfold Objects.freeSpace at h
  split at h
  · cases h
    rfl
  · cases h

/-- A new PCB has no links. -/
lemma kin_allocatePCB {p : PCBId} (h : o.allocatePCB = .ok (p, o')) : p = o.view.nextPCB ∧
    o'.kin = {
      live := Function.update o.kin.live p true
      parent := Function.update o.kin.parent p none
      children := Function.update o.kin.children p []
      thread := o.kin.thread } := by
  unfold Objects.allocatePCB at h
  split at h
  · cases h
  · cases h
    refine ⟨rfl, ?_⟩
    exact congrArg₂ (fun g h => ({
      live := Function.update o.pcb.live o.pcb.next true
      parent := g
      children := h
      thread := o.thread.live } : Kin))
      (comp_update PCB.parent o.pcb.get o.pcb.next _)
      (comp_update PCB.children o.pcb.get o.pcb.next _)

/-- `AddChild`, in both directions. -/
lemma kin_linkChild {p q : PCBId} (a : SpaceId) (r : Registers) (hpq : p ≠ q) :
    (o.linkChild p q a r).2.kin = {
      live := o.kin.live
      parent := Function.update o.kin.parent p (some q)
      children := Function.update o.kin.children q (o.kin.children q ++ [p])
      thread := Function.update o.kin.thread o.view.nextThread true } := by
  unfold Objects.linkChild
  dsimp only
  rw [kin_setPCB, kin_setPCB, Kin.mk.injEq]
  have hget : (o.pcb.modify p fun pcb =>
      { pcb with thread := some o.thread.next, parent := some q }).get q = o.pcb.get q :=
    Heap.get_modify_of_ne hpq.symm
  refine ⟨rfl, ?_, ?_, rfl⟩
  · -- the assignment to the children leaves the parent alone
    rw [Function.update_eq_iff]
    refine ⟨?_, fun x hx => rfl⟩
    rw [Function.update_of_ne hpq.symm]
    exact (congrArg (fun pcb : PCB => pcb.parent) hget :)
  · refine congrArg₂ (fun (g : PCBId → List PCBId) (l : List PCBId) =>
      Function.update g q (l ++ [p])) ?_ (congrArg (fun pcb : PCB => pcb.children) hget :)
    exact Function.update_eq_self p o.kin.children

/-- `delete pcb` ends the life of one PCB. -/
lemma kin_unlink {p : PCBId} (h : (o.unlink p).freePCB p = .ok o') :
    o'.kin = { o.kin with live := Function.update o.kin.live p false } := by
  have hunlink : (o.unlink p).kin = o.kin := by
    unfold Objects.unlink
    split
    · rfl
    · rw [kin_setPCB_same, kin_removeThread]
      · rfl
      · exact fun _ => rfl
      · exact fun _ => rfl
  unfold Objects.freePCB at h
  split at h
  next =>
    cases h
    exact congrArg (fun κ : Kin => { κ with live := Function.update κ.live p false }) hunlink
  next => cases h

/-- The child that is ahead in the walk loses its parent. -/
lemma kin_orphan (c : PCBId) : (o.setPCB c fun pcb => { pcb with parent := none }).kin =
    { o.kin with parent := Function.update o.kin.parent c none } := by
  rw [kin_setPCB]
  exact congrArg (fun h => { o.kin with parent := Function.update o.kin.parent c none, children := h })
    (Function.update_eq_self ..)

end Kin

/-! ### What the statements say about the links -/

/-- The PCB that a thread is to delete, with the children ahead of it. -/
def pending : List Stmt → Option (PCBId × List PCBId)
  | [] => none
  | .mapcar p (c :: ahead) :: _ => some (p, c :: ahead)
  | .exitDeallocate p :: _ => some (p, [])
  | .clearPid p :: _ => some (p, [])
  | .unlinkPCB p :: _ => some (p, [])
  | _ :: k => pending k

/-- A PCB is deleted once, after the walk over its children; the end of a thread is the last
statement. -/
def Tidy : List Stmt → Prop
  | [] => True
  | .mapcar p (_ :: _) :: k => pending k = some (p, []) ∧ Tidy k
  | .exitDeallocate _ :: k => pending k = none ∧ Tidy k
  | .clearPid _ :: k => pending k = none ∧ Tidy k
  | .unlinkPCB _ :: k => pending k = none ∧ Tidy k
  | .finish :: k => k = []
  | _ :: k => Tidy k

/-- What a statement of the thread `t` says about the PCBs that it names. -/
def Knows (κ : Kin) (v : View) (t : Tid) : Stmt → Prop
  | .load _ p => κ.live p = true ∧ v.threadOf p = some t
  | .saveParent _ p | .copySpace _ p | .startChild _ p _ =>
    κ.live p = true ∧ v.threadOf p = none ∧ κ.parent p = none ∧ κ.children p = []
  | .joinWait j => κ.live j = true ∧ ∃ q, κ.parent j = some q ∧ v.threadOf q = some t
  | .destroyPCB _ | .joinReturn _ => False
  | _ => True

/-- **The code of a thread agrees with the links.** -/
structure Stands (κ : Kin) (v : View) (t : Tid) (l : List Stmt) : Prop where
  tidy : Tidy l
  pending : ∀ p ahead, pending l = some (p, ahead) → .finish ∈ l ∧ κ.live p = true ∧
    v.threadOf p = some t ∧ κ.parent p = none ∧ ahead.Nodup ∧
      ∀ c, c ∈ ahead ↔ κ.live c = true ∧ κ.parent c = some p
  /-- A thread that has deleted its PCB has none. -/
  ended : .finish ∈ l → Process.pending l = none → ∀ p, κ.live p = true → v.threadOf p ≠ some t
  /-- One that is not in `doExit` has that of its address space. -/
  own : .finish ∉ l → l ≠ [] → ∀ a p, v.spaceOf t = some a → v.pcbOf a = some p →
    κ.live p = true ∧ v.threadOf p = some t
  knows : ∀ st ∈ l, Knows κ v t st

/-- **The links of a running system.** -/
structure Family (s : State) : Prop where
  parent : ∀ c q, s.kin.live c = true → s.kin.parent c = some q →
    s.kin.live q = true ∧ (s.kin.children q).count c = 1
  children : ∀ p, s.kin.live p = true → (∀ t ahead, pending (s.code t) ≠ some (p, ahead)) →
    ∀ c ∈ s.kin.children p, s.kin.live c = true ∧ s.kin.parent c = some p
  thread : ∀ p t, s.kin.live p = true → s.view.threadOf p = some t → s.kin.thread t = true
  unique : ∀ p p' t, s.kin.live p = true → s.kin.live p' = true →
    s.view.threadOf p = some t → s.view.threadOf p' = some t → p = p'
  exited : ∀ c, s.kin.live c = true → s.view.exited c = true → s.kin.parent c = none
  doomed : ∀ t p, s.threadToBeDestroyed = some t → s.kin.live p = true → s.view.threadOf p ≠ some t
  born : ∀ t, s.threadToBeDestroyed = some t → t < s.view.nextThread
  stands : ∀ t, Stands s.kin s.view t (s.code t)

section Code

variable {s s₁ : State} {st : Stmt} {k k' l : List Stmt} {es : List Event} {κ κ' : Kin}
  {v v' : View} {t : Tid} {p : PCBId} {ahead : List PCBId}

/-- A thread without code is in no family. -/
lemma stands_nil : Stands κ v t [] where
  tidy := trivial
  pending p ahead hp := by cases hp
  ended hf := by cases hf
  own _ hl := absurd rfl hl
  knows st hst := by cases hst

/-- The thread goes on, and has as much to do as before. -/
lemma Stands.goOn (h : Stands κ v t l) (hpending : Process.pending k' = Process.pending l)
    (tidy : Tidy l → Tidy k') (finish : .finish ∈ k' ↔ .finish ∈ l) (hl : l ≠ [])
    (knows : ∀ st' ∈ k', Knows κ v t st') : Stands κ v t k' where
  tidy := tidy h.tidy
  pending p ahead hp := by
    obtain ⟨hf, hrest⟩ := h.pending p ahead (hpending ▸ hp)
    exact ⟨finish.2 hf, hrest⟩
  ended hf hp := h.ended (finish.1 hf) (hpending ▸ hp)
  own hf _ := h.own (fun h => hf (finish.2 h)) hl
  knows := knows

/-- The code of a thread in user mode that starts anew. -/
lemma Stands.anew (h : Stands κ v t l) (hl : l ≠ []) (hf : .finish ∉ l)
    (hpending : Process.pending k' = none) (tidy : Tidy k') (finish : .finish ∉ k')
    (knows : ∀ st' ∈ k', Knows κ v t st') : Stands κ v t k' where
  tidy := tidy
  pending p ahead hp := by
    rw [hpending] at hp
    cases hp
  ended h := absurd h finish
  own _ _ := h.own hf hl
  knows := knows

def Stmt.isStartChild : Stmt → Bool
  | .startChild _ _ _ => true
  | _ => false

/-- The PCB that a `Fork` is making. -/
def Stmt.made : Stmt → Option PCBId
  | .saveParent _ p | .copySpace _ p | .startChild _ p _ => some p
  | _ => none

/-- **Non-interference**: the code of a thread agrees with other links, in which its own are the
same. -/
lemma Stands.mono (h : Stands κ v t l)
    (mine : ∀ p, κ.live p = true → v.threadOf p = some t →
      κ'.live p = true ∧ v'.threadOf p = some t ∧ (κ.parent p = none → κ'.parent p = none))
    (family : ∀ p ahead, Process.pending l = some (p, ahead) → κ.live p = true →
      v.threadOf p = some t → ∀ c,
        (κ'.live c = true ∧ κ'.parent c = some p ↔ κ.live c = true ∧ κ.parent c = some p))
    (back : ∀ p, κ'.live p = true → v'.threadOf p = some t →
      κ.live p = true ∧ v.threadOf p = some t)
    (space : ∀ a p, v'.spaceOf t = some a → v'.pcbOf a = some p →
      v.spaceOf t = some a ∧ v.pcbOf a = some p)
    (made : ∀ st ∈ l, ∀ p, st.made = some p → κ.live p = true → v.threadOf p = none →
      κ.parent p = none → κ.children p = [] → κ'.live p = true ∧ v'.threadOf p = none ∧
        κ'.parent p = none ∧ κ'.children p = [])
    (joins : ∀ j q, .joinWait j ∈ l → κ.live j = true → κ.parent j = some q →
      v.threadOf q = some t → κ'.live j = true ∧ κ'.parent j = some q ∧ v'.threadOf q = some t) :
    Stands κ' v' t l where
  tidy := h.tidy
  pending p ahead hp := by
    obtain ⟨hf, hlive, ht, hparent, hnodup, hahead⟩ := h.pending p ahead hp
    obtain ⟨hlive', ht', hparent'⟩ := mine p hlive ht
    exact ⟨hf, hlive', ht', hparent' hparent, hnodup,
      fun c => (hahead c).trans (family p ahead hp hlive ht c).symm⟩
  ended hf hp p hlive ht := by
    obtain ⟨hlive, ht⟩ := back p hlive ht
    exact h.ended hf hp p hlive ht
  own hf hl a p ha hp := by
    obtain ⟨ha, hp⟩ := space a p ha hp
    obtain ⟨hlive, ht⟩ := h.own hf hl a p ha hp
    obtain ⟨hlive', ht', -⟩ := mine p hlive ht
    exact ⟨hlive', ht'⟩
  knows st hst := by
    have hk := h.knows st hst
    cases st
    case load e p =>
      obtain ⟨hlive', ht', -⟩ := mine p hk.1 hk.2
      exact ⟨hlive', ht'⟩
    case saveParent | copySpace | startChild =>
      exact made _ hst _ rfl hk.1 hk.2.1 hk.2.2.1 hk.2.2.2
    case joinWait j =>
      obtain ⟨hlive, q, hparent, ht⟩ := hk
      obtain ⟨hlive', hparent', ht'⟩ := joins j q hst hlive hparent ht
      exact ⟨hlive', q, hparent', ht'⟩
    case destroyPCB | joinReturn => exact hk
    all_goals trivial

/-- Other address spaces, as far as the code names its PCB by its own. -/
lemma Stands.spaces (h : Stands κ v t l) (threadOf : v'.threadOf = v.threadOf)
    (own : .finish ∉ l → l ≠ [] → ∀ a p, v'.spaceOf t = some a → v'.pcbOf a = some p →
      κ.live p = true ∧ v.threadOf p = some t) : Stands κ v' t l where
  tidy := h.tidy
  pending := by
    rw [threadOf]
    exact h.pending
  ended := by
    rw [threadOf]
    exact h.ended
  own := by
    rw [threadOf]
    exact own
  knows st hst := by
    have hk := h.knows st hst
    cases st
    case load | saveParent | copySpace | startChild | joinWait =>
      rw [Knows, threadOf]
      exact hk
    case destroyPCB | joinReturn => exact hk
    all_goals trivial

/-- One step of a walk over the children, as the machine does it. -/
lemma step_mapcar {c : Choice} {x : PCBId} {s' : State}
    (hcode : s.code s.currentThread = .mapcar p (x :: ahead) :: k)
    (h : step c s = .ok (es, s')) : s' = s.execMapcar p (x :: ahead) k := by
  unfold step at h
  rw [hcode] at h
  have h' : Except.ok (([] : List Event), s.execMapcar p (x :: ahead) k) = .ok (es, s') := h
  cases h'
  rfl

lemma step_exitDeallocate {c : Choice} {s' : State}
    (hcode : s.code s.currentThread = .exitDeallocate p :: k) (hparent : s.kin.parent p = none)
    (h : step c s = .ok (es, s')) : s' = s.goto (deallocatePCB p ++ k) := by
  unfold step at h
  rw [hcode] at h
  have h' : Except.ok (([] : List Event), s.goto
      (if (s.pcb.get p).parent = none then deallocatePCB p ++ k else k)) = .ok (es, s') := h
  cases h'
  rw [if_pos (show (s.pcb.get p).parent = none from hparent)]

/-- A thread in user mode is not in `doExit`. -/
lemma not_finish {b : Stmt} (h : ExitOnly (b :: k)) (hb : b.inExit = false) : .finish ∉ b :: k := by
  intro hf
  have := h hf b (.head _)
  rw [hb] at this
  cases this

end Code

section Step

variable {s s₁ : State} {st : Stmt} {k k' : List Stmt} {es : List Event}

/-- What a step leaves alone, and what it needs. -/
structure Turn (s s₁ : State) (st : Stmt) (k k' : List Stmt) : Prop where
  code : s.code s.currentThread = st :: k
  others : ∀ t, t ≠ s.currentThread → s₁.code t = s.code t
  exitOnly : ExitOnly (st :: k)

lemma Turn.stands (h : Turn s s₁ st k k') {κ : Kin} {v : View}
    (own : Stands κ v s.currentThread k')
    (others : ∀ t, t ≠ s.currentThread → Stands κ v t (s.code t)) (t : Tid) :
    Stands κ v t ((s₁.setCode s.currentThread k').code t) := by
  by_cases ht : t = s.currentThread
  · rw [ht, code_setCode_self]
    exact own
  · rw [code_setCode_of_ne ht, h.others t ht]
    exact others t ht

/-- A PCB that no thread is to delete now, none was to delete before. -/
lemma Turn.not_pending (h : Turn s s₁ st k k') {p : PCBId}
    (keep : ∀ ahead, pending (st :: k) = some (p, ahead) → ∃ ahead', pending k' = some (p, ahead'))
    (hp : ∀ t ahead, pending ((s₁.setCode s.currentThread k').code t) ≠ some (p, ahead)) :
    ∀ t ahead, pending (s.code t) ≠ some (p, ahead) := by
  intro t ahead hpending
  by_cases ht : t = s.currentThread
  · subst ht
    rw [h.code] at hpending
    obtain ⟨ahead', hnew⟩ := keep ahead hpending
    exact hp s.currentThread ahead' (by rw [code_setCode_self]; exact hnew)
  · exact hp t ahead (by rw [code_setCode_of_ne ht, h.others t ht]; exact hpending)

/-- A step that leaves the links alone. -/
lemma Family.same (h : Family s) (turn : Turn s s₁ st k k') (kin : s₁.kin = s.kin)
    (view : s₁.view = s.view) (doomed : s₁.threadToBeDestroyed = s.threadToBeDestroyed)
    (own : Stands s.kin s.view s.currentThread k')
    (keep : ∀ p ahead, pending (st :: k) = some (p, ahead) →
      ∃ ahead', pending k' = some (p, ahead')) : Family (s₁.setCode s.currentThread k') := by
  have hkin : (s₁.setCode s.currentThread k').kin = s.kin := kin
  have hview : (s₁.setCode s.currentThread k').view = s.view := view
  refine ⟨?_, ?_, ?_, ?_, ?_, ?_, ?_, ?_⟩
  · rw [hkin]
    exact h.parent
  · rw [hkin]
    exact fun p hlive hp => h.children p hlive (turn.not_pending (keep p) hp)
  · rw [hkin, hview]
    exact h.thread
  · rw [hkin, hview]
    exact h.unique
  · rw [hkin, hview]
    exact h.exited
  · rw [hkin, hview]
    exact fun t p ht => h.doomed t p (doomed ▸ ht)
  · rw [hview]
    exact fun t ht => h.born t (doomed ▸ ht)
  · rw [hkin, hview]
    exact turn.stands own fun t _ => h.stands t

/-- A step that leaves the links alone, after which the thread has as much to do as before. -/
lemma Family.goOn (h : Family s) (turn : Turn s s₁ st k k') (kin : s₁.kin = s.kin)
    (view : s₁.view = s.view) (doomed : s₁.threadToBeDestroyed = s.threadToBeDestroyed)
    (hpending : pending k' = pending (st :: k)) (tidy : Tidy (st :: k) → Tidy k')
    (finish : .finish ∈ k' ↔ .finish ∈ st :: k)
    (knows : ∀ st' ∈ k', Knows s.kin s.view s.currentThread st') :
    Family (s₁.setCode s.currentThread k') := by
  have hown := h.stands s.currentThread
  rw [turn.code] at hown
  exact h.same turn kin view doomed
    (hown.goOn hpending tidy finish (List.cons_ne_nil _ _) knows)
    fun p ahead hp => ⟨ahead, hpending ▸ hp⟩

/-- A control statement. -/
lemma Control.family (hc : Control s st k k') (h : Family s) {c : Choice}
    (hstep : step c s = .ok (es, s.setCode s.currentThread k'))
    (turn : Turn s s st k k') : Family (s.setCode s.currentThread k') := by
  have hown := h.stands s.currentThread
  rw [turn.code] at hown
  obtain ⟨hst, hk⟩ := List.forall_mem_cons.mp hown.knows
  have goOn := fun hpending tidy finish knows =>
    h.goOn turn rfl rfl rfl hpending tidy finish knows
  cases hc
  case tick | threadRoot | yield | mapcarNil | exitSpaceGone =>
    exact goOn rfl id (by simp) hk
  case copySpace => exact goOn rfl id (by simp) (by simpa [Knows] using hk)
  case mapcarExited p x ahead child exited =>
    -- a child that has exited has no parent
    obtain ⟨-, -, -, -, -, hahead⟩ := hown.pending p (x :: ahead) rfl
    obtain ⟨hlive, hparent⟩ := (hahead x).1 (.head _)
    rw [h.exited x hlive exited] at hparent
    cases hparent
  case mapcarGone p x ahead =>
    obtain ⟨-, -, -, -, -, hahead⟩ := hown.pending p (x :: ahead) rfl
    obtain ⟨hlive, hparent⟩ := (hahead x).1 (.head _)
    have hchild : x ∈ (s.pcb.get p).children :=
      List.count_pos_iff.1 (show 0 < (s.kin.children p).count x by
        rw [(h.parent x p hlive hparent).2]
        exact Nat.one_pos)
    have halive : ¬ (s.pcb.get x).hasExited = true := by
      intro hexited
      rw [h.exited x hlive hexited] at hparent
      cases hparent
    have hs := step_mapcar turn.code hstep
    rw [State.execMapcar, if_pos hchild, if_neg halive] at hs
    have hnone : (s.pcb.get x).parent = none := by
      have := congrArg (fun s : State => (s.pcb.get x).parent) hs
      simpa [State.setCode, State.goto, State.withObjects, Objects.setPCB] using this
    rw [show s.kin.parent x = none from hnone] at hparent
    cases hparent
  case exitDeallocate p _ =>
    exact goOn rfl id (by simp [deallocatePCB, acquireLock])
      (by simpa [deallocatePCB, acquireLock, Knows] using hk)
  case exitParent p =>
    obtain ⟨-, -, -, hparent, -⟩ := hown.pending p [] rfl
    have hs := step_exitDeallocate turn.code hparent hstep
    have hcode := congrArg (fun s : State => (s.code s.currentThread).length) hs
    simp [State.setCode, State.goto, deallocatePCB, acquireLock] at hcode
    omega
  case exitSpace =>
    exact goOn (by simp [deleteSpace, acquireLock, releaseLock, pending])
      (by simp [deleteSpace, acquireLock, releaseLock, Tidy])
      (by simp [deleteSpace, acquireLock, releaseLock])
      (by simpa [deleteSpace, acquireLock, releaseLock, Knows] using hk)
  case destroyPCB => exact hst.elim
  case joinExited j exited =>
    obtain ⟨hlive, q, hparent, -⟩ := hst
    rw [h.exited j hlive exited] at hparent
    cases hparent
  case joinWait j =>
    exact goOn (by simp [threadYield, pending]) (by simp [threadYield, Tidy])
      (by simp [threadYield]) (by simpa [threadYield, Knows] using ⟨hst, hk⟩)
  case joinReturn => exact hst.elim

/-- A system call that changes no data. -/
lemma Trap.family (ht : Trap s.trapped (.tick :: .user :: k) k') (h : Family s)
    (turn : Turn s s.trapped .user k k')
    (hlive : ∀ i p, s.pcbs i = some p → s.pcb.live p = true) :
    Family (s.trapped.setCode s.currentThread k') := by
  have hown := h.stands s.currentThread
  rw [turn.code] at hown
  have hf : .finish ∉ .user :: k := not_finish turn.exitOnly rfl
  obtain ⟨-, hk⟩ := List.forall_mem_cons.mp hown.knows
  have goOn := fun hpending tidy finish knows =>
    h.goOn turn rfl rfl rfl hpending tidy finish knows
  have anew := fun hpending tidy finish knows =>
    h.same turn rfl rfl rfl
      (hown.anew (List.cons_ne_nil _ _) hf hpending tidy finish knows)
      fun p ahead hp => absurd (hown.pending p ahead hp).1 hf
  cases ht
  case exitGone => exact goOn rfl id (by simp) (by simpa [Knows] using hk)
  case execFail => exact anew rfl trivial (by simp) (by simp [Knows])
  case exec a e p space pcb _ =>
    have hp := hown.own hf (List.cons_ne_nil _ _) a p space pcb
    exact anew rfl trivial (by simp [deleteSpace, acquireLock, releaseLock])
      (by simpa [deleteSpace, acquireLock, releaseLock, Knows] using hp)
  case fail => exact goOn rfl id (by simp) (by simpa [Knows] using hk)
  case join j p pid entry pcb parent =>
    obtain ⟨a, ha, hp⟩ := space_of_currentPCB (o := s.toObjects) pcb
    have hj : s.pcb.live j = true := by
      have hentry : s.getPCB pid = .ok (some j) := entry
      unfold Objects.getPCB at hentry
      split at hentry
      · exact hlive _ j (Except.ok.inj hentry)
      · cases hentry
    obtain ⟨-, ht⟩ := hown.own hf (List.cons_ne_nil _ _) a p ha hp
    refine goOn rfl id (by simp) (List.forall_mem_cons.mpr ⟨⟨hj, p, parent, ht⟩, ?_⟩)
    simpa [Knows] using hk
  case create => exact goOn rfl id (by simp) (by simpa [Knows] using hk)
  case fork =>
    exact goOn rfl id (by simp [acquireLock]) (by simpa [acquireLock, Knows] using hk)
  case yield => exact goOn rfl id (by simp [threadYield]) (by simpa [threadYield, Knows] using hk)
  case killSelfGone => exact goOn rfl id (by simp) (by simpa [Knows] using hk)

/-- The steps that change the address spaces only: those of the other threads stay. -/
lemma Family.spaces (h : Family s) (turn : Turn s s₁ st k k') (kin : s₁.kin = s.kin)
    (threadOf : s₁.view.threadOf = s.view.threadOf) (exited : s₁.view.exited = s.view.exited)
    (next : s.view.nextThread ≤ s₁.view.nextThread)
    (doomed : s₁.threadToBeDestroyed = s.threadToBeDestroyed)
    (others : ∀ t a p, t ≠ s.currentThread → s₁.view.spaceOf t = some a →
      s₁.view.pcbOf a = some p → s.view.spaceOf t = some a ∧ s.view.pcbOf a = some p)
    (own : Stands s.kin s₁.view s.currentThread k')
    (keep : ∀ p ahead, pending (st :: k) = some (p, ahead) →
      ∃ ahead', pending k' = some (p, ahead')) : Family (s₁.setCode s.currentThread k') := by
  have hkin : (s₁.setCode s.currentThread k').kin = s.kin := kin
  have hview : (s₁.setCode s.currentThread k').view = s₁.view := rfl
  refine ⟨?_, ?_, ?_, ?_, ?_, ?_, ?_, ?_⟩
  · rw [hkin]
    exact h.parent
  · rw [hkin]
    exact fun p hlive hp => h.children p hlive (turn.not_pending (keep p) hp)
  · rw [hkin, hview, threadOf]
    exact h.thread
  · rw [hkin, hview, threadOf]
    exact h.unique
  · rw [hkin, hview, exited]
    exact h.exited
  · rw [hkin, hview, threadOf]
    exact fun t p ht => h.doomed t p (doomed ▸ ht)
  · exact fun t ht => Nat.lt_of_lt_of_le (h.born t (doomed ▸ ht)) next
  · rw [hkin, hview]
    refine turn.stands own fun t ht => (h.stands t).spaces threadOf fun hf hl a p ha hp => ?_
    obtain ⟨ha, hp⟩ := others t a p ht ha hp
    exact (h.stands t).own hf hl a p ha hp

/-- A process without a parent begins to exit. -/
lemma Family.exit (h : Family s) {p : PCBId} {a : SpaceId} {b : Bool} {rest : List Stmt}
    (turn : Turn s s₁ .user k (.mapcar p (s.kin.children p) :: .exitDeallocate p :: rest))
    (hrest : rest = [.exitSpace, .finish]) (kin : s₁.kin = s.kin)
    (view : s₁.view = s.view.exit p b) (doomed : s₁.threadToBeDestroyed = s.threadToBeDestroyed)
    (space : s.view.spaceOf s.currentThread = some a) (pcb : s.view.pcbOf a = some p)
    (parent : s.kin.parent p = none) : Family (s₁.setCode s.currentThread
      (.mapcar p (s.kin.children p) :: .exitDeallocate p :: rest)) := by
  subst hrest
  have hown := h.stands s.currentThread
  rw [turn.code] at hown
  have hf : .finish ∉ .user :: k := not_finish turn.exitOnly rfl
  obtain ⟨hlive, hthread⟩ := hown.own hf (List.cons_ne_nil _ _) a p space pcb
  -- no other thread is to delete the PCB
  have hfree : ∀ t ahead, pending (s.code t) ≠ some (p, ahead) := by
    intro t ahead hp
    obtain ⟨hft, -, ht, -⟩ := (h.stands t).pending p ahead hp
    obtain rfl : s.currentThread = t := Option.some.inj (hthread.symm.trans ht)
    rw [turn.code] at hft
    exact hf hft
  have hpending : pending (.mapcar p (s.kin.children p) :: .exitDeallocate p ::
      [.exitSpace, .finish]) = some (p, s.kin.children p) := by
    cases s.kin.children p <;> rfl
  have hchildren : ∀ c, c ∈ s.kin.children p ↔ s.kin.live c = true ∧ s.kin.parent c = some p := by
    refine fun c => ⟨h.children p hlive hfree c, fun hc => List.count_pos_iff.1 ?_⟩
    rw [(h.parent c p hc.1 hc.2).2]
    exact Nat.one_pos
  have hnodup : (s.kin.children p).Nodup := by
    refine List.nodup_iff_count_le_one.2 fun c => ?_
    by_cases hc : c ∈ s.kin.children p
    · obtain ⟨hc₁, hc₂⟩ := (hchildren c).1 hc
      exact Nat.le_of_eq (h.parent c p hc₁ hc₂).2
    · rw [List.count_eq_zero_of_not_mem hc]
      exact Nat.zero_le 1
  have hkin : (s₁.setCode s.currentThread (.mapcar p (s.kin.children p) :: .exitDeallocate p ::
    [.exitSpace, .finish])).kin = s.kin := kin
  have hview : (s₁.setCode s.currentThread (.mapcar p (s.kin.children p) :: .exitDeallocate p ::
    [.exitSpace, .finish])).view = s.view.exit p b := view
  refine ⟨?_, ?_, ?_, ?_, ?_, ?_, ?_, ?_⟩
  · rw [hkin]
    exact h.parent
  · rw [hkin]
    refine fun q hq hnone => h.children q hq (turn.not_pending (fun ahead hp => ?_) hnone)
    exact absurd (hown.pending q ahead hp).1 hf
  · rw [hkin, hview]
    exact h.thread
  · rw [hkin, hview]
    exact h.unique
  · rw [hkin, hview]
    intro c hc hexited
    by_cases hcp : c = p
    · rw [hcp]
      exact parent
    · exact h.exited c hc ((Function.update_of_ne hcp ..).symm.trans hexited)
  · rw [hkin, hview]
    exact fun t q ht => h.doomed t q (doomed ▸ ht)
  · rw [hview]
    exact fun t ht => h.born t (doomed ▸ ht)
  · rw [hkin, hview]
    refine turn.stands ⟨?_, ?_, ?_, ?_, ?_⟩ fun t _ => ?_
    · cases s.kin.children p
      · exact ⟨rfl, rfl⟩
      · exact ⟨rfl, rfl, rfl⟩
    · intro q ahead hq
      rw [hpending] at hq
      cases hq
      exact ⟨by simp, hlive, hthread, parent, hnodup, hchildren⟩
    · intro _ hnone
      rw [hpending] at hnone
      cases hnone
    · exact fun hnot => absurd (by simp) hnot
    · simp [Knows]
    · exact (h.stands t).mono (fun q hq ht => ⟨hq, ht, id⟩) (fun _ _ _ _ _ _ => Iff.rfl)
        (fun q hq ht => ⟨hq, ht⟩) (fun a q ha hq => ⟨ha, hq⟩)
        (fun _ _ q _ h₁ h₂ h₃ h₄ => ⟨h₁, h₂, h₃, h₄⟩) fun j q _ h₁ h₂ h₃ => ⟨h₁, h₂, h₃⟩

/-- A new PCB is in no family. -/
lemma Family.newPCB (h : Family s) {p : PCBId} (turn : Turn s s₁ st k k')
    (fresh : s.kin.live p = false) (hp : p = s.view.nextPCB) (kin : s₁.kin = {
      live := Function.update s.kin.live p true
      parent := Function.update s.kin.parent p none
      children := Function.update s.kin.children p []
      thread := s.kin.thread }) (view : s₁.view = s.view.newPCB)
    (doomed : s₁.threadToBeDestroyed = s.threadToBeDestroyed)
    (hpending : pending k' = pending (st :: k)) (tidy : Tidy (st :: k) → Tidy k')
    (finish : .finish ∈ k' ↔ .finish ∈ st :: k)
    (made : ∀ st' ∈ k', st' ∈ k ∨ st'.made = some p ∨ ∀ κ v, Knows κ v s.currentThread st') :
    Family (s₁.setCode s.currentThread k') := by
  have hown := h.stands s.currentThread
  rw [turn.code] at hown
  have ne : ∀ {q}, s.kin.live q = true → q ≠ p := by
    rintro q hq rfl
    rw [fresh] at hq
    cases hq
  have hlive : ∀ {q}, q ≠ p → s₁.kin.live q = s.kin.live q := fun hq => by
    rw [kin]
    exact Function.update_of_ne hq ..
  have hparent : ∀ {q}, q ≠ p → s₁.kin.parent q = s.kin.parent q := fun hq => by
    rw [kin]
    exact Function.update_of_ne hq ..
  have hchildren : ∀ {q}, q ≠ p → s₁.kin.children q = s.kin.children q := fun hq => by
    rw [kin]
    exact Function.update_of_ne hq ..
  have hthread : ∀ {q}, q ≠ p → s₁.view.threadOf q = s.view.threadOf q := fun hq => by
    rw [view]
    exact Function.update_of_ne (hp ▸ hq) ..
  have hexited : ∀ {q}, q ≠ p → s₁.view.exited q = s.view.exited q := fun hq => by
    rw [view]
    exact Function.update_of_ne (hp ▸ hq) ..
  have hnew : s₁.kin.live p = true ∧ s₁.kin.parent p = none ∧ s₁.kin.children p = [] ∧
      s₁.view.threadOf p = none := by
    rw [kin, view, hp]
    exact ⟨Function.update_self .., Function.update_self .., Function.update_self ..,
      Function.update_self ..⟩
  have old : ∀ {q}, s₁.kin.live q = true → (s₁.kin.parent q ≠ none ∨ s₁.view.threadOf q ≠ none) →
      q ≠ p ∧ s.kin.live q = true := by
    intro q hq hlinked
    have hqp : q ≠ p := by
      rintro rfl
      exact hlinked.elim (fun hn => hn hnew.2.1) fun hn => hn hnew.2.2.2
    exact ⟨hqp, hlive hqp ▸ hq⟩
  have hspace : s₁.view.spaceOf = s.view.spaceOf ∧ s₁.view.pcbOf = s.view.pcbOf := by
    rw [view]
    exact ⟨rfl, rfl⟩
  -- what the code of a thread says stays
  have mono : ∀ t l, Stands s.kin s.view t l → Stands s₁.kin s₁.view t l := by
    intro t l hl
    refine hl.mono (fun q hq ht => ?_) (fun q _ _ hq ht c => ?_) (fun q hq ht => ?_)
      (fun a q ha hq => ?_) (fun _ _ q _ h₁ h₂ h₃ h₄ => ?_) fun j q _ h₁ h₂ h₃ => ?_
    · rw [hlive (ne hq), hthread (ne hq), hparent (ne hq)]
      exact ⟨hq, ht, id⟩
    · by_cases hc : c = p
      · subst hc
        rw [hnew.2.1]
        exact iff_of_false (fun hc => by cases hc.2) fun hc => ne hc.1 rfl
      · rw [hlive hc, hparent hc]
    · obtain ⟨hqp, hq⟩ := old hq (.inr (by rw [ht]; exact Option.some_ne_none t))
      exact ⟨hq, hthread hqp ▸ ht⟩
    · rw [hspace.1] at ha
      rw [hspace.2] at hq
      exact ⟨ha, hq⟩
    · rw [hlive (ne h₁), hthread (ne h₁), hparent (ne h₁), hchildren (ne h₁)]
      exact ⟨h₁, h₂, h₃, h₄⟩
    · have hq := ne (h.parent j q h₁ h₂).1
      rw [hlive (ne h₁), hparent (ne h₁), hthread hq]
      exact ⟨h₁, h₂, h₃⟩
  have hkin : (s₁.setCode s.currentThread k').kin = s₁.kin := rfl
  have hview : (s₁.setCode s.currentThread k').view = s₁.view := rfl
  refine ⟨?_, ?_, ?_, ?_, ?_, ?_, ?_, ?_⟩
  · rw [hkin]
    intro c q hc hq
    obtain ⟨hcp, hc'⟩ := old hc (.inl (by rw [hq]; exact Option.some_ne_none q))
    rw [hparent hcp] at hq
    obtain ⟨hlive', hcount⟩ := h.parent c q hc' hq
    rw [hlive (ne hlive'), hchildren (ne hlive')]
    exact ⟨hlive', hcount⟩
  · rw [hkin]
    intro q hq hnone c hc
    by_cases hqp : q = p
    · subst hqp
      rw [hnew.2.2.1] at hc
      cases hc
    · rw [hlive hqp] at hq
      rw [hchildren hqp] at hc
      have hold := turn.not_pending (fun ahead ha => ⟨ahead, hpending ▸ ha⟩) hnone
      obtain ⟨hc₁, hc₂⟩ := h.children q hq hold c hc
      rw [hlive (ne hc₁), hparent (ne hc₁)]
      exact ⟨hc₁, hc₂⟩
  · rw [hkin, hview]
    intro q t hq ht
    obtain ⟨hqp, hq⟩ := old hq (.inr (by rw [ht]; exact Option.some_ne_none t))
    rw [kin]
    exact h.thread q t hq (hthread hqp ▸ ht)
  · rw [hkin, hview]
    intro q q' t hq hq' ht ht'
    obtain ⟨hqp, hq⟩ := old hq (.inr (by rw [ht]; exact Option.some_ne_none t))
    obtain ⟨hqp', hq'⟩ := old hq' (.inr (by rw [ht']; exact Option.some_ne_none t))
    exact h.unique q q' t hq hq' (hthread hqp ▸ ht) (hthread hqp' ▸ ht')
  · rw [hkin, hview]
    intro c hc hex
    by_cases hcp : c = p
    · rw [hcp]
      exact hnew.2.1
    · rw [hparent hcp]
      exact h.exited c (hlive hcp ▸ hc) (hexited hcp ▸ hex)
  · rw [hkin, hview]
    intro t q ht hq htq
    obtain ⟨hqp, hq⟩ := old hq (.inr (by rw [htq]; exact Option.some_ne_none t))
    exact h.doomed t q (doomed ▸ ht) hq (hthread hqp ▸ htq)
  · rw [hview, view]
    exact fun t ht => h.born t (doomed ▸ ht)
  · rw [hkin, hview]
    refine turn.stands ?_ fun t _ => mono t _ (h.stands t)
    refine (mono _ _ hown).goOn hpending tidy finish (List.cons_ne_nil _ _) fun st' hst => ?_
    obtain hst | hmade | hall := made st' hst
    · exact (mono _ _ hown).knows st' (.tail _ hst)
    · cases st' <;> cases hmade <;> exact ⟨hnew.1, hnew.2.2.2, hnew.2.1, hnew.2.2.1⟩
    · exact hall _ _

/-- The child that is ahead in the walk loses its parent. -/
lemma Family.orphan (h : Family s) {p c : PCBId} {ahead : List PCBId}
    (turn : Turn s s₁ (.mapcar p (c :: ahead)) k (.mapcar p ahead :: k))
    (kin : s₁.kin = { s.kin with parent := Function.update s.kin.parent c none })
    (view : s₁.view = s.view) (doomed : s₁.threadToBeDestroyed = s.threadToBeDestroyed) :
    Family (s₁.setCode s.currentThread (.mapcar p ahead :: k)) := by
  have hown := h.stands s.currentThread
  rw [turn.code] at hown
  obtain ⟨hf, hlive, hthread, hnone, hnodup, hahead⟩ := hown.pending p (c :: ahead) rfl
  obtain ⟨hc, hparent⟩ := (hahead c).1 (.head _)
  have hother : ∀ {q}, q ≠ c → s₁.kin.parent q = s.kin.parent q := fun hq => by
    rw [kin]
    exact Function.update_of_ne hq ..
  have hself : s₁.kin.parent c = none := by
    rw [kin]
    exact Function.update_self ..
  have hlive' : s₁.kin.live = s.kin.live := by rw [kin]
  have hchildren : s₁.kin.children = s.kin.children := by rw [kin]
  have hnew : pending (.mapcar p ahead :: k) = some (p, ahead) := by
    cases ahead with
    | nil => exact hown.tidy.1
    | cons => rfl
  have linked : ∀ {x q}, s₁.kin.parent x = some q → x ≠ c ∧ s.kin.parent x = some q := by
    intro x q hx
    have hxc : x ≠ c := by
      rintro rfl
      rw [hself] at hx
      cases hx
    exact ⟨hxc, hother hxc ▸ hx⟩
  have keep : ∀ {q}, s.kin.parent q = none → s₁.kin.parent q = none := by
    intro q hq
    by_cases hqc : q = c
    · rw [hqc]
      exact hself
    · rw [hother hqc]
      exact hq
  -- the child is ahead of no other thread, and no other thread waits for it
  have foreign : ∀ {t q}, t ≠ s.currentThread → s.view.threadOf q = some t → q ≠ p := by
    rintro t q ht hq rfl
    exact ht (Option.some.inj (hq.symm.trans hthread))
  have hkin : (s₁.setCode s.currentThread (.mapcar p ahead :: k)).kin = s₁.kin := rfl
  have hview : (s₁.setCode s.currentThread (.mapcar p ahead :: k)).view = s.view := view
  refine ⟨?_, ?_, ?_, ?_, ?_, ?_, ?_, ?_⟩
  · rw [hkin, hlive', hchildren]
    intro x q hx hq
    exact h.parent x q hx (linked hq).2
  · rw [hkin, hlive', hchildren]
    intro q hq hfree x hx
    have hqp : q ≠ p := by
      rintro rfl
      exact hfree s.currentThread ahead (by rw [code_setCode_self]; exact hnew)
    have hold : ∀ t a, pending (s.code t) ≠ some (q, a) := turn.not_pending (fun a ha => by
      cases ha
      exact absurd rfl hqp) hfree
    obtain ⟨hx₁, hx₂⟩ := h.children q hq hold x hx
    have hxc : x ≠ c := by
      rintro rfl
      exact hqp (Option.some.inj (hx₂.symm.trans hparent))
    exact ⟨hx₁, (hother hxc).trans hx₂⟩
  · rw [hkin, hview, hlive']
    rw [kin]
    exact h.thread
  · rw [hkin, hview, hlive']
    exact h.unique
  · rw [hkin, hview, hlive']
    exact fun x hx hex => keep (h.exited x hx hex)
  · rw [hkin, hview, hlive']
    exact fun t q ht => h.doomed t q (doomed ▸ ht)
  · rw [hview]
    exact fun t ht => h.born t (doomed ▸ ht)
  · rw [hkin, hview]
    refine turn.stands ⟨?_, ?_, ?_, ?_, ?_⟩ fun t ht => ?_
    · cases ahead with
      | nil => exact hown.tidy.2
      | cons => exact hown.tidy
    · intro q a hq
      rw [hnew] at hq
      cases hq
      refine ⟨by simpa using hf, hlive' ▸ hlive, hthread, keep hnone, (List.nodup_cons.1 hnodup).2,
        fun x => ?_⟩
      constructor
      · intro hx
        obtain ⟨hx₁, hx₂⟩ := (hahead x).1 (.tail _ hx)
        have hxc : x ≠ c := fun heq => (List.nodup_cons.1 hnodup).1 (heq ▸ hx)
        exact ⟨hlive' ▸ hx₁, (hother hxc).trans hx₂⟩
      · rintro ⟨hx₁, hx₂⟩
        obtain ⟨hxc, hx₂⟩ := linked hx₂
        exact ((List.mem_cons.1 ((hahead x).2 ⟨hlive' ▸ hx₁, hx₂⟩)).resolve_left hxc)
    · intro _ hnone'
      rw [hnew] at hnone'
      cases hnone'
    · exact fun hnot => absurd (by simpa using hf) hnot
    · have hex := turn.exitOnly (by simpa using hf)
      intro st' hst
      obtain rfl | hst := List.mem_cons.1 hst
      · trivial
      · have hin := hex st' (.tail _ hst)
        cases st' <;> trivial
    · refine (h.stands t).mono (fun q hq hqt => ⟨hlive' ▸ hq, hqt, keep⟩) (fun q _ _ hq hqt x => ?_)
        (fun q hq hqt => ⟨hlive' ▸ hq, hqt⟩) (fun a q ha hq => ⟨ha, hq⟩)
        (fun _ _ q _ h₁ h₂ h₃ h₄ => ⟨hlive' ▸ h₁, h₂, keep h₃, hchildren ▸ h₄⟩)
        fun j q _ h₁ h₂ h₃ => ⟨hlive' ▸ h₁, ?_, h₃⟩
      · rw [hlive']
        refine and_congr_right fun _ => ⟨fun hx => (linked hx).2, fun hx => ?_⟩
        have hxc : x ≠ c := by
          rintro rfl
          exact foreign ht hqt (Option.some.inj (hx.symm.trans hparent))
        exact (hother hxc).trans hx
      · have hjc : j ≠ c := by
          rintro rfl
          exact foreign ht h₃ (Option.some.inj (h₂.symm.trans hparent))
        exact (hother hjc).trans h₂

/-- A process without a parent deletes its PCB. -/
lemma Family.delete (h : Family s) {p : PCBId} (turn : Turn s s₁ (.unlinkPCB p) k k)
    (kin : s₁.kin = { s.kin with live := Function.update s.kin.live p false })
    (view : s₁.view = s.view) (doomed : s₁.threadToBeDestroyed = s.threadToBeDestroyed) :
    Family (s₁.setCode s.currentThread k) := by
  have hown := h.stands s.currentThread
  rw [turn.code] at hown
  obtain ⟨hf, hlive, hthread, hnone, -, hahead⟩ := hown.pending p [] rfl
  have hf' : .finish ∈ k := by simpa using hf
  have hk : pending k = none := hown.tidy.1
  have still : ∀ {q}, s₁.kin.live q = true ↔ q ≠ p ∧ s.kin.live q = true := by
    intro q
    rw [kin]
    by_cases hq : q = p
    · subst hq
      simp
    · simp [hq]
  have hparent : s₁.kin.parent = s.kin.parent := by rw [kin]
  have hchildren : s₁.kin.children = s.kin.children := by rw [kin]
  -- nobody is left whose parent it is
  have nobody : ∀ {c q}, s.kin.live c = true → s.kin.parent c = some q → c ≠ p ∧ q ≠ p := by
    intro c q hc hq
    refine ⟨?_, ?_⟩
    · rintro rfl
      rw [hnone] at hq
      cases hq
    · rintro rfl
      exact List.not_mem_nil ((hahead c).2 ⟨hc, hq⟩)
  have foreign : ∀ {t q}, t ≠ s.currentThread → s.view.threadOf q = some t → q ≠ p := by
    rintro t q ht hq rfl
    exact ht (Option.some.inj (hq.symm.trans hthread))
  have hkin : (s₁.setCode s.currentThread k).kin = s₁.kin := rfl
  have hview : (s₁.setCode s.currentThread k).view = s.view := view
  refine ⟨?_, ?_, ?_, ?_, ?_, ?_, ?_, ?_⟩
  · rw [hkin, hparent, hchildren]
    intro c q hc hq
    obtain ⟨-, hc⟩ := still.1 hc
    obtain ⟨hq', hcount⟩ := h.parent c q hc hq
    exact ⟨still.2 ⟨(nobody hc hq).2, hq'⟩, hcount⟩
  · rw [hkin, hparent, hchildren]
    intro q hq hfree c hc
    obtain ⟨hqp, hq⟩ := still.1 hq
    have hold : ∀ t a, pending (s.code t) ≠ some (q, a) := turn.not_pending (fun a ha => by
      cases ha
      exact absurd rfl hqp) hfree
    obtain ⟨hc₁, hc₂⟩ := h.children q hq hold c hc
    exact ⟨still.2 ⟨(nobody hc₁ hc₂).1, hc₁⟩, hc₂⟩
  · rw [hkin, hview]
    intro q t hq ht
    have hq' := h.thread q t (still.1 hq).2 ht
    rwa [kin]
  · rw [hkin, hview]
    exact fun q q' t hq hq' => h.unique q q' t (still.1 hq).2 (still.1 hq').2
  · rw [hkin, hview, hparent]
    exact fun c hc => h.exited c (still.1 hc).2
  · rw [hkin, hview]
    exact fun t q ht hq => h.doomed t q (doomed ▸ ht) (still.1 hq).2
  · rw [hview]
    exact fun t ht => h.born t (doomed ▸ ht)
  · rw [hkin, hview]
    refine turn.stands ⟨hown.tidy.2, ?_, ?_, ?_, ?_⟩ fun t ht => ?_
    · intro q a hq
      rw [hk] at hq
      cases hq
    · intro _ _ q hq ht
      obtain ⟨hqp, hq⟩ := still.1 hq
      exact hqp (h.unique q p _ hq hlive ht hthread)
    · exact fun hnot => absurd hf' hnot
    · have hex := turn.exitOnly hf
      intro st' hst
      have hin := hex st' (.tail _ hst)
      cases st' <;> trivial
    · refine (h.stands t).mono (fun q hq hqt => ⟨still.2 ⟨foreign ht hqt, hq⟩, hqt, ?_⟩)
        (fun q _ _ hq hqt c => ?_) (fun q hq hqt => ⟨(still.1 hq).2, hqt⟩)
        (fun a q ha hq => ⟨ha, hq⟩) (fun _ _ q _ h₁ h₂ h₃ h₄ => ⟨still.2 ⟨?_, h₁⟩, h₂, ?_, ?_⟩)
        fun j q _ h₁ h₂ h₃ => ⟨still.2 ⟨(nobody h₁ h₂).1, h₁⟩, hparent ▸ h₂, h₃⟩
      · rw [hparent]
        exact id
      · rw [hparent]
        exact ⟨fun hc => ⟨(still.1 hc.1).2, hc.2⟩,
          fun hc => ⟨still.2 ⟨(nobody hc.1 hc.2).1, hc.1⟩, hc.2⟩⟩
      · rintro rfl
        rw [hthread] at h₂
        cases h₂
      · rwa [hparent]
      · rwa [hchildren]

/-- A thread is at its end. -/
lemma Family.finish (h : Family s) (turn : Turn s s₁ .finish k []) (kin : s₁.kin = s.kin)
    (view : s₁.view = s.view) (doomed : s₁.threadToBeDestroyed = some s.currentThread)
    (born : s.currentThread < s.view.nextThread) :
    Family (s₁.setCode s.currentThread []) := by
  have hown := h.stands s.currentThread
  rw [turn.code] at hown
  obtain rfl : k = [] := hown.tidy
  have hover := hown.ended (.head _) rfl
  have hkin : (s₁.setCode s.currentThread []).kin = s.kin := kin
  have hview : (s₁.setCode s.currentThread []).view = s.view := view
  refine ⟨?_, ?_, ?_, ?_, ?_, ?_, ?_, ?_⟩
  · rw [hkin]
    exact h.parent
  · rw [hkin]
    refine fun p hlive hp => h.children p hlive (turn.not_pending (fun ahead ha => ?_) hp)
    cases ha
  · rw [hkin, hview]
    exact h.thread
  · rw [hkin, hview]
    exact h.unique
  · rw [hkin, hview]
    exact h.exited
  · rw [hkin, hview]
    intro t p ht hp
    have ht' : some s.currentThread = some t := doomed.symm.trans ht
    cases ht'
    exact hover p hp
  · rw [hview]
    intro t ht
    have ht' : some s.currentThread = some t := doomed.symm.trans ht
    cases ht'
    exact born
  · rw [hkin, hview]
    exact turn.stands stands_nil fun t _ => h.stands t

/-- The thread that was at its end is deleted. -/
lemma Family.resume (h : Family s) (turn : Turn s s₁ .resume k k) (view : s₁.view = s.view)
    (doomed : s₁.threadToBeDestroyed = none)
    (kin : s₁.kin = s.kin ∨ ∃ t, s.threadToBeDestroyed = some t ∧
      s₁.kin = { s.kin with thread := Function.update s.kin.thread t false }) :
    Family (s₁.setCode s.currentThread k) := by
  have hown := h.stands s.currentThread
  rw [turn.code] at hown
  have hown' : Stands s.kin s.view s.currentThread k := by
    by_cases hk : k = []
    · subst hk
      exact stands_nil
    · exact hown.goOn rfl id (by simp) (List.cons_ne_nil _ _) fun st' hst => hown.knows st' (.tail _ hst)
  have hlive : s₁.kin.live = s.kin.live ∧ s₁.kin.parent = s.kin.parent ∧
      s₁.kin.children = s.kin.children := by
    obtain hkin | ⟨t, -, hkin⟩ := kin <;> rw [hkin] <;> exact ⟨rfl, rfl, rfl⟩
  obtain ⟨hlive, hparent, hchildren⟩ := hlive
  have hkin : (s₁.setCode s.currentThread k).kin = s₁.kin := rfl
  have hview : (s₁.setCode s.currentThread k).view = s.view := view
  have mono : ∀ t l, Stands s.kin s.view t l → Stands s₁.kin s.view t l := by
    intro t l hl
    refine hl.mono (fun q hq ht => ?_) (fun q _ _ _ _ c => ?_) (fun q hq ht => ?_)
      (fun a q ha hq => ⟨ha, hq⟩) (fun _ _ q _ h₁ h₂ h₃ h₄ => ?_) fun j q _ h₁ h₂ h₃ => ?_
    · rw [hlive, hparent]
      exact ⟨hq, ht, id⟩
    · rw [hlive, hparent]
    · exact ⟨hlive ▸ hq, ht⟩
    · rw [hlive, hparent, hchildren]
      exact ⟨h₁, h₂, h₃, h₄⟩
    · rw [hlive, hparent]
      exact ⟨h₁, h₂, h₃⟩
  refine ⟨?_, ?_, ?_, ?_, ?_, ?_, ?_, ?_⟩
  · rw [hkin, hlive, hparent, hchildren]
    exact h.parent
  · rw [hkin, hlive, hparent, hchildren]
    exact fun p hp hfree => h.children p hp (turn.not_pending (fun a ha => ⟨a, ha⟩) hfree)
  · rw [hkin, hview, hlive]
    intro p t hp ht
    have hold := h.thread p t hp ht
    obtain hkin | ⟨u, hu, hkin⟩ := kin
    · rwa [hkin]
    · rw [hkin]
      have htu : t ≠ u := by
        rintro rfl
        exact h.doomed t p hu hp ht
      exact (Function.update_of_ne htu ..).trans hold
  · rw [hkin, hview, hlive]
    exact h.unique
  · rw [hkin, hview, hlive, hparent]
    exact h.exited
  · intro t p ht
    cases doomed.symm.trans ht
  · intro t ht
    cases doomed.symm.trans ht
  · rw [hkin, hview]
    exact turn.stands (mono _ _ hown') fun t _ => mono t _ (h.stands t)

/-- A `Fork` links the child to its parent, and to a new thread. -/
lemma Family.link (h : Family s) (ho : Owned s) {call : Registers} {p q : PCBId} {a a₀ : SpaceId}
    {n : Tid} (hn : n = s.view.nextThread)
    (hcode : s.code s.currentThread = .startChild call p a :: k)
    (space : s.view.spaceOf s.currentThread = some a₀) (pcb : s.view.pcbOf a₀ = some q)
    (kin : p ≠ q → s₁.kin = {
      live := s.kin.live
      parent := Function.update s.kin.parent p (some q)
      children := Function.update s.kin.children q (s.kin.children q ++ [p])
      thread := Function.update s.kin.thread n true }) (view : s₁.view = s.view.link p a)
    (doomed : s₁.threadToBeDestroyed = s.threadToBeDestroyed)
    (code : s₁.code = Function.update s.code n [.threadRoot, .childFunction]) :
    Family (s₁.setCode s.currentThread (.tick :: .forkReturn call p :: k)) := by
  obtain ⟨ow, os, hp, hout⟩ := ho
  have hown := h.stands s.currentThread
  rw [hcode] at hown
  have hex := hout.exitOnly s.currentThread
  rw [hcode] at hex
  have hf : .finish ∉ .startChild call p a :: k := not_finish hex rfl
  obtain ⟨hplive, hpthread, hpparent, hpchildren⟩ := hown.knows _ (.head _)
  obtain ⟨hqlive, hqthread⟩ := hown.own hf (List.cons_ne_nil _ _) a₀ q space pcb
  have hpq : p ≠ q := by
    rintro rfl
    rw [hpthread] at hqthread
    cases hqthread
  replace kin := kin hpq
  -- the new thread is not that of any PCB
  have hnlive : s.kin.thread n = false := by
    rw [hn]
    exact s.thread.not_live_next
  have hnew : ∀ {x}, s.kin.live x = true → s.view.threadOf x ≠ some n := by
    intro x hx ht
    have hlive := h.thread x n hx ht
    rw [hnlive] at hlive
    cases hlive
  have hun : s.currentThread ≠ n := by
    rintro heq
    exact hnew hqlive (heq ▸ hqthread)
  -- the `Fork` owns the PCB and the space
  obtain ⟨⟨-, how⟩, -, hos⟩ : (p < s.view.nextPCB ∧ ow p = (s.currentThread, true)) ∧
      a < s.view.nextSpace ∧ os a = (s.currentThread, true) := by
    have hst : .startChild call p a ∈ s.code s.currentThread := by
      rw [hcode]
      exact .head _
    exact hout.stmt hst
  have hexited : s.view.exited p = false := by
    refine Bool.eq_false_of_not_eq_true fun hx => ?_
    have := (hp.exited hx).2
    rw [how] at this
    cases this
  have hspace : ∀ {t}, s.view.spaceOf t ≠ some a := by
    intro t ht
    have := (hp.space ht).2
    rw [hos] at this
    cases this
  have hlive : s₁.kin.live = s.kin.live := by rw [kin]
  have hparent : ∀ {x}, x ≠ p → s₁.kin.parent x = s.kin.parent x := fun hx => by
    rw [kin]
    exact Function.update_of_ne hx ..
  have hparent' : s₁.kin.parent p = some q := by
    rw [kin]
    exact Function.update_self ..
  have hchildren : ∀ {x}, x ≠ q → s₁.kin.children x = s.kin.children x := fun hx => by
    rw [kin]
    exact Function.update_of_ne hx ..
  have hchildren' : s₁.kin.children q = s.kin.children q ++ [p] := by
    rw [kin]
    exact Function.update_self ..
  have hthread : ∀ {x}, x ≠ p → s₁.view.threadOf x = s.view.threadOf x := fun hx => by
    rw [view]
    exact Function.update_of_ne hx ..
  have hthread' : s₁.view.threadOf p = some n := by
    rw [view, hn]
    exact Function.update_self ..
  have hmine : ∀ {x t}, s.view.threadOf x = some t → x ≠ p := by
    rintro x t hx rfl
    rw [hpthread] at hx
    cases hx
  -- the parent is not in `doExit`
  have hfree : ∀ t ahead, pending (s.code t) ≠ some (q, ahead) := by
    intro t ahead hpend
    obtain ⟨hft, -, ht, -⟩ := (h.stands t).pending q ahead hpend
    obtain rfl : s.currentThread = t := Option.some.inj (hqthread.symm.trans ht)
    rw [hcode] at hft
    exact hf hft
  have hcount : (s.kin.children q).count p = 0 := by
    refine List.count_eq_zero_of_not_mem fun hmem => ?_
    have := (h.children q hqlive hfree p hmem).2
    rw [hpparent] at this
    cases this
  have others : ∀ {t}, t ≠ s.currentThread → t ≠ n →
      (s₁.setCode s.currentThread (.tick :: .forkReturn call p :: k)).code t = s.code t := by
    intro t ht htn
    rw [code_setCode_of_ne ht, code]
    exact Function.update_of_ne htn ..
  -- what the code of a thread says stays
  have mono : ∀ t l, t ≠ n → (∀ st' ∈ l, st'.made ≠ some p) →
      (∀ x ahead, pending l = some (x, ahead) → t ≠ s.currentThread) →
      Stands s.kin s.view t l → Stands s₁.kin s₁.view t l := by
    intro t l htn hmade hpend hl
    refine hl.mono (fun x hx ht => ?_) (fun x ahead ha hx ht c => ?_) (fun x hx ht => ?_)
      (fun b x hb hx => ?_) (fun st' hst x hmake h₁ h₂ h₃ h₄ => ?_) fun j x hj h₁ h₂ h₃ => ?_
    · rw [hlive, hthread (hmine ht), hparent (hmine ht)]
      exact ⟨hx, ht, id⟩
    · rw [hlive]
      by_cases hc : c = p
      · have hxq : q ≠ x := by
          rintro rfl
          exact hpend q ahead ha (Option.some.inj (ht.symm.trans hqthread))
        rw [hc, hparent', hpparent]
        exact iff_of_false (fun hx' => hxq (Option.some.inj hx'.2)) fun hx' => by cases hx'.2
      · rw [hparent hc]
    · have hxp : x ≠ p := by
        rintro rfl
        exact htn (Option.some.inj (ht.symm.trans hthread'))
      exact ⟨hlive ▸ hx, hthread hxp ▸ ht⟩
    · rw [view] at hb hx
      have hb' : s.view.spaceOf t = some b := (Function.update_of_ne (hn ▸ htn) ..).symm.trans hb
      have hba : b ≠ a := by
        rintro rfl
        exact hspace hb'
      exact ⟨hb', (Function.update_of_ne hba ..).symm.trans hx⟩
    · have hxp : x ≠ p := by
        rintro rfl
        exact hmade st' hst hmake
      have hxq : x ≠ q := by
        rintro rfl
        rw [hqthread] at h₂
        cases h₂
      rw [hlive, hthread hxp, hparent hxp, hchildren hxq]
      exact ⟨h₁, h₂, h₃, h₄⟩
    · have hjp : j ≠ p := by
        rintro rfl
        rw [hpparent] at h₂
        cases h₂
      rw [hlive, hparent hjp, hthread (hmine h₃)]
      exact ⟨h₁, h₂, h₃⟩
  have hmadeOf : ∀ {t st'}, st' ∈ s.code t → st'.made = some p → t = s.currentThread := by
    intro t st' hst hmake
    have hstmt := hout.stmt hst
    have : ow p = (t, true) := by
      cases st' <;> cases hmake
      · exact hstmt.2
      · exact hstmt.2
      · exact hstmt.1.2
    exact (congrArg Prod.fst (how.symm.trans this)).symm
  have hkmade : ∀ st' ∈ k, st'.made ≠ some p := by
    intro st' hst hmake
    have honce := hout.once s.currentThread
    rw [hcode] at honce
    have := honce.tail rfl hst
    cases st' <;> first | (cases hmake; done) | cases this
  have hkin : (s₁.setCode s.currentThread (.tick :: .forkReturn call p :: k)).kin = s₁.kin := rfl
  have hview : (s₁.setCode s.currentThread (.tick :: .forkReturn call p :: k)).view = s₁.view := rfl
  refine ⟨?_, ?_, ?_, ?_, ?_, ?_, ?_, ?_⟩
  · rw [hkin]
    intro c x hc hx
    rw [hlive] at hc ⊢
    by_cases hcp : c = p
    · subst hcp
      obtain rfl : q = x := Option.some.inj (hparent'.symm.trans hx)
      rw [hchildren', List.count_append, hcount]
      simpa using hqlive
    · rw [hparent hcp] at hx
      obtain ⟨hx', hone⟩ := h.parent c x hc hx
      refine ⟨hx', ?_⟩
      by_cases hxq : x = q
      · rw [hxq, hchildren', List.count_append, ← hxq, hone,
          List.count_eq_zero_of_not_mem (by simpa using hcp)]
      · rw [hchildren hxq]
        exact hone
  · rw [hkin]
    intro x hx hfree' c hc
    rw [hlive] at hx
    have hxfree : ∀ t a, pending (s.code t) ≠ some (x, a) := by
      intro t a ha
      have htu : t ≠ s.currentThread := by
        rintro rfl
        have := (hown.pending x a (hcode ▸ ha)).1
        exact hf this
      by_cases htn : t = n
      · rw [htn, hn, hout.unborn (Nat.le_refl _)] at ha
        cases ha
      · exact hfree' t a (by rw [others htu htn]; exact ha)
    by_cases hxq : x = q
    · subst hxq
      rw [hchildren'] at hc
      obtain hc | hc := List.mem_append.1 hc
      · obtain ⟨hc₁, hc₂⟩ := h.children x hx hxfree c hc
        have hcp : c ≠ p := by
          rintro rfl
          rw [hpparent] at hc₂
          cases hc₂
        rw [hlive, hparent hcp]
        exact ⟨hc₁, hc₂⟩
      · obtain rfl := List.mem_singleton.1 hc
        exact ⟨hlive ▸ hplive, hparent'⟩
    · rw [hchildren hxq] at hc
      obtain ⟨hc₁, hc₂⟩ := h.children x hx hxfree c hc
      have hcp : c ≠ p := by
        rintro rfl
        rw [hpparent] at hc₂
        cases hc₂
      rw [hlive, hparent hcp]
      exact ⟨hc₁, hc₂⟩
  · rw [hkin, hview]
    intro x t hx ht
    rw [hlive] at hx
    rw [kin]
    by_cases htn : t = n
    · rw [htn]
      exact Function.update_self ..
    · refine (Function.update_of_ne htn ..).trans (h.thread x t hx ?_)
      have hxp : x ≠ p := by
        rintro rfl
        exact htn (Option.some.inj (ht.symm.trans hthread'))
      rwa [hthread hxp] at ht
  · rw [hkin, hview, hlive]
    intro x x' t hx hx' ht ht'
    have hcase : ∀ {y}, s.kin.live y = true → s₁.view.threadOf y = some t →
        (y = p ∧ t = n) ∨ (s.view.threadOf y = some t ∧ t ≠ n) := by
      intro y hy hyt
      by_cases hyp : y = p
      · rw [hyp, hthread'] at hyt
        exact .inl ⟨hyp, (Option.some.inj hyt).symm⟩
      · rw [hthread hyp] at hyt
        exact .inr ⟨hyt, fun htn => hnew hy (htn ▸ hyt)⟩
    obtain ⟨rfl, htn⟩ | ⟨h₁, hne⟩ := hcase hx ht
    · obtain ⟨rfl, -⟩ | ⟨-, hne⟩ := hcase hx' ht'
      · rfl
      · exact absurd htn hne
    · obtain ⟨-, htn⟩ | ⟨h₂, -⟩ := hcase hx' ht'
      · exact absurd htn hne
      · exact h.unique x x' t hx hx' h₁ h₂
  · rw [hkin, hview, hlive]
    intro c hc hex'
    have hex' : s.view.exited c = true := by
      rw [view] at hex'
      exact hex'
    have hcp : c ≠ p := by
      rintro rfl
      rw [hexited] at hex'
      cases hex'
    rw [hparent hcp]
    exact h.exited c hc hex'
  · rw [hkin, hview, hlive]
    intro t x ht hx hxt
    have ht' : s.threadToBeDestroyed = some t := doomed ▸ ht
    by_cases hxp : x = p
    · rw [hxp, hthread'] at hxt
      have hlt := h.born t ht'
      rw [← Option.some.inj hxt, hn] at hlt
      exact Nat.lt_irrefl _ hlt
    · exact h.doomed t x ht' hx (hthread hxp ▸ hxt)
  · rw [hview, view]
    exact fun t ht => Nat.lt_succ_of_lt (h.born t (doomed ▸ ht))
  · rw [hkin, hview]
    intro t
    by_cases ht : t = s.currentThread
    · rw [ht, code_setCode_self]
      have hpend : ∀ x ahead, pending (.tick :: .forkReturn call p :: k) = some (x, ahead) →
          s.currentThread ≠ s.currentThread :=
        fun x ahead ha => absurd (hown.pending x ahead ha).1 hf
      refine mono _ _ hun ?_ hpend (hown.goOn rfl id (by simp) (List.cons_ne_nil _ _) ?_)
      · exact List.forall_mem_cons.2 ⟨fun heq => (by cases heq),
          List.forall_mem_cons.2 ⟨fun heq => (by cases heq), hkmade⟩⟩
      · exact List.forall_mem_cons.2 ⟨trivial, List.forall_mem_cons.2 ⟨trivial,
          fun st' hst => hown.knows st' (.tail _ hst)⟩⟩
    · by_cases htn : t = n
      · rw [code_setCode_of_ne ht, code, htn, Function.update_self]
        refine ⟨trivial, fun x ahead hx => (by cases hx), by simp, fun _ _ b x hb hx => ?_,
          by simp [Knows]⟩
        have hspaceOf : s₁.view.spaceOf n = some a := by
          rw [view, hn]
          exact Function.update_self ..
        have hpcbOf : s₁.view.pcbOf a = some p := by
          rw [view]
          exact Function.update_self ..
        obtain rfl : a = b := Option.some.inj (hspaceOf.symm.trans hb)
        obtain rfl : p = x := Option.some.inj (hpcbOf.symm.trans hx)
        exact ⟨hlive ▸ hplive, hthread'⟩
      · rw [others ht htn]
        exact mono t _ htn (fun st' hst hmake => ht (hmadeOf hst hmake)) (fun _ _ _ => ht) (h.stands t)

end Step

end Nachos.Process
