import Nachos.Process.Deletion
import Nachos.Process.Start

/-!
# Every deletion goes through

A thread deletes its own address space in `Exec` and in `Exit`, and the one of a process that has
exited with its PCB. Nothing in the code keeps the two apart: as long as no thread begins to delete a
space that another thread is in the midst of deleting, the deletions that are under way stay as
`Deletions` says.
-/

namespace Nachos.Process

open Lib Threads Mips Userprog

namespace State

variable (s : State)

/-- The space has a page table. -/
def Standing (a : SpaceId) : Prop := (s.space.get a).pageTable ≠ none

/-- The memory of the space is allocated. -/
def Lives (a : SpaceId) : Prop := s.space.live a = true

/-- The space that the next statement begins to delete; that of a program is its own. -/
def startsDelete : Option SpaceId :=
  match s.code s.currentThread with
  | .exitSpace :: _ => s.currentSpace
  | .clearPid p :: _ => s.spaceToDelete p
  | .destroyPCB p :: _ => s.spaceToDelete p
  | _ => none

/-- **No thread begins to delete a space that a thread is in the midst of deleting.** -/
def Unshared : Prop := ∀ a, s.startsDelete = some a → ∀ u, .freeSpace a ∉ s.code u

/-- The deletions that are under way. -/
def Destroying : Prop := Deletions s.view s.Standing s.Lives s.code s.currentThread

end State

/-- How the code of the running thread goes on, unless it works on a space. -/
inductive GoesOn (s : State) : Stmt → List Stmt → List Stmt → Prop
  | scheduling {st k l} (hst : st.scheduling = true) (hl : ∀ st' ∈ l, st'.scheduling = true) :
      GoesOn s st k (l ++ k)
  | work {st k k'} (hst : st.scheduling = false) (hk : ∀ st' ∈ k', st' ∈ k ∨ st'.marks = false) :
      GoesOn s st k k'
  | exit {a k} (space : s.currentSpace = some a) : GoesOn s .exitSpace k (deleteSpace a ++ k)
  | exec {a e p k} (space : s.currentSpace = some a) :
      GoesOn s .user k (deleteSpace a ++ [.load e p, .incrementPC, .user])
  | destroy {st p k rest} (hst : st = .clearPid p ∨ st = .destroyPCB p)
      (hk : ∀ st' ∈ rest, st' ∈ k ∨ st'.marks = false) : GoesOn s st k (s.destroyPCB p ++ rest)

section Code

variable {s s₁ : State} {st : Stmt} {k k' : List Stmt} {es : List Event}

lemma Control.goesOn (hc : Control s st k k') : GoesOn s st k k' := by
  cases hc with
  | tick => exact .scheduling (l := []) rfl nofun
  | yield => exact .scheduling (l := []) rfl nofun
  | exitSpace h => exact .exit h
  | @destroyPCB p =>
    rw [← List.append_nil (s.destroyPCB p), List.append_assoc]
    exact .destroy (.inr rfl) fun st' hst => .inl hst
  | threadRoot | copySpace | mapcarNil | mapcarGone | exitParent | exitSpaceGone | joinExited
  | joinReturn => exact .work rfl (by simp +contextual [Stmt.marks])
  | mapcarExited | exitDeallocate =>
    exact .work rfl (by simp +contextual [deallocatePCB, acquireLock, Stmt.marks])
  | joinWait => exact .work rfl (by simp +contextual [threadYield, Stmt.marks])

lemma Trap.goesOn (ht : Trap s.trapped (.tick :: .user :: k) k') : GoesOn s .user k k' := by
  cases ht with
  | exec space => exact .exec space
  | exitGone | execFail | fail | join | create | killSelfGone =>
    exact .work rfl (by simp +contextual [Stmt.marks])
  | fork => exact .work rfl (by simp +contextual [acquireLock, Stmt.marks])
  | yield => exact .work rfl (by simp +contextual [threadYield, Stmt.marks])

lemma Rule.goesOn (hr : Rule s st k k' es s₁) (hst : st.deletes = none)
    (hcopy : ∀ call p, st ≠ .copySpace call p) : GoesOn s st k k' := by
  cases hr with
  | control hc => exact hc.goesOn
  | trap ht => exact ht.goesOn
  | instruction | exit | kill | childFunction | forkReturn | loadFail | load | orphan | finish
  | forgetPid | unlinkPCB | killReturn | incrementPC | ret | startChild =>
    exact .work rfl (by simp +contextual [Stmt.marks])
  | interrupt h =>
    obtain rfl | rfl := h
    · exact .scheduling (l := []) rfl nofun
    · exact .work rfl (by simp +contextual)
  | timeSlice h =>
    obtain rfl | rfl := h
    · exact .scheduling rfl (by simp [threadYield, Stmt.scheduling])
    · exact .work rfl (by simp +contextual [threadYield, Stmt.marks])
  | take | release | resume => exact .scheduling (l := []) rfl nofun
  | @block l => exact .scheduling (l := [.resume, .acquire l]) rfl (by simp [Stmt.scheduling])
  | yield => exact .scheduling (l := [.resume]) rfl (by simp [Stmt.scheduling])
  | allocatePCB => exact .work rfl (by simp +contextual [releaseLock, Stmt.marks])
  | saveParent => exact .work rfl (by simp +contextual [acquireLock, Stmt.marks])
  | copySpace => exact absurd rfl (hcopy _ _)
  | clearPid =>
    rw [List.append_assoc]
    exact .destroy (.inl rfl) (by simp +contextual [releaseLock, Stmt.marks])
  | freeFrames | freeSpace => cases hst

lemma closes_destroyPCB {p : PCBId} (h : Closes k) : Closes (s.destroyPCB p ++ k) := by
  obtain hd | ⟨a, -, hd⟩ := destroyPCB_eq s p
  · rw [hd]
    exact h
  · rw [hd]
    exact h

/-- What follows `exitSpace` and `load` stays. -/
lemma Rule.closes (hr : Rule s st k k' es s₁) (h : Closes (st :: k)) : Closes k' := by
  have hk := h.tail
  cases hr with
  | control hc =>
    cases hc with
    | destroyPCB => exact closes_destroyPCB hk
    | _ => exact hk
  | trap ht =>
    cases ht with
    | exec => rfl
    | execFail => trivial
    | _ => exact hk
  | clearPid =>
    rw [List.append_assoc]
    exact closes_destroyPCB hk
  | exit => rfl
  | childFunction | finish => trivial
  | _ => exact hk

lemma lasts_destroyPCB {a : SpaceId} {p : PCBId} (h : Lasts a k) : Lasts a (s.destroyPCB p ++ k) := by
  have hp : Pushes .user (s.destroyPCB p ++ []) := pushes_destroyPCB s p nofun rfl
  rw [List.append_nil] at hp
  exact lasts_append hp.finish h

/-- **A thread with a space lasts**, while its code goes on. -/
lemma Rule.lasts (hr : Rule s st k k' es s₁) (hst : st.deletes = none) {a : SpaceId}
    (ha : s.currentSpace = some a) (h : Lasts a (st :: k)) : Lasts a k' := by
  have hk := h.tail
  cases hr with
  | control hc =>
    cases hc with
    | exitSpaceGone hnone => cases ha.symm.trans hnone
    | exitSpace hspace =>
      cases ha.symm.trans hspace
      simp [deleteSpace, acquireLock, Lasts, Stmt.keeps, Stmt.ends]
    | destroyPCB => exact lasts_destroyPCB (hk rfl)
    | _ => simp [deallocatePCB, acquireLock, threadYield, Lasts, Stmt.ends, hk rfl]
  | trap ht =>
    cases ht with
    | exec hspace =>
      cases ha.symm.trans hspace
      simp [deleteSpace, acquireLock, Lasts, Stmt.keeps, Stmt.ends]
    | _ => simp [acquireLock, threadYield, Lasts, Stmt.keeps, Stmt.ends]
  | clearPid =>
    rw [List.append_assoc]
    refine lasts_destroyPCB ?_
    simp [releaseLock, Lasts, Stmt.ends, hk rfl]
  | instruction | exit | kill | childFunction => simp [Lasts, Stmt.keeps, Stmt.ends]
  | interrupt h | timeSlice h =>
    obtain rfl | rfl := h <;> simp [threadYield, Lasts, Stmt.ends, hk rfl]
  | finish =>
    obtain hkeep | ⟨hends, -⟩ := h
    · cases hkeep
    · cases hends
  | freeFrames | freeSpace => cases hst
  | _ => simp [acquireLock, releaseLock, Lasts, Stmt.ends, hk rfl]

/-- A thread that finishes has nothing behind. -/
lemma Rule.finishes (hr : Rule s st k k' es s₁) (hst : st = .finish) : k' = [] := by
  subst hst
  cases hr with
  | control hc => cases hc
  | interrupt h | timeSlice h => obtain h | h := h <;> cases h
  | finish => rfl

end Code

/-! ### The code of the running thread -/

section Onward

variable {s : State} {st : Stmt} {k k' l : List Stmt} {a : SpaceId} {p : PCBId}

/-- The space that `~PCB` deletes is the one of another thread. -/
lemma spaceToDelete_eq_some {o : Objects} : o.spaceToDelete p = some a ↔
    ∃ t, (o.pcb.get p).thread = some t ∧ t ≠ o.currentThread ∧ (o.thread.get t).space = some a ∧
      (o.space.get a).pageTable ≠ none := by
  unfold Objects.spaceToDelete Objects.othersThread
  constructor
  · intro h
    split at h
    · cases h
    next t ht =>
      split at ht
      · cases ht
      next t' hp =>
        split at ht
        · cases ht
        next hne =>
          cases ht
          split at h
          · cases h
          next b hb =>
            split at h
            · cases h
            next htable =>
              cases h
              exact ⟨t, hp, hne, hb, htable⟩
  · rintro ⟨t, hp, hne, ha, htable⟩
    simp only [hp, hne, if_false, ha, htable]

/-- The guard, of the deletions that are under way. -/
lemma State.Unshared.alone (hg : s.Unshared) (hone : ∀ u, OneDelete (s.code u))
    (h : s.startsDelete = some a) {w : Tid} {b : Bool} : deleting (s.code w) ≠ some (a, b) :=
  fun hw => hg a h w (mem_of_deleting (hone w) hw)

/-- A thread with an address space is not the one that a `Fork` is making. -/
lemma Owned.not_started (ho : Owned s) {t u : Tid} {call : Registers}
    (ha : s.view.spaceOf t = some a) : .startChild call p a ∉ s.code u := by
  obtain ⟨ow, os, hp, hout⟩ := ho
  intro hmem
  obtain ⟨-, -, hu⟩ := hout.stmt hmem
  cases (hp.space ha).2.symm.trans hu

lemma Onward.of_scheduling (h : OneDelete (st :: k)) (hst : st.scheduling = true)
    (hl : ∀ st' ∈ l, st'.scheduling = true) (hcloses : Closes (l ++ k))
    (hlasts : ∀ {a}, s.view.spaceOf s.currentThread = some a → Lasts a (st :: k) →
      Lasts a (l ++ k)) :
    Onward s.view s.Standing s.code s.currentThread st k (l ++ k) := by
  obtain ⟨hd, hb, ht⟩ := scheduling_append (k := k) hl
  have hmem : ∀ {st'}, st' ∈ l ++ k → st'.scheduling = false → st' ∈ st :: k := by
    intro st' hst' hs
    obtain hst' | hst' := List.mem_append.mp hst'
    · cases (hl st' hst').symm.trans hs
    · exact .tail _ hst'
  refine
    { oneDelete := ht.mpr ((oneDelete_of_scheduling hst).mp h)
      closes := hcloses
      old := fun ho => ?_
      new := fun hn => .inl ?_
      startChild := fun hst' => hmem hst' rfl
      fork := List.mem_append_right _
      load := fun hst' => .inl (hmem hst' rfl)
      unlink := fun hst' => .inl (hmem hst' rfl)
      lasts := fun ha _ => hlasts ha
      finish := fun he => ?_
      loaded := fun he => ?_
      unlinked := fun he => ?_
      linked := fun he => ?_ }
  · rw [deleting_of_scheduling hst] at ho
    rw [behind_of_scheduling hst]
    exact ⟨hd.trans ho, hb⟩
  · rw [deleting_of_scheduling hst, ← hd]
    exact hn
  · cases he
    cases hst
  · rw [he] at hst
    cases hst
  · rw [he] at hst
    cases hst
  · rw [he] at hst
    cases hst

/-- A statement that works on a pointer is not one of `delete space`. -/
lemma mem_deleteSpace_append {st' : Stmt} (h : st' ∈ deleteSpace a ++ l) (hm : st'.marks = true)
    (hd : st'.deletes = none) : st' ∈ l := by
  simp only [deleteSpace, acquireLock, releaseLock, List.cons_append, List.nil_append,
    List.mem_cons] at h
  rcases h with rfl | rfl | rfl | rfl | rfl | rfl | h
  · cases hm
  · cases hm
  · cases hd
  · cases hm
  · cases hm
  · cases hd
  · exact h

section Work

variable (h : OneDelete (st :: k)) (hs : st.scheduling = false) (hd : st.deletes = none)
  (hfork : ∀ st' ∈ k, st'.inFork = false) (hcloses : Closes k')
  (hlasts : ∀ {a}, s.view.spaceOf s.currentThread = some a → Lasts a (st :: k) → Lasts a k')

include h hs hd hfork hcloses hlasts

/-- The code goes on, and no deletion begins; a PCB without a space to delete may be unlinked. -/
lemma Onward.of_work (hk : ∀ st' ∈ k', st' ∈ k ∨ st'.marks = false ∨
      ∃ p, st' = .unlinkPCB p ∧ s.spaceToDelete p = none)
    (hfinish : st :: k = [.finish] → k' = [])
    (loaded : ∀ {e p a}, st = .load e p → s.view.spaceOf s.currentThread = some a → s.Standing a)
    (unlinked : ∀ {p t a}, st = .unlinkPCB p → s.view.threadOf p = some t → t ≠ s.currentThread →
      s.view.spaceOf t = some a → s.Standing a)
    (linked : ∀ {call p a}, st = .startChild call p a → s.Standing a →
      ∃ t, s.view.spaceOf t = some a) :
    Onward s.view s.Standing s.code s.currentThread st k k' := by
  have hplain : Plain k' := by
    intro st' hst'
    obtain hst' | hm | ⟨p, rfl, -⟩ := hk st' hst'
    · exact h.plain hs hd st' hst'
    · exact st'.deletes_of_marks hm
    · rfl
  have hmem : ∀ {st'}, st' ∈ k' → st'.marks = true →
      st' ∈ st :: k ∨ ∃ p, st' = .unlinkPCB p ∧ s.spaceToDelete p = none := by
    intro st' hst' hm
    obtain hst' | hm' | hp := hk st' hst'
    · exact .inl (.tail _ hst')
    · cases hm'.symm.trans hm
    · exact .inr hp
  refine
    { oneDelete := hplain.oneDelete
      closes := hcloses
      old := fun ho => ?_
      new := fun hn => ?_
      startChild := fun hst' => (hmem hst' rfl).resolve_right nofun
      fork := fun hst' => ?_
      load := fun hst' => .inl ((hmem hst' rfl).resolve_right nofun)
      unlink := fun {p} hst' => ?_
      lasts := fun ha _ => hlasts ha
      finish := hfinish
      loaded := loaded
      unlinked := unlinked
      linked := linked }
  · cases (h.deleting_none hs hd).symm.trans ho
  · cases hplain.deleting.symm.trans hn
  · cases hfork _ hst'
  · refine (hmem hst' rfl).imp_right ?_
    rintro ⟨q, hq, hnone⟩ t a hne hp ha hstand
    cases hq
    cases hnone.symm.trans (spaceToDelete_eq_some.mpr ⟨t, hp, hne, ha, hstand⟩)

/-- A deletion begins. -/
lemma Onward.of_begins (hrest : Plain l) (hk : k' = deleteSpace a ++ l)
    (begins : Begins s.view s.Standing s.code s.currentThread a l)
    (hfork' : ∀ {call p b}, .startChild call p b ∈ l → .startChild call p b ∈ k)
    (load : ∀ {e p}, .load e p ∈ l → .load e p ∈ k ∨ s.view.spaceOf s.currentThread = some a)
    (unlink : ∀ {p}, .unlinkPCB p ∈ l → .unlinkPCB p ∈ k ∨ ∀ {t b}, t ≠ s.currentThread →
      s.view.threadOf p = some t → s.view.spaceOf t = some b → s.Standing b → b = a)
    (hm : st.marks = false) (hfin : st ≠ .finish) :
    Onward s.view s.Standing s.code s.currentThread st k k' := by
  subst hk
  obtain ⟨hdel, hbehind, hone⟩ := deleteSpace_append (a := a) hrest
  refine
    { oneDelete := hone
      closes := hcloses
      old := fun ho => ?_
      new := fun hn => ?_
      startChild := fun hst' => .tail _ (hfork' (mem_deleteSpace_append hst' rfl rfl))
      fork := fun hst' => ?_
      load := fun hst' => ?_
      unlink := fun hst' => ?_
      lasts := fun ha _ => hlasts ha
      finish := fun he => absurd (List.cons.inj he).1 hfin
      loaded := fun he => ?_
      unlinked := fun he => ?_
      linked := fun he => ?_ }
  · cases (h.deleting_none hs hd).symm.trans ho
  · cases hdel.symm.trans hn
    exact .inr ⟨rfl, hbehind ▸ begins⟩
  · cases hfork _ hst'
  · refine (load (mem_deleteSpace_append hst' rfl rfl)).imp (.tail _) fun hspace b hb => ?_
    cases hspace.symm.trans hb
    exact hdel
  · refine (unlink (mem_deleteSpace_append hst' rfl rfl)).imp (.tail _)
      fun hspace t b hne hp hb hstand => ?_
    rw [hspace hne hp hb hstand]
    exact hdel
  · rw [he] at hm
    cases hm
  · rw [he] at hm
    cases hm
  · rw [he] at hm
    cases hm

end Work

/-- No other thread unlinks the PCB of a thread that has work to do. -/
lemma Owned.not_unlinked (ho : Owned s) {t u : Tid} (hst : st ∈ s.code t) (hwork : st.inExit = false)
    (hunlink : .unlinkPCB p ∈ s.code u) (hne : t ≠ u) : s.view.threadOf p ≠ some t := by
  intro hp
  refine ho.not_dying hst hwork ?_
  obtain ⟨ow, os, hpt, hout⟩ := ho
  exact hout.dying_of_unlink hpt hunlink hp hne

/-- A program does not meet a deletion of its own space. -/
lemma State.Destroying.alone_of_user (h : s.Destroying) (ho : Owned s)
    (hcode : s.code s.currentThread = .user :: k) (ha : s.currentSpace = some a) {w : Tid} {b : Bool} :
    deleting (s.code w) ≠ some (a, b) := by
  intro hw
  have hnone : deleting (s.code s.currentThread) = none := by
    have hone := h.oneDelete s.currentThread
    rw [hcode] at hone ⊢
    exact hone.deleting_none rfl rfl
  have hbehind := h.aims hw ha
  have hmem : ∀ {st'}, st' ∈ behind (s.code w) → st' ∈ s.code w := fun hst' => mem_of_mem_behind hst'
  generalize behind (s.code w) = rest at hbehind hmem
  cases hbehind with
  | finish he | load he =>
    rw [← he, hnone] at hw
    cases hw
  | unlink hne hp =>
    have huser : .user ∈ s.code s.currentThread := by
      rw [hcode]
      exact .head _
    exact ho.not_unlinked huser rfl (hmem (.head _)) hne hp

/-- A space that a thread begins to delete stands, if no other deletion of it is under way. -/
lemma State.Destroying.standing (h : s.Destroying) (hcode : s.code s.currentThread = st :: k)
    (hst : st.cuts = false) (ha : s.currentSpace = some a)
    (alone : ∀ {w b}, deleting (s.code w) ≠ some (a, b)) : s.Standing a := by
  by_contra hstand
  cases h.gone ha hstand with
  | freeing hw => exact alone hw
  | load hc =>
    cases hcode.symm.trans hc
    cases hst
  | unlink hc =>
    cases hcode.symm.trans hc
    cases hst
  | finish hc =>
    obtain hc | hc := hc
    · cases hcode.symm.trans hc
      cases hst
    · cases hcode.symm.trans hc

/-- **The code of the running thread goes on.** -/
theorem GoesOn.onward (hg : GoesOn s st k k') (h : s.Destroying) (ho : Owned s)
    (hguard : s.Unshared) (hcode : s.code s.currentThread = st :: k) (hd : st.deletes = none)
    (hcloses : Closes k') (hlasts : ∀ {a}, s.view.spaceOf s.currentThread = some a →
      Lasts a (st :: k) → Lasts a k') (hfinish : st = .finish → k' = [])
    (loaded : ∀ {e p a}, st = .load e p → s.view.spaceOf s.currentThread = some a → s.Standing a)
    (unlinked : ∀ {p t a}, st = .unlinkPCB p → s.view.threadOf p = some t → t ≠ s.currentThread →
      s.view.spaceOf t = some a → s.Standing a)
    (linked : ∀ {call p a}, st = .startChild call p a → s.Standing a →
      ∃ t, s.view.spaceOf t = some a) :
    Onward s.view s.Standing s.code s.currentThread st k k' := by
  have hone : OneDelete (st :: k) := hcode ▸ h.oneDelete s.currentThread
  have hfork : st.scheduling = false → ∀ st' ∈ k, st'.inFork = false := by
    obtain ⟨ow, os, -, hout⟩ := ho
    have honce := hout.once s.currentThread
    rw [hcode] at honce
    exact fun hs st' => honce.tail hs
  cases hg with
  | scheduling hst hl => exact .of_scheduling hone hst hl hcloses hlasts
  | work hst hk =>
    exact .of_work hone hst hd (hfork hst) hcloses hlasts (fun st' hst' => (hk st' hst').imp_right .inl)
      (fun he => hfinish (List.cons.inj he).1) loaded unlinked linked
  | @exit a _ space =>
    have hrest : k = [.finish] := by
      have hclosed := h.closes s.currentThread
      rwa [hcode] at hclosed
    subst hrest
    have hstarts : s.startsDelete = some a := by
      rw [State.startsDelete, hcode]
      exact space
    have alone : ∀ {w b}, deleting (s.code w) ≠ some (a, b) := hguard.alone h.oneDelete hstarts
    refine .of_begins hone rfl hd (hfork rfl) hcloses hlasts (by simp [Plain, Stmt.deletes]) rfl
      ⟨⟨_, space, .finish rfl⟩, h.standing hcode rfl space alone, alone, ho.not_started space⟩
      ?_ ?_ ?_ rfl (by simp)
    · simp
    · simp
    · simp
  | @exec a e p _ space =>
    have alone : ∀ {w b}, deleting (s.code w) ≠ some (a, b) := h.alone_of_user ho hcode space
    refine .of_begins hone rfl hd (hfork rfl) hcloses hlasts (by simp [Plain, Stmt.deletes]) rfl
      ⟨⟨_, space, .load rfl⟩, h.standing hcode rfl space alone, alone, ho.not_started space⟩
      ?_ ?_ ?_ rfl (by simp)
    · simp
    · exact fun _ => .inr space
    · simp
  | @destroy _ p _ rest hst hrest =>
    have hs : st.scheduling = false ∧ st.marks = false ∧ st ≠ .finish := by
      obtain rfl | rfl := hst <;> exact ⟨rfl, rfl, by simp⟩
    have hplain : Plain k := hone.plain hs.1 hd
    have hstarts : s.startsDelete = s.spaceToDelete p := by
      rw [State.startsDelete, hcode]
      obtain rfl | rfl := hst <;> rfl
    cases hdel : s.spaceToDelete p with
    | none =>
      have hk' : s.destroyPCB p = [.unlinkPCB p] := by
        rw [State.destroyPCB, hdel]
      rw [hk'] at hcloses hlasts ⊢
      refine .of_work hone hs.1 hd (hfork hs.1) hcloses hlasts (fun st' hst' => ?_)
        (fun he => absurd (List.cons.inj he).1 hs.2.2) loaded unlinked linked
      obtain rfl | hst' := List.mem_cons.mp hst'
      · exact .inr (.inr ⟨p, rfl, hdel⟩)
      · exact (hrest st' hst').imp_right .inl
    | some a =>
      have hk' : s.destroyPCB p = deleteSpace a ++ [.unlinkPCB p] := by
        rw [State.destroyPCB, hdel]
      obtain ⟨t, hp, hne, ha, hstand⟩ := spaceToDelete_eq_some.mp hdel
      have hmem : ∀ {st'}, st' ∈ rest → st'.marks = true → st' ∈ k := by
        intro st' hst' hm
        obtain hst' | hm' := hrest st' hst'
        · exact hst'
        · cases hm'.symm.trans hm
      have hrestPlain : Plain (.unlinkPCB p :: rest) := by
        refine List.forall_mem_cons.mpr ⟨rfl, fun st' hst' => ?_⟩
        obtain hst' | hm := hrest st' hst'
        · exact hplain st' hst'
        · exact st'.deletes_of_marks hm
      refine .of_begins hone hs.1 hd (hfork hs.1) hcloses hlasts hrestPlain
        (by rw [hk', List.append_assoc]; rfl)
        ⟨⟨t, ha, .unlink hne hp⟩, hstand, hguard.alone h.oneDelete (hstarts.trans hdel),
          ho.not_started ha⟩ ?_ ?_ ?_ hs.2.1 hs.2.2
      · exact fun hst' => hmem (by simpa using hst') rfl
      · exact fun hst' => .inl (hmem (by simpa using hst') rfl)
      · intro q hst'
        obtain hq | hst' := List.mem_cons.mp hst'
        · cases hq
          refine .inr fun {t' b} _ hp' hb _ => ?_
          cases hp.symm.trans hp'
          exact Option.some.inj (hb.symm.trans ha)
        · exact .inl (hmem hst' rfl)

end Onward

/-! ### The steps -/

/-- The address spaces and the frames. -/
def Objects.memory (o : Objects) : Heap AddrSpace × MemoryManager := (o.space, o.mm)

/-- The spaces and the pointers to them stay. -/
structure Calm (s s₁ : State) : Prop where
  spaceOf : s₁.view.spaceOf = s.view.spaceOf
  threadOf : s₁.view.threadOf = s.view.threadOf
  memory : s₁.memory = s.memory
  code : s₁.code = s.code

section Calm

variable {s s₁ : State} {o o' : Objects} {st : Stmt} {k k' : List Stmt} {es : List Event}

lemma Calm.of_view (hv : s₁.view = s.view) (hm : s₁.memory = s.memory) (hc : s₁.code = s.code) :
    Calm s s₁ where
  spaceOf := by rw [hv]
  threadOf := by rw [hv]
  memory := hm
  code := hc

@[simp] lemma memory_removeThread (t : Option Tid) : (o.removeThread t).memory = o.memory := by
  cases t <;> rfl

lemma memory_detach (p : PCBId) : (o.detach p).memory = o.memory := by
  unfold Objects.detach
  dsimp only
  split
  · exact memory_removeThread ..
  · exact memory_removeThread ..

@[simp] lemma memory_run (next : Tid) : (s.run next).memory = s.memory := by
  unfold State.run
  dsimp only
  split <;> rfl

@[simp] lemma memory_releaseOf (l : LockName) : (s.releaseOf l).memory = s.memory := by
  unfold State.releaseOf
  split
  · split <;> rfl
  · rfl

lemma memory_afterSwitch (h : s.afterSwitch = .ok s₁) : s₁.memory = s.memory := by
  unfold State.afterSwitch at h
  dsimp only at h
  split at h
  · cases h
    split <;> rfl
  · split at h
    · cases h
    · cases h
      split <;> rfl

lemma memory_allocatePCB {p : PCBId} (h : o.allocatePCB = .ok (p, o')) : o'.memory = o.memory := by
  unfold Objects.allocatePCB at h
  split at h
  · cases h
  · cases h
    rfl

lemma memory_unlink {p : PCBId} (h : (o.unlink p).freePCB p = .ok o') : o'.memory = o.memory := by
  unfold Objects.freePCB at h
  split at h
  next =>
    cases h
    unfold Objects.unlink
    split <;> rfl
  next => cases h

/-- The statement takes from a heap, or works on a space. -/
def Stmt.touches : Stmt → Bool
  | .allocatePCB _ | .copySpace _ _ => true
  | st => st.marks

/-- **Most statements leave the spaces and the pointers alone.** -/
lemma Rule.calm (hr : Rule s st k k' es s₁) (hst : st.touches = false) : Calm s s₁ := by
  cases hr
  case exit a p status _ _ _ =>
    have hv := view_exiting s.trapped p status
    refine ⟨?_, ?_, memory_removeThread _, rfl⟩
    · rw [hv]
      rfl
    · rw [hv]
      rfl
  case kill p _ _ _ _ => exact .of_view (view_detach _ p) (memory_detach p) rfl
  case block | yield | finish => exact .of_view (view_run ..) (memory_run ..) (code_run ..)
  case release => exact .of_view (view_releaseOf ..) (memory_releaseOf ..) (code_releaseOf ..)
  case resume h => exact .of_view (view_afterSwitch s h) (memory_afterSwitch h) (code_afterSwitch s h)
  case saveParent => exact .of_view (view_saveUserState s) rfl rfl
  case orphan p c ahead _ _ =>
    refine .of_view (view_setPCB_same _ c _ ?_ ?_) rfl rfl
    · exact fun _ => rfl
    · exact fun _ => rfl
  case allocatePCB | copySpace | startChild | loadFail | load | unlinkPCB | freeFrames | freeSpace =>
    cases hst
  all_goals exact .of_view rfl rfl rfl

variable (hcode : s.code s.currentThread = st :: k)

include hcode

end Calm

section Steps

variable {s s₁ : State} {o : Objects} {st : Stmt} {k k' : List Stmt} {es : List Event} {a : SpaceId}

/-- The statement at the head is done, in a state where it has nothing to cut and to hand over. -/
lemma State.Destroying.work (h : s₁.Destroying) (hcode : s₁.code s₁.currentThread = st :: k)
    (hunique : ∀ {t t' a}, s₁.view.spaceOf t = some a → s₁.view.spaceOf t' = some a → t = t')
    (hs : st.scheduling = false) (hd : st.deletes = none) (hfork : ∀ st' ∈ k, st'.inFork = false)
    (hcloses : Closes k') (hlasts : ∀ {a}, s₁.view.spaceOf s₁.currentThread = some a →
      Lasts a (st :: k) → Lasts a k')
    (hk : ∀ st' ∈ k', st' ∈ k ∨ st'.marks = false) (hfinish : st ≠ .finish)
    (loaded : ∀ {e p a}, st = .load e p → s₁.view.spaceOf s₁.currentThread = some a → s₁.Standing a)
    (unlinked : ∀ {p t a}, st = .unlinkPCB p → s₁.view.threadOf p = some t → t ≠ s₁.currentThread →
      s₁.view.spaceOf t = some a → s₁.Standing a)
    (linked : ∀ {call p a}, st = .startChild call p a → s₁.Standing a →
      ∃ t, s₁.view.spaceOf t = some a) :
    (s₁.setCode s₁.currentThread k').Destroying := by
  have hone : OneDelete (st :: k) := hcode ▸ h.oneDelete s₁.currentThread
  exact h.onward hcode hunique (.of_work hone hs hd hfork hcloses hlasts
    (fun st' hst' => (hk st' hst').imp_right .inl) (fun he => absurd (List.cons.inj he).1 hfinish)
    loaded unlinked linked)

lemma freeFrames_eq_ok {o' : Objects} (h : o.freeFrames a = .ok o') :
    ∃ pages mm, (o.space.get a).pageTable = some pages ∧ deallocatePages pages o.mm = .ok mm ∧
      o' = ({ o with mm := mm } : Objects).setSpace a fun sp => { sp with pageTable := none } := by
  unfold Objects.freeFrames at h
  split at h
  · cases h
  next pages hpages =>
    obtain ⟨mm, hmm, h⟩ := bind_eq_ok h
    cases h
    exact ⟨pages, mm, hpages, hmm, rfl⟩

/-- The destructor clears the page table. -/
lemma pageTable_freeFrames {o' : Objects} (h : o.freeFrames a = .ok o') :
    (fun b => (o'.space.get b).pageTable) =
      Function.update (fun b => (o.space.get b).pageTable) a none := by
  obtain ⟨pages, mm, -, -, rfl⟩ := freeFrames_eq_ok h
  exact comp_update AddrSpace.pageTable o.space.get a _

lemma freeSpace_eq_ok {o' : Objects} (h : o.freeSpace a = .ok o') :
    o.space.live a = true ∧ o' = { o with space := o.space.delete a } := by
  unfold Objects.freeSpace at h
  split at h
  next hlive =>
    cases h
    exact ⟨hlive, rfl⟩
  next => cases h

/-- A new space stands. -/
lemma standing_newSpace {p : Option PCBId} {n : ℕ} :
    ((o.newSpace p n).2.space.get a).pageTable ≠ none ↔
      (o.space.get a).pageTable ≠ none ∨ a = o.space.next := by
  show ((o.space.new _).get a).pageTable ≠ none ↔ _
  by_cases ha : a = o.space.next
  · subst ha
    rw [Heap.get_new_next]
    simp
  · rw [Heap.get_new_of_ne ha, or_iff_left ha]

/-- The space of a child gets its PCB. -/
lemma standing_linkChild {p q : PCBId} {b : SpaceId} {r : Registers} :
    ((o.linkChild p q b r).2.space.get a).pageTable = (o.space.get a).pageTable := by
  show ((o.space.modify b fun sp => { sp with pcb := some p }).get a).pageTable = _
  rw [Heap.get_modify]
  split <;> rfl

section Pointers

variable {p : PCBId}

end Pointers

variable (hcode : s.code s.currentThread = st :: k) (ho : Owned s) (h : s.Destroying)

include hcode ho h

end Steps

end Nachos.Process
