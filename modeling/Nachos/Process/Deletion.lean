import Nachos.Process.Owners

/-!
# The deletion of address spaces

`delete space` takes several statements, with context switches between them: the frames are given
back under a lock, and the memory of the object behind it. What comes next cuts the pointer to the
space: `Exec` loads a new one, the thread finishes, or the PCB of the thread is unlinked. So a
thread in the midst of a deletion says in its code which space it deletes, and how far it is.
-/

namespace Nachos.Process

open Lib Threads Mips Userprog

/-! ### The code of a deletion -/

namespace Stmt

/-- The space whose destruction the statement belongs to. -/
def deletes : Stmt → Option SpaceId
  | freeFrames a => some a
  | freeSpace a => some a
  | _ => none

/-- The statement keeps a thread with the address space `a` alive, or destroys the space. -/
def keeps (a : SpaceId) : Stmt → Bool
  | user => true
  | childFunction => true
  | exitSpace => true
  | freeFrames b => b = a
  | _ => false

/-- The statement has others behind it. -/
def seals : Stmt → Bool
  | exitSpace => true
  | load _ _ => true
  | _ => false

/-- The statement cuts a pointer to a space, or ends the thread. -/
def cuts : Stmt → Bool
  | load _ _ | unlinkPCB _ | finish => true
  | _ => false

/-- The statement works on an address space, or on a pointer to one. -/
def marks : Stmt → Bool
  | startChild _ _ _ | load _ _ | unlinkPCB _ | freeFrames _ | freeSpace _ => true
  | _ => false

lemma deletes_of_marks (st : Stmt) (h : st.marks = false) : st.deletes = none := by
  cases st with
  | freeFrames | freeSpace => cases h
  | _ => rfl

end Stmt

/-- The space that the code deletes, and whether its frames are still to be given back. -/
def deleting : List Stmt → Option (SpaceId × Bool)
  | [] => none
  | .freeFrames a :: _ => some (a, true)
  | .freeSpace a :: _ => some (a, false)
  | st :: k => if st.scheduling then deleting k else none

/-- What follows the deletion. -/
def behind : List Stmt → List Stmt
  | [] => []
  | .freeSpace _ :: k => k
  | _ :: k => behind k

/-- No deletion is under way. -/
def Plain (l : List Stmt) : Prop := ∀ st ∈ l, st.deletes = none

/-- There is one deletion at most, with only scheduling before it. -/
def OneDelete : List Stmt → Prop
  | [] => True
  | .freeFrames a :: k => ∃ rest, k = releaseLock .mmLock ++ .freeSpace a :: rest ∧ Plain rest
  | .freeSpace _ :: k => Plain k
  | st :: k => if st.scheduling then OneDelete k else Plain k

/-- `doExit` ends behind `delete currentThread->space`, and `doExec` starts the program that it has
loaded. -/
def Closes : List Stmt → Prop
  | [] => True
  | .exitSpace :: k => k = [.finish]
  | .load _ _ :: k => k = [.incrementPC, .user]
  | _ :: k => Closes k

/-- The thread goes on with a user program, or destroys the space `a` before it finishes. -/
def Lasts (a : SpaceId) : List Stmt → Prop
  | [] => False
  | st :: k => st.keeps a = true ∨ (st.ends = false ∧ Lasts a k)

section Shape

variable {s s₁ : State} {st : Stmt} {k k' l new rest : List Stmt} {es : List Event} {a : SpaceId}

lemma deleting_of_scheduling (h : st.scheduling = true) : deleting (st :: k) = deleting k := by
  cases st <;> first | rfl | cases h

lemma behind_of_scheduling (h : st.scheduling = true) : behind (st :: k) = behind k := by
  cases st <;> first | rfl | cases h

lemma oneDelete_of_scheduling (h : st.scheduling = true) : OneDelete (st :: k) ↔ OneDelete k := by
  cases st <;> first | exact Iff.rfl | cases h

/-- Scheduling before the code. -/
lemma scheduling_append (h : ∀ st ∈ new, st.scheduling = true) :
    deleting (new ++ k) = deleting k ∧ behind (new ++ k) = behind k ∧
      (OneDelete (new ++ k) ↔ OneDelete k) := by
  induction new with
  | nil => exact ⟨rfl, rfl, Iff.rfl⟩
  | cons st new ih =>
    obtain ⟨hst, hnew⟩ := List.forall_mem_cons.mp h
    obtain ⟨hd, hb, ht⟩ := ih hnew
    rw [List.cons_append]
    exact ⟨(deleting_of_scheduling hst).trans hd, (behind_of_scheduling hst).trans hb,
      (oneDelete_of_scheduling hst).trans ht⟩

lemma Plain.deleting (h : Plain l) : deleting l = none := by
  induction l with
  | nil => rfl
  | cons st l ih =>
    obtain ⟨hst, hl⟩ := List.forall_mem_cons.mp h
    cases st <;> first | exact ih hl | rfl | cases hst

lemma Plain.oneDelete (h : Plain l) : OneDelete l := by
  induction l with
  | nil => trivial
  | cons st l ih =>
    obtain ⟨hst, hl⟩ := List.forall_mem_cons.mp h
    cases st <;> first | exact ih hl | exact hl | cases hst

/-- Behind other code no deletion is under way. -/
lemma OneDelete.plain (h : OneDelete (st :: k)) (hs : st.scheduling = false) (hd : st.deletes = none) :
    Plain k := by
  cases st with
  | freeFrames | freeSpace => cases hd
  | acquire | release | tick | yield | resume => cases hs
  | _ => exact h

lemma OneDelete.deleting_none (h : OneDelete (st :: k)) (hs : st.scheduling = false)
    (hd : st.deletes = none) : deleting (st :: k) = none := by
  refine Plain.deleting (List.forall_mem_cons.mpr ⟨hd, h.plain hs hd⟩)

/-- The start of a deletion. -/
lemma deleteSpace_append (hrest : Plain rest) : deleting (deleteSpace a ++ rest) = some (a, true) ∧
    behind (deleteSpace a ++ rest) = rest ∧ OneDelete (deleteSpace a ++ rest) :=
  ⟨rfl, rfl, rest, rfl, hrest⟩

/-- The space that a piece of code deletes is named in it. -/
lemma mem_of_deleting {b : Bool} (hl : OneDelete l) (h : deleting l = some (a, b)) :
    .freeSpace a ∈ l := by
  induction l with
  | nil => cases h
  | cons st l ih =>
    cases st with
    | freeFrames c =>
      cases h
      obtain ⟨rest, rfl, -⟩ := hl
      simp
    | freeSpace c =>
      cases h
      exact .head _
    | acquire | release | tick | yield | resume => exact .tail _ (ih hl h)
    | _ => cases h

lemma deleting_of_mem (hl : OneDelete l) (h : .freeSpace a ∈ l) : ∃ b, deleting l = some (a, b) := by
  induction l with
  | nil => cases h
  | cons st l ih =>
    cases st with
    | freeFrames c =>
      obtain ⟨rest, rfl, hrest⟩ := hl
      simp only [releaseLock, List.cons_append, List.nil_append, List.mem_cons, reduceCtorEq,
        false_or, Stmt.freeSpace.injEq] at h
      obtain rfl | h := h
      · exact ⟨true, rfl⟩
      · cases hrest _ h
    | freeSpace c =>
      obtain h | h := List.mem_cons.mp h
      · cases h
        exact ⟨false, rfl⟩
      · cases hl _ h
    | acquire | release | tick | yield | resume =>
      obtain h | h := List.mem_cons.mp h
      · cases h
      · exact ih hl h
    | _ =>
      obtain h | h := List.mem_cons.mp h
      · cases h
      · cases hl _ h

/-- What follows a deletion is in the code. -/
lemma mem_of_mem_behind (h : st ∈ behind l) : st ∈ l := by
  induction l with
  | nil => cases h
  | cons st' l ih =>
    cases st' with
    | freeSpace => exact .tail _ h
    | _ => exact .tail _ (ih h)

lemma closes_append (hl : ∀ st ∈ l, st.seals = false) (hk : Closes k) : Closes (l ++ k) := by
  induction l with
  | nil => exact hk
  | cons st l ih =>
    obtain ⟨hst, hrest⟩ := List.forall_mem_cons.mp hl
    cases st with
    | exitSpace | load => cases hst
    | _ => exact ih hrest

lemma Closes.tail (h : Closes (st :: k)) : Closes k := by
  cases st with
  | exitSpace | load =>
    cases h
    trivial
  | _ => exact h

lemma Lasts.tail (h : Lasts a (st :: k)) (hst : st.keeps a = false) : Lasts a k := by
  obtain hkeep | ⟨-, hlast⟩ := h
  · rw [hst] at hkeep
    cases hkeep
  · exact hlast

lemma lasts_append (hl : .finish ∉ l) (hk : Lasts a k) : Lasts a (l ++ k) := by
  induction l with
  | nil => exact hk
  | cons st l ih =>
    obtain ⟨hst, hl⟩ := not_or.mp (mt List.mem_cons.mpr hl)
    refine .inr ⟨?_, ih hl⟩
    cases st with
    | finish => exact absurd rfl hst
    | _ => rfl

end Shape

/-! ### The spaces and the pointers to them -/

/-- What the thread `u` has behind the deletion of the space of `t`: it is its own space, and `u`
finishes or loads another one, or the PCB of `t` is unlinked. -/
inductive Behind (v : View) (u t : Tid) : List Stmt → Prop
  | finish (h : t = u) : Behind v u t [.finish]
  | load {e p k} (h : t = u) : Behind v u t (.load e p :: k)
  | unlink {p k} (h : t ≠ u) (ht : v.threadOf p = some t) : Behind v u t (.unlinkPCB p :: k)

/-- The pointer of `t` to a space without frames is about to be cut, or not used again. -/
inductive Dangles (v : View) (code : Tid → List Stmt) (cur t : Tid) (a : SpaceId) : Prop
  | freeing {u} (h : deleting (code u) = some (a, false))
  | load {e p k} (h : code t = .load e p :: k)
  | unlink {p k} (h : code cur = .unlinkPCB p :: k) (ht : v.threadOf p = some t) (hne : t ≠ cur)
  | finish (h : code t = [.finish] ∨ code t = [])

/-- **The deletions that are under way.** A space `stands` while it has a page table, and `lives` until
its memory is given back. -/
structure Deletions (v : View) (stands lives : SpaceId → Prop) (code : Tid → List Stmt)
    (cur : Tid) : Prop where
  oneDelete : ∀ u, OneDelete (code u)
  closes : ∀ u, Closes (code u)
  unique : ∀ {u w a b c}, deleting (code u) = some (a, b) → deleting (code w) = some (a, c) → u = w
  stage : ∀ {u a b}, deleting (code u) = some (a, b) → lives a ∧ (stands a ↔ b = true)
  aims : ∀ {u t a b}, deleting (code u) = some (a, b) → v.spaceOf t = some a →
    Behind v u t (behind (code u))
  made : ∀ {u w call p a b}, .startChild call p a ∈ code u →
    stands a ∧ deleting (code w) ≠ some (a, b)
  gone : ∀ {t a}, v.spaceOf t = some a → ¬ stands a → Dangles v code cur t a
  load : ∀ {u e p a}, .load e p ∈ code u → v.spaceOf u = some a → stands a →
    deleting (code u) = some (a, true)
  unlink : ∀ {u t p a}, .unlinkPCB p ∈ code u → t ≠ u → v.threadOf p = some t →
    v.spaceOf t = some a → stands a → deleting (code u) = some (a, true)
  lasts : ∀ {t a}, v.spaceOf t = some a → stands a → Lasts a (code t)
  held : ∀ {a}, stands a → (∃ t, v.spaceOf t = some a) ∨ ∃ u call p, .startChild call p a ∈ code u
  lives : ∀ {a}, stands a → lives a

/-- A deletion that begins: of the space of one thread, which no other thread deletes. -/
structure Begins (v : View) (stands : SpaceId → Prop) (code : Tid → List Stmt) (u : Tid)
    (a : SpaceId) (rest : List Stmt) : Prop where
  space : ∃ t, v.spaceOf t = some a ∧ Behind v u t rest
  stands : stands a
  alone : ∀ {w b}, deleting (code w) ≠ some (a, b)
  started : ∀ {w call p}, .startChild call p a ∉ code w

/-- How the code of the thread `u` may go on, where the spaces and the pointers stay. -/
structure Onward (v : View) (stands : SpaceId → Prop) (code : Tid → List Stmt) (u : Tid) (st : Stmt)
    (k k' : List Stmt) : Prop where
  oneDelete : OneDelete k'
  closes : Closes k'
  old : ∀ {a b}, deleting (st :: k) = some (a, b) →
    deleting k' = some (a, b) ∧ behind k' = behind (st :: k)
  new : ∀ {a b}, deleting k' = some (a, b) → deleting (st :: k) = some (a, b) ∨
    (b = true ∧ Begins v stands code u a (behind k'))
  startChild : ∀ {call p a}, .startChild call p a ∈ k' → .startChild call p a ∈ st :: k
  fork : ∀ {call p a}, .startChild call p a ∈ k → .startChild call p a ∈ k'
  load : ∀ {e p}, .load e p ∈ k' → .load e p ∈ st :: k ∨
    ∀ {a}, v.spaceOf u = some a → deleting k' = some (a, true)
  unlink : ∀ {p}, .unlinkPCB p ∈ k' → .unlinkPCB p ∈ st :: k ∨
    ∀ {t a}, t ≠ u → v.threadOf p = some t → v.spaceOf t = some a → stands a →
      deleting k' = some (a, true)
  lasts : ∀ {a}, v.spaceOf u = some a → stands a → Lasts a (st :: k) → Lasts a k'
  finish : st :: k = [.finish] → k' = []
  loaded : ∀ {e p a}, st = .load e p → v.spaceOf u = some a → stands a
  unlinked : ∀ {p t a}, st = .unlinkPCB p → v.threadOf p = some t → t ≠ u →
    v.spaceOf t = some a → stands a
  linked : ∀ {call p a}, st = .startChild call p a → stands a → ∃ t, v.spaceOf t = some a

section Deletions

variable {ow os : ℕ → Owner} {v v' : View} {stands lives stands' lives' : SpaceId → Prop}
  {code : Tid → List Stmt} {u cur cur' : Tid} {st : Stmt} {k k' : List Stmt}

/-- The PCBs that are still to be unlinked keep their threads. -/
lemma Behind.mono {t : Tid} {l : List Stmt} (h : Behind v u t l)
    (hkeep : ∀ {p}, .unlinkPCB p ∈ l → v.threadOf p = some t → v'.threadOf p = some t) :
    Behind v' u t l := by
  cases h with
  | finish he => exact .finish he
  | load he => exact .load he
  | unlink hne hp => exact .unlink hne (hkeep (.head _) hp)

/-- A statement of the code after a step of `u`. -/
lemma mem_update {t : Tid} {st' : Stmt} (h : st' ∈ Function.update code u k' t) :
    (t = u ∧ st' ∈ k') ∨ (t ≠ u ∧ st' ∈ code t) := by
  by_cases ht : t = u
  · subst ht
    rw [Function.update_self] at h
    exact .inl ⟨rfl, h⟩
  · rw [Function.update_of_ne ht] at h
    exact .inr ⟨ht, h⟩

lemma forall_update {P : List Stmt → Prop} (h : ∀ w, P (code w)) (hk : P k') (w : Tid) :
    P (Function.update code u k' w) := by
  by_cases hw : w = u
  · rwa [hw, Function.update_self]
  · rw [Function.update_of_ne hw]
    exact h w

/-- A statement stays that `u` does not execute. -/
lemma mem_update_of_mem (hcode : code u = st :: k) {w : Tid} {st' : Stmt} (hne : st' ≠ st)
    (hk : st' ∈ k → st' ∈ k') (h : st' ∈ code w) : st' ∈ Function.update code u k' w := by
  by_cases hw : w = u
  · subst hw
    rw [hcode] at h
    rw [Function.update_self]
    exact hk (List.mem_of_ne_of_mem hne h)
  · rwa [Function.update_of_ne hw]

/-- A thread lasts behind a statement that does not keep it. -/
lemma lasts_update (hcode : code u = st :: k) {t : Tid} {a : SpaceId} (hst : st.keeps a = false)
    (hk : Lasts a k → Lasts a k') (h : Lasts a (code t)) :
    Lasts a (Function.update code u k' t) := by
  by_cases ht : t = u
  · subst ht
    rw [Function.update_self]
    rw [hcode] at h
    exact hk (h.tail hst)
  · rwa [Function.update_of_ne ht]

/-- A pointer dangles on behind a statement that does not cut it. -/
lemma Dangles.update {t : Tid} {a : SpaceId} (h : Dangles v code u t a) (hcode : code u = st :: k)
    (hst : st.cuts = false) (hfree : ∀ {w}, deleting (code w) = some (a, false) →
      deleting (Function.update code u k' w) = some (a, false)) :
    Dangles v' (Function.update code u k') u t a := by
  have hother : ∀ {st' l}, st'.cuts = true → code t = st' :: l →
      Function.update code u k' t = st' :: l := by
    rintro st' l hcut hc
    rw [Function.update_of_ne]
    · exact hc
    · rintro rfl
      cases hc.symm.trans hcode
      rw [hst] at hcut
      cases hcut
  cases h with
  | freeing hw => exact .freeing (hfree hw)
  | load hc => exact .load (hother rfl hc)
  | unlink hc =>
    cases hc.symm.trans hcode
    cases hst
  | finish hc =>
    obtain hc | hc := hc
    · exact .finish (.inl (hother rfl hc))
    · refine .finish (.inr ?_)
      rw [Function.update_of_ne]
      · exact hc
      · rintro rfl
        cases hc.symm.trans hcode

/-- The deletion that a thread is in, after a step of `u`. -/
lemma Onward.deleting_update (hk : Onward v stands code u st k k') (hcode : code u = st :: k) {w : Tid}
    {a : SpaceId} {b : Bool} (h : deleting (Function.update code u k' w) = some (a, b)) :
    (deleting (code w) = some (a, b) ∧ behind (Function.update code u k' w) = behind (code w)) ∨
      (w = u ∧ b = true ∧ Begins v stands code u a (behind (Function.update code u k' w))) := by
  by_cases hw : w = u
  · subst hw
    rw [Function.update_self] at h ⊢
    obtain hold | ⟨hb, hnew⟩ := hk.new h
    · rw [hcode]
      exact .inl ⟨hold, (hk.old hold).2⟩
    · exact .inr ⟨rfl, hb, hnew⟩
  · rw [Function.update_of_ne hw] at h ⊢
    exact .inl ⟨h, rfl⟩

/-- A deletion goes on. -/
lemma Onward.deleting_of_old (hk : Onward v stands code u st k k') (hcode : code u = st :: k) {w : Tid}
    {a : SpaceId} {b : Bool} (h : deleting (code w) = some (a, b)) :
    deleting (Function.update code u k' w) = some (a, b) := by
  by_cases hw : w = u
  · subst hw
    rw [Function.update_self]
    rw [hcode] at h
    exact (hk.old h).1
  · rwa [Function.update_of_ne hw]

/-- A pointer that dangled still does. -/
lemma Onward.dangles (hk : Onward v stands code u st k k') (hcode : code u = st :: k) {t : Tid}
    {a : SpaceId} (ht : v.spaceOf t = some a) (ha : ¬ stands a) (h : Dangles v code u t a) :
    Dangles v (Function.update code u k') cur' t a := by
  cases h with
  | freeing h => exact .freeing (hk.deleting_of_old hcode h)
  | load h =>
    by_cases htu : t = u
    · subst htu
      rw [hcode] at h
      exact absurd (hk.loaded (List.cons.inj h).1 ht) ha
    · exact .load ((Function.update_of_ne htu ..).trans h)
  | unlink h hp hne =>
    rw [hcode] at h
    exact absurd (hk.unlinked (List.cons.inj h).1 hp hne ht) ha
  | finish h =>
    refine .finish ?_
    by_cases htu : t = u
    · subst htu
      rw [Function.update_self]
      rw [hcode] at h
      obtain h | h := h
      · exact .inr (hk.finish h)
      · cases h
    · rwa [Function.update_of_ne htu]

/-- **A turn of the running thread.** -/
theorem Deletions.onward (h : Deletions v stands lives code u) (hcode : code u = st :: k)
    (hunique : ∀ {t t' a}, v.spaceOf t = some a → v.spaceOf t' = some a → t = t')
    (hk : Onward v stands code u st k k') :
    Deletions v stands lives (Function.update code u k') cur' where
  oneDelete := forall_update h.oneDelete hk.oneDelete
  closes := forall_update h.closes hk.closes
  unique {w x a b c} hw hx := by
    obtain ⟨hwold, -⟩ | ⟨hwu, -, hwnew⟩ := hk.deleting_update hcode hw <;>
      obtain ⟨hxold, -⟩ | ⟨hxu, -, hxnew⟩ := hk.deleting_update hcode hx
    · exact h.unique hwold hxold
    · exact absurd hwold hxnew.alone
    · exact absurd hxold hwnew.alone
    · exact hwu.trans hxu.symm
  stage {w a b} hw := by
    obtain ⟨hold, -⟩ | ⟨-, hb, hnew⟩ := hk.deleting_update hcode hw
    · exact h.stage hold
    · exact ⟨h.lives hnew.stands, iff_of_true hnew.stands hb⟩
  aims {w t a b} hw ht := by
    obtain ⟨hold, hrest⟩ | ⟨rfl, -, hnew⟩ := hk.deleting_update hcode hw
    · rw [hrest]
      exact h.aims hold ht
    · obtain ⟨t', ht', hrest⟩ := hnew.space
      rwa [hunique ht ht']
  made {w x call p a b} hw := by
    have hmem : .startChild call p a ∈ code w := by
      obtain ⟨rfl, hk'⟩ | ⟨-, hold⟩ := mem_update hw
      · rw [hcode]
        exact hk.startChild hk'
      · exact hold
    refine ⟨(h.made (w := w) (b := b) hmem).1, fun hx => ?_⟩
    obtain ⟨hold, -⟩ | ⟨-, -, hnew⟩ := hk.deleting_update hcode hx
    · exact (h.made hmem).2 hold
    · exact hnew.started hmem
  gone ht ha := hk.dangles hcode ht ha (h.gone ht ha)
  load {w e p a} hw ha hs := by
    obtain ⟨rfl, hk'⟩ | ⟨-, hold⟩ := mem_update hw
    · obtain hold | hnew := hk.load hk'
      · exact hk.deleting_of_old hcode (h.load (hcode ▸ hold) ha hs)
      · rw [Function.update_self]
        exact hnew ha
    · exact hk.deleting_of_old hcode (h.load hold ha hs)
  unlink {w t p a} hw hne hp ha hs := by
    obtain ⟨rfl, hk'⟩ | ⟨-, hold⟩ := mem_update hw
    · obtain hold | hnew := hk.unlink hk'
      · exact hk.deleting_of_old hcode (h.unlink (hcode ▸ hold) hne hp ha hs)
      · rw [Function.update_self]
        exact hnew hne hp ha hs
    · exact hk.deleting_of_old hcode (h.unlink hold hne hp ha hs)
  lasts {t a} ht hs := by
    have hold := h.lasts ht hs
    by_cases htu : t = u
    · subst htu
      rw [Function.update_self]
      exact hk.lasts ht hs (hcode ▸ hold)
    · rwa [Function.update_of_ne htu]
  held {a} hs := by
    obtain hold | ⟨w, call, p, hw⟩ := h.held hs
    · exact .inl hold
    by_cases hwu : w = u
    · subst hwu
      rw [hcode] at hw
      obtain hst | hrest := List.mem_cons.mp hw
      · exact .inl (hk.linked hst.symm hs)
      · refine .inr ⟨w, call, p, ?_⟩
        rw [Function.update_self]
        exact hk.fork hrest
    · refine .inr ⟨w, call, p, ?_⟩
      rwa [Function.update_of_ne hwu]
  lives := h.lives

/-- **Pointers are cut**, none of them to a space that stands. -/
theorem Deletions.cut (h : Deletions v stands lives code cur)
    (hspace : ∀ {t a}, v'.spaceOf t = some a → v.spaceOf t = some a)
    (hstands : ∀ {t a}, v.spaceOf t = some a → stands a → v'.spaceOf t = some a)
    (hthread : ∀ {p t}, v'.threadOf p = some t → v.threadOf p = some t)
    (hkeep : ∀ {u p t a}, .unlinkPCB p ∈ code u → v.threadOf p = some t → v'.spaceOf t = some a →
      v'.threadOf p = some t) : Deletions v' stands lives code cur where
  oneDelete := h.oneDelete
  closes := h.closes
  unique := h.unique
  stage := h.stage
  aims hu ht := (h.aims hu (hspace ht)).mono fun hp hq => hkeep (mem_of_mem_behind hp) hq ht
  made := h.made
  gone {t a} ht ha := by
    cases h.gone (hspace ht) ha with
    | freeing hu => exact .freeing hu
    | load hc => exact .load hc
    | unlink hc hp hne =>
      refine .unlink hc (hkeep (u := cur) ?_ hp ht) hne
      rw [hc]
      exact .head _
    | finish hc => exact .finish hc
  load hu ha hs := h.load hu (hspace ha) hs
  unlink hu hne hp ha hs := h.unlink hu hne (hthread hp) (hspace ha) hs
  lasts ht hs := h.lasts (hspace ht) hs
  held hs := (h.held hs).imp_left (Exists.imp fun _ ht => hstands ht hs)
  lives := h.lives

/-- The statements of a thread that has none yet. -/
theorem Deletions.spawn (h : Deletions v stands lives code cur) {c : Tid} (hcode : code c = [])
    (hspace : v.spaceOf c = none) (hcur : cur ≠ c) :
    Deletions v stands lives (Function.update code c [.threadRoot, .childFunction]) cur := by
  have hdel : ∀ w, deleting (Function.update code c [.threadRoot, .childFunction] w) =
      deleting (code w) ∧ behind (Function.update code c [.threadRoot, .childFunction] w) =
        behind (code w) := by
    intro w
    by_cases hw : w = c
    · rw [hw, Function.update_self, hcode]
      exact ⟨rfl, rfl⟩
    · rw [Function.update_of_ne hw]
      exact ⟨rfl, rfl⟩
  have hmem : ∀ {w st'}, st' ∈ Function.update code c [.threadRoot, .childFunction] w →
      st'.marks = true → st' ∈ code w := by
    intro w st' hst hm
    obtain ⟨-, hst⟩ | ⟨-, hst⟩ := mem_update hst
    · simp only [List.mem_cons, List.not_mem_nil, or_false] at hst
      obtain rfl | rfl := hst <;> cases hm
    · exact hst
  have hne : ∀ {t a}, v.spaceOf t = some a → t ≠ c := by
    rintro t a ht rfl
    cases hspace.symm.trans ht
  refine ⟨fun w => ?_, fun w => ?_, fun hu hw => ?_, fun hu => ?_, fun hu ht => ?_, fun hu => ?_,
    fun ht ha => ?_, fun hu => ?_, fun hu => ?_, fun ht hs => ?_, fun hs => ?_, h.lives⟩
  · exact forall_update h.oneDelete (Plain.oneDelete (by simp [Plain, Stmt.deletes])) w
  · exact forall_update h.closes (by trivial) w
  · rw [(hdel _).1] at hu hw
    exact h.unique hu hw
  · rw [(hdel _).1] at hu
    exact h.stage hu
  · rw [(hdel _).1] at hu
    rw [(hdel _).2]
    exact h.aims hu ht
  · rw [(hdel _).1]
    exact h.made (hmem hu rfl)
  · cases h.gone ht ha with
    | freeing hu => exact .freeing ((hdel _).1.trans hu)
    | load hc => exact .load ((Function.update_of_ne (hne ht) ..).trans hc)
    | unlink hc hp htcur => exact .unlink ((Function.update_of_ne hcur ..).trans hc) hp htcur
    | finish hc =>
      refine .finish ?_
      rwa [Function.update_of_ne (hne ht)]
  · rw [(hdel _).1]
    exact h.load (hmem hu rfl)
  · rw [(hdel _).1]
    exact h.unlink (hmem hu rfl)
  · rw [Function.update_of_ne (hne ht)]
    exact h.lasts ht hs
  · obtain hold | ⟨w, call, p, hw⟩ := h.held hs
    · exact .inl hold
    · refine .inr ⟨w, call, p, ?_⟩
      rw [Function.update_of_ne]
      · exact hw
      · rintro rfl
        rw [hcode] at hw
        cases hw

/-- **The `Fork` hands the space over** to the thread of the child. -/
theorem Deletions.link (h : Deletions v stands lives code cur) {call : Registers} {p : PCBId}
    {a : SpaceId} (hst : .startChild call p a ∈ code cur)
    (hcode : code v.nextThread = [.threadRoot, .childFunction])
    (hspace : v.spaceOf v.nextThread = none) (hthread : ∀ {q}, v.threadOf q ≠ some v.nextThread)
    (hp : ∀ {w}, .unlinkPCB p ∉ code w) : Deletions (v.link p a) stands lives code cur := by
  have ha : stands a := (h.made (w := cur) (b := true) hst).1
  have new : ∀ {t b}, (v.link p a).spaceOf t = some b →
      (t = v.nextThread ∧ b = a) ∨ (t ≠ v.nextThread ∧ v.spaceOf t = some b) := by
    intro t b ht
    by_cases hc : t = v.nextThread
    · subst hc
      have hself : (v.link p a).spaceOf v.nextThread = some a := Function.update_self ..
      exact .inl ⟨rfl, Option.some.inj (ht.symm.trans hself)⟩
    · exact .inr ⟨hc, (Function.update_of_ne hc ..).symm.trans ht⟩
  have old : ∀ {t b}, v.spaceOf t = some b → (v.link p a).spaceOf t = some b := by
    intro t b ht
    refine (Function.update_of_ne ?_ ..).trans ht
    rintro rfl
    cases hspace.symm.trans ht
  have threadOf : ∀ {w q}, .unlinkPCB q ∈ code w → (v.link p a).threadOf q = v.threadOf q := by
    intro w q hw
    refine Function.update_of_ne ?_ ..
    rintro rfl
    exact hp hw
  refine ⟨h.oneDelete, h.closes, h.unique, h.stage, fun {u t b c} hu ht => ?_, h.made, fun ht hb => ?_,
    fun {u e q b} hu hb hs => ?_, fun {u t q b} hu hne hq ht hs => ?_, fun ht hs => ?_,
    fun hs => ?_, h.lives⟩
  · obtain ⟨rfl, rfl⟩ | ⟨-, ht⟩ := new ht
    · exact absurd hu (h.made hst).2
    · exact (h.aims hu ht).mono fun hq hqt => (threadOf (mem_of_mem_behind hq)).trans hqt
  · obtain ⟨rfl, rfl⟩ | ⟨-, ht⟩ := new ht
    · exact absurd ha hb
    · cases h.gone ht hb with
      | freeing hu => exact .freeing hu
      | load hc => exact .load hc
      | unlink hc hq hne =>
        refine .unlink hc ((threadOf (w := cur) ?_).trans hq) hne
        rw [hc]
        exact .head _
      | finish hc => exact .finish hc
  · obtain ⟨rfl, -⟩ | ⟨-, hb⟩ := new hb
    · rw [hcode] at hu
      simp at hu
    · exact h.load hu hb hs
  · rw [threadOf hu] at hq
    obtain ⟨rfl, -⟩ | ⟨-, ht⟩ := new ht
    · exact absurd hq hthread
    · exact h.unlink hu hne hq ht hs
  · obtain ⟨rfl, -⟩ | ⟨-, ht⟩ := new ht
    · rw [hcode]
      exact .inr ⟨rfl, .inl rfl⟩
    · exact h.lasts ht hs
  · exact (h.held hs).imp_left (Exists.imp fun _ ht => old ht)

/-- **A `Fork` makes the space `b`** for the child. -/
theorem Deletions.copy (h : Deletions v stands lives code u) {call : Registers} {p : PCBId}
    {b : SpaceId} (hcode : code u = .copySpace call p :: k) (hb : ¬ lives b)
    (hspace : ∀ {t}, v.spaceOf t ≠ some b) (hview : v'.spaceOf = v.spaceOf)
    (hthread : v'.threadOf = v.threadOf)
    (hstands : ∀ {a}, stands' a ↔ stands a ∨ a = b) (hlives : ∀ {a}, lives' a ↔ lives a ∨ a = b) :
    Deletions v' stands' lives'
      (Function.update code u (releaseLock .mmLock ++ .startChild call p b :: k)) u := by
  have hone : OneDelete (.copySpace call p :: k) := hcode ▸ h.oneDelete u
  have hplain : Plain (.startChild call p b :: k) :=
    List.forall_mem_cons.mpr ⟨rfl, hone.plain rfl rfl⟩
  have hold : deleting (code u) = none := by
    rw [hcode]
    exact hone.deleting_none rfl rfl
  have hdel : ∀ {w a c}, deleting (Function.update code u
        (releaseLock .mmLock ++ .startChild call p b :: k) w) = some (a, c) →
      w ≠ u ∧ deleting (code w) = some (a, c) := by
    intro w a c hw
    by_cases hwu : w = u
    · subst hwu
      rw [Function.update_self] at hw
      cases hw
    · rw [Function.update_of_ne hwu] at hw
      exact ⟨hwu, hw⟩
  have hnew : ∀ {w a c}, deleting (code w) = some (a, c) → deleting (Function.update code u
        (releaseLock .mmLock ++ .startChild call p b :: k) w) = some (a, c) := by
    intro w a c hw
    rw [Function.update_of_ne]
    · exact hw
    · rintro rfl
      cases hold.symm.trans hw
  have hmem : ∀ {w st'}, st' ∈ Function.update code u
        (releaseLock .mmLock ++ .startChild call p b :: k) w → st'.marks = true →
      st' ∈ code w ∨ st' = .startChild call p b := by
    intro w st' hst hm
    obtain ⟨rfl, hk⟩ | ⟨-, hw⟩ := mem_update hst
    · simp only [releaseLock, List.cons_append, List.nil_append, List.mem_cons] at hk
      obtain rfl | rfl | rfl | hk := hk
      · cases hm
      · cases hm
      · exact .inr rfl
      · rw [hcode]
        exact .inl (.tail _ hk)
    · exact .inl hw
  have hstood : ∀ {t a}, v.spaceOf t = some a → stands' a → stands a := by
    intro t a ht hs
    obtain hs | rfl := hstands.mp hs
    · exact hs
    · exact absurd ht hspace
  constructor
  case oneDelete => exact forall_update h.oneDelete hplain.oneDelete
  case closes =>
    have hclosed := h.closes u
    rw [hcode] at hclosed
    refine forall_update h.closes ?_
    exact closes_append (l := releaseLock .mmLock ++ [.startChild call p b])
      (by simp [releaseLock, Stmt.seals]) hclosed.tail
  case unique => exact fun hw hx => h.unique (hdel hw).2 (hdel hx).2
  case stage =>
    intro w a c hw
    obtain ⟨hlive, hs⟩ := h.stage (hdel hw).2
    refine ⟨hlives.mpr (.inl hlive), ?_⟩
    rw [← hs, hstands, or_iff_left]
    rintro rfl
    exact hb hlive
  case aims =>
    intro w t a c hw ht
    rw [hview] at ht
    obtain ⟨hwu, hw⟩ := hdel hw
    rw [Function.update_of_ne hwu]
    refine (h.aims hw ht).mono fun _ hp => ?_
    rwa [hthread]
  case made =>
    intro w x call' p' a c hw
    obtain hw | hst := hmem hw rfl
    · exact ⟨hstands.mpr (.inl (h.made (w := w) (b := c) hw).1), fun hx => (h.made hw).2 (hdel hx).2⟩
    · cases hst
      refine ⟨hstands.mpr (.inr rfl), fun hx => hb (h.stage (hdel hx).2).1⟩
  case gone =>
    intro t a ht ha
    rw [hview] at ht
    exact (h.gone ht fun hs => ha (hstands.mpr (.inl hs))).update hcode rfl hnew
  case load =>
    intro w e p' a hw ht hs
    rw [hview] at ht
    obtain hw | hst := hmem hw rfl
    · exact hnew (h.load hw ht (hstood ht hs))
    · cases hst
  case unlink =>
    intro w t p' a hw hne hp ht hs
    rw [hview] at ht
    rw [hthread] at hp
    obtain hw | hst := hmem hw rfl
    · exact hnew (h.unlink hw hne hp ht (hstood ht hs))
    · cases hst
  case lasts =>
    intro t a ht hs
    rw [hview] at ht
    refine lasts_update hcode rfl (fun hlast => ?_) (h.lasts ht (hstood ht hs))
    exact lasts_append (l := releaseLock .mmLock ++ [.startChild call p b])
      (by simp [releaseLock]) hlast
  case held =>
    intro a hs
    rw [hview]
    obtain hs | rfl := hstands.mp hs
    · obtain ht | ⟨w, call', p', hw⟩ := h.held hs
      · exact .inl ht
      · refine .inr ⟨w, call', p', mem_update_of_mem hcode (by simp) (fun hk => ?_) hw⟩
        exact List.mem_append_right _ (.tail _ hk)
    · refine .inr ⟨u, call, p, ?_⟩
      rw [Function.update_self]
      exact List.mem_append_right _ (.head _)
  case lives =>
    intro a hs
    exact hlives.mpr ((hstands.mp hs).imp_left h.lives)

/-- **`doExec` makes the space `b`** for the thread `u`, whose pointer has been cut. -/
theorem Deletions.loaded (h : Deletions v stands lives code cur) {b : SpaceId}
    (hcode : code u = [.incrementPC, .user]) (hnone : v.spaceOf u = none) (hb : ¬ lives b)
    (hfree : ∀ {t}, v.spaceOf t ≠ some b)
    (hspace : v'.spaceOf = Function.update v.spaceOf u (some b)) (hthread : v'.threadOf = v.threadOf)
    (hp : ∀ {w p}, .unlinkPCB p ∈ code w → v.threadOf p = some u → u = w)
    (hstands : ∀ {a}, stands' a ↔ stands a ∨ a = b) (hlives : ∀ {a}, lives' a ↔ lives a ∨ a = b) :
    Deletions v' stands' lives' code cur := by
  have new : ∀ {t a}, v'.spaceOf t = some a → (t = u ∧ a = b) ∨ v.spaceOf t = some a := by
    intro t a ht
    rw [hspace] at ht
    by_cases htu : t = u
    · subst htu
      rw [Function.update_self] at ht
      exact .inl ⟨rfl, (Option.some.inj ht).symm⟩
    · rw [Function.update_of_ne htu] at ht
      exact .inr ht
  have old : ∀ {t a}, v.spaceOf t = some a → v'.spaceOf t = some a := by
    intro t a ht
    rw [hspace, Function.update_of_ne]
    · exact ht
    · rintro rfl
      cases hnone.symm.trans ht
  have fresh : ∀ {w c}, deleting (code w) ≠ some (b, c) := fun hw => hb (h.stage hw).1
  have hstood : ∀ {t a}, v.spaceOf t = some a → stands' a → stands a := by
    intro t a ht hs
    obtain hs | rfl := hstands.mp hs
    · exact hs
    · exact absurd ht hfree
  constructor
  case oneDelete => exact h.oneDelete
  case closes => exact h.closes
  case unique => exact h.unique
  case stage =>
    intro w a c hw
    obtain ⟨hlive, hs⟩ := h.stage hw
    refine ⟨hlives.mpr (.inl hlive), ?_⟩
    rw [← hs, hstands, or_iff_left]
    rintro rfl
    exact hb hlive
  case aims =>
    intro w t a c hw ht
    obtain ⟨-, rfl⟩ | ht := new ht
    · exact absurd hw fresh
    · refine (h.aims hw ht).mono fun _ hp => ?_
      rwa [hthread]
  case made =>
    intro w x call p a c hw
    obtain ⟨hs, hd⟩ := h.made (w := x) (b := c) hw
    exact ⟨hstands.mpr (.inl hs), hd⟩
  case gone =>
    intro t a ht ha
    obtain ⟨-, rfl⟩ | ht := new ht
    · exact absurd (hstands.mpr (.inr rfl)) ha
    cases h.gone ht fun hs => ha (hstands.mpr (.inl hs)) with
    | freeing hw => exact .freeing hw
    | load hc => exact .load hc
    | unlink hc hp hne => exact .unlink hc (by rwa [hthread]) hne
    | finish hc => exact .finish hc
  case load =>
    intro w e p a hw ht hs
    obtain ⟨rfl, -⟩ | ht := new ht
    · rw [hcode] at hw
      simp at hw
    · exact h.load hw ht (hstood ht hs)
  case unlink =>
    intro w t p a hw hne hpt ht hs
    rw [hthread] at hpt
    obtain ⟨rfl, -⟩ | ht := new ht
    · exact absurd (hp hw hpt) hne
    · exact h.unlink hw hne hpt ht (hstood ht hs)
  case lasts =>
    intro t a ht hs
    obtain ⟨rfl, -⟩ | ht := new ht
    · rw [hcode]
      exact .inr ⟨rfl, .inl rfl⟩
    · exact h.lasts ht (hstood ht hs)
  case held =>
    intro a hs
    obtain hs | rfl := hstands.mp hs
    · exact (h.held hs).imp_left (Exists.imp fun _ ht => old ht)
    · refine .inl ⟨u, ?_⟩
      rw [hspace, Function.update_self]
  case lives =>
    intro a hs
    exact hlives.mpr ((hstands.mp hs).imp_left h.lives)

/-- **The frames of `a` are given back.** -/
theorem Deletions.frames (h : Deletions v stands lives code u) {a : SpaceId}
    (hcode : code u = .freeFrames a :: k) (hstands : ∀ {b}, stands' b ↔ stands b ∧ b ≠ a) :
    Deletions v stands' lives (Function.update code u k) u := by
  have hdel : deleting (code u) = some (a, true) := by
    rw [hcode]
    rfl
  have hone := h.oneDelete u
  rw [hcode] at hone
  obtain ⟨rest, rfl, hrest⟩ := hone
  have hdeleting : ∀ {w b c}, deleting (Function.update code u
        (releaseLock .mmLock ++ .freeSpace a :: rest) w) = some (b, c) →
      (w = u ∧ b = a ∧ c = false) ∨ (w ≠ u ∧ b ≠ a ∧ deleting (code w) = some (b, c)) := by
    intro w b c hw
    by_cases hwu : w = u
    · subst hwu
      rw [Function.update_self] at hw
      cases hw
      exact .inl ⟨rfl, rfl, rfl⟩
    · rw [Function.update_of_ne hwu] at hw
      refine .inr ⟨hwu, ?_, hw⟩
      rintro rfl
      exact hwu (h.unique hw hdel)
  have hkeep : ∀ {w b c}, b ≠ a → deleting (code w) = some (b, c) →
      deleting (Function.update code u (releaseLock .mmLock ++ .freeSpace a :: rest) w) =
        some (b, c) := by
    intro w b c hb hw
    rw [Function.update_of_ne]
    · exact hw
    · rintro rfl
      cases hdel.symm.trans hw
      exact hb rfl
  have hmem : ∀ {w st'}, st' ∈ Function.update code u
      (releaseLock .mmLock ++ .freeSpace a :: rest) w → st' ∈ code w := by
    intro w st' hst
    obtain ⟨rfl, hk⟩ | ⟨-, hw⟩ := mem_update hst
    · rw [hcode]
      exact .tail _ hk
    · exact hw
  constructor
  case oneDelete => exact forall_update h.oneDelete hrest
  case closes =>
    have hclosed := h.closes u
    rw [hcode] at hclosed
    exact forall_update h.closes hclosed.tail
  case unique =>
    intro w x b c d hw hx
    obtain ⟨hwu, hwa, -⟩ | ⟨-, hwa, hw⟩ := hdeleting hw <;>
      obtain ⟨hxu, hxa, -⟩ | ⟨-, hxa, hx⟩ := hdeleting hx
    · exact hwu.trans hxu.symm
    · exact absurd hwa hxa
    · exact absurd hxa hwa
    · exact h.unique hw hx
  case stage =>
    intro w b c hw
    obtain ⟨-, rfl, rfl⟩ | ⟨-, hb, hw⟩ := hdeleting hw
    · exact ⟨(h.stage hdel).1, iff_of_false (fun hs => (hstands.mp hs).2 rfl) Bool.false_ne_true⟩
    · refine ⟨(h.stage hw).1, ?_⟩
      rw [hstands, and_iff_left hb]
      exact (h.stage hw).2
  case aims =>
    intro w t b c hw ht
    obtain ⟨rfl, rfl, -⟩ | ⟨hwu, -, hw⟩ := hdeleting hw
    · have hold := h.aims hdel ht
      rw [hcode] at hold
      rw [Function.update_self]
      exact hold
    · rw [Function.update_of_ne hwu]
      exact h.aims hw ht
  case made =>
    intro w x call p b c hw
    have hb : b ≠ a := by
      rintro rfl
      exact (h.made (hmem hw)).2 hdel
    refine ⟨hstands.mpr ⟨(h.made (w := w) (b := true) (hmem hw)).1, hb⟩, fun hx => ?_⟩
    obtain ⟨-, hxa, -⟩ | ⟨-, -, hx⟩ := hdeleting hx
    · exact hb hxa
    · exact (h.made (hmem hw)).2 hx
  case gone =>
    intro t b ht hb
    by_cases hba : b = a
    · subst hba
      refine .freeing (u := u) ?_
      rw [Function.update_self]
      rfl
    exact (h.gone ht fun hs => hb (hstands.mpr ⟨hs, hba⟩)).update hcode rfl (hkeep hba)
  case load =>
    intro w e p b hw ht hs
    obtain ⟨hs, hb⟩ := hstands.mp hs
    exact hkeep hb (h.load (hmem hw) ht hs)
  case unlink =>
    intro w t p b hw hne hp ht hs
    obtain ⟨hs, hb⟩ := hstands.mp hs
    exact hkeep hb (h.unlink (hmem hw) hne hp ht hs)
  case lasts =>
    intro t b ht hs
    obtain ⟨hs, hb⟩ := hstands.mp hs
    exact lasts_update hcode (decide_eq_false fun he => hb he.symm) id (h.lasts ht hs)
  case held =>
    intro b hs
    refine (h.held (hstands.mp hs).1).imp_right ?_
    rintro ⟨w, call, p, hw⟩
    exact ⟨w, call, p, mem_update_of_mem hcode (by simp) id hw⟩
  case lives => exact fun hs => h.lives (hstands.mp hs).1

/-- **The memory of `a` is given back.** What comes next cuts the pointer. -/
theorem Deletions.space (h : Deletions v stands lives code u) {a : SpaceId}
    (hcode : code u = .freeSpace a :: k) (hlives : ∀ {b}, lives' b ↔ lives b ∧ b ≠ a) :
    Deletions v stands lives' (Function.update code u k) u := by
  have hdel : deleting (code u) = some (a, false) := by
    rw [hcode]
    rfl
  have hplain : Plain k := by
    have hone := h.oneDelete u
    rwa [hcode] at hone
  have hdead : ¬ stands a := fun hs => Bool.noConfusion ((h.stage hdel).2.mp hs)
  have hdeleting : ∀ {w b c}, deleting (Function.update code u k w) = some (b, c) →
      w ≠ u ∧ b ≠ a ∧ deleting (code w) = some (b, c) := by
    intro w b c hw
    by_cases hwu : w = u
    · subst hwu
      rw [Function.update_self, hplain.deleting] at hw
      cases hw
    · rw [Function.update_of_ne hwu] at hw
      refine ⟨hwu, ?_, hw⟩
      rintro rfl
      exact hwu (h.unique hw hdel)
  have hkeep : ∀ {w b c}, (b ≠ a ∨ c = true) → deleting (code w) = some (b, c) →
      deleting (Function.update code u k w) = some (b, c) := by
    intro w b c hb hw
    rw [Function.update_of_ne]
    · exact hw
    · rintro rfl
      cases hdel.symm.trans hw
      obtain hb | hb := hb
      · exact hb rfl
      · cases hb
  have hmem : ∀ {w st'}, st' ∈ Function.update code u k w → st' ∈ code w := by
    intro w st' hst
    obtain ⟨rfl, hk⟩ | ⟨-, hw⟩ := mem_update hst
    · rw [hcode]
      exact .tail _ hk
    · exact hw
  constructor
  case oneDelete => exact forall_update h.oneDelete hplain.oneDelete
  case closes =>
    have hclosed := h.closes u
    rw [hcode] at hclosed
    exact forall_update h.closes hclosed.tail
  case unique => exact fun hw hx => h.unique (hdeleting hw).2.2 (hdeleting hx).2.2
  case stage =>
    intro w b c hw
    obtain ⟨-, hb, hw⟩ := hdeleting hw
    exact ⟨hlives.mpr ⟨(h.stage hw).1, hb⟩, (h.stage hw).2⟩
  case aims =>
    intro w t b c hw ht
    obtain ⟨hwu, -, hw⟩ := hdeleting hw
    rw [Function.update_of_ne hwu]
    exact h.aims hw ht
  case made =>
    intro w x call p b c hw
    exact ⟨(h.made (w := w) (b := true) (hmem hw)).1,
      fun hx => (h.made (hmem hw)).2 (hdeleting hx).2.2⟩
  case gone =>
    intro t b ht hb
    by_cases hba : b = a
    · subst hba
      have hbehind := h.aims hdel ht
      rw [hcode] at hbehind
      change Behind v u t k at hbehind
      cases hbehind with
      | finish htu =>
        subst htu
        exact .finish (.inl (Function.update_self ..))
      | load htu =>
        subst htu
        exact .load (Function.update_self ..)
      | unlink hne hp => exact .unlink (Function.update_self ..) hp hne
    exact (h.gone ht hb).update hcode rfl (hkeep (.inl hba))
  case load => exact fun hw ht hs => hkeep (.inr rfl) (h.load (hmem hw) ht hs)
  case unlink => exact fun hw hne hp ht hs => hkeep (.inr rfl) (h.unlink (hmem hw) hne hp ht hs)
  case lasts => exact fun ht hs => lasts_update hcode rfl id (h.lasts ht hs)
  case held =>
    intro b hs
    refine (h.held hs).imp_right ?_
    rintro ⟨w, call, p, hw⟩
    exact ⟨w, call, p, mem_update_of_mem hcode (by simp) id hw⟩
  case lives =>
    intro b hs
    refine hlives.mpr ⟨h.lives hs, ?_⟩
    rintro rfl
    exact hdead hs

end Deletions

end Nachos.Process
