import Mathlib.Computability.StateTransition
import Nachos.Lib.Except
import Nachos.Elevator.Act
import Nachos.Elevator.Entries

/-!
# One thread at a time

In the sequential setting a thread of the elevator program runs until it waits, ends, or is at the
top of the loop of `ELEVATOR::start` again, and only then another one runs. The code is the code of
the client; of the kernel there is left who waits for which condition, as no lock is ever busy. In a
round the elevator does one iteration of its loop, and then the persons that it has woken go on, in
some order.
-/

namespace Nachos.Elevator

open Lib (ok_bind)
open Relation (ReflTransGen)
open StateTransition
open Threads

/-! ### A thread alone -/

/-- A thread in the queue of a condition: the label it goes on at, and what `Wait` returns. -/
structure Waiter where
  thread : Tid
  label : Label
  ret : Ret
  deriving DecidableEq

/-- The shared data, and who waits for each condition, the first one first. -/
structure Lineup where
  shared : Shared
  queue : ℕ → List Waiter

/-- A thread that runs alone, and whom it has woken. -/
inductive Solo where
  /-- At a label, with what the last call returned. -/
  | on (w : Lineup) (woken : List Waiter) (c : Label) (r : Ret)
  /-- At the top of the loop of `ELEVATOR::start`. -/
  | around (w : Lineup) (woken : List Waiter) (fromFloor toFloor : ℤ)
  /-- In `Wait`, or finished. -/
  | off (w : Lineup) (woken : List Waiter)
  | fault (f : Fault)

def Solo.goOn (w : Lineup) (woken : List Waiter) (r : Ret) : Label → Solo
  | .start frm dst => .around w woken frm dst
  | c => .on w woken c r

/-- A call, when no other thread runs meanwhile. -/
def Lineup.perform (w : Lineup) (woken : List Waiter) (t : Tid) : Call Label → Solo
  | .acquire l c => .goOn w woken (.acquired (.lock l)) c
  | .release _ c | .up _ c | .yield c | .oneTick c | .skip c => .goOn w woken .unit c
  | .signal cond _ c =>
    match w.queue cond with
    | [] => .goOn w woken (.thread none) c
    | x :: rest =>
      .goOn { w with queue := Function.update w.queue cond rest } (woken ++ [x])
        (.thread (some x.thread)) c
  | .broadcast cond _ c =>
    .goOn { w with queue := Function.update w.queue cond [] } (woken ++ w.queue cond)
      (.count (w.queue cond).length) c
  | .wait cond l c =>
    .off { w with queue := Function.update w.queue cond (w.queue cond ++ [⟨t, c, .waited cond l⟩]) }
      woken
  -- only the persons call it, who have disabled interrupts before
  | .setLevel _ c => .goOn w woken (.level .intOff) c
  | .finish => .off w woken
  | .down .. | .fork .. => .fault .disabled

/-- The code at the label runs, up to the end of its call. -/
def Solo.step (cfg : Config) (t : Tid) : Solo → Option Solo
  | .on w woken c r =>
    match (client cfg).code .pause t c r w.shared with
    | .error f => some (.fault f)
    | .ok (sh, call) => some ({ w with shared := sh }.perform woken t call)
  | _ => none

/-! ### Rounds -/

/-- The elevator between two iterations of its loop, with the floors it is on its way to. -/
structure Car where
  lineup : Lineup
  fromFloor : ℤ
  toFloor : ℤ

/-- One iteration of the loop, by the thread `t`. -/
def Car.Iterates (cfg : Config) (t : Tid) (k : Car) (woken : List Waiter) (k' : Car) : Prop :=
  .around k'.lineup woken k'.fromFloor k'.toFloor ∈
    eval (Solo.step cfg t) (.on k.lineup [] (.start k.fromFloor k.toFloor) .unit)

/-- A thread that was woken goes on to its next `Wait` or to its end. -/
def Lineup.GoesOn (cfg : Config) (w : Lineup) (x : Waiter) (w' : Lineup) : Prop :=
  .off w' [] ∈ eval (Solo.step cfg x.thread) (.on w [] x.label x.ret)

/-- Threads that were woken go on, one after another. -/
inductive Serves (cfg : Config) : Lineup → List Waiter → Lineup → Prop
  | nil {w : Lineup} : Serves cfg w [] w
  | cons {w w₁ w' : Lineup} {x : Waiter} {xs : List Waiter} :
      w.GoesOn cfg x w₁ → Serves cfg w₁ xs w' → Serves cfg w (x :: xs) w'

/-- An iteration, after which those it has woken go on, in some order. -/
def Round (cfg : Config) (t : Tid) (k k' : Car) : Prop :=
  ∃ (woken order : List Waiter) (k₁ : Car), k.Iterates cfg t woken k₁ ∧ order.Perm woken ∧
    Serves cfg k₁.lineup order k'.lineup ∧ k'.fromFloor = k₁.fromFloor ∧ k'.toFloor = k₁.toFloor

/-! ### The code of the elevator -/

/-- The elevator becomes another object. -/
def Lineup.setE (w : Lineup) (e : ELEVATOR) : Lineup :=
  { w with shared := { w.shared with e := some e } }

@[simp] lemma Lineup.setE_e (w : Lineup) (e : ELEVATOR) : (w.setE e).shared.e = some e := rfl

@[simp] lemma Lineup.setE_queue (w : Lineup) (e : ELEVATOR) : (w.setE e).queue = w.queue := rfl

@[simp] lemma Lineup.setE_totalOut (w : Lineup) (e : ELEVATOR) :
    (w.setE e).shared.totalOut = w.shared.totalOut := rfl

/-- One more has got out. -/
def Lineup.oneOut (w : Lineup) : Lineup :=
  { w with shared := { w.shared with totalOut := w.shared.totalOut + 1 } }

/-- The queue of a condition becomes another one. -/
def Lineup.setQueue (w : Lineup) (cond : ℕ) (q : List Waiter) : Lineup :=
  { w with queue := Function.update w.queue cond q }

@[simp] lemma Lineup.setQueue_shared (w : Lineup) (cond : ℕ) (q : List Waiter) :
    (w.setQueue cond q).shared = w.shared := rfl

@[simp] lemma Lineup.setQueue_same (w : Lineup) (cond : ℕ) (q : List Waiter) :
    (w.setQueue cond q).queue cond = q := Function.update_self ..

lemma Lineup.setQueue_of_ne (w : Lineup) {cond cond' : ℕ} (q : List Waiter) (h : cond' ≠ cond) :
    (w.setQueue cond q).queue cond' = w.queue cond' := Function.update_of_ne h ..

@[simp] lemma Lineup.setE_setE (w : Lineup) (e e' : ELEVATOR) :
    (w.setE e).setE e' = w.setE e' := rfl

lemma Lineup.setQueue_setE (w : Lineup) (e : ELEVATOR) (cond : ℕ) (q : List Waiter) :
    (w.setE e).setQueue cond q = (w.setQueue cond q).setE e := rfl

@[simp] lemma Lineup.setQueue_setQueue (w : Lineup) (cond : ℕ) (q q' : List Waiter) :
    (w.setQueue cond q).setQueue cond q' = w.setQueue cond q' := by
  simp only [Lineup.setQueue, Function.update_idem]

/-- The list of a floor becomes another one. -/
def ELEVATOR.setEntering (e : ELEVATOR) (floor : ℕ) (pp : Persons) : ELEVATOR :=
  { e with listEntering := Function.update e.listEntering floor pp }

def ELEVATOR.setLeaving (e : ELEVATOR) (floor : ℕ) (pp : Persons) : ELEVATOR :=
  { e with listLeaving := Function.update e.listLeaving floor pp }

def ELEVATOR.setFloor (e : ELEVATOR) (floor : ℕ) : ELEVATOR := { e with currentFloor := floor }

/-- One more is aboard. -/
def ELEVATOR.getsOn (e : ELEVATOR) (on : Persons) : ELEVATOR :=
  { e with personsOn := on, occupancy := e.occupancy + 1 }

/-- One less waits at the floor. -/
def ELEVATOR.oneWaitsLess (e : ELEVATOR) (floor : ℕ) : ELEVATOR :=
  { e with personsWaiting := Function.update e.personsWaiting floor (e.personsWaiting floor - 1) }

/-- One less is aboard. -/
def ELEVATOR.getsOff (e : ELEVATOR) (on : Persons) : ELEVATOR :=
  { e with personsOn := on, occupancy := e.occupancy - 1 }

section Lists

variable (e : ELEVATOR) (f : ℕ) (pp pp' : Persons)

@[simp] lemma ELEVATOR.setEntering_same : (e.setEntering f pp).listEntering f = pp :=
  Function.update_self ..

@[simp] lemma ELEVATOR.setLeaving_same : (e.setLeaving f pp).listLeaving f = pp :=
  Function.update_self ..

lemma ELEVATOR.setEntering_of_ne {f f' : ℕ} (h : f' ≠ f) :
    (e.setEntering f pp).listEntering f' = e.listEntering f' := Function.update_of_ne h ..

lemma ELEVATOR.setLeaving_of_ne {f f' : ℕ} (h : f' ≠ f) :
    (e.setLeaving f pp).listLeaving f' = e.listLeaving f' := Function.update_of_ne h ..

@[simp] lemma ELEVATOR.setEntering_setEntering :
    (e.setEntering f pp).setEntering f pp' = e.setEntering f pp' := by
  simp only [ELEVATOR.setEntering, Function.update_idem]

@[simp] lemma ELEVATOR.setLeaving_setLeaving :
    (e.setLeaving f pp).setLeaving f pp' = e.setLeaving f pp' := by
  simp only [ELEVATOR.setLeaving, Function.update_idem]

lemma ELEVATOR.setEntering_self : e.setEntering f (e.listEntering f) = e := by
  rw [ELEVATOR.setEntering, Function.update_eq_self]

lemma ELEVATOR.setLeaving_self : e.setLeaving f (e.listLeaving f) = e := by
  rw [ELEVATOR.setLeaving, Function.update_eq_self]

end Lists

section Elevator

variable {cfg : Config} {t : Tid} {w w' : Lineup} {woken : List Waiter} {e e' : ELEVATOR}
  {sh : Shared} {frm dst frm' dst' : ℤ} {c : Label} {r : Ret} {call : Call Label} {s s' : Solo}
  {f : ℕ}

lemma Lineup.setE_self (he : w.shared.e = some e) : w.setE e = w := by
  obtain ⟨⟨_, _, _, _⟩, _⟩ := w
  cases he
  rfl

lemma Lineup.setQueue_self {cond : ℕ} {q : List Waiter} (hq : w.queue cond = q) :
    w.setQueue cond q = w := by
  rw [← hq, Lineup.setQueue, Function.update_eq_self]

/-- `removeFromPPFirst` finds the first entry. -/
lemma removeFromPPFirst_eq {pp : Persons} {p : Person} {ps : List Person} (hends : Ends pp)
    (hentries : entries pp = p :: ps) (next : Person → Label) :
    removeFromPPFirst e pp next = .ok (e, .acquire personLock (next p)) := by
  rw [removeFromPPFirst, first_eq hends, hentries, ok_bind]
  rfl

lemma withE_eq {g : ELEVATOR → Except Fault (ELEVATOR × Call Label)} (he : sh.e = some e)
    (hg : g e = .ok (e', call)) : withE sh g = .ok ({ sh with e := some e' }, call) := by
  rw [withE, he]
  dsimp only
  rw [hg, ok_bind]

/-- The thread runs the code at its label, and then goes on. -/
lemma reaches_of_code (hcode : (client cfg).code .pause t c r w.shared = .ok (sh, call))
    (h : Reaches (Solo.step cfg t) (({ w with shared := sh } : Lineup).perform woken t call) s) :
    Reaches (Solo.step cfg t) (.on w woken c r) s := by
  refine .head ?_ h
  rw [Solo.step, hcode]
  rfl

/-- The same, for code that changes the elevator. -/
lemma reaches_of_withE (e' : ELEVATOR) (call : Call Label)
    {g : ELEVATOR → Except Fault (ELEVATOR × Call Label)} (he : w.shared.e = some e)
    (hcode : (client cfg).code .pause t c r w.shared = withE w.shared g)
    (hg : g e = .ok (e', call))
    (h : Reaches (Solo.step cfg t) ((w.setE e').perform woken t call) s) :
    Reaches (Solo.step cfg t) (.on w woken c r) s :=
  reaches_of_code (hcode.trans (withE_eq he hg)) h

/-- The same, for code that only looks at the elevator. -/
lemma reaches_of_withE_same (call : Call Label)
    {g : ELEVATOR → Except Fault (ELEVATOR × Call Label)} (he : w.shared.e = some e)
    (hcode : (client cfg).code .pause t c r w.shared = withE w.shared g)
    (hg : g e = .ok (e, call))
    (h : Reaches (Solo.step cfg t) (w.perform woken t call) s) :
    Reaches (Solo.step cfg t) (.on w woken c r) s := by
  refine reaches_of_withE _ _ he hcode hg ?_
  rwa [Lineup.setE_self he]

/-- The delay while there are persons. -/
lemma reaches_spin {n j : ℕ} (hn : cfg.elevatorDelay - j = n) :
    Reaches (Solo.step cfg t) (.on w woken (.spin frm dst j) r)
      (.on w woken (.choose frm dst) .unit) := by
  induction n generalizing j r with
  | zero =>
    refine reaches_of_code rfl ?_
    rw [if_neg (by omega)]
    exact .refl
  | succ n ih =>
    refine reaches_of_code rfl ?_
    rw [if_pos (by omega)]
    exact ih (by omega)

/-- The delay at the end of an iteration. -/
lemma reaches_rest {n j : ℕ} (hn : cfg.elevatorDelay - j = n) :
    Reaches (Solo.step cfg t) (.on w woken (.rest frm dst j) r) (.around w woken frm dst) := by
  induction n generalizing j r with
  | zero =>
    refine reaches_of_code rfl ?_
    rw [if_neg (by omega)]
    exact .refl
  | succ n ih =>
    refine reaches_of_code rfl ?_
    rw [if_pos (by omega)]
    exact ih (by omega)

lemma reaches_depart :
    Reaches (Solo.step cfg t) (.on w woken (.depart frm dst) r) (.around w woken frm dst) :=
  reaches_of_code rfl (reaches_rest rfl)

/-- The start of an iteration, in which the elevator looks for its targets. -/
lemma reaches_choose (he : w.shared.e = some e) (hfrm : e.target frm e.listEntering true = .ok frm')
    (hdst : e.target dst e.listLeaving false = .ok dst') (hactive : ∃ n, e.active = .ok n) :
    Reaches (Solo.step cfg t) (.on w woken (.start frm dst) r)
      (.on w woken (.choose frm' dst') .unit) := by
  obtain ⟨n, hn⟩ := hactive
  refine reaches_of_code rfl (reaches_of_code rfl ?_)
  have hscan : ∀ call : Call Label,
      call = .skip (if 0 < n then .spin frm' dst' 0 else .choose frm' dst') →
        (do
          let frm ← e.target frm e.listEntering true
          let dst ← e.target dst e.listLeaving false
          let totalActive ← e.active
          .ok (e, .skip (if 0 < totalActive then .spin frm dst 0 else .choose frm dst)) :
            Except Fault (ELEVATOR × Call Label)) = .ok (e, call) := by
    rintro _ rfl
    rw [hfrm, ok_bind, hdst, ok_bind, hn, ok_bind]
  refine reaches_of_withE_same _ he rfl (hscan _ rfl) ?_
  by_cases hpos : 0 < n
  · rw [if_pos hpos]
    exact reaches_spin rfl
  · rw [if_neg hpos]
    exact .refl

/-- The loop that signals: it wakes the first in the queue, and removes as many entries, until the
elevator is full or nobody waits. -/
lemma reaches_more {o : ℤ} {q : List Waiter} (he : w.shared.e = some e)
    (hcur : e.currentFloor = f) (hq : w.queue (entering f) = q) (hends : Ends (e.listEntering f))
    (hlen : (entries (e.listEntering f)).length = q.length) (ho : o ≤ maxOccupancy) :
    ∃ got rest pp, q = got ++ rest ∧ o + got.length ≤ maxOccupancy ∧
      (o < maxOccupancy → q ≠ [] → got ≠ []) ∧ Ends pp ∧ (entries pp).length = rest.length ∧
      (entries pp : Multiset Person) ≤ entries (e.listEntering f) ∧
      Reaches (Solo.step cfg t) (.on w woken (.more f o dst) r)
        (.around ((w.setQueue (entering f) rest).setE (e.setEntering f pp)) (woken ++ got)
          (-1) dst) := by
  induction q generalizing w e o r woken with
  | nil =>
    refine ⟨[], [], e.listEntering f, rfl, by simpa using ho, fun _ h => absurd rfl h, hends, hlen,
      le_rfl, ?_⟩
    rw [Lineup.setQueue_self hq, ELEVATOR.setEntering_self, List.append_nil, Lineup.setE_self he]
    refine reaches_of_code rfl ?_
    by_cases hlt : o < maxOccupancy
    · rw [if_pos hlt]
      simp only [Lineup.perform, hq]
      exact reaches_of_withE_same _ he rfl rfl reaches_depart
    · rw [if_neg hlt]
      exact reaches_depart
  | cons x q ih =>
    by_cases hlt : o < maxOccupancy
    · obtain ⟨p, ps, hentries⟩ := List.exists_cons_of_length_eq_add_one hlen
      obtain ⟨pp, hremove, hends', heq⟩ := removeFromPP_of_mem (hentries ▸ List.mem_cons_self) hends
      have hlen' : (entries pp).length = q.length := by
        have hcard := congrArg Multiset.card heq
        simp only [Multiset.coe_card, Multiset.card_cons, hlen, List.length_cons] at hcard
        omega
      have hsame := e.setEntering_same f pp
      obtain ⟨got, rest, pp', rfl, hgot, -, hends'', hlen'', hle, hreach⟩ :=
        @ih ((w.setQueue (entering f) q).setE (e.setEntering f pp)) (woken ++ [x])
          (e.setEntering f pp) .unit (o + 1) rfl hcur (Function.update_self ..) (by rwa [hsame])
          (by rwa [hsame]) (by omega)
      rw [hsame] at hle
      subst hcur
      refine ⟨x :: got, rest, pp', rfl, by simp only [List.length_cons]; omega,
        fun _ _ => List.cons_ne_nil _ _, hends'', hlen'',
        hle.trans (heq ▸ Multiset.le_cons_self ..), reaches_of_code rfl ?_⟩
      rw [if_pos hlt]
      simp only [Lineup.perform, hq]
      -- one is woken
      change Reaches _ (Solo.on (w.setQueue (entering e.currentFloor) (got ++ rest)) (woken ++ [x])
        (.signalled e.currentFloor o dst) (.thread (some x.thread))) _
      refine reaches_of_withE_same _ he rfl (removeFromPPFirst_eq hends hentries _) ?_
      -- and an entry is removed
      have hunlist : (do
          let pp ← removeFromPP (e.listEntering e.currentFloor) p
          .ok ({ e with listEntering := Function.update e.listEntering e.currentFloor pp },
            .release personLock (.more e.currentFloor (o + 1) dst)) :
              Except Fault (ELEVATOR × Call Label)) =
          .ok (e.setEntering e.currentFloor pp,
            .release personLock (.more e.currentFloor (o + 1) dst)) := by
        rw [hremove, ok_bind]
        rfl
      refine reaches_of_withE _ _ he rfl hunlist ?_
      rw [ELEVATOR.setEntering_setEntering, Lineup.setQueue_setE, Lineup.setE_setE,
        Lineup.setQueue_setQueue, List.append_assoc] at hreach
      exact hreach
    · refine ⟨[], x :: q, e.listEntering f, rfl, by simpa using ho, fun h => absurd h hlt, hends,
        hlen, le_rfl, ?_⟩
      rw [Lineup.setQueue_self hq, ELEVATOR.setEntering_self, List.append_nil,
        Lineup.setE_self he]
      refine reaches_of_code rfl ?_
      rw [if_neg hlt]
      exact reaches_depart

/-- The loop after `Broadcast`: it removes as many entries as it has woken persons. -/
lemma reaches_clear {i j n : ℕ} (he : w.shared.e = some e) (hcur : e.currentFloor = f)
    (hends : Ends (e.listLeaving f)) (hlen : (entries (e.listLeaving f)).length = n)
    (hn : i = n + j) :
    ∃ pp, Ends pp ∧ entries pp = [] ∧
      Reaches (Solo.step cfg t) (.on w woken (.clear frm i j) r)
        (.around (w.setE (e.setLeaving f pp)) woken frm (-1)) := by
  induction n generalizing w e j r with
  | zero =>
    refine ⟨e.listLeaving f, hends, List.length_eq_zero_iff.1 hlen, ?_⟩
    rw [ELEVATOR.setLeaving_self, Lineup.setE_self he]
    refine reaches_of_withE_same (.skip (.depart frm (-1))) he rfl ?_ reaches_depart
    rw [if_neg (by omega)]
  | succ n ih =>
    obtain ⟨p, ps, hentries⟩ := List.exists_cons_of_length_eq_add_one hlen
    obtain ⟨pp, hremove, hends', heq⟩ := removeFromPP_of_mem (hentries ▸ List.mem_cons_self) hends
    have hlen' : (entries pp).length = n := by
      have hcard := congrArg Multiset.card heq
      simp only [Multiset.coe_card, Multiset.card_cons, hlen] at hcard
      omega
    have hsame := e.setLeaving_same f pp
    obtain ⟨pp', hends'', hnone, hreach⟩ := @ih (w.setE (e.setLeaving f pp)) (e.setLeaving f pp)
      .unit (j + 1) rfl hcur (by rwa [hsame]) (by rwa [hsame]) (by omega)
    subst hcur
    refine ⟨pp', hends'', hnone, ?_⟩
    have hclear : (if j < i then
          removeFromPPFirst e (e.listLeaving e.currentFloor) (.unlistLeaving · frm i j)
        else .ok (e, .skip (.depart frm (-1)))) =
        .ok (e, .acquire personLock (.unlistLeaving p frm i j)) := by
      rw [if_pos (by omega), removeFromPPFirst_eq hends hentries]
    refine reaches_of_withE_same _ he rfl hclear ?_
    have hunlist : (do
        let pp ← removeFromPP (e.listLeaving e.currentFloor) p
        .ok ({ e with listLeaving := Function.update e.listLeaving e.currentFloor pp },
          .release personLock (.clear frm i (j + 1))) : Except Fault (ELEVATOR × Call Label)) =
        .ok (e.setLeaving e.currentFloor pp, .release personLock (.clear frm i (j + 1))) := by
      rw [hremove, ok_bind]
      rfl
    refine reaches_of_withE _ _ he rfl hunlist ?_
    rw [ELEVATOR.setLeaving_setLeaving, Lineup.setE_setE] at hreach
    exact hreach

/-- The elevator is at a floor where persons get in. -/
lemma reaches_board {q : List Waiter} (he : w.shared.e = some e) (hcur : e.currentFloor = f)
    (hq : w.queue (entering f) = q) (hends : Ends (e.listEntering f))
    (hlen : (entries (e.listEntering f)).length = q.length) (ho : e.occupancy ≤ maxOccupancy) :
    ∃ got rest pp, q = got ++ rest ∧ e.occupancy + got.length ≤ maxOccupancy ∧
      (e.occupancy < maxOccupancy → q ≠ [] → got ≠ []) ∧ Ends pp ∧
      (entries pp).length = rest.length ∧
      (entries pp : Multiset Person) ≤ entries (e.listEntering f) ∧
      Reaches (Solo.step cfg t) (.on w woken (.board dst) r)
        (.around ((w.setQueue (entering f) rest).setE (e.setEntering f pp)) (woken ++ got)
          (-1) dst) := by
  subst hcur
  obtain ⟨got, rest, pp, hsplit, hocc, hgot, hpp, hrest, hle, hreach⟩ :=
    reaches_more he rfl hq hends hlen ho
  exact ⟨got, rest, pp, hsplit, hocc, hgot, hpp, hrest, hle,
    reaches_of_withE_same _ he rfl rfl hreach⟩

/-- The elevator is at a floor where persons get out. -/
lemma reaches_alight (he : w.shared.e = some e) (hcur : e.currentFloor = f)
    (hends : Ends (e.listLeaving f))
    (hlen : (entries (e.listLeaving f)).length = (w.queue (leaving f)).length) :
    ∃ pp, Ends pp ∧ entries pp = [] ∧
      Reaches (Solo.step cfg t) (.on w woken (.alight frm) r)
        (.around ((w.setQueue (leaving f) []).setE (e.setLeaving f pp))
          (woken ++ w.queue (leaving f)) frm (-1)) := by
  subst hcur
  obtain ⟨pp, hpp, hnone, hreach⟩ := @reaches_clear cfg t (w.setQueue (leaving e.currentFloor) [])
    (woken ++ w.queue (leaving e.currentFloor)) e frm .unit e.currentFloor _ 0 _ he rfl hends hlen
    rfl
  exact ⟨pp, hpp, hnone, reaches_of_withE_same _ he rfl rfl (reaches_of_code rfl hreach)⟩

/-- The elevator moves, and stops or goes on. -/
lemma reaches_stop {stop : ELEVATOR.Stop} (he : w.shared.e = some e)
    (hmove : e.move frm dst = (f, stop))
    (h : Reaches (Solo.step cfg t) (.on (w.setE (e.setFloor f)) woken (.atStop frm dst stop) .unit)
      s) :
    Reaches (Solo.step cfg t) (.on w woken (.choose frm dst) r) s := by
  refine reaches_of_withE (e.setFloor f) (.skip (.atStop frm dst stop)) he rfl ?_ ?_
  · simp only [hmove]
    cases stop <;> rfl
  · cases stop <;> exact h

/-! ### The code of the persons -/

section Person

variable {ρ : Rider} {on lv : Persons}

/-- A person in the elevator waits to get out. -/
lemma reaches_seated (he : w.shared.e = some e) :
    Reaches (Solo.step cfg t) (.on w woken (.seated ρ) r)
      (.off ((w.setQueue (leaving ρ.person.toFloor) (w.queue (leaving ρ.person.toFloor) ++
        [⟨t, .arrived ρ, .waited (leaving ρ.person.toFloor) elevatorLock⟩])).setE
          { e with occupancy := e.occupancy + 1 }) woken) :=
  reaches_of_withE _ _ he rfl rfl .refl

lemma reaches_press (he : w.shared.e = some e)
    (hlv : addToPP (e.listLeaving ρ.person.toFloor) ρ.person = .ok lv)
    (h : Reaches (Solo.step cfg t)
      (.on (w.setE (e.setLeaving ρ.person.toFloor lv)) woken (.seated ρ) .unit) s) :
    Reaches (Solo.step cfg t) (.on w woken (.press ρ) r) s := by
  refine reaches_of_withE _ (.release personLock (.seated ρ)) he rfl ?_ h
  rw [hlv, ok_bind]
  rfl

lemma reaches_gotOn (he : w.shared.e = some e) (hat : ρ.person.atFloor = e.currentFloor)
    (h : Reaches (Solo.step cfg t) (.on (w.setE (e.oneWaitsLess ρ.person.atFloor)) woken (.press ρ)
      (.acquired (.lock personLock))) s) :
    Reaches (Solo.step cfg t) (.on w woken (.gotOn ρ) r) s :=
  reaches_of_withE _ _ he rfl (if_pos hat) h

lemma reaches_getOn (he : w.shared.e = some e) (hon : addToPP e.personsOn ρ.person = .ok on)
    (h : Reaches (Solo.step cfg t)
      (.on (w.setE { e with personsOn := on }) woken (.gotOn ρ) .unit) s) :
    Reaches (Solo.step cfg t) (.on w woken (.getOn ρ) r) s := by
  refine reaches_of_withE _ (.release personLock (.gotOn ρ)) he rfl ?_ h
  rw [hon, ok_bind]

/-- A person gets in, and waits to get out. -/
lemma reaches_boarded (he : w.shared.e = some e)
    (hon : addToPP e.personsOn ρ.person = .ok on) (hat : ρ.person.atFloor = e.currentFloor)
    (hlv : addToPP (e.listLeaving ρ.person.toFloor) ρ.person = .ok lv) :
    Reaches (Solo.step cfg t) (.on w woken (.boarded ρ) r)
      (.off ((w.setQueue (leaving ρ.person.toFloor) (w.queue (leaving ρ.person.toFloor) ++
        [⟨t, .arrived ρ, .waited (leaving ρ.person.toFloor) elevatorLock⟩])).setE
          (((e.getsOn on).oneWaitsLess ρ.person.atFloor).setLeaving ρ.person.toFloor lv)) woken) := by
  have hseated := @reaches_seated cfg t (w.setE ((({ e with personsOn := on } :
    ELEVATOR).oneWaitsLess ρ.person.atFloor).setLeaving ρ.person.toFloor lv)) woken _ .unit ρ rfl
  exact reaches_of_code rfl <| reaches_getOn he hon <| reaches_gotOn rfl hat <|
    reaches_press rfl hlv hseated

lemma reaches_left :
    Reaches (Solo.step cfg t) (.on w woken (.left ρ) r) (.off w woken) :=
  reaches_of_code rfl (reaches_of_code rfl (reaches_of_code rfl .refl))

lemma reaches_gotOff (he : w.shared.e = some e) (hat : e.currentFloor = ρ.person.toFloor) :
    Reaches (Solo.step cfg t) (.on w woken (.gotOff ρ) r)
      (.off (w.oneOut.setE { e with occupancy := e.occupancy - 1 }) woken) :=
  reaches_of_code ((rfl : _ = withE w.oneOut.shared _).trans (withE_eq he (if_pos hat))) reaches_left

/-- A person gets out, and is done. -/
lemma reaches_arrived (he : w.shared.e = some e)
    (hon : removeFromPP e.personsOn ρ.person = .ok on) (hat : e.currentFloor = ρ.person.toFloor) :
    Reaches (Solo.step cfg t) (.on w woken (.arrived ρ) r)
      (.off (w.oneOut.setE (e.getsOff on)) woken) := by
  have hgotOff := @reaches_gotOff cfg t (w.setE { e with personsOn := on }) woken _ .unit ρ rfl hat
  refine reaches_of_code rfl (reaches_of_withE _ (.release personLock (.gotOff ρ)) he rfl ?_ hgotOff)
  rw [hon, ok_bind]

end Person

end Elevator

end Nachos.Elevator
