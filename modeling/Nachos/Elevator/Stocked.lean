import Mathlib.Algebra.BigOperators.Group.Finset.Piecewise
import Mathlib.Order.Interval.Finset.Nat
import Nachos.Elevator.Dispatch
import Nachos.Elevator.Sequential

/-!
# The persons, one thread at a time

Who waits at a floor, and who is aboard for it, are in the lists of the floor, as many as there are
in the queues. An iteration keeps this, up to the persons it has woken, and these make up for it
when they go on.
-/

namespace Nachos.Elevator

open Lib (ok_bind)
open StateTransition
open Threads

/-! ### The persons in the queues -/

/-- Whose thread it is. Nobody else waits. -/
def Waiter.person (x : Waiter) : Person :=
  match x.label with
  | .boarded ρ | .arrived ρ => ρ.person
  | _ => ⟨0, 0, 0⟩

/-- The threads of a queue, as persons. -/
def persons (q : List Waiter) : Multiset Person := (q.map Waiter.person : List Person)

section Total

variable {M : Type} [AddCommMonoid M]

/-- What the queues of all floors add up to. -/
def Lineup.total (w : Lineup) (n : ℕ) (cond : ℕ → ℕ) (m : List Waiter → M) : M :=
  ∑ f ∈ Finset.Icc 1 n, m (w.queue (cond f))

variable {w : Lineup} {n f : ℕ} {cond cond' : ℕ → ℕ} {m : List Waiter → M} {q : List Waiter}

/-- The queue of one floor becomes another one. -/
lemma Lineup.total_setQueue (hinj : Function.Injective cond) (hf : 1 ≤ f ∧ f ≤ n) :
    (w.setQueue (cond f) q).total n cond m + m (w.queue (cond f)) = w.total n cond m + m q := by
  have hmem : f ∈ Finset.Icc 1 n := Finset.mem_Icc.2 hf
  have hothers : ∀ g ∈ (Finset.Icc 1 n).erase f,
      m ((w.setQueue (cond f) q).queue (cond g)) = m (w.queue (cond g)) := fun g hg => by
    rw [w.setQueue_of_ne q fun h => Finset.ne_of_mem_erase hg (hinj h)]
  rw [Lineup.total, Lineup.total, ← Finset.add_sum_erase _ _ hmem, ← Finset.add_sum_erase _ _ hmem,
    Finset.sum_congr rfl hothers, Lineup.setQueue_same]
  ac_rfl

/-- The queue of another condition becomes another one. -/
lemma Lineup.total_setQueue_of_ne {c : ℕ} (hne : ∀ g, cond g ≠ c) :
    (w.setQueue c q).total n cond m = w.total n cond m := by
  refine Finset.sum_congr rfl fun g _ => ?_
  rw [w.setQueue_of_ne q (hne g)]

end Total

lemma entering_injective : Function.Injective entering := fun f g h => by
  simp only [entering] at h
  omega

lemma leaving_injective : Function.Injective leaving := fun f g h => by
  simp only [leaving] at h
  omega

/-- How many wait to get in. -/
def Lineup.waiting (w : Lineup) (n : ℕ) : ℕ := w.total n entering List.length

/-- How many wait to get out. -/
def Lineup.riding (w : Lineup) (n : ℕ) : ℕ := w.total n leaving List.length

/-- Who waits to get out. -/
def Lineup.aboard (w : Lineup) (n : ℕ) : Multiset Person := w.total n leaving persons

section Persons

variable {q q' : List Waiter} {x : Waiter}

lemma persons_append : persons (q ++ q') = persons q + persons q' := by
  rw [persons, List.map_append, ← Multiset.coe_add]
  rfl

lemma persons_cons : persons (x :: q) = x.person ::ₘ persons q := rfl

lemma card_persons : Multiset.card (persons q) = q.length := by
  rw [persons, Multiset.coe_card, List.length_map]

lemma persons_perm (h : q.Perm q') : persons q = persons q' := Multiset.coe_eq_coe.2 (h.map _)

end Persons

section Counts

variable {w : Lineup} {n f : ℕ} {q : List Waiter}

lemma Lineup.waiting_setEntering (hf : 1 ≤ f ∧ f ≤ n) :
    (w.setQueue (entering f) q).waiting n + (w.queue (entering f)).length =
      w.waiting n + q.length :=
  total_setQueue entering_injective hf

lemma Lineup.riding_setEntering : (w.setQueue (entering f) q).riding n = w.riding n :=
  total_setQueue_of_ne fun g => (entering_ne_leaving f g).symm

lemma Lineup.aboard_setEntering : (w.setQueue (entering f) q).aboard n = w.aboard n :=
  total_setQueue_of_ne fun g => (entering_ne_leaving f g).symm

lemma Lineup.waiting_setLeaving : (w.setQueue (leaving f) q).waiting n = w.waiting n :=
  total_setQueue_of_ne fun g => entering_ne_leaving g f

lemma Lineup.riding_setLeaving (hf : 1 ≤ f ∧ f ≤ n) :
    (w.setQueue (leaving f) q).riding n + (w.queue (leaving f)).length = w.riding n + q.length :=
  total_setQueue leaving_injective hf

lemma Lineup.aboard_setLeaving (hf : 1 ≤ f ∧ f ≤ n) :
    (w.setQueue (leaving f) q).aboard n + persons (w.queue (leaving f)) =
      w.aboard n + persons q :=
  total_setQueue leaving_injective hf

/-- One more waits to get out. -/
lemma Lineup.riding_append (hf : 1 ≤ f ∧ f ≤ n) (x : Waiter) :
    (w.setQueue (leaving f) (w.queue (leaving f) ++ [x])).riding n = w.riding n + 1 := by
  have hcount := w.riding_setLeaving (q := w.queue (leaving f) ++ [x]) hf
  rw [List.length_append, List.length_singleton] at hcount
  omega

lemma Lineup.aboard_append (hf : 1 ≤ f ∧ f ≤ n) (x : Waiter) :
    (w.setQueue (leaving f) (w.queue (leaving f) ++ [x])).aboard n = x.person ::ₘ w.aboard n := by
  have hcount := w.aboard_setLeaving (q := w.queue (leaving f) ++ [x]) hf
  rw [persons_append, add_comm (persons _) (persons [x]), ← add_assoc, add_left_inj] at hcount
  rw [hcount, add_comm]
  exact Multiset.singleton_add ..

lemma Lineup.card_aboard : Multiset.card (w.aboard n) = w.riding n := by
  rw [aboard, total, Multiset.card_sum]
  exact Finset.sum_congr rfl fun g _ => card_persons

lemma Lineup.persons_le_aboard (hf : 1 ≤ f ∧ f ≤ n) : persons (w.queue (leaving f)) ≤ w.aboard n := by
  have hcount := w.aboard_setLeaving (q := []) hf
  rw [show persons [] = 0 from rfl, add_zero] at hcount
  exact hcount ▸ Multiset.le_add_left ..

lemma Lineup.length_le_riding (hf : 1 ≤ f ∧ f ≤ n) :
    (w.queue (leaving f)).length ≤ w.riding n := by
  have hnone := w.riding_setLeaving (q := []) hf
  simp only [List.length_nil] at hnone
  omega

lemma Lineup.length_le_waiting (hf : 1 ≤ f ∧ f ≤ n) :
    (w.queue (entering f)).length ≤ w.waiting n := by
  have hnone := w.waiting_setEntering (q := []) hf
  simp only [List.length_nil] at hnone
  omega

end Counts

/-! ### The invariant -/

/-- The thread of a person who gets in at the floor, on the way to one of `n` floors. -/
def Waiter.Boards (x : Waiter) (n floor : ℕ) : Prop :=
  ∃ ρ, x.label = .boarded ρ ∧ ρ.person.atFloor = floor ∧
    1 ≤ ρ.person.toFloor ∧ ρ.person.toFloor ≤ n

/-- The thread of a person who gets out at the floor. -/
def Waiter.Alights (x : Waiter) (floor : ℕ) : Prop :=
  ∃ ρ, x.label = .arrived ρ ∧ ρ.person.toFloor = floor

/-- **The invariant** of the elevator and the queues, when the persons `on` are still to get in, and
the persons `off` still to get out, at the floor where the elevator is. -/
structure Stocked (e : ELEVATOR) (w : Lineup) (on off : List Waiter) : Prop where
  object : w.shared.e = some e
  currentFloor : 1 ≤ e.currentFloor ∧ e.currentFloor ≤ e.numFloors
  listEntering : ∀ f, 1 ≤ f ∧ f ≤ e.numFloors → OfFloor (e.listEntering f) true f ∧
    (entries (e.listEntering f)).length = (w.queue (entering f)).length ∧
      ∀ x ∈ w.queue (entering f), x.Boards e.numFloors f
  listLeaving : ∀ f, 1 ≤ f ∧ f ≤ e.numFloors → Ends (e.listLeaving f) ∧
    (entries (e.listLeaving f) : Multiset Person) = persons (w.queue (leaving f)) ∧
      ∀ x ∈ w.queue (leaving f), x.Alights f
  personsOn : Ends e.personsOn ∧
    (entries e.personsOn : Multiset Person) = w.aboard e.numFloors + persons off
  occupancy : e.occupancy = w.riding e.numFloors + off.length
  capacity : e.occupancy + on.length ≤ maxOccupancy
  boarding : ∀ x ∈ on, x.Boards e.numFloors e.currentFloor
  alighting : ∀ x ∈ off, x.Alights e.currentFloor
  room : w.waiting e.numFloors + w.riding e.numFloors + on.length + off.length + 1 < tp

/-- What the persons who are woken leave as it is. -/
structure Stays (e : ELEVATOR) (w : Lineup) (e' : ELEVATOR) (w' : Lineup) : Prop where
  currentFloor : e'.currentFloor = e.currentFloor
  numFloors : e'.numFloors = e.numFloors
  waits : ∀ f, w'.queue (entering f) = w.queue (entering f)
  rides : ∀ f, w.queue (leaving f) ≠ [] → w'.queue (leaving f) ≠ []

namespace Stays

variable {e e' e'' : ELEVATOR} {w w' w'' : Lineup}

lemma refl (e : ELEVATOR) (w : Lineup) : Stays e w e w := ⟨rfl, rfl, fun _ => rfl, fun _ => id⟩

lemma trans (h : Stays e w e' w') (h' : Stays e' w' e'' w'') : Stays e w e'' w'' where
  currentFloor := h'.currentFloor.trans h.currentFloor
  numFloors := h'.numFloors.trans h.numFloors
  waits f := (h'.waits f).trans (h.waits f)
  rides f hne := h'.rides f (h.rides f hne)

lemma waiting (h : Stays e w e' w') (n : ℕ) : w'.waiting n = w.waiting n := by
  unfold Lineup.waiting Lineup.total
  exact Finset.sum_congr rfl fun f _ => congrArg List.length (h.waits f)

end Stays

namespace Stocked

variable {cfg : Config} {e : ELEVATOR} {w : Lineup} {on off on' off' : List Waiter} {x : Waiter}
  {f : ℕ} {p : Person} {pp : Persons}

/-- The order does not matter. -/
lemma perm (h : Stocked e w on off) (hon : on.Perm on') (hoff : off.Perm off') :
    Stocked e w on' off' where
  object := h.object
  currentFloor := h.currentFloor
  listEntering := h.listEntering
  listLeaving := h.listLeaving
  personsOn := persons_perm hoff ▸ h.personsOn
  occupancy := hoff.length_eq ▸ h.occupancy
  capacity := hon.length_eq ▸ h.capacity
  boarding x hx := h.boarding x (hon.mem_iff.2 hx)
  alighting x hx := h.alighting x (hoff.mem_iff.2 hx)
  room := by
    have hroom := h.room
    rwa [hon.length_eq, hoff.length_eq] at hroom

/-- As many are aboard as there are entries. -/
lemma length_personsOn (h : Stocked e w on off) :
    (entries e.personsOn).length = w.riding e.numFloors + off.length := by
  have hcard := congrArg Multiset.card h.personsOn.2
  rwa [Multiset.coe_card, Multiset.card_add, Lineup.card_aboard, card_persons] at hcard

/-- The list of a floor has the entries of that floor. -/
lemma ofFloor_leaving (h : Stocked e w on off) (hf : 1 ≤ f ∧ f ≤ e.numFloors) :
    OfFloor (e.listLeaving f) false f := by
  obtain ⟨hends, hentries, hwho⟩ := h.listLeaving f hf
  refine ⟨hends, fun p hp => ?_⟩
  rw [← Multiset.mem_coe, hentries, persons, Multiset.mem_coe, List.mem_map] at hp
  obtain ⟨x, hx, rfl⟩ := hp
  obtain ⟨ρ, hlabel, hto⟩ := hwho x hx
  rw [Waiter.person, hlabel]
  exact hto

/-- `getFloor` sees the floors where somebody waits to get in. -/
lemma sees_entering (h : Stocked e w on off) (hf : 1 ≤ f ∧ f ≤ e.numFloors) :
    e.Sees (e.listEntering f) true ↔ w.queue (entering f) ≠ [] := by
  obtain ⟨-, hlength, -⟩ := h.listEntering f hf
  rw [← List.length_pos_iff, ← hlength, List.length_pos_iff_exists_mem]
  exact exists_congr fun p => and_iff_left rfl

/-- `getFloor` sees the floors where somebody waits to get out. -/
lemma sees_leaving (h : Stocked e w on off) (hf : 1 ≤ f ∧ f ≤ e.numFloors) :
    e.Sees (e.listLeaving f) false ↔ w.queue (leaving f) ≠ [] := by
  obtain ⟨-, hentries, -⟩ := h.listLeaving f hf
  have hcard := congrArg Multiset.card hentries
  rw [Multiset.coe_card, card_persons] at hcard
  rw [← List.length_pos_iff, ← hcard, List.length_pos_iff_exists_mem]
  refine exists_congr fun p => and_iff_left_of_imp fun hp => ?_
  rw [Bool.false_or, onElevator_iff, ← Multiset.mem_coe, h.personsOn.2]
  rw [← Multiset.mem_coe, hentries] at hp
  exact Multiset.mem_add.2 (.inl (Multiset.mem_of_le (Lineup.persons_le_aboard hf) hp))

/-- `active` comes to an end. -/
lemma active_ok (h : Stocked e w on off) : ∃ n, e.active = .ok n := by
  have hupto : ∀ n ≤ e.numFloors, ∃ c, e.activeTo n = .ok c := fun n hn => by
    induction n with
    | zero => exact ⟨_, by rw [ELEVATOR.activeTo, personCount_eq h.personsOn.1, ok_bind]⟩
    | succ n ih =>
      obtain ⟨c, hc⟩ := ih (by omega)
      have hends := (h.listLeaving (n + 1) ⟨by omega, hn⟩).1
      have hends' := (h.listEntering (n + 1) ⟨by omega, hn⟩).1.ends
      exact ⟨_, by rw [ELEVATOR.activeTo, hc, ok_bind, personCount_eq hends, ok_bind,
        personCount_eq hends', ok_bind]⟩
  exact hupto _ le_rfl

/-- The elevator moves to another floor. -/
lemma setFloor (h : Stocked e w [] []) (hf : 1 ≤ f ∧ f ≤ e.numFloors) :
    Stocked (e.setFloor f) (w.setE (e.setFloor f)) [] [] where
  object := rfl
  currentFloor := hf
  listEntering := h.listEntering
  listLeaving := h.listLeaving
  personsOn := h.personsOn
  occupancy := h.occupancy
  capacity := h.capacity
  boarding _ hx := absurd hx List.not_mem_nil
  alighting _ hx := absurd hx List.not_mem_nil
  room := h.room

/-- The first in the queue are woken at a floor where persons get in. -/
lemma board {got rest : List Waiter} (h : Stocked e w [] [])
    (hf : 1 ≤ e.currentFloor ∧ e.currentFloor ≤ e.numFloors)
    (hq : w.queue (entering e.currentFloor) = got ++ rest) (hends : Ends pp)
    (hlen : (entries pp).length = rest.length)
    (hle : (entries pp : Multiset Person) ≤ entries (e.listEntering e.currentFloor))
    (hcap : e.occupancy + got.length ≤ maxOccupancy) :
    Stocked (e.setEntering e.currentFloor pp) ((w.setQueue (entering e.currentFloor) rest).setE
      (e.setEntering e.currentFloor pp)) got [] where
  object := rfl
  currentFloor := hf
  listEntering f' hf' := by
    obtain ⟨hlist, hlength, hboards⟩ := h.listEntering f' hf'
    by_cases heq : f' = e.currentFloor
    · subst heq
      rw [hq] at hboards
      simp only [ELEVATOR.setEntering_same, Lineup.setE_queue, Lineup.setQueue_same]
      exact ⟨⟨hends, fun p hp => hlist.place p (Multiset.mem_of_le hle hp)⟩, hlen,
        fun x hx => hboards x (List.mem_append_right _ hx)⟩
    · rw [Lineup.setE_queue, w.setQueue_of_ne rest fun h => heq (entering_injective h),
        e.setEntering_of_ne pp heq]
      exact ⟨hlist, hlength, hboards⟩
  listLeaving f' hf' := by
    rw [Lineup.setE_queue, w.setQueue_of_ne rest (entering_ne_leaving _ _).symm]
    exact h.listLeaving f' hf'
  personsOn := ⟨h.personsOn.1, h.personsOn.2.trans
    (congrArg (· + _) Lineup.aboard_setEntering.symm)⟩
  occupancy := h.occupancy.trans (congrArg (fun n : ℕ => (n : ℤ) + _)
    Lineup.riding_setEntering.symm)
  capacity := hcap
  boarding x hx := (h.listEntering _ hf).2.2 x (hq ▸ List.mem_append_left _ hx)
  alighting _ hx := absurd hx List.not_mem_nil
  room := by
    have hroom := h.room
    have hcount := w.waiting_setEntering (q := rest) hf
    rw [hq, List.length_append] at hcount
    have hriding := w.riding_setEntering (n := e.numFloors) (f := e.currentFloor) (q := rest)
    simp only [List.length_nil] at hroom ⊢
    change (w.setQueue (entering e.currentFloor) rest).waiting e.numFloors +
      (w.setQueue (entering e.currentFloor) rest).riding e.numFloors + _ + _ + _ < _
    omega

/-- All in the queue are woken at a floor where persons get out. -/
lemma alight (h : Stocked e w [] []) (hf : 1 ≤ e.currentFloor ∧ e.currentFloor ≤ e.numFloors)
    (hends : Ends pp) (hnone : entries pp = []) :
    Stocked (e.setLeaving e.currentFloor pp) ((w.setQueue (leaving e.currentFloor) []).setE
      (e.setLeaving e.currentFloor pp)) [] (w.queue (leaving e.currentFloor)) where
  object := rfl
  currentFloor := hf
  listEntering f' hf' := by
    rw [Lineup.setE_queue, w.setQueue_of_ne [] (entering_ne_leaving _ _)]
    exact h.listEntering f' hf'
  listLeaving f' hf' := by
    by_cases heq : f' = e.currentFloor
    · subst heq
      simp only [ELEVATOR.setLeaving_same, Lineup.setE_queue, Lineup.setQueue_same, hnone]
      exact ⟨hends, rfl, fun _ hx => absurd hx List.not_mem_nil⟩
    · rw [Lineup.setE_queue, w.setQueue_of_ne [] fun h => heq (leaving_injective h),
        e.setLeaving_of_ne pp heq]
      exact h.listLeaving f' hf'
  personsOn := by
    obtain ⟨hon, hentries⟩ := h.personsOn
    have hcount := w.aboard_setLeaving (q := []) hf
    refine ⟨hon, hentries.trans ?_⟩
    exact hcount.symm
  occupancy := by
    have hocc := h.occupancy
    have hcount := w.riding_setLeaving (q := []) hf
    simp only [List.length_nil] at hocc hcount
    change e.occupancy = ((w.setQueue (leaving e.currentFloor) []).riding e.numFloors : ℤ) + _
    omega
  capacity := h.capacity
  boarding _ hx := absurd hx List.not_mem_nil
  alighting := (h.listLeaving _ hf).2.2
  room := by
    have hroom := h.room
    have hcount := w.riding_setLeaving (q := []) hf
    have hwaiting := w.waiting_setLeaving (n := e.numFloors) (f := e.currentFloor) (q := [])
    simp only [List.length_nil] at hroom hcount ⊢
    change (w.setQueue (leaving e.currentFloor) []).waiting e.numFloors +
      (w.setQueue (leaving e.currentFloor) []).riding e.numFloors + _ + _ + _ < _
    omega

/-- A person who has got in waits to get out. -/
lemma seat {y : Waiter} {floor : ℕ} {on' lv : Persons} (h : Stocked e w (x :: on) off)
    (hf : 1 ≤ f ∧ f ≤ e.numFloors) (hy : y.Alights f) (hon : Ends on')
    (hentries : (entries on' : Multiset Person) = y.person ::ₘ ↑(entries e.personsOn))
    (hlv : Ends lv)
    (hentries' : (entries lv : Multiset Person) = y.person ::ₘ ↑(entries (e.listLeaving f))) :
    Stocked (((e.getsOn on').oneWaitsLess floor).setLeaving f lv)
      ((w.setQueue (leaving f) (w.queue (leaving f) ++ [y])).setE
        (((e.getsOn on').oneWaitsLess floor).setLeaving f lv)) on off where
  object := rfl
  currentFloor := h.currentFloor
  listEntering f' hf' := by
    rw [Lineup.setE_queue, w.setQueue_of_ne _ (entering_ne_leaving _ _)]
    exact h.listEntering f' hf'
  listLeaving f' hf' := by
    obtain ⟨hends, hsame, hwho⟩ := h.listLeaving f' hf'
    by_cases heq : f' = f
    · subst heq
      simp only [ELEVATOR.setLeaving_same, Lineup.setE_queue, Lineup.setQueue_same]
      refine ⟨hlv, ?_, fun z hz => ?_⟩
      · rw [hentries', hsame, persons_append, add_comm]
        exact (Multiset.singleton_add ..).symm
      · obtain hz | hz := List.mem_append.1 hz
        · exact hwho z hz
        · rwa [List.mem_singleton.1 hz]
    · rw [Lineup.setE_queue, w.setQueue_of_ne _ fun h => heq (leaving_injective h),
        ELEVATOR.setLeaving_of_ne _ lv heq]
      exact ⟨hends, hsame, hwho⟩
  personsOn := by
    refine ⟨hon, hentries.trans ?_⟩
    rw [h.personsOn.2, ← Multiset.cons_add, ← Lineup.aboard_append hf]
    rfl
  occupancy := by
    have hocc := h.occupancy
    have hcount := Lineup.riding_append hf y (w := w)
    change e.occupancy + 1 = ((w.setQueue (leaving f) _).riding e.numFloors : ℤ) + _
    omega
  capacity := by
    have hcap := h.capacity
    simp only [List.length_cons] at hcap
    change e.occupancy + 1 + _ ≤ _
    omega
  boarding z hz := h.boarding z (List.mem_cons_of_mem _ hz)
  alighting := h.alighting
  room := by
    have hroom := h.room
    have hcount := Lineup.riding_append hf y (w := w)
    have hwaiting := w.waiting_setLeaving (n := e.numFloors) (f := f)
      (q := w.queue (leaving f) ++ [y])
    simp only [List.length_cons] at hroom
    change (w.setQueue (leaving f) _).waiting e.numFloors +
      (w.setQueue (leaving f) _).riding e.numFloors + _ + _ + _ < _
    omega

/-- The next one gets in. -/
lemma getOn (h : Stocked e w (x :: on) off) :
    ∃ e' w', w.GoesOn cfg x w' ∧ Stocked e' w' on off ∧ Stays e w e' w' ∧
      w'.shared.totalOut = w.shared.totalOut ∧
      w'.riding e.numFloors = w.riding e.numFloors + 1 := by
  obtain ⟨t, c, r⟩ := x
  obtain ⟨ρ, rfl, hat, hto⟩ := h.boarding _ List.mem_cons_self
  have hroom := h.room
  rw [List.length_cons] at hroom
  -- there is room in both lists
  have hspace : (entries e.personsOn).length + 1 < tp := by
    rw [h.length_personsOn]
    omega
  have hspace' : (entries (e.listLeaving ρ.person.toFloor)).length + 1 < tp := by
    have hlength := congrArg Multiset.card (h.listLeaving _ hto).2.1
    rw [Multiset.coe_card, card_persons] at hlength
    have hle := w.length_le_riding hto
    omega
  obtain ⟨on', hon'⟩ := addToPP_ok ρ.person hspace
  obtain ⟨lv, hlv⟩ := addToPP_ok ρ.person hspace'
  obtain ⟨hends, hentries⟩ := addToPP_eq_ok hon' h.personsOn.1
  obtain ⟨hends', hentries'⟩ := addToPP_eq_ok hlv (h.listLeaving _ hto).1
  refine ⟨((e.getsOn on').oneWaitsLess ρ.person.atFloor).setLeaving ρ.person.toFloor lv, _,
    mem_eval.2 ⟨reaches_boarded h.object hon' hat hlv, rfl⟩, ?_,
    ⟨rfl, rfl, fun f => ?_, fun f hne => ?_⟩, rfl, Lineup.riding_append hto _⟩
  · exact h.seat (y := ⟨t, .arrived ρ, _⟩) hto ⟨ρ, rfl, rfl⟩ hends hentries hends' hentries'
  · exact w.setQueue_of_ne _ (entering_ne_leaving _ _)
  · by_cases heq : f = ρ.person.toFloor
    · subst heq
      simp only [Lineup.setE_queue, Lineup.setQueue_same]
      exact List.append_ne_nil_of_right_ne_nil _ (List.cons_ne_nil _ _)
    · rwa [Lineup.setE_queue, w.setQueue_of_ne _ fun h => heq (leaving_injective h)]

/-- The next one gets out. -/
lemma getOff (h : Stocked e w on (x :: off)) :
    ∃ e' w', w.GoesOn cfg x w' ∧ Stocked e' w' on off ∧ Stays e w e' w' ∧
      w'.shared.totalOut = w.shared.totalOut + 1 ∧
      w'.riding e.numFloors = w.riding e.numFloors := by
  obtain ⟨t, c, r⟩ := x
  obtain ⟨ρ, rfl, hto⟩ := h.alighting _ List.mem_cons_self
  obtain ⟨hends, hentries⟩ := h.personsOn
  have hmem : ρ.person ∈ entries e.personsOn := by
    rw [← Multiset.mem_coe, hentries, persons_cons]
    exact Multiset.mem_add.2 (.inr (Multiset.mem_cons_self ..))
  obtain ⟨on', hremove, hon', hsame⟩ := removeFromPP_of_mem hmem hends
  have hocc := h.occupancy
  have hcap := h.capacity
  have hroom := h.room
  simp only [List.length_cons] at hocc hroom
  refine ⟨e.getsOff on', _, mem_eval.2 ⟨reaches_arrived h.object hremove hto.symm, rfl⟩, ?_,
    ⟨rfl, rfl, fun _ => rfl, fun _ => id⟩, rfl, rfl⟩
  exact {
    object := rfl
    currentFloor := h.currentFloor
    listEntering := h.listEntering
    listLeaving := h.listLeaving
    personsOn := by
      refine ⟨hon', ?_⟩
      rw [hsame, persons_cons, Multiset.add_cons] at hentries
      exact (Multiset.cons_inj_right _).1 hentries
    occupancy := by
      change e.occupancy - 1 = (w.riding e.numFloors : ℤ) + _
      omega
    capacity := by
      change e.occupancy - 1 + _ ≤ _
      omega
    boarding := h.boarding
    alighting := fun z hz => h.alighting z (List.mem_cons_of_mem _ hz)
    room := by
      change w.waiting e.numFloors + w.riding e.numFloors + _ + _ + _ < _
      omega }

lemma goesOn_unique {w₁ w₂ : Lineup} (h₁ : w.GoesOn cfg x w₁) (h₂ : w.GoesOn cfg x w₂) :
    w₁ = w₂ := by
  cases Part.mem_unique h₁ h₂
  rfl

/-- All who are woken get in. -/
lemma serves_on (h : Stocked e w on []) :
    (∃ w', Serves cfg w on w') ∧ ∀ w', Serves cfg w on w' → ∃ e', Stocked e' w' [] [] ∧
      Stays e w e' w' ∧ w'.shared.totalOut = w.shared.totalOut ∧
      w'.riding e.numFloors = w.riding e.numFloors + on.length := by
  induction on generalizing e w with
  | nil =>
    refine ⟨⟨w, .nil⟩, fun w' hs => ?_⟩
    cases hs
    exact ⟨e, h, .refl e w, rfl, rfl⟩
  | cons x on ih =>
    obtain ⟨e₁, w₁, hgo, h₁, hstays, hout, hriding⟩ := h.getOn
    obtain ⟨⟨w₂, hs⟩, hall⟩ := ih h₁
    refine ⟨⟨w₂, .cons hgo hs⟩, fun w' hs' => ?_⟩
    cases hs' with
    | cons hgo' hs' =>
      cases goesOn_unique hgo hgo'
      obtain ⟨e', h', hstays', hout', hriding'⟩ := hall w' hs'
      refine ⟨e', h', hstays.trans hstays', hout'.trans hout, ?_⟩
      rw [hstays.numFloors] at hriding'
      rw [hriding', hriding, List.length_cons]
      omega

/-- All who are woken get out. -/
lemma serves_off (h : Stocked e w [] off) :
    (∃ w', Serves cfg w off w') ∧ ∀ w', Serves cfg w off w' → ∃ e', Stocked e' w' [] [] ∧
      Stays e w e' w' ∧ w'.shared.totalOut = w.shared.totalOut + off.length ∧
      w'.riding e.numFloors = w.riding e.numFloors := by
  induction off generalizing e w with
  | nil =>
    refine ⟨⟨w, .nil⟩, fun w' hs => ?_⟩
    cases hs
    exact ⟨e, h, .refl e w, rfl, rfl⟩
  | cons x off ih =>
    obtain ⟨e₁, w₁, hgo, h₁, hstays, hout, hriding⟩ := h.getOff
    obtain ⟨⟨w₂, hs⟩, hall⟩ := ih h₁
    refine ⟨⟨w₂, .cons hgo hs⟩, fun w' hs' => ?_⟩
    cases hs' with
    | cons hgo' hs' =>
      cases goesOn_unique hgo hgo'
      obtain ⟨e', h', hstays', hout', hriding'⟩ := hall w' hs'
      refine ⟨e', h', hstays.trans hstays', ?_, ?_⟩
      · rw [hout', hout, List.length_cons]
        omega
      · rw [hstays.numFloors] at hriding'
        rw [hriding', hriding]

end Stocked

end Nachos.Elevator
