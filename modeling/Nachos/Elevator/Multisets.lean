import Nachos.Elevator.Entries
import Nachos.Lib.Except

/-!
# A list of persons is a multiset

Whatever persons are added to a list and removed from it, in whatever order, its entries are those
who were added and not removed. The array has `tp` slots, and `addToPP` writes the `NULL` behind the
person it puts at the end: with `tp` persons there is no slot for it. So a list holds one person
less than the array has slots.
-/

namespace Nachos.Elevator

open Lib Threads

/-! ### Operations -/

/-- An operation on a list. -/
inductive PersonsOp where
  | add (p : Person)
  | remove (p : Person)
  | removeFirst
  deriving DecidableEq

/-- A call that has returned. -/
inductive PersonsEvent where
  | addToPP (p : Person)
  | removeFromPP (p : Person)
  | removeFromPPFirst (found : Bool)
  deriving DecidableEq

/-- `ELEVATOR::removeFromPPFirst`. -/
def Persons.removeFromPPFirst (pp : Persons) : Except Fault (Bool × Persons) := do
  match ← first pp with
  | none => return (false, pp)
  | some p => return (true, ← removeFromPP pp p)

def personsStep : PersonsOp → Persons → Except Fault (List PersonsEvent × Persons)
  | .add p, pp => do return ([.addToPP p], ← addToPP pp p)
  | .remove p, pp => do return ([.removeFromPP p], ← removeFromPP pp p)
  | .removeFirst, pp => do
    let r ← pp.removeFromPPFirst
    return ([.removeFromPPFirst r.1], r.2)

/-- **What a list is for**: a multiset of persons. -/
inductive MultisetStep : Multiset Person → List PersonsEvent → Multiset Person → Prop
  | add (m p) : MultisetStep m [.addToPP p] (p ::ₘ m)
  | remove (m p) : MultisetStep (p ::ₘ m) [.removeFromPP p] m
  | removeFirst (m p) : MultisetStep (p ::ₘ m) [.removeFromPPFirst true] m
  | removeNone : MultisetStep 0 [.removeFromPPFirst false] 0

/-- **At most `m` persons are present**, and a person to be removed is not one whom the memory
behind the list happens to name. -/
def Allowed (m : ℕ) (pp : Persons) : PersonsOp → Prop
  | .add _ => (entries pp).length + 1 ≤ m
  | .remove p => (∃ j < tp, pp j = .person p) → p ∈ entries pp
  | .removeFirst => True

/-- A step that is allowed. -/
def AllowedStep (m : ℕ) (pp : Persons) (es : List PersonsEvent) (pp' : Persons) : Prop :=
  ∃ op, personsStep op pp = .ok (es, pp') ∧ Allowed m pp op

/-- **The list represents the multiset** of the persons added and not removed, and the next
operation will find it so: none accesses a slot that is not one of the array. -/
structure AsMultiset (m : ℕ) (tr : List PersonsEvent) (pp : Persons) : Prop where
  ends : Ends pp
  run : Run MultisetStep 0 tr (entries pp)
  count : personCount pp = .ok (Multiset.card (entries pp : Multiset Person))
  member : ∀ p, memberFrom pp p tp 0 = true ↔ p ∈ entries pp
  adds : ∀ p, Allowed m pp (.add p) → ∃ pp', addToPP pp p = .ok pp'
  removes : ∀ p ∈ entries pp, ∃ pp', removeFromPP pp p = .ok pp'
  absent : ∀ p ∉ entries pp, Allowed m pp (.remove p) → removeFromPP pp p = .error .assertion
  removesFirst : ∃ r, pp.removeFromPPFirst = .ok r ∧ (r.1 = true ↔ entries pp ≠ [])

variable {pp pp' : Persons} {p : Person} {n i m : ℕ} {tr es : List PersonsEvent}

/-! ### Room -/

lemma length_entriesFrom (h : EndsFrom pp n i) : (entriesFrom pp n i).length + 1 ≤ n := by
  induction n generalizing i with
  | zero => exact h.elim
  | succ n ih =>
    cases hi : pp i with
    | null => simp [entriesFrom_of_null hi]
    | removed =>
      rw [entriesFrom_of_removed hi]
      exact Nat.le_succ_of_le (ih (h.tail (by simp [hi])))
    | person q =>
      rw [entriesFrom_of_person hi, List.length_cons]
      exact Nat.succ_le_succ (ih (h.tail (by simp [hi])))

/-- In a list of one person less than there are slots, the `NULL` is in the last one. -/
lemma addFrom_full (h : EndsFrom pp n i) (hn : i + n = tp)
    (hfull : (entriesFrom pp n i).length + 1 = n) : addFrom pp p n i = .error .memory := by
  induction n generalizing i with
  | zero => exact h.elim
  | succ n ih =>
    rw [addFrom]
    cases hi : pp i with
    | null =>
      rw [entriesFrom_of_null hi, List.length_nil] at hfull
      exact if_neg (by omega)
    | removed =>
      have hle := length_entriesFrom (h.tail (by simp [hi]))
      rw [entriesFrom_of_removed hi] at hfull
      omega
    | person q =>
      rw [entriesFrom_of_person hi, List.length_cons] at hfull
      exact ih (h.tail (by simp [hi])) (by omega) (by omega)

/-- **`addToPP` goes through** when there will be a slot for the `NULL`, and only then. -/
theorem addToPP_ok_iff (h : Ends pp) :
    (∃ pp', addToPP pp p = .ok pp') ↔ (entries pp).length + 1 < tp := by
  refine ⟨fun ⟨pp', hadd⟩ => ?_, addToPP_ok p⟩
  by_contra hfull
  have hle : (entries pp).length + 1 ≤ tp := length_entriesFrom h
  rw [addToPP, addFrom_full h (Nat.zero_add _) (Nat.le_antisymm hle (not_lt.mp hfull))] at hadd
  cases hadd

lemma removeFrom_of_absent (h : ∀ j, i ≤ j → j < i + n → pp j ≠ .person p) :
    removeFrom pp p n i = .error .assertion := by
  induction n generalizing i with
  | zero => rfl
  | succ n ih =>
    rw [removeFrom, if_neg (h i le_rfl (by omega))]
    exact ih fun j hj hlt => h j (by omega) (by omega)

/-! ### The first person -/

/-- `removeFromPPFirst` removes somebody, or there is nobody. -/
lemma removeFromPPFirst_cases (h : Ends pp) :
    (entries pp = [] ∧ pp.removeFromPPFirst = .ok (false, pp)) ∨
      ∃ p pp', pp.removeFromPPFirst = .ok (true, pp') ∧ Ends pp' ∧
        (entries pp : Multiset Person) = p ::ₘ (entries pp' : Multiset Person) := by
  unfold Persons.removeFromPPFirst
  rw [first_eq h]
  cases he : entries pp with
  | nil => exact .inl ⟨rfl, rfl⟩
  | cons p rest =>
    have hp : p ∈ entries pp := by
      rw [he]
      exact .head _
    obtain ⟨pp', hr, hends, hentries⟩ := removeFromPP_of_mem hp h
    rw [he] at hentries
    refine .inr ⟨p, pp', ?_, hends, hentries⟩
    simp only [List.head?_cons, ok_bind, hr]
    rfl

/-! ### Runs -/

/-- What is known of a list holds for the next operation. -/
lemma AsMultiset.of_ends (he : Ends pp) (hrun : Run MultisetStep 0 tr (entries pp)) (hm : m < tp) :
    AsMultiset m tr pp where
  ends := he
  run := hrun
  count := personCount_eq he
  member p := memberFrom_iff
  adds p hp := addToPP_ok p (Nat.lt_of_le_of_lt hp hm)
  removes p hp := by
    obtain ⟨pp', hr, -⟩ := removeFromPP_of_mem hp he
    exact ⟨pp', hr⟩
  absent p hp hallowed := by
    refine removeFrom_of_absent fun j _ hlt hj => hp (hallowed ⟨j, ?_, hj⟩)
    rwa [Nat.zero_add] at hlt
  removesFirst := by
    obtain ⟨hnil, hr⟩ | ⟨p, pp', hr, -, hentries⟩ := removeFromPPFirst_cases he
    · exact ⟨_, hr, iff_of_false (by simp) (by simp [hnil])⟩
    · refine ⟨_, hr, iff_of_true rfl fun hnil => ?_⟩
      rw [hnil] at hentries
      exact Multiset.zero_ne_cons hentries

/-- **One step**: the list goes on as a multiset. -/
theorem personsStep_multiset (he : Ends pp) (hstep : AllowedStep m pp es pp') :
    Ends pp' ∧ MultisetStep (entries pp) es (entries pp') := by
  obtain ⟨op, hop, hallowed⟩ := hstep
  cases op with
  | add p =>
    obtain ⟨pp'', hadd, hret⟩ := bind_eq_ok hop
    cases hret
    obtain ⟨hends, hentries⟩ := addToPP_eq_ok hadd he
    rw [hentries]
    exact ⟨hends, .add _ p⟩
  | remove p =>
    obtain ⟨pp'', hremove, hret⟩ := bind_eq_ok hop
    cases hret
    have hp : p ∈ entries pp := by
      by_contra hp
      have hfail : removeFrom pp p tp 0 = .error .assertion :=
        removeFrom_of_absent fun j _ hlt hj => hp (hallowed ⟨j, Nat.zero_add tp ▸ hlt, hj⟩)
      rw [removeFromPP, hfail] at hremove
      cases hremove
    obtain ⟨pp'', hr, hends, hentries⟩ := removeFromPP_of_mem hp he
    rw [hr] at hremove
    cases hremove
    rw [hentries]
    exact ⟨hends, .remove _ p⟩
  | removeFirst =>
    obtain ⟨r, hfirst, hret⟩ := bind_eq_ok hop
    cases hret
    obtain ⟨hnil, hr⟩ | ⟨p, pp'', hr, hends, hentries⟩ := removeFromPPFirst_cases he
    · rw [hr] at hfirst
      cases hfirst
      rw [hnil]
      exact ⟨he, .removeNone⟩
    · rw [hr] at hfirst
      cases hfirst
      rw [hentries]
      exact ⟨hends, .removeFirst _ p⟩

/-- The entries are a multiset in every run. -/
lemma multiset_of_run {memory : Persons}
    (h : Run (AllowedStep m) (ELEVATOR.empty memory) tr pp) :
    Ends pp ∧ Run MultisetStep 0 tr (entries pp) := by
  refine h.invariant (I := fun tr pp => Ends pp ∧ Run MultisetStep 0 tr (entries pp))
    ⟨ends_empty memory, ?_⟩ ?_
  · rw [entries_empty]
    exact .start
  · rintro tr pp es pp' - ⟨he, hrun⟩ hstep
    obtain ⟨hends, hmultiset⟩ := personsStep_multiset he hstep
    exact ⟨hends, hrun.snoc hmultiset⟩

/-- **A list of persons is a multiset** in every run in which there are never as many persons as
slots. -/
theorem asMultiset_of_run {memory : Persons}
    (h : Run (AllowedStep (tp - 1)) (ELEVATOR.empty memory) tr pp) : AsMultiset (tp - 1) tr pp := by
  obtain ⟨hends, hrun⟩ := multiset_of_run h
  exact .of_ends hends hrun (by decide)

/-- Different persons are added one after another. -/
lemma exists_run (memory : Persons) (hk : n ≤ m) (htp : n < tp) :
    ∃ tr pp, Run (AllowedStep m) (ELEVATOR.empty memory) tr pp ∧ (entries pp).length = n := by
  induction n with
  | zero => exact ⟨_, _, .start, by rw [entries_empty]; rfl⟩
  | succ n ih =>
    obtain ⟨tr, pp, hr, hlen⟩ := ih (by omega) (by omega)
    obtain ⟨pp', hadd⟩ : ∃ pp', addToPP pp ⟨n + 1, 1, 2⟩ = .ok pp' := addToPP_ok _ (by omega)
    have hstep : AllowedStep m pp [.addToPP ⟨n + 1, 1, 2⟩] pp' := by
      refine ⟨.add ⟨n + 1, 1, 2⟩, ?_, show (entries pp).length + 1 ≤ m by omega⟩
      rw [personsStep, hadd]
      rfl
    have hentries := (addToPP_eq_ok hadd (multiset_of_run hr).1).2
    have hcard := congrArg Multiset.card hentries
    rw [Multiset.card_cons, Multiset.coe_card, Multiset.coe_card, hlen] at hcard
    exact ⟨_, pp', hr.snoc hstep, hcard⟩

/-- As many persons as there is room for. -/
theorem asMultiset_of_run_full : ∃ tr pp, (entries pp).length = 99 ∧ AsMultiset (tp - 1) tr pp := by
  obtain ⟨tr, pp, hr, hlen⟩ := exists_run (n := 99) (m := tp - 1) (fun _ => .removed)
    (by decide) (by decide)
  exact ⟨tr, pp, hlen, asMultiset_of_run hr⟩

/-- One person more: the `NULL` is written behind the array. -/
theorem not_asMultiset : ¬ ∀ memory tr pp, Run (AllowedStep tp) (ELEVATOR.empty memory) tr pp →
    AsMultiset tp tr pp := by
  intro h
  obtain ⟨tr, pp, hr, hlen⟩ := exists_run (n := 99) (m := tp) (fun _ => .removed)
    (by decide) (by decide)
  have hfull : Allowed tp pp (.add ⟨100, 1, 2⟩) := by
    show (entries pp).length + 1 ≤ tp
    rw [hlen]
    decide
  have hroom := (addToPP_ok_iff (multiset_of_run hr).1).mp ((h _ tr pp hr).adds _ hfull)
  rw [hlen] at hroom
  exact absurd hroom (by decide)

end Nachos.Elevator
