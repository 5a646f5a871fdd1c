import Mathlib.Data.Multiset.AddSub
import Nachos.Elevator.Defs

/-!
# The entries of a list of persons

What is in a list are the persons before its first `NULL`. When there is a `NULL` in the array, the
loops over the list see these, `addToPP` adds one, and `removeFromPP` takes one away that is there;
neither moves the others.
-/

namespace Nachos.Elevator

open Threads

/-- The persons before the first `NULL`, with `n` slots left from `i`. -/
def entriesFrom (pp : Persons) : ℕ → ℕ → List Person
  | 0, _ => []
  | n + 1, i =>
    match pp i with
    | .null => []
    | .removed => entriesFrom pp n (i + 1)
    | .person p => p :: entriesFrom pp n (i + 1)

def entries (pp : Persons) : List Person := entriesFrom pp tp 0

/-- There is a `NULL`, with `n` slots left from `i`. -/
def EndsFrom (pp : Persons) : ℕ → ℕ → Prop
  | 0, _ => False
  | n + 1, i => pp i = .null ∨ EndsFrom pp n (i + 1)

/-- There is a `NULL` in the array. -/
def Ends (pp : Persons) : Prop := EndsFrom pp tp 0

variable {pp pp' : Persons} {p q : Person} {n i : ℕ}

section From

lemma entriesFrom_congr (h : ∀ j, i ≤ j → pp' j = pp j) :
    entriesFrom pp' n i = entriesFrom pp n i := by
  induction n generalizing i with
  | zero => rfl
  | succ n ih =>
    rw [entriesFrom, entriesFrom, h i le_rfl, ih fun j hj => h j (by omega)]

lemma endsFrom_congr (h : ∀ j, i ≤ j → pp' j = pp j) : EndsFrom pp' n i ↔ EndsFrom pp n i := by
  induction n generalizing i with
  | zero => exact Iff.rfl
  | succ n ih => rw [EndsFrom, EndsFrom, h i le_rfl, ih fun j hj => h j (by omega)]

lemma entriesFrom_of_null (h : pp i = .null) : entriesFrom pp n i = [] := by
  cases n with
  | zero => rfl
  | succ n => rw [entriesFrom, h]

lemma entriesFrom_of_removed (h : pp i = .removed) :
    entriesFrom pp (n + 1) i = entriesFrom pp n (i + 1) := by
  rw [entriesFrom, h]

lemma entriesFrom_of_person (h : pp i = .person p) :
    entriesFrom pp (n + 1) i = p :: entriesFrom pp n (i + 1) := by
  rw [entriesFrom, h]

lemma EndsFrom.tail (h : EndsFrom pp (n + 1) i) (hi : pp i ≠ .null) : EndsFrom pp n (i + 1) :=
  h.resolve_left hi

/-- The loops see the entries. -/
lemma findFrom_eq (h : EndsFrom pp n i) (pick : Person → Bool) :
    findFrom pp pick n i = .ok ((entriesFrom pp n i).find? pick) := by
  induction n generalizing i with
  | zero => exact h.elim
  | succ n ih =>
    rw [findFrom, entriesFrom]
    cases hi : pp i with
    | null => rfl
    | removed => exact ih (h.tail (by simp [hi]))
    | person p =>
      simp only [List.find?_cons, ih (h.tail (by simp [hi]))]
      cases pick p <;> rfl

lemma countFrom_eq (h : EndsFrom pp n i) :
    countFrom pp n i = .ok (entriesFrom pp n i).length := by
  induction n generalizing i with
  | zero => exact h.elim
  | succ n ih =>
    rw [countFrom, entriesFrom]
    cases hi : pp i with
    | null => rfl
    | removed => exact ih (h.tail (by simp [hi]))
    | person p =>
      simp only [ih (h.tail (by simp [hi]))]
      rfl

lemma memberFrom_iff : memberFrom pp p n i = true ↔ p ∈ entriesFrom pp n i := by
  induction n generalizing i with
  | zero => simp [memberFrom, entriesFrom]
  | succ n ih =>
    rw [memberFrom]
    cases hi : pp i with
    | null => simp [entriesFrom_of_null hi]
    | removed => simpa [entriesFrom_of_removed hi] using ih
    | person q =>
      rw [entriesFrom_of_person hi, List.mem_cons, ← ih]
      by_cases hq : q = p
      · simp [hq]
      · simp [hq, Ne.symm hq]

/-- `addToPP` adds an entry. -/
lemma addFrom_eq_ok (h : addFrom pp p n i = .ok pp') (he : EndsFrom pp n i) (hn : i + n = tp) :
    EndsFrom pp' n i ∧
      (entriesFrom pp' n i : Multiset Person) = p ::ₘ (entriesFrom pp n i : Multiset Person) ∧
      ∀ j < i, pp' j = pp j := by
  induction n generalizing i with
  | zero => exact he.elim
  | succ n ih =>
    rw [addFrom] at h
    cases hi : pp i with
    | removed =>
      rw [hi] at h
      cases h
      have hlater : ∀ j, i + 1 ≤ j → Function.update pp i (.person p) j = pp j := fun j hj =>
        Function.update_of_ne (by omega) ..
      have hself : Function.update pp i (.person p) i = .person p := Function.update_self ..
      refine ⟨.inr ((endsFrom_congr hlater).2 (he.tail (by simp [hi]))), ?_, fun j hj =>
        Function.update_of_ne (by omega) ..⟩
      rw [entriesFrom_of_person hself, entriesFrom_of_removed hi, entriesFrom_congr hlater]
      rfl
    | null =>
      rw [hi] at h
      simp only at h
      split at h
      next hlt =>
        cases h
        have hself : Function.update (Function.update pp i (.person p)) (i + 1) .null i = .person p :=
          (Function.update_of_ne (by omega) ..).trans (Function.update_self ..)
        have hnext : Function.update (Function.update pp i (.person p)) (i + 1) .null (i + 1) =
          .null := Function.update_self ..
        obtain ⟨k, rfl⟩ : ∃ k, n = k + 1 := ⟨n - 1, by omega⟩
        refine ⟨.inr (.inl hnext), ?_, fun j hj => ?_⟩
        · rw [entriesFrom_of_person hself, entriesFrom_of_null hnext, entriesFrom_of_null hi]
          rfl
        · rw [Function.update_of_ne (by omega), Function.update_of_ne (by omega)]
      next => cases h
    | person q =>
      rw [hi] at h
      obtain ⟨hends, hentries, hsame⟩ := ih h (he.tail (by simp [hi])) (by omega)
      have hself : pp' i = .person q := (hsame i (by omega)).trans hi
      refine ⟨.inr hends, ?_, fun j hj => hsame j (by omega)⟩
      rw [entriesFrom_of_person hself, entriesFrom_of_person hi, ← Multiset.cons_coe, hentries,
        ← Multiset.cons_coe, Multiset.cons_swap]

/-- `addToPP` finds room when there are not too many entries. -/
lemma addFrom_ok (hn : i + (entriesFrom pp n i).length + 1 < tp) :
    ∃ pp', addFrom pp p n i = .ok pp' := by
  induction n generalizing i with
  | zero => exact ⟨pp, rfl⟩
  | succ n ih =>
    rw [addFrom]
    cases hi : pp i with
    | removed => exact ⟨_, rfl⟩
    | null =>
      rw [entriesFrom_of_null hi, List.length_nil] at hn
      exact ⟨_, if_pos (by omega)⟩
    | person q =>
      rw [entriesFrom_of_person hi, List.length_cons] at hn
      exact ih (by omega)

/-- `removeFromPP` takes away an entry that is there. -/
lemma removeFrom_of_mem (hp : p ∈ entriesFrom pp n i) (he : EndsFrom pp n i) (hn : i + n = tp) :
    ∃ pp', removeFrom pp p n i = .ok pp' ∧ EndsFrom pp' n i ∧
      (entriesFrom pp n i : Multiset Person) = p ::ₘ (entriesFrom pp' n i : Multiset Person) ∧
      ∀ j < i, pp' j = pp j := by
  induction n generalizing i with
  | zero => exact he.elim
  | succ n ih =>
    rw [removeFrom]
    have hne : pp i ≠ .null := fun h => by
      rw [entriesFrom_of_null h] at hp
      cases hp
    have htail := he.tail hne
    by_cases hself : pp i = .person p
    · obtain ⟨k, rfl⟩ : ∃ k, n = k + 1 := by
        cases n with
        | zero => exact htail.elim
        | succ k => exact ⟨k, rfl⟩
      rw [if_pos hself, if_pos (by omega)]
      generalize hslot : (if pp (i + 1) = .null then Slot.null else .removed) = slot
      have hlater : ∀ j, i + 1 ≤ j → Function.update pp i slot j = pp j := fun j hj =>
        Function.update_of_ne (by omega) ..
      have hnew : Function.update pp i slot i = slot := Function.update_self ..
      refine ⟨_, rfl, .inr ((endsFrom_congr hlater).2 htail), ?_, fun j hj =>
        Function.update_of_ne (by omega) ..⟩
      rw [entriesFrom_of_person hself, ← Multiset.cons_coe]
      split at hslot
      next hnull =>
        rw [entriesFrom_of_null hnull, entriesFrom_of_null (hnew.trans hslot.symm)]
      next => rw [entriesFrom_of_removed (hnew.trans hslot.symm), entriesFrom_congr hlater]
    · rw [if_neg hself]
      cases hi : pp i with
      | null => exact absurd hi hne
      | removed =>
        rw [entriesFrom_of_removed hi] at hp
        obtain ⟨pp', hr, hends, hentries, hsame⟩ := ih hp htail (by omega)
        have hself' : pp' i = .removed := (hsame i (by omega)).trans hi
        refine ⟨pp', hr, .inr hends, ?_, fun j hj => hsame j (by omega)⟩
        rw [entriesFrom_of_removed hi, entriesFrom_of_removed hself', hentries]
      | person q =>
        have hq : p ≠ q := by
          rintro rfl
          exact hself hi
        rw [entriesFrom_of_person hi, List.mem_cons, or_iff_right hq] at hp
        obtain ⟨pp', hr, hends, hentries, hsame⟩ := ih hp htail (by omega)
        have hself' : pp' i = .person q := (hsame i (by omega)).trans hi
        refine ⟨pp', hr, .inr hends, ?_, fun j hj => hsame j (by omega)⟩
        rw [entriesFrom_of_person hi, entriesFrom_of_person hself', ← Multiset.cons_coe, hentries,
          ← Multiset.cons_coe, Multiset.cons_swap]

end From

/-! ### Whole lists -/

lemma find_eq (h : Ends pp) (pick : Person → Bool) : find pp pick = .ok ((entries pp).find? pick) :=
  findFrom_eq h pick

lemma first_eq (h : Ends pp) : first pp = .ok (entries pp).head? := by
  rw [first, find_eq h]
  cases entries pp <;> rfl

lemma personCount_eq (h : Ends pp) : personCount pp = .ok (entries pp).length := countFrom_eq h

lemma onElevator_iff {e : ELEVATOR} : e.onElevator p = true ↔ p ∈ entries e.personsOn :=
  memberFrom_iff

lemma addToPP_eq_ok (h : addToPP pp p = .ok pp') (he : Ends pp) : Ends pp' ∧
    (entries pp' : Multiset Person) = p ::ₘ (entries pp : Multiset Person) := by
  obtain ⟨hends, hentries, -⟩ := addFrom_eq_ok h he (Nat.zero_add _)
  exact ⟨hends, hentries⟩

lemma addToPP_ok (p : Person) (hn : (entries pp).length + 1 < tp) :
    ∃ pp', addToPP pp p = .ok pp' :=
  addFrom_ok ((Nat.zero_add _).symm ▸ hn)

lemma removeFromPP_of_mem (hp : p ∈ entries pp) (he : Ends pp) :
    ∃ pp', removeFromPP pp p = .ok pp' ∧ Ends pp' ∧
      (entries pp : Multiset Person) = p ::ₘ (entries pp' : Multiset Person) := by
  obtain ⟨pp', hr, hends, hentries, -⟩ := removeFrom_of_mem hp he (Nat.zero_add _)
  exact ⟨pp', hr, hends, hentries⟩

/-- An array that `new` has made an empty list is one. -/
lemma ends_empty (pp : Persons) : Ends (ELEVATOR.empty pp) := .inl (Function.update_self ..)

lemma entries_empty (pp : Persons) : entries (ELEVATOR.empty pp) = [] :=
  entriesFrom_of_null (Function.update_self ..)

end Nachos.Elevator
