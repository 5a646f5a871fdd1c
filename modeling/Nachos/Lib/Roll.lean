import Mathlib.Data.Finset.Card
import Mathlib.Data.Finset.Insert
import Mathlib.Data.Finset.Erase
import Mathlib.Data.Multiset.MapFold

/-!
# Rolls

The multiset of what a map gives for the elements that satisfy a predicate, when these are
finitely many; and how it changes when one element comes to satisfy the predicate, or ceases to.
-/

namespace Nachos.Lib

variable {α β : Type} {P P' : α → Prop} {f f' : α → β} {m m' : Multiset β} {a : α}

/-- `m` is what `f` gives for the elements that satisfy `P`. -/
def Roll (P : α → Prop) (f : α → β) (m : Multiset β) : Prop :=
  ∃ s : Finset α, (∀ a, a ∈ s ↔ P a) ∧ m = s.val.map f

namespace Roll

lemma mem_iff (h : Roll P f m) {b : β} : b ∈ m ↔ ∃ a, P a ∧ f a = b := by
  obtain ⟨s, hs, rfl⟩ := h
  simp [Multiset.mem_map, hs]

lemma mem (h : Roll P f m) (ha : P a) : f a ∈ m := h.mem_iff.2 ⟨a, ha, rfl⟩

lemma unique (h : Roll P f m) (h' : Roll P f m') : m = m' := by
  obtain ⟨s, hs, rfl⟩ := h
  obtain ⟨s', hs', rfl⟩ := h'
  have hss : s = s' := Finset.ext fun a => (hs a).trans (hs' a).symm
  rw [hss]

lemma of_empty (h : ∀ a, ¬ P a) : Roll P f 0 :=
  ⟨∅, fun a => by simp [h], rfl⟩

lemma eq_zero (h : Roll P f m) (he : ∀ a, ¬ P a) : m = 0 := h.unique (.of_empty he)

lemma eq_zero_iff (h : Roll P f m) : m = 0 ↔ ∀ a, ¬ P a := by
  refine ⟨fun hm a ha => ?_, h.eq_zero⟩
  have := h.mem ha
  rw [hm] at this
  exact absurd this (Multiset.notMem_zero _)

lemma congr (h : Roll P f m) (hP : ∀ a, P' a ↔ P a) (hf : ∀ a, P a → f' a = f a) :
    Roll P' f' m := by
  obtain ⟨s, hs, rfl⟩ := h
  exact ⟨s, fun a => by rw [hs, hP],
    Multiset.map_congr rfl fun a ha => (hf a ((hs a).1 ha)).symm⟩

/-- One element more satisfies the predicate. -/
lemma insert (h : Roll P f m) (ha : ¬ P a) (hP : ∀ b, P' b ↔ b = a ∨ P b)
    (hf : ∀ b, P b → f' b = f b) : Roll P' f' (f' a ::ₘ m) := by
  classical
  obtain ⟨s, hs, rfl⟩ := h
  refine ⟨Insert.insert a s, fun b => by rw [Finset.mem_insert, hs, hP], ?_⟩
  rw [Finset.insert_val_of_notMem fun h => ha ((hs a).1 h), Multiset.map_cons]
  exact congrArg _ (Multiset.map_congr rfl fun b hb => (hf b ((hs b).1 hb)).symm)

/-- One element does not satisfy it any more. -/
lemma erase (h : Roll P f m) (ha : P a) (hP : ∀ b, P' b ↔ P b ∧ b ≠ a)
    (hf : ∀ b, P' b → f' b = f b) : ∃ m', m = f a ::ₘ m' ∧ Roll P' f' m' := by
  classical
  obtain ⟨s, hs, rfl⟩ := h
  refine ⟨(s.erase a).val.map f', ?_, s.erase a, fun b => ?_, rfl⟩
  · have hf' : (s.erase a).val.map f' = (s.erase a).val.map f :=
      Multiset.map_congr rfl fun b hb => hf b ((hP b).2 (by
        rw [Finset.mem_val, Finset.mem_erase, hs] at hb
        exact ⟨hb.2, hb.1⟩))
    rw [hf', ← Multiset.map_cons, Finset.erase_val, Multiset.cons_erase ((hs a).2 ha)]
  · rw [Finset.mem_erase, hs, hP, and_comm]

/-- A list of different elements that satisfy the predicate is not longer. -/
lemma length_le (h : Roll P f m) {l : List α} (hl : l.Nodup) (hP : ∀ a ∈ l, P a) :
    l.length ≤ m.card := by
  obtain ⟨s, hs, rfl⟩ := h
  rw [Multiset.card_map]
  have hsub : (l : Multiset α) ≤ s.val :=
    (Multiset.le_iff_subset (Multiset.coe_nodup.2 hl)).2 fun a ha =>
      (hs a).2 (hP a (Multiset.mem_coe.1 ha))
  simpa using Multiset.card_le_card hsub

/-- How many they are. -/
lemma card_eq (h : Roll P f m) : ∃ s : Finset α, (∀ a, a ∈ s ↔ P a) ∧ m.card = s.card := by
  obtain ⟨s, hs, rfl⟩ := h
  exact ⟨s, hs, Multiset.card_map ..⟩

end Roll

end Nachos.Lib
