import Mathlib.Data.List.Nodup
import Mathlib.Logic.Function.Basic
import Mathlib.Tactic.Common

/-!
# What is in use, in shares

The elements in use are divided among owners: each belongs to the share of one owner, and there once.
An owner without a share takes elements that are not in use; an owner gives its whole share back.
-/

namespace Nachos.Lib

variable {ι α : Type} {used used' : α → Prop} {share share' : ι → List α} {i : ι} {xs : List α}

/-- **The shares are a partition** of the elements in use. -/
structure Partition (used : α → Prop) (share : ι → List α) : Prop where
  nodup : ∀ i, (share i).Nodup
  disjoint : ∀ {i j x}, x ∈ share i → x ∈ share j → i = j
  used : ∀ x, used x ↔ ∃ i, x ∈ share i

namespace Partition

lemma congr (h : Partition used share) (hused : ∀ x, used' x ↔ used x) (hshare : share' = share) :
    Partition used' share' := by
  subst hshare
  exact ⟨h.nodup, h.disjoint, fun x => (hused x).trans (h.used x)⟩

/-- The empty partition. -/
lemma empty (hused : ∀ x, ¬ used x) (hshare : ∀ i, share i = []) : Partition used share where
  nodup i := by rw [hshare]; exact List.nodup_nil
  disjoint hx _ := by rw [hshare] at hx; cases hx
  used x := iff_of_false (hused x) fun ⟨i, hx⟩ => by rw [hshare] at hx; cases hx

variable [DecidableEq ι]

/-- **An owner takes elements** that are not in use. -/
theorem take (h : Partition used share) (hi : share i = []) (nodup : xs.Nodup)
    (free : ∀ x ∈ xs, ¬ used x) (hused : ∀ x, used' x ↔ used x ∨ x ∈ xs) :
    Partition used' (Function.update share i xs) := by
  have old : ∀ {j x}, x ∈ share j → x ∉ xs := fun hj hx => free _ hx ((h.used _).mpr ⟨_, hj⟩)
  refine ⟨fun j => ?_, fun {j l x} hj hl => ?_, fun x => ?_⟩
  · by_cases hji : j = i
    · subst hji
      rw [Function.update_self]
      exact nodup
    · rw [Function.update_of_ne hji]
      exact h.nodup j
  · by_cases hji : j = i <;> by_cases hli : l = i
    · exact hji.trans hli.symm
    · subst hji
      rw [Function.update_self] at hj
      rw [Function.update_of_ne hli] at hl
      exact absurd hj (old hl)
    · subst hli
      rw [Function.update_self] at hl
      rw [Function.update_of_ne hji] at hj
      exact absurd hl (old hj)
    · rw [Function.update_of_ne hji] at hj
      rw [Function.update_of_ne hli] at hl
      exact h.disjoint hj hl
  · rw [hused, h.used]
    constructor
    · rintro (⟨j, hj⟩ | hx)
      · refine ⟨j, ?_⟩
        rw [Function.update_of_ne]
        · exact hj
        · rintro rfl
          rw [hi] at hj
          cases hj
      · exact ⟨i, by rwa [Function.update_self]⟩
    · rintro ⟨j, hj⟩
      by_cases hji : j = i
      · subst hji
        rw [Function.update_self] at hj
        exact .inr hj
      · rw [Function.update_of_ne hji] at hj
        exact .inl ⟨j, hj⟩

/-- **An owner gives its share back.** -/
theorem give (h : Partition used share) (hused : ∀ x, used' x ↔ used x ∧ x ∉ share i) :
    Partition used' (Function.update share i []) := by
  have other : ∀ {j x}, x ∈ Function.update share i [] j → j ≠ i ∧ x ∈ share j := by
    intro j x hj
    by_cases hji : j = i
    · subst hji
      rw [Function.update_self] at hj
      cases hj
    · rw [Function.update_of_ne hji] at hj
      exact ⟨hji, hj⟩
  refine ⟨fun j => ?_, fun hj hl => h.disjoint (other hj).2 (other hl).2, fun x => ?_⟩
  · by_cases hji : j = i
    · subst hji
      rw [Function.update_self]
      exact List.nodup_nil
    · rw [Function.update_of_ne hji]
      exact h.nodup j
  · rw [hused, h.used]
    constructor
    · rintro ⟨⟨j, hj⟩, hno⟩
      refine ⟨j, ?_⟩
      rw [Function.update_of_ne]
      · exact hj
      · rintro rfl
        exact hno hj
    · rintro ⟨j, hj⟩
      obtain ⟨hji, hj⟩ := other hj
      exact ⟨⟨j, hj⟩, fun hi => hji (h.disjoint hj hi)⟩

end Partition

end Nachos.Lib
