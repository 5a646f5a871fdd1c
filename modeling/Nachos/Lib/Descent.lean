import Mathlib.Order.WellFounded

/-!
# Progress by descent

A sequence of rounds that keeps an invariant comes to its goal when every round before the goal
makes a well-founded rank smaller; and it stays there when a round at the goal keeps it.
-/

namespace Nachos.Lib

variable {S α : Type} {Round : S → S → Prop} {f : ℕ → S}

/-- What the rounds keep holds all along a sequence. -/
lemma along {I : S → Prop} (keep : ∀ s s', I s → Round s s' → I s')
    (hrounds : ∀ k, Round (f k) (f (k + 1))) {m : ℕ} (hi : I (f m)) {k : ℕ} (hk : m ≤ k) :
    I (f k) := by
  induction k, hk using Nat.le_induction with
  | base => exact hi
  | succ k _ ih => exact keep _ _ ih (hrounds k)

variable [Preorder α] [WellFoundedLT α] {I G : S → Prop}

/-- **The progress rule.** A sequence of rounds comes to the goal. -/
theorem exists_goal (rank : S → α) (keep : ∀ s s', I s → Round s s' → I s')
    (descends : ∀ s s', I s → ¬ G s → Round s s' → rank s' < rank s)
    (hrounds : ∀ k, Round (f k) (f (k + 1))) (hi : I (f 0)) : ∃ N, G (f N) := by
  by_contra hnever
  have hnot : ∀ k, ¬ G (f k) := fun k h => hnever ⟨k, h⟩
  have hdesc : ∀ k, rank (f (k + 1)) < rank (f k) := fun k =>
    descends _ _ (along keep hrounds hi (Nat.zero_le k)) (hnot k) (hrounds k)
  -- no rank of the sequence is the least one
  obtain ⟨a, ⟨k, rfl⟩, hmin⟩ := WellFounded.has_min (wellFounded_lt (α := α))
    (Set.range fun k => rank (f k)) ⟨_, 0, rfl⟩
  exact hmin _ ⟨k + 1, rfl⟩ (hdesc k)

/-- **The progress rule**, when a round at the goal keeps it. -/
theorem eventually_goal (rank : S → α) (keep : ∀ s s', I s → Round s s' → I s')
    (descends : ∀ s s', I s → ¬ G s → Round s s' → rank s' < rank s)
    (stays : ∀ s s', I s → G s → Round s s' → G s')
    (hrounds : ∀ k, Round (f k) (f (k + 1))) (hi : I (f 0)) :
    ∃ N, ∀ k, N ≤ k → I (f k) ∧ G (f k) := by
  obtain ⟨N, hN⟩ := exists_goal rank keep descends hrounds hi
  refine ⟨N, fun k hk => ?_⟩
  exact along (I := fun s => I s ∧ G s)
    (fun _ _ h hr => ⟨keep _ _ h.1 hr, stays _ _ h.1 h.2 hr⟩) hrounds
    ⟨along keep hrounds hi (Nat.zero_le N), hN⟩ hk

end Nachos.Lib
