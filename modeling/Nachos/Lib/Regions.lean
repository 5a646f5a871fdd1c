import Mathlib.Data.List.Nodup
import Mathlib.Data.List.Range
import Mathlib.Data.List.Count
import Mathlib.Logic.Function.Basic

/-!
# Regions of a store

Some cells of a store are fixed, and each of `n` slots has a list of others. `regions` lists all of
them; that no cell is listed twice says that the fixed cells and the slots are disjoint. A slot may
be filled with cells that are not listed yet, or emptied.
-/

namespace Nachos.Lib

section Regions

variable {α : Type} {fixed l : List α} {f : ℕ → List α} {n i : ℕ} {x : α}

/-- The fixed cells and those of the slots. -/
def regions (fixed : List α) (f : ℕ → List α) (n : ℕ) : List α :=
  fixed ++ (List.range n).flatMap f

lemma mem_regions : x ∈ regions fixed f n ↔ x ∈ fixed ∨ ∃ i < n, x ∈ f i := by
  simp [regions, List.mem_flatMap]

/-- The slots are disjoint from the fixed cells and from each other. -/
theorem nodup_regions : (regions fixed f n).Nodup ↔
    fixed.Nodup ∧ (∀ i < n, (f i).Nodup) ∧ (∀ i < n, ∀ x ∈ fixed, x ∉ f i) ∧
      ∀ i < n, ∀ j < n, i ≠ j → ∀ x ∈ f i, x ∉ f j := by
  have hpair : (List.range n).Pairwise (Function.onFun List.Disjoint f) ↔
      ∀ i < n, ∀ j < n, i ≠ j → ∀ x ∈ f i, x ∉ f j := by
    have hsymm : Std.Symm (Function.onFun List.Disjoint f) := ⟨fun _ _ h _ hx hx' => h hx' hx⟩
    constructor
    · intro h i hi j hj hij x hx hx'
      exact h.forall (List.mem_range.mpr hi) (List.mem_range.mpr hj) hij hx hx'
    · intro h
      refine List.nodup_range.pairwise_of_forall_ne fun i hi j hj hij x hx hx' => ?_
      exact h i (List.mem_range.mp hi) j (List.mem_range.mp hj) hij x hx hx'
  have hfixed : fixed.Disjoint ((List.range n).flatMap f) ↔ ∀ i < n, ∀ x ∈ fixed, x ∉ f i := by
    constructor
    · intro h i hi x hx hx'
      exact h hx (List.mem_flatMap.mpr ⟨i, List.mem_range.mpr hi, hx'⟩)
    · intro h x hx hx'
      obtain ⟨i, hi, hx'⟩ := List.mem_flatMap.mp hx'
      exact h i (List.mem_range.mp hi) x hx hx'
  have hslot : (∀ i ∈ List.range n, (f i).Nodup) ↔ ∀ i < n, (f i).Nodup := by
    simp only [List.mem_range]
  rw [regions, List.nodup_append', List.nodup_flatMap, hpair, hfixed, hslot, and_assoc]
  exact and_congr_right fun _ => and_congr_right fun _ => and_comm

/-- What the slots hold after an empty one was filled. -/
lemma mem_regions_fill (hi : i < n) (hf : f i = []) :
    x ∈ regions fixed (Function.update f i l) n ↔ x ∈ regions fixed f n ∨ x ∈ l := by
  rw [mem_regions, mem_regions, or_assoc]
  refine or_congr_right ⟨?_, ?_⟩
  · rintro ⟨j, hj, hx⟩
    by_cases hji : j = i
    · rw [hji, Function.update_self] at hx
      exact .inr hx
    · rw [Function.update_of_ne hji] at hx
      exact .inl ⟨j, hj, hx⟩
  · rintro (⟨j, hj, hx⟩ | hx)
    · have hji : j ≠ i := by
        rintro rfl
        rw [hf] at hx
        cases hx
      exact ⟨j, hj, by rwa [Function.update_of_ne hji]⟩
    · exact ⟨i, hi, by rwa [Function.update_self]⟩

/-- **A slot is filled with cells that are not listed.** -/
theorem nodup_fill (h : (regions fixed f n).Nodup) (hl : l.Nodup)
    (hnew : ∀ x ∈ l, x ∉ regions fixed f n) :
    (regions fixed (Function.update f i l) n).Nodup := by
  obtain ⟨hfixed, hslot, hdisj, hpair⟩ := nodup_regions.mp h
  have hout : ∀ x ∈ l, x ∉ fixed ∧ ∀ j < n, x ∉ f j := by
    intro x hx
    have := hnew x hx
    rw [mem_regions, not_or] at this
    exact ⟨this.1, fun j hj hx' => this.2 ⟨j, hj, hx'⟩⟩
  refine nodup_regions.mpr ⟨hfixed, fun j hj => ?_, fun j hj x hx => ?_, fun j hj k hk hjk x => ?_⟩
  · by_cases hji : j = i
    · rwa [hji, Function.update_self]
    · rw [Function.update_of_ne hji]
      exact hslot j hj
  · by_cases hji : j = i
    · rw [hji, Function.update_self]
      exact fun hx' => (hout x hx').1 hx
    · rw [Function.update_of_ne hji]
      exact hdisj j hj x hx
  · by_cases hji : j = i
    · have hki : k ≠ i := fun hki => hjk (hji.trans hki.symm)
      rw [hji, Function.update_self, Function.update_of_ne hki]
      exact fun hx => (hout x hx).2 k hk
    · rw [Function.update_of_ne hji]
      by_cases hki : k = i
      · rw [hki, Function.update_self]
        exact fun hx hx' => (hout x hx').2 j hj hx
      · rw [Function.update_of_ne hki]
        exact hpair j hj k hk hjk x

/-- What the slots hold after one was emptied. -/
lemma mem_regions_empty (h : (regions fixed f n).Nodup) (hi : i < n) :
    x ∈ regions fixed (Function.update f i []) n ↔ x ∈ regions fixed f n ∧ x ∉ f i := by
  obtain ⟨-, -, hdisj, hpair⟩ := nodup_regions.mp h
  rw [mem_regions, mem_regions]
  constructor
  · rintro (hx | ⟨j, hj, hx⟩)
    · exact ⟨.inl hx, hdisj i hi x hx⟩
    · have hji : j ≠ i := by
        rintro rfl
        rw [Function.update_self] at hx
        cases hx
      rw [Function.update_of_ne hji] at hx
      exact ⟨.inr ⟨j, hj, hx⟩, hpair j hj i hi hji x hx⟩
  · rintro ⟨hx | ⟨j, hj, hx⟩, hxi⟩
    · exact .inl hx
    · have hji : j ≠ i := by
        rintro rfl
        exact hxi hx
      exact .inr ⟨j, hj, by rwa [Function.update_of_ne hji]⟩

/-- **A slot is emptied.** -/
theorem nodup_empty (h : (regions fixed f n).Nodup) :
    (regions fixed (Function.update f i []) n).Nodup :=
  nodup_fill h List.nodup_nil fun _ hx => nomatch hx

end Regions

/-! ### Counting -/

/-- One element less is counted when the predicate fails for one more. -/
lemma countP_range_of_ne {p q : ℕ → Bool} {i : ℕ} (hp : p i = true) (hq : q i = false)
    (h : ∀ j, j ≠ i → q j = p j) (m : ℕ) :
    (List.range m).countP q + (if i < m then 1 else 0) = (List.range m).countP p := by
  induction m with
  | zero => simp
  | succ m ih =>
    simp only [List.range_succ, List.countP_append, List.countP_singleton]
    by_cases hmi : m = i
    · subst hmi
      rw [if_neg (Nat.lt_irrefl m)] at ih
      simp [hp, hq, ← ih]
    · have hlt : i < m + 1 ↔ i < m := by omega
      simp only [h m hmi, hlt, ← ih]
      omega

end Nachos.Lib
