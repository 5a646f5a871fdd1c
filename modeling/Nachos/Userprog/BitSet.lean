import Mathlib.Data.Fintype.Card
import Mathlib.Data.Fintype.Fin
import Mathlib.Order.Bounds.Basic
import Nachos.Userprog.BitMap

/-!
# A bitmap is a set

A bitmap of `n` bits stands for a set of numbers below `n`. The bits past the last of them in the
last word are never looked at, and hold anything.
-/

namespace Nachos.Userprog

open Lib Threads

namespace BitMap

/-- `BitMap::BitMap`, where `new unsigned int[numWords]` gives an array that holds `memory`. -/
def construct (nitems : ℕ) (memory : ℕ → BitVec 32) : Except Fault BitMap :=
  (List.range nitems).foldlM (fun b (i : ℕ) => b.clear i) ⟨nitems, memory⟩

/-- **The set** that a bitmap of `n` bits stands for. -/
def toSet (n : ℕ) (b : BitMap) : Finset (Fin n) := {i | b.bit i = true}

section Set

variable {n : ℕ} {b b' : BitMap} {i : Fin n}

@[simp] lemma mem_toSet : i ∈ b.toSet n ↔ b.bit i = true := by simp [toSet]

lemma toSet_congr (h : ∀ i < n, b'.bit i = b.bit i) : b'.toSet n = b.toSet n := by
  ext i
  rw [mem_toSet, mem_toSet, h i i.isLt]

/-- The word of a bit is in the array. -/
lemma word_lt {w : ℕ} (h : w < n) : w / bitsInWord < (n + (bitsInWord - 1)) / bitsInWord := by
  simp only [bitsInWord]
  omega

lemma toSet_setBit : (b.setBit i).toSet n = insert i (b.toSet n) := by
  ext j
  simp [bit_setBit, Fin.ext_iff]

lemma toSet_clearBit : (b.clearBit i).toSet n = (b.toSet n).erase i := by
  ext j
  simp [bit_clearBit, Fin.ext_iff]

/-! ### The operations -/

lemma inRange_iff {which : ℤ} (hb : b.numBits = n) :
    (0 ≤ which ∧ which < b.numBits) ↔ ∃ i : Fin n, which = (i : ℕ) := by
  rw [hb]
  constructor
  · rintro ⟨h0, hlt⟩
    exact ⟨⟨which.toNat, by omega⟩, (Int.toNat_of_nonneg h0).symm⟩
  · rintro ⟨i, rfl⟩
    have := i.isLt
    exact ⟨by omega, by omega⟩

lemma test_fin (hb : b.numBits = n) (i : Fin n) : b.test (i : ℕ) = .ok (decide (i ∈ b.toSet n)) := by
  rw [test, if_pos ((inRange_iff hb).mpr ⟨i, rfl⟩), Int.toNat_natCast]
  simp

lemma mark_fin (hb : b.numBits = n) (i : Fin n) : b.mark (i : ℕ) = .ok (b.setBit i) := by
  rw [mark, if_pos ((inRange_iff hb).mpr ⟨i, rfl⟩), Int.toNat_natCast]

lemma clear_fin (hb : b.numBits = n) (i : Fin n) : b.clear (i : ℕ) = .ok (b.clearBit i) := by
  rw [clear, if_pos ((inRange_iff hb).mpr ⟨i, rfl⟩), Int.toNat_natCast]

/-- **`Find`** gives the least number that is not in the set, or says that there is none. -/
theorem find_toSet (hb : b.numBits = n) :
    (∃ i : Fin n, IsLeast {i | i ∉ b.toSet n} i ∧ b.find = (((i : ℕ) : ℤ), b.setBit i)) ∨
      (b.toSet n = Finset.univ ∧ b.find = (-1, b)) := by
  subst hb
  obtain ⟨i, hi, hclear, hbelow, hfind⟩ | ⟨hall, hfind⟩ := find_cases b
  · refine .inl ⟨⟨i, hi⟩, ⟨by simp [hclear], fun j hj => ?_⟩, hfind⟩
    by_contra hlt
    exact hj (mem_toSet.mpr (hbelow j (not_le.mp hlt)))
  · refine .inr ⟨Finset.eq_univ_iff_forall.mpr fun j => ?_, hfind⟩
    exact mem_toSet.mpr (hall j j.isLt)

lemma card_toSet : (b.toSet n).card = (List.range n).countP b.bit := by
  have hcard : (b.toSet n).card =
      ((List.finRange n).filter fun i : Fin n => decide (b.bit i = true)).length := rfl
  rw [hcard, ← List.countP_eq_length_filter, ← List.map_coe_finRange_eq_range, List.countP_map]
  refine List.countP_congr fun i _ => ?_
  simp

/-- **`NumClear`** counts what is not in the set. -/
theorem numClear_toSet (hb : b.numBits = n) : b.numClear = n - (b.toSet n).card := by
  have hsplit := List.length_eq_countP_add_countP b.bit (l := List.range n)
  rw [List.length_range, ← card_toSet] at hsplit
  have hclear : b.numClear = (List.range n).countP fun i => ¬ b.bit i = true := by
    rw [numClear, hb]
    exact List.countP_congr fun i _ => by simp
  omega

/-! ### The constructor -/

/-- The first `k` turns of the loop of the constructor. -/
lemma construct_upTo (memory : ℕ → BitVec 32) (k : ℕ) (hk : k ≤ n) :
    ∃ b, (List.range k).foldlM (fun b (i : ℕ) => b.clear i) (BitMap.mk n memory) = .ok b ∧
      b.numBits = n ∧ ∀ i < k, b.bit i = false := by
  induction k with
  | zero => exact ⟨_, rfl, rfl, fun i hi => absurd hi (Nat.not_lt_zero i)⟩
  | succ k ih =>
    obtain ⟨b, hb, hn, hclear⟩ := ih (by omega)
    refine ⟨b.clearBit k, ?_, hn, fun i hi => ?_⟩
    · rw [List.range_succ, List.foldlM_append, hb]
      have hstep := clear_fin hn ⟨k, by omega⟩
      simp only [List.foldlM_cons, List.foldlM_nil]
      exact congrArg (· >>= pure) hstep
    · rw [bit_clearBit]
      by_cases hik : i = k
      · simp [hik]
      · simp [hik, hclear i (by omega)]

/-- **A new bitmap stands for the empty set**, whatever the memory held. -/
theorem construct_eq (n : ℕ) (memory : ℕ → BitVec 32) :
    ∃ b, construct n memory = .ok b ∧ b.numBits = n ∧ b.toSet n = ∅ := by
  obtain ⟨b, hb, hn, hclear⟩ := construct_upTo memory n le_rfl
  refine ⟨b, hb, hn, Finset.eq_empty_of_forall_notMem fun i hi => ?_⟩
  rw [mem_toSet, hclear i i.isLt] at hi
  cases hi

end Set

end BitMap

end Nachos.Userprog
