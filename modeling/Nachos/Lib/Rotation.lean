import Mathlib.Data.Int.ModEq
import Mathlib.Order.Bounds.Basic

/-!
# The next time that something comes round

A disk of `n` slots turns by one slot in `r` ticks, and a slot starts at a multiple of `r`. From a
time on, the next start of a given slot is found in two steps: round up to the start of a slot, then
count the slots to the one wanted.
-/

namespace Nachos.Lib

variable {a c n r : ℤ}

/-- The first number from `a` on that is `c` modulo `n`. -/
def nextModEq (n c a : ℤ) : ℤ := a + (c - a) % n

lemma le_nextModEq (hn : 0 < n) : a ≤ nextModEq n c a := by
  have := Int.emod_nonneg (c - a) hn.ne'
  unfold nextModEq
  omega

lemma nextModEq_modEq : nextModEq n c a ≡ c [ZMOD n] := by
  have h : a + (c - a) % n ≡ a + (c - a) [ZMOD n] := (Int.mod_modEq _ _).add_left a
  rwa [add_sub_cancel] at h

/-- **Rounding up**, to a number of a residue class. -/
theorem isLeast_nextModEq (hn : 0 < n) :
    IsLeast {q | a ≤ q ∧ q ≡ c [ZMOD n]} (nextModEq n c a) := by
  refine ⟨⟨le_nextModEq hn, nextModEq_modEq⟩, fun q hq => ?_⟩
  obtain ⟨hle, hmod⟩ := hq
  have hrest : (c - a) % n = (q - a) % n := (hmod.symm.sub_right a)
  have hbound : 0 ≤ n * ((q - a) / n) := Int.mul_nonneg hn.le (Int.ediv_nonneg (by omega) hn.le)
  have hsplit := Int.mul_ediv_add_emod (q - a) n
  unfold nextModEq
  omega

/-- The first multiple of `r` from `a` on. -/
def roundUp (r a : ℤ) : ℤ := nextModEq r 0 a

lemma dvd_roundUp : r ∣ roundUp r a := Int.modEq_zero_iff_dvd.mp nextModEq_modEq

lemma le_roundUp (hr : 0 < r) : a ≤ roundUp r a := le_nextModEq hr

lemma roundUp_le (hr : 0 < r) {s : ℤ} (hs : a ≤ s) (hdvd : r ∣ s) : roundUp r a ≤ s :=
  (isLeast_nextModEq hr).2 ⟨hs, Int.modEq_zero_iff_dvd.mpr hdvd⟩

/-- `s` is the start of the slot `c`. -/
def StartsSlot (n r c s : ℤ) : Prop := r ∣ s ∧ s / r ≡ c [ZMOD n]

/-- The first start of the slot `c` from `a` on. -/
def nextStart (n r c a : ℤ) : ℤ := nextModEq n c (roundUp r a / r) * r

/-- In terms of the number of slots to wait. -/
lemma nextStart_eq : nextStart n r c a = roundUp r a + (c - roundUp r a / r) % n * r := by
  rw [nextStart, nextModEq, add_mul, Int.ediv_mul_cancel dvd_roundUp]

lemma startsSlot_nextStart (hr : 0 < r) : StartsSlot n r c (nextStart n r c a) := by
  refine ⟨dvd_mul_left _ _, ?_⟩
  rw [nextStart, Int.mul_ediv_cancel _ hr.ne']
  exact nextModEq_modEq

/-- **The next start of a slot.** -/
theorem isLeast_nextStart (hn : 0 < n) (hr : 0 < r) :
    IsLeast {s | a ≤ s ∧ StartsSlot n r c s} (nextStart n r c a) := by
  refine ⟨⟨?_, startsSlot_nextStart hr⟩, fun s hs => ?_⟩
  · calc a ≤ roundUp r a := le_roundUp hr
      _ = roundUp r a / r * r := (Int.ediv_mul_cancel dvd_roundUp).symm
      _ ≤ nextStart n r c a := Int.mul_le_mul_of_nonneg_right (le_nextModEq hn) hr.le
  · obtain ⟨hle, hdvd, hslot⟩ := hs
    have hfirst : roundUp r a / r ≤ s / r := Int.ediv_le_ediv hr (roundUp_le hr hle hdvd)
    calc nextStart n r c a ≤ s / r * r :=
          Int.mul_le_mul_of_nonneg_right ((isLeast_nextModEq hn).2 ⟨hfirst, hslot⟩) hr.le
      _ = s := Int.ediv_mul_cancel hdvd

/-- A slot passes between two starts exactly when there are more slots between them than slots to
wait for it. -/
theorem exists_pass_iff (hn : 0 < n) (hr : 0 < r) {b e : ℤ} (hb : r ∣ b) (he : r ∣ e) :
    (∃ s, b ≤ s ∧ StartsSlot n r c s ∧ s + r ≤ e) ↔ (c - b / r) % n < (e - b) / r := by
  obtain ⟨i, rfl⟩ := hb
  obtain ⟨j, rfl⟩ := he
  have hround : roundUp r (r * i) = r * i :=
    le_antisymm (roundUp_le hr le_rfl (dvd_mul_right _ _)) (le_roundUp hr)
  have hnext : nextStart n r c (r * i) = r * (i + (c - i) % n) := by
    rw [nextStart_eq, hround, Int.mul_ediv_cancel_left _ hr.ne', mul_comm _ r, mul_add]
  rw [Int.mul_ediv_cancel_left _ hr.ne', ← mul_sub, Int.mul_ediv_cancel_left _ hr.ne']
  constructor
  · rintro ⟨s, hle, hstart, hend⟩
    have hfirst : nextStart n r c (r * i) ≤ s := (isLeast_nextStart hn hr).2 ⟨hle, hstart⟩
    have hmul : r * (i + (c - i) % n + 1) ≤ r * j := by
      rw [mul_add, mul_one, ← hnext]
      omega
    have := Int.le_of_mul_le_mul_left hmul hr
    omega
  · intro hlt
    refine ⟨nextStart n r c (r * i), (isLeast_nextStart hn hr).1.1, startsSlot_nextStart hr, ?_⟩
    have hmul : r * (i + (c - i) % n + 1) ≤ r * j :=
      Int.mul_le_mul_of_nonneg_left (by omega) hr.le
    rwa [mul_add, mul_one, ← hnext] at hmul

end Nachos.Lib
