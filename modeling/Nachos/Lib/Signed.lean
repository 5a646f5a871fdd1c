import Mathlib.Tactic.Common

/-!
# Signed and unsigned readings of one bit vector

Comparison, right shift and division each come in a signed and an unsigned form. For every pair
of operands it is said here exactly when the two forms give the same bits, and the tests on sign
bits by which overflow is found are compared with its definition on the integers.
-/

namespace Nachos.Lib

variable {w : ℕ}

/-! ### The sign bit -/

/-- A mask with the sign bit alone reads the sign bit. -/
lemma and_intMin_eq_zero (hw : 0 < w) (x : BitVec w) :
    x &&& BitVec.intMin w = 0#w ↔ x.msb = false := by
  rw [show BitVec.intMin w = BitVec.twoPow w (w - 1) from rfl, BitVec.and_twoPow,
    BitVec.msb_eq_getLsbD_last]
  have hne : BitVec.twoPow w (w - 1) ≠ 0#w := by
    intro h
    have := congrArg (fun v => v.getLsbD (w - 1)) h
    simp [BitVec.getLsbD_twoPow] at this
    omega
  cases x.getLsbD (w - 1) <;> simp [hne]

/-! ### Comparison -/

/-- Signed and unsigned comparison agree when the signs are equal, and only then. -/
lemma slt_eq_ult_iff (x y : BitVec w) : x.slt y = x.ult y ↔ x.msb = y.msb := by
  rw [BitVec.slt_eq_ult]
  cases x.msb <;> cases y.msb <;> cases x.ult y <;> decide

/-- As a signed number, `x` is positive when it is not zero and its sign bit is clear. -/
lemma zero_slt_iff (x : BitVec w) : (0#w).slt x ↔ x ≠ 0#w ∧ x.msb = false := by
  rw [BitVec.slt_eq_ult]
  have h0 : (0#w).ult x = decide (x ≠ 0#w) := by
    rw [BitVec.ult, decide_eq_decide, ← BitVec.toNat_inj.ne]
    simp [Nat.pos_iff_ne_zero]
  rw [h0]
  by_cases hx : x = 0#w
  · simp [hx]
  · cases x.msb <;> simp [hx]

/-! ### Right shift -/

/-- Arithmetic and logical right shift agree on a number that is not negative and for the shift
by zero, and only then. -/
lemma sshiftRight_eq_ushiftRight_iff (x : BitVec w) {s : ℕ} (hs : s < w) :
    x.sshiftRight s = x >>> s ↔ x.msb = false ∨ s = 0 := by
  constructor
  · intro h
    by_contra hc
    obtain ⟨hx, h0⟩ := not_or.1 hc
    have hm := congrArg BitVec.msb h
    rw [BitVec.msb_sshiftRight, BitVec.msb_ushiftRight, eq_true_of_ne_false hx] at hm
    simp [h0] at hm
  · rintro (h | rfl)
    · exact BitVec.sshiftRight_eq_of_msb_false h
    · simp

/-! ### Division -/

section Division

variable {x y : BitVec w}

/-- The quotients of the two divisions when only the dividend is negative. -/
lemma neg_udiv_ne (hx : x.msb = true) (hy : y.msb = false) (h0 : y ≠ 0#w) (h1 : y ≠ 1#w) :
    -((-x) / y) ≠ x / y := by
  rw [BitVec.msb_eq_true_iff_two_mul_ge] at hx
  rw [BitVec.msb_eq_false_iff_two_mul_lt] at hy
  rw [← BitVec.toNat_inj.ne, BitVec.toNat_ofNat, Nat.zero_mod] at h0
  have h1' : y.toNat ≠ 1 := by
    intro h
    exact h1 (BitVec.eq_of_toNat_eq (by rw [h, BitVec.toNat_ofNat, Nat.mod_eq_of_lt]; omega))
  have h2 : 2 ≤ y.toNat := by omega
  have hxlt := x.isLt
  have hq : 0 < x.toNat / y.toNat := Nat.div_pos (by omega) (by omega)
  have hq' : x.toNat / y.toNat ≤ x.toNat / 2 := Nat.div_le_div_left h2 (by omega)
  have hp : (2 ^ w - x.toNat) / y.toNat ≤ (2 ^ w - x.toNat) / 2 :=
    Nat.div_le_div_left h2 (by omega)
  intro h
  have hn := congrArg BitVec.toNat h
  rw [BitVec.toNat_neg, BitVec.toNat_udiv, BitVec.toNat_udiv, BitVec.toNat_neg,
    Nat.mod_eq_of_lt (show 2 ^ w - x.toNat < 2 ^ w by omega)] at hn
  rcases Nat.eq_zero_or_pos ((2 ^ w - x.toNat) / y.toNat) with hz | hz
  · rw [hz, Nat.sub_zero, Nat.mod_self] at hn
    omega
  · rw [Nat.mod_eq_of_lt (by omega)] at hn
    omega

/-- The quotients of the two divisions when both operands are negative. -/
lemma neg_udiv_neg_eq_iff (hx : x.msb = true) (hy : y.msb = true) :
    (-x) / (-y) = x / y ↔ x = y := by
  rw [BitVec.msb_eq_true_iff_two_mul_ge] at hx hy
  have hxlt := x.isLt
  have hylt := y.isLt
  rw [← BitVec.toNat_inj, ← BitVec.toNat_inj, BitVec.toNat_udiv, BitVec.toNat_udiv,
    BitVec.toNat_neg, BitVec.toNat_neg, Nat.mod_eq_of_lt (show 2 ^ w - x.toNat < 2 ^ w by omega),
    Nat.mod_eq_of_lt (show 2 ^ w - y.toNat < 2 ^ w by omega)]
  rcases Nat.lt_trichotomy x.toNat y.toNat with h | h | h
  · have hp : 0 < (2 ^ w - x.toNat) / (2 ^ w - y.toNat) := Nat.div_pos (by omega) (by omega)
    rw [Nat.div_eq_of_lt h]
    omega
  · simp [h, Nat.div_self (show 0 < 2 ^ w - y.toNat by omega),
      Nat.div_self (show 0 < y.toNat by omega)]
  · have hq : 0 < x.toNat / y.toNat := Nat.div_pos (by omega) (by omega)
    rw [Nat.div_eq_of_lt (show 2 ^ w - x.toNat < 2 ^ w - y.toNat by omega)]
    omega

/-- **When signed and unsigned division agree**, quotient and remainder together: both operands
are not negative, or the dividend is not and is smaller than the divisor's absolute value, or a
negative number is divided by one, or by itself. -/
theorem sdiv_srem_eq_iff (h0 : y ≠ 0#w) :
    x.sdiv y = x / y ∧ x.srem y = x % y ↔
      (x.msb = false ∧ (y.msb = false ∨ x < -y)) ∨
        (x.msb = true ∧ (y = 1#w ∧ y.msb = false ∨ x = y)) := by
  rw [BitVec.sdiv_eq, BitVec.srem_eq]
  cases hx : x.msb <;> cases hy : y.msb <;> simp only [BitVec.udiv_eq]
  · simp
  · -- the unsigned divisor is larger than the dividend
    have hlt : x.toNat < y.toNat := by
      have := BitVec.msb_eq_false_iff_two_mul_lt.1 hx
      have := BitVec.msb_eq_true_iff_two_mul_ge.1 hy
      omega
    have hq : x / y = 0#w := by
      apply BitVec.eq_of_toNat_eq
      rw [BitVec.toNat_udiv, Nat.div_eq_of_lt hlt]
      simp
    have hr : x % y = x := BitVec.eq_of_toNat_eq (by
      rw [BitVec.toNat_umod, Nat.mod_eq_of_lt hlt])
    have hy0 : 0 < (-y).toNat := by
      have hp := y.isLt
      have := BitVec.msb_eq_true_iff_two_mul_ge.1 hy
      rw [BitVec.toNat_neg, Nat.mod_eq_of_lt (by omega)]
      omega
    rw [hq, hr, BitVec.neg_eq_zero_iff, BitVec.lt_def]
    simp only [Bool.true_eq_false, Bool.false_eq_true, false_or, true_and, false_and, or_false]
    constructor
    · rintro ⟨h, -⟩
      have := congrArg BitVec.toNat h
      rw [BitVec.toNat_udiv, BitVec.toNat_ofNat, Nat.zero_mod, Nat.div_eq_zero_iff] at this
      omega
    · intro h
      refine ⟨BitVec.eq_of_toNat_eq ?_, BitVec.eq_of_toNat_eq ?_⟩
      · rw [BitVec.toNat_udiv, Nat.div_eq_of_lt h]
        simp
      · rw [BitVec.toNat_umod, Nat.mod_eq_of_lt h]
  · -- a negative dividend: only the divisor one gives the same quotient
    have hne : x ≠ y := by
      rintro rfl
      rw [hx] at hy
      cases hy
    simp only [Bool.true_eq_false, false_and, false_or, true_and, and_true, hne, or_false]
    constructor
    · rintro ⟨h, -⟩
      by_contra h1
      exact neg_udiv_ne hx hy h0 h1 h
    · rintro rfl
      constructor <;> simp
  · simp only [Bool.true_eq_false, false_and, false_or, true_and, and_false]
    rw [neg_udiv_neg_eq_iff hx hy]
    constructor
    · exact fun h => h.1
    · rintro rfl
      refine ⟨rfl, ?_⟩
      simp [BitVec.umod_self]

end Division

end Nachos.Lib
