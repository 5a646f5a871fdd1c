import Mathlib.Tactic.Common
import Mathlib.Tactic.Ring

/-!
# Numbers kept in two words

A number of `2w` bits is held as a high and a low word, `h ++ l`. Addition with a hand-made carry,
the shift by one and the two's complement, each done word by word, are the operations on the whole
number.
-/

namespace Nachos.Lib

variable {w : ℕ} (h l h' l' : BitVec w)

lemma toNat_append_words : (h ++ l).toNat = h.toNat * 2 ^ w + l.toNat := by
  rw [BitVec.toNat_append, ← Nat.shiftLeft_add_eq_or_of_lt l.isLt, Nat.shiftLeft_eq]

/-- The number with high part `x` and low word `r`, without what the high word cannot hold. -/
lemma mod_two_words {x r : ℕ} (hr : r < 2 ^ w) :
    (x * 2 ^ w + r) % 2 ^ (w + w) = x % 2 ^ w * 2 ^ w + r := by
  have hpos : 0 < 2 ^ w := Nat.two_pow_pos w
  have hlow : (x * 2 ^ w + r) % 2 ^ w = r := by
    rw [Nat.mul_add_mod_self_right, Nat.mod_eq_of_lt hr]
  have hhigh : (x * 2 ^ w + r) / 2 ^ w = x := by
    rw [Nat.add_comm, Nat.add_mul_div_right _ _ hpos, Nat.div_eq_of_lt hr, Nat.zero_add]
  rw [Nat.pow_add, Nat.mod_mul, hlow, hhigh, Nat.add_comm, Nat.mul_comm]

/-- The sum of two low words has overflowed when it is smaller than one of them. -/
lemma add_lt_iff_carry : l + l' < l' ↔ 2 ^ w ≤ l.toNat + l'.toNat := by
  have hl := l.isLt
  have hl' := l'.isLt
  rw [BitVec.lt_def, BitVec.toNat_add]
  by_cases hc : 2 ^ w ≤ l.toNat + l'.toNat
  · rw [Nat.mod_eq_sub_mod hc, Nat.mod_eq_of_lt (by omega)]
    omega
  · rw [Nat.mod_eq_of_lt (by omega)]
    omega

/-- **Addition with the carry.** -/
theorem append_add_carry :
    ((if l + l' < l' then h + 1 else h) + h') ++ (l + l') = (h ++ l) + (h' ++ l') := by
  have hl := l.isLt
  have hl' := l'.isLt
  apply BitVec.eq_of_toNat_eq
  rw [BitVec.toNat_add (h ++ l), toNat_append_words, toNat_append_words, toNat_append_words]
  by_cases hc : 2 ^ w ≤ l.toNat + l'.toNat
  · have hlow : (l + l').toNat = l.toNat + l'.toNat - 2 ^ w := by
      rw [BitVec.toNat_add, Nat.mod_eq_sub_mod hc, Nat.mod_eq_of_lt (by omega)]
    have hsum : h.toNat * 2 ^ w + l.toNat + (h'.toNat * 2 ^ w + l'.toNat) =
        (h.toNat + 1 + h'.toNat) * 2 ^ w + (l.toNat + l'.toNat - 2 ^ w) := by
      have hexp : (h.toNat + 1 + h'.toNat) * 2 ^ w =
          h.toNat * 2 ^ w + 2 ^ w + h'.toNat * 2 ^ w := by ring
      omega
    have hhigh : (h + 1 + h').toNat = (h.toNat + 1 + h'.toNat) % 2 ^ w := by
      simp only [BitVec.toNat_add, BitVec.ofNat_eq_ofNat, BitVec.toNat_ofNat, Nat.add_mod_mod,
        Nat.mod_add_mod]
    rw [if_pos ((add_lt_iff_carry l l').2 hc), hlow, hsum, mod_two_words (by omega), hhigh]
  · have hlow : (l + l').toNat = l.toNat + l'.toNat := by
      rw [BitVec.toNat_add, Nat.mod_eq_of_lt (by omega)]
    have hsum : h.toNat * 2 ^ w + l.toNat + (h'.toNat * 2 ^ w + l'.toNat) =
        (h.toNat + h'.toNat) * 2 ^ w + (l.toNat + l'.toNat) := by ring
    rw [if_neg (mt (add_lt_iff_carry l l').1 hc), hlow, hsum, mod_two_words (by omega),
      BitVec.toNat_add]

/-- **The shift by one**: the top bit of the low word goes into the high word. -/
theorem append_shift_one :
    (if l.msb then h <<< 1 ||| 1 else h <<< 1) ++ (l <<< 1) = (h ++ l) + (h ++ l) := by
  have hdouble : ∀ x : BitVec w, x <<< 1 = x + x := by
    intro x
    apply BitVec.eq_of_toNat_eq
    rw [BitVec.toNat_shiftLeft, BitVec.toNat_add, Nat.shiftLeft_eq, pow_one, mul_two]
  have hbit : h <<< 1 ||| 1 = h + 1 + h := by
    have hdisjoint : h <<< 1 &&& 1 = 0#w := by
      refine BitVec.eq_of_getLsbD_eq fun i hi => ?_
      cases i <;> simp
    rw [← BitVec.add_eq_or_of_and_eq_zero _ _ hdisjoint, hdouble, BitVec.add_assoc, BitVec.add_assoc,
      BitVec.add_comm h 1]
  have hmsb : l.msb = true ↔ l + l < l := by
    rw [BitVec.msb_eq_true_iff_two_mul_ge, add_lt_iff_carry, Nat.two_mul]
  rw [← append_add_carry, hbit, hdouble h, hdouble l]
  simp only [hmsb]
  split <;> rfl

/-- **The two's complement.** -/
theorem append_neg (hw : 0 < w) :
    (if ~~~l + 1 = 0 then ~~~h + 1 else ~~~h) ++ (~~~l + 1) = -(h ++ l) := by
  have hone : (0#w ++ 1#w) = 1#(w + w) := by
    apply BitVec.eq_of_toNat_eq
    rw [toNat_append_words]
    simp [Nat.one_mod_two_pow hw, Nat.one_mod_two_pow (Nat.add_pos_left hw w)]
  have hwrap : ~~~l + 1 < 1 ↔ ~~~l + 1 = 0 := by
    rw [BitVec.lt_def, ← BitVec.toNat_inj]
    simp [Nat.one_mod_two_pow hw]
  rw [BitVec.neg_eq_not_add, BitVec.not_append, ← hone, ← append_add_carry]
  simp only [BitVec.add_zero]
  exact congrArg (· ++ _) (if_congr hwrap.symm rfl rfl)

end Nachos.Lib
