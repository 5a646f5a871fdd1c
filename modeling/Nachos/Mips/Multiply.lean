import Mathlib.Algebra.Order.Ring.Abs
import Nachos.Lib.DoubleWord
import Nachos.Lib.Signed
import Nachos.Mips.Memory
import Nachos.Mips.Step

/-!
# Multiplication

`Mult` adds up shifted copies of `b`, one for each bit of `a`, in two words with a carry made by
hand. What is left of `a` after `32 - n` iterations matters modulo `2 ^ n` only: the sign that
the arithmetic shift brings in is never looked at.
-/

namespace Nachos.Mips

namespace MultState

variable (s : MultState)

/-- The partial sum. -/
def sum : BitVec (32 + 32) := s.hi ++ s.lo

/-- The shifted `b`. -/
def addend : BitVec (32 + 32) := s.bHi ++ s.bLo

@[simp] lemma addShifted_sum : s.addShifted.sum = s.sum + s.addend :=
  Lib.append_add_carry s.hi s.lo s.bHi s.bLo

@[simp] lemma addShifted_addend : s.addShifted.addend = s.addend := rfl
@[simp] lemma addShifted_a : s.addShifted.a = s.a := rfl

@[simp] lemma shift_sum : s.shift.sum = s.sum := rfl
@[simp] lemma shift_a : s.shift.a = s.a.sshiftRight 1 := rfl

@[simp] lemma shift_addend : s.shift.addend = s.addend + s.addend := by
  have hmsb : s.bLo &&& 0x80000000 ≠ 0 ↔ s.bLo.msb = true := by
    rw [← Bool.not_eq_false, not_iff_not]
    exact Lib.and_intMin_eq_zero (by decide) s.bLo
  have hbHi : s.shift.bHi = if s.bLo.msb then s.bHi <<< 1 ||| 1 else s.bHi <<< 1 :=
    if_congr hmsb rfl rfl
  have hbLo : s.shift.bLo = s.bLo <<< 1 := rfl
  rw [addend, addend, hbHi, hbLo, Lib.append_shift_one]

end MultState

/-! ### The bits of `a` -/

section Bits

variable (a : Word)

/-- The bit that an iteration looks at. -/
lemma and_one_ne_zero : a &&& 1 ≠ 0 ↔ a.toNat % 2 = 1 := by
  rw [Ne, and_one]
  omega

/-- The test of the early exit. -/
lemma toNat_eq_one (hodd : a.toNat % 2 = 1) (h : a &&& 0xfffffffe = 0) : a.toNat = 1 := by
  have hmask : (0xfffffffe ||| 1 : Word) = BitVec.allOnes 32 := by decide
  have ha : a &&& 1 = a := by
    calc a &&& 1 = (a &&& 0xfffffffe) ||| (a &&& 1) := by rw [h]; exact BitVec.zero_or.symm
      _ = a &&& (0xfffffffe ||| 1) := (BitVec.and_or_distrib_left ..).symm
      _ = a := by rw [hmask, BitVec.and_allOnes]
  have hlow : (a &&& 1).toNat = a.toNat % 2 := by
    rw [BitVec.toNat_and]
    exact Nat.and_two_pow_sub_one_eq_mod a.toNat 1
  rw [← ha, hlow, hodd]

/-- The shift brings down the bits above the one looked at. -/
lemma toNat_mod_two_pow_succ {n : ℕ} (hn : n + 1 ≤ 32) :
    a.toNat % 2 ^ (n + 1) = a.toNat % 2 + 2 * ((a.sshiftRight 1).toNat % 2 ^ n) := by
  have hshift : (a.sshiftRight 1).toNat % 2 ^ n = a.toNat / 2 % 2 ^ n := by
    have ha := a.isLt
    rw [BitVec.toNat_sshiftRight]
    split
    · -- the sign is above the bits that are left
      have hsign : 2 ^ 32 - 1 - (2 ^ 32 - 1 - a.toNat) >>> 1 = a.toNat / 2 + 2 ^ 31 := by
        rw [Nat.shiftRight_eq_div_pow]
        omega
      obtain ⟨k, hk⟩ : 2 ^ n ∣ 2 ^ 31 := Nat.pow_dvd_pow 2 (by omega)
      rw [hsign, hk, Nat.add_mul_mod_self_left]
    · rw [Nat.shiftRight_eq_div_pow, pow_one]
  rw [Nat.pow_succ', Nat.mod_mul, hshift]

end Bits

/-! ### The loop -/

/-- **The loop adds the product** of what is left of `a` and the shifted `b`. -/
theorem MultState.loop_sum {n : ℕ} (hn : n ≤ 32) (s : MultState) :
    (loop n s).sum = s.sum + s.addend * BitVec.ofNat 64 (s.a.toNat % 2 ^ n) := by
  induction n generalizing s with
  | zero => simp [loop, Nat.mod_one]
  | succ n ih =>
    have hbits := toNat_mod_two_pow_succ s.a hn
    have hrest : ∀ t : MultState, t.addend = s.addend → t.a = s.a →
        (loop n t.shift).sum =
          t.sum + s.addend * BitVec.ofNat 64 (2 * ((s.a.sshiftRight 1).toNat % 2 ^ n)) := by
      intro t hb ha
      rw [ih (by omega), shift_sum, shift_addend, shift_a, hb, ha, Nat.two_mul, BitVec.ofNat_add,
        BitVec.mul_add, BitVec.add_mul]
    rw [loop]
    by_cases hodd : s.a.toNat % 2 = 1
    · rw [if_pos ((and_one_ne_zero _).2 hodd)]
      by_cases hlast : s.a &&& 0xfffffffe = 0
      · -- the early exit: `a` is one
        rw [if_pos hlast, toNat_eq_one _ hodd hlast, addShifted_sum,
          Nat.mod_eq_of_lt (Nat.one_lt_two_pow (Nat.succ_ne_zero n)), BitVec.mul_one]
      · rw [if_neg hlast, hrest s.addShifted rfl rfl, hbits, hodd, addShifted_sum, BitVec.ofNat_add,
          BitVec.mul_add, BitVec.mul_one, BitVec.add_assoc]
    · have heven : s.a.toNat % 2 = 0 := by omega
      rw [if_neg (mt (and_one_ne_zero _).1 hodd), hrest s rfl rfl, hbits, heven, Nat.zero_add]

/-- The sum after the loop, for the words that `Mult` starts it with. -/
lemma MultState.loop_sum_start (a b : Word) :
    (loop 32 ⟨a, b, 0, 0, 0⟩).sum = BitVec.ofNat 64 (a.toNat * b.toNat) := by
  have hsum : (⟨a, b, 0, 0, 0⟩ : MultState).sum = 0#64 :=
    show (0 : Word) ++ (0 : Word) = 0#64 by decide
  have haddend : (⟨a, b, 0, 0, 0⟩ : MultState).addend = BitVec.ofNat 64 b.toNat := by
    apply BitVec.eq_of_toNat_eq
    have hb := b.isLt
    rw [addend, Lib.toNat_append_words, BitVec.toNat_ofNat, Nat.mod_eq_of_lt (by omega)]
    exact (Nat.zero_mul _).symm ▸ Nat.zero_add _
  rw [loop_sum (Nat.le_refl _), hsum, haddend, Nat.mod_eq_of_lt a.isLt, BitVec.zero_add,
    ← BitVec.ofNat_mul, Nat.mul_comm]

/-! ### The product -/

/-- The two words that `Mult` leaves, as one number of 64 bits. -/
def product (a b : Word) (signedArith : Bool) : BitVec 64 :=
  (mult a b signedArith).1 ++ (mult a b signedArith).2

/-- The absolute value of `a` as `Mult` makes it. The most negative number stays as it is, and as
an unsigned number it is right. -/
lemma toNat_magnitude (a : Word) : (if a.msb then -a else a).toNat = a.toInt.natAbs := by
  have ha := a.isLt
  rw [BitVec.toInt_eq_msb_cond]
  cases hm : a.msb with
  | false => simp
  | true =>
    rw [BitVec.msb_eq_true_iff_two_mul_ge] at hm
    simp only [if_true, BitVec.toNat_neg]
    omega

/-- `Mult` for operands that are not zero: the sign of the product and the sum of the loop. -/
lemma product_of_ne (a b : Word) (signedArith : Bool) (ha : a ≠ 0) (hb : b ≠ 0) :
    product a b signedArith =
      let s := BitVec.ofNat 64 ((if signedArith && a.msb then -a else a).toNat *
        (if signedArith && b.msb then -b else b).toNat)
      if signedArith && (a.msb != b.msb) then -s else s := by
  have hne : ¬ (a = 0 ∨ b = 0) := not_or.2 ⟨ha, hb⟩
  rw [← MultState.loop_sum_start, product, mult, if_neg hne]
  cases signedArith && (a.msb != b.msb)
  · rfl
  · exact Lib.append_neg _ _ (by decide)

/-- `Mult` without signs. -/
lemma product_unsigned (a b : Word) : product a b false = BitVec.ofNat 64 (a.toNat * b.toNat) := by
  by_cases h : a = 0 ∨ b = 0
  · rw [product, mult, if_pos h]
    obtain rfl | rfl := h <;> simp
  · obtain ⟨ha, hb⟩ := not_or.1 h
    exact product_of_ne a b false ha hb

/-- `Mult` with signs: the sum of the loop is the product of the absolute values. -/
lemma product_signed (a b : Word) : product a b true = BitVec.ofInt 64 (a.toInt * b.toInt) := by
  by_cases h : a = 0 ∨ b = 0
  · rw [product, mult, if_pos h]
    obtain rfl | rfl := h <;> simp
  · obtain ⟨ha, hb⟩ := not_or.1 h
    have hsign : ∀ c : Word, (c.msb = true ∧ c.toInt = -(c.toInt.natAbs : ℤ)) ∨
        (c.msb = false ∧ c.toInt = c.toInt.natAbs) := by
      intro c
      have hc := c.isLt
      cases hm : c.msb
      · have hnonneg := BitVec.toInt_nonneg_of_msb_false hm
        exact .inr ⟨rfl, by omega⟩
      · have hneg := BitVec.toInt_neg_of_msb_true hm
        exact .inl ⟨rfl, by omega⟩
    rw [product_of_ne a b true ha hb]
    simp only [Bool.true_and, toNat_magnitude]
    rw [← BitVec.ofInt_natCast, ← BitVec.ofInt_neg, Nat.cast_mul]
    obtain ⟨hma, hia⟩ | ⟨hma, hia⟩ := hsign a <;> obtain ⟨hmb, hib⟩ | ⟨hmb, hib⟩ := hsign b
    all_goals
      rw [hma, hmb, hia, hib]
      simp

/-- **Multiplication**: the two words are the product of the operands read as signed integers, and
with `signedArith` false that of the operands read as unsigned ones. -/
theorem product_eq (a b : Word) :
    (product a b true).toInt = a.toInt * b.toInt ∧
    (product a b false).toNat = a.toNat * b.toNat := by
  constructor
  · have hbound : ∀ c : Word, |c.toInt| ≤ 2147483648 := by
      intro c
      have hle := BitVec.le_toInt c
      have hlt := BitVec.toInt_lt (x := c)
      rw [abs_le]
      norm_num at hle hlt
      omega
    have habs : |a.toInt * b.toInt| ≤ 2147483648 * 2147483648 := by
      rw [abs_mul]
      exact mul_le_mul (hbound a) (hbound b) (abs_nonneg _) (by decide)
    have hprod := abs_le.1 habs
    rw [product_signed, BitVec.toInt_ofInt, Int.bmod_eq_of_le]
    all_goals
      norm_num
      omega
  · have hlt : a.toNat * b.toNat < 2 ^ 32 * 2 ^ 32 := Nat.mul_lt_mul'' a.isLt b.isLt
    rw [product_unsigned, BitVec.toNat_ofNat]
    exact Nat.mod_eq_of_lt hlt

/-- The instructions `mult` and `multu` leave the product of their registers in `HiReg` and
`LoReg`. -/
theorem execute_mult (m : Machine) (i : Instruction) (signedArith : Bool)
    (hop : i.opCode = if signedArith then .opMult else .opMultu) :
    ∃ o, execute m i = .ok o ∧
      (Machine.finish o).registers.hi ++ (Machine.finish o).registers.lo =
        product (m.registers.gpr i.rs) (m.registers.gpr i.rt) signedArith := by
  refine ⟨m.done { m.registers with
    hi := (mult (m.registers.gpr i.rs) (m.registers.gpr i.rt) signedArith).1
    lo := (mult (m.registers.gpr i.rs) (m.registers.gpr i.rt) signedArith).2 }, ?_, rfl⟩
  cases signedArith <;> simp only [execute, hop] <;> rfl

end Nachos.Mips
