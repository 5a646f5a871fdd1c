import Mathlib.Data.List.Range
import Mathlib.Data.List.Count
import Mathlib.Data.BitVec
import Nachos.Lib.Regions
import Nachos.Threads.Kernel

/-!
# Bitmaps

`class BitMap`: an array of words, each of `bitsInWord` bits. A bitmap stands for the set of the
numbers below `numBits` whose bit is set.
-/

namespace Nachos.Userprog

open Lib Threads

def bitsInWord : ℕ := 32

/-- `class BitMap`. -/
structure BitMap where
  numBits : ℕ
  map : ℕ → BitVec 32

namespace BitMap

/-- `BitMap::BitMap`, on memory that holds zeros; `construct` is for any. -/
def new (nitems : ℕ) : BitMap := ⟨nitems, fun _ => 0⟩

variable (b : BitMap)

/-- The word that has one bit. -/
def mask (which : ℕ) : BitVec 32 := 1#32 <<< (which % bitsInWord)

/-- `BitMap::Test`, after the assertion. -/
def bit (which : ℕ) : Bool := b.map (which / bitsInWord) &&& mask which ≠ 0

/-- `BitMap::Mark`, after the assertion. -/
def setBit (which : ℕ) : BitMap where
  numBits := b.numBits
  map := Function.update b.map (which / bitsInWord) (b.map (which / bitsInWord) ||| mask which)

/-- `BitMap::Clear`, after the assertion. -/
def clearBit (which : ℕ) : BitMap where
  numBits := b.numBits
  map := Function.update b.map (which / bitsInWord) (b.map (which / bitsInWord) &&& ~~~ mask which)

/-- `BitMap::Test`. -/
def test (which : ℤ) : Except Fault Bool :=
  if 0 ≤ which ∧ which < b.numBits then .ok (b.bit which.toNat) else .error .assertion

/-- `BitMap::Mark`. -/
def mark (which : ℤ) : Except Fault BitMap :=
  if 0 ≤ which ∧ which < b.numBits then .ok (b.setBit which.toNat) else .error .assertion

/-- `BitMap::Clear`. -/
def clear (which : ℤ) : Except Fault BitMap :=
  if 0 ≤ which ∧ which < b.numBits then .ok (b.clearBit which.toNat) else .error .assertion

/-- The loop of `BitMap::Find`: the first clear bit of `n` from `i`. -/
def findFrom (i : ℕ) : ℕ → Option ℕ
  | 0 => none
  | n + 1 => if b.bit i then findFrom (i + 1) n else some i

/-- `BitMap::Find`. -/
def find : ℤ × BitMap :=
  match b.findFrom 0 b.numBits with
  | some i => (i, b.setBit i)
  | none => (-1, b)

/-- `BitMap::NumClear`. -/
def numClear : ℕ := (List.range b.numBits).countP fun i => !b.bit i

/-! ### Bits -/

section Bits

variable {b} {i j : ℕ}

lemma bit_eq_getLsbD : b.bit i = (b.map (i / bitsInWord)).getLsbD (i % bitsInWord) := by
  have hi : i % bitsInWord < 32 := Nat.mod_lt _ (by decide)
  unfold bit mask
  rw [← BitVec.twoPow_eq, BitVec.and_twoPow]
  cases (b.map (i / bitsInWord)).getLsbD (i % bitsInWord)
  · simp
  · have hne : BitVec.twoPow 32 (i % bitsInWord) ≠ 0#32 := by
      intro h
      have := congrArg (fun x => x.getLsbD (i % bitsInWord)) h
      simp [hi] at this
    simp [hne]

/-- A bit depends on its word. -/
lemma bit_congr {b' : BitMap} (h : b'.map (i / bitsInWord) = b.map (i / bitsInWord)) :
    b'.bit i = b.bit i := by
  rw [bit, bit, h]

/-- Two numbers with one word and one bit of it are one. -/
lemma eq_of_word_bit (hw : i / bitsInWord = j / bitsInWord) (hb : i % bitsInWord = j % bitsInWord) :
    i = j := by
  rw [← Nat.div_add_mod i bitsInWord, ← Nat.div_add_mod j bitsInWord, hw, hb]

lemma getLsbD_mask {k : ℕ} (hk : k < 32) : (mask i).getLsbD k = decide (k = i % bitsInWord) := by
  unfold mask
  rw [← BitVec.twoPow_eq, BitVec.getLsbD_twoPow]
  by_cases h : k = i % bitsInWord
  · simp [← h, hk]
  · simp [h, Ne.symm h]

/-- `Mark` sets one bit. -/
lemma bit_setBit : (b.setBit i).bit j = (decide (j = i) || b.bit j) := by
  have hj : j % bitsInWord < 32 := Nat.mod_lt _ (by decide)
  rw [bit_eq_getLsbD, bit_eq_getLsbD]
  by_cases hw : j / bitsInWord = i / bitsInWord
  · have hiff : j % bitsInWord = i % bitsInWord ↔ j = i :=
      ⟨eq_of_word_bit hw, fun h => by rw [h]⟩
    simp only [setBit, hw, Function.update_self, BitVec.getLsbD_or, getLsbD_mask hj, hiff]
    exact Bool.or_comm _ _
  · have hne : j ≠ i := fun h => hw (by rw [h])
    simp [setBit, Function.update_of_ne hw, hne]

/-- `Clear` clears one bit. -/
lemma bit_clearBit : (b.clearBit i).bit j = (!decide (j = i) && b.bit j) := by
  have hj : j % bitsInWord < 32 := Nat.mod_lt _ (by decide)
  rw [bit_eq_getLsbD, bit_eq_getLsbD]
  by_cases hw : j / bitsInWord = i / bitsInWord
  · have hiff : j % bitsInWord = i % bitsInWord ↔ j = i :=
      ⟨eq_of_word_bit hw, fun h => by rw [h]⟩
    simp only [clearBit, hw, Function.update_self, BitVec.getLsbD_and, BitVec.getLsbD_not,
      getLsbD_mask hj, hiff, hj, decide_true, Bool.true_and]
    exact Bool.and_comm _ _
  · have hne : j ≠ i := fun h => hw (by rw [h])
    simp [clearBit, Function.update_of_ne hw, hne]

@[simp] lemma numBits_setBit : (b.setBit i).numBits = b.numBits := rfl
@[simp] lemma numBits_clearBit : (b.clearBit i).numBits = b.numBits := rfl
@[simp] lemma numBits_new {n : ℕ} : (new n).numBits = n := rfl

@[simp] lemma bit_new {n : ℕ} : (new n).bit i = false := by
  simp [bit_eq_getLsbD, new]

end Bits

/-! ### `Find` and `NumClear` -/

section Find

variable {b} {i n : ℕ}

lemma findFrom_eq_some {k : ℕ} (h : b.findFrom i n = some k) :
    i ≤ k ∧ k < i + n ∧ b.bit k = false ∧ ∀ j, i ≤ j → j < k → b.bit j = true := by
  induction n generalizing i with
  | zero => cases h
  | succ n ih =>
    rw [findFrom] at h
    split at h
    next hb =>
      obtain ⟨hle, hlt, hk, hbelow⟩ := ih h
      refine ⟨by omega, by omega, hk, fun j hj hjk => ?_⟩
      by_cases hji : j = i
      · rw [hji, hb]
      · exact hbelow j (by omega) hjk
    next hb =>
      cases h
      exact ⟨by omega, by omega, eq_false_of_ne_true hb, fun j hj hjk => by omega⟩

lemma findFrom_eq_none (h : b.findFrom i n = none) {j : ℕ} (hj : i ≤ j) (hjn : j < i + n) :
    b.bit j = true := by
  induction n generalizing i with
  | zero => omega
  | succ n ih =>
    rw [findFrom] at h
    split at h
    next hb =>
      by_cases hji : j = i
      · rw [hji, hb]
      · exact ih h (by omega) (by omega)
    next => cases h

/-- **What `Find` returns**: the first clear bit, which it sets, or `-1` when all bits are set. -/
theorem find_cases (b : BitMap) :
    (∃ i < b.numBits, b.bit i = false ∧ (∀ j < i, b.bit j = true) ∧ b.find = (↑i, b.setBit i)) ∨
      ((∀ i < b.numBits, b.bit i = true) ∧ b.find = (-1, b)) := by
  unfold find
  cases h : b.findFrom 0 b.numBits with
  | some i =>
    obtain ⟨-, hlt, hb, hbelow⟩ := findFrom_eq_some h
    exact .inl ⟨i, by omega, hb, fun j hj => hbelow j (Nat.zero_le j) hj, rfl⟩
  | none => exact .inr ⟨fun i hi => findFrom_eq_none h (Nat.zero_le i) (by omega), rfl⟩

@[simp] lemma numBits_find : b.find.2.numBits = b.numBits := by
  rcases find_cases b with ⟨i, -, -, -, he⟩ | ⟨-, he⟩
  · rw [he, numBits_setBit]
  · rw [he]

/-- A clear bit less when one is set. -/
lemma numClear_setBit (hi : i < b.numBits) (hb : b.bit i = false) :
    (b.setBit i).numClear + 1 = b.numClear := by
  have h := countP_range_of_ne (p := fun j => !b.bit j) (q := fun j => !(b.setBit i).bit j) (i := i)
    (by simp [hb]) (by simp [bit_setBit]) (fun j hj => by simp [bit_setBit, hj]) b.numBits
  rwa [if_pos hi] at h

lemma numClear_congr {b' : BitMap} (hn : b'.numBits = b.numBits)
    (h : ∀ i < b.numBits, b'.bit i = b.bit i) : b'.numClear = b.numClear := by
  unfold numClear
  rw [hn]
  refine List.countP_congr fun i hi => ?_
  rw [h i (List.mem_range.mp hi)]

/-- A clear bit more when one is cleared. -/
lemma numClear_clearBit (hi : i < b.numBits) (hb : b.bit i = true) :
    (b.clearBit i).numClear = b.numClear + 1 := by
  have hclear : (b.clearBit i).bit i = false := by simp [bit_clearBit]
  have hset : ((b.clearBit i).setBit i).numClear = b.numClear := by
    refine numClear_congr rfl fun j _ => ?_
    rw [bit_setBit, bit_clearBit]
    by_cases hj : j = i
    · simp [hj, hb]
    · simp [hj]
  rw [← hset]
  exact (numClear_setBit (b := b.clearBit i) hi hclear).symm

lemma numClear_eq_zero_iff : b.numClear = 0 ↔ ∀ i < b.numBits, b.bit i = true := by
  simp [numClear, List.countP_eq_zero]

end Find

end BitMap

end Nachos.Userprog
