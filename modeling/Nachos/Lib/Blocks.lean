import Mathlib.Data.List.Basic
import Mathlib.Logic.Function.Basic
import Mathlib.Tactic.Common

/-!
# An array that lies in blocks

A store holds blocks of `B` cells under addresses of any type; an array lies in the blocks that a
map from indices to addresses gives. `gather` reads a range of blocks into a buffer and `scatter`
writes one back, block by block. On the array, the one is a read of a range of cells and the other a
write of it, as long as no two indices share a block.
-/

namespace Nachos.Lib

section Cells

variable {α : Type} {m m' dst src : ℕ → α} {a a' n p q i : ℕ}

/-- `dst`, with `n` cells of `src` copied to `a`. -/
def copyAt (dst : ℕ → α) (a n : ℕ) (src : ℕ → α) : ℕ → α := fun i =>
  if a ≤ i ∧ i < a + n then src (i - a) else dst i

/-- The cells `a`, …, `a + n - 1`. -/
def slice (m : ℕ → α) (a n : ℕ) : List α := (List.range n).map fun i => m (a + i)

lemma copyAt_of_mem (h : a ≤ i) (h' : i < a + n) : copyAt dst a n src i = src (i - a) :=
  if_pos ⟨h, h'⟩

lemma copyAt_of_lt (h : i < a) : copyAt dst a n src i = dst i := if_neg (by omega)

lemma copyAt_of_le (h : a + n ≤ i) : copyAt dst a n src i = dst i := if_neg (by omega)

@[simp] lemma length_slice : (slice m a n).length = n := by simp [slice]

@[simp] lemma slice_zero : slice m a 0 = [] := rfl

lemma slice_succ : slice m a (n + 1) = m a :: slice m (a + 1) n := by
  unfold slice
  rw [List.range_succ_eq_map, List.map_cons, List.map_map, Nat.add_zero]
  refine congrArg (m a :: ·) (List.map_congr_left fun i _ => ?_)
  exact congrArg m (by rw [Nat.succ_eq_add_one]; omega)

lemma getElem?_slice : (slice m a n)[i]? = if i < n then some (m (a + i)) else none := by
  unfold slice
  rw [List.getElem?_map]
  by_cases h : i < n
  · rw [List.getElem?_range h, if_pos h]
    rfl
  · rw [List.getElem?_eq_none (by simpa using h), if_neg h]
    rfl

lemma getD_slice (h : i < n) (d : α) : (slice m a n).getD i d = m (a + i) := by
  rw [List.getD_eq_getElem?_getD, getElem?_slice, if_pos h]
  rfl

/-- Ranges with the same cells are one list. -/
lemma slice_congr (h : ∀ i < n, m (a + i) = m' (a' + i)) : slice m a n = slice m' a' n := by
  unfold slice
  refine List.map_congr_left fun i hi => ?_
  exact h i (List.mem_range.mp hi)

lemma slice_inj (h : slice m a n = slice m' a' n) (hi : i < n) : m (a + i) = m' (a' + i) := by
  have hget := congrArg (·[i]?) h
  simp only [getElem?_slice, if_pos hi] at hget
  exact Option.some.inj hget

/-- A range of a range. -/
lemma take_drop_slice : ((slice m a n).drop p).take q = slice m (a + p) (min q (n - p)) := by
  refine List.ext_getElem? fun i => ?_
  rw [List.getElem?_take, List.getElem?_drop, getElem?_slice, getElem?_slice, Nat.add_assoc]
  by_cases hi : i < q
  · have hlt : p + i < n ↔ i < min q (n - p) := by omega
    rw [if_pos hi]
    simp only [hlt]
  · rw [if_neg hi, if_neg (by omega)]

end Cells

section Blocks

variable {α ι : Type} {B : ℕ} {store : ι → ℕ → α} {block : ℕ → ι} {buf : ℕ → α}
  {first n i j k N : ℕ}

/-- The array that lies in the blocks `block 0`, `block 1`, … of the store. -/
def flat (B : ℕ) (store : ι → ℕ → α) (block : ℕ → ι) : ℕ → α := fun k =>
  store (block (k / B)) (k % B)

/-- The blocks from the index `first + i` on are read to the cell `i * B` of the buffer and on. -/
def gather (B : ℕ) (store : ι → ℕ → α) (block : ℕ → ι) (first : ℕ) : ℕ → ℕ → (ℕ → α) → ℕ → α
  | 0, _, buf => buf
  | n + 1, i, buf => gather B store block first n (i + 1)
      (copyAt buf (i * B) B (store (block (first + i))))

/-- The blocks from the index `first + i` on are written from the cell `i * B` of the buffer. -/
def scatter [DecidableEq ι] (B : ℕ) (block : ℕ → ι) (first : ℕ) (buf : ℕ → α) :
    ℕ → ℕ → (ι → ℕ → α) → ι → ℕ → α
  | 0, _, store => store
  | n + 1, i, store => scatter B block first buf n (i + 1)
      (Function.update store (block (first + i))
        (copyAt (store (block (first + i))) 0 B fun j => buf (i * B + j)))

/-- Arrays in blocks that hold the same are one. -/
lemma flat_congr {store' : ι → ℕ → α} (h : store' (block (k / B)) = store (block (k / B))) :
    flat B store' block k = flat B store block k := congrFun h _

/-- **What is read is a range of the array.** -/
theorem gather_apply (hB : 0 < B) : gather B store block first n i buf j =
    if i * B ≤ j ∧ j < (i + n) * B then flat B store block (first * B + j) else buf j := by
  induction n generalizing i buf with
  | zero => exact (if_neg (by rw [Nat.add_zero]; omega)).symm
  | succ n ih =>
    have hi : (i + 1) * B = i * B + B := Nat.succ_mul i B
    have hn : (i + 1 + n) * B = (i + (n + 1)) * B := by rw [Nat.add_right_comm, Nat.add_assoc]
    have hle : (i + 1) * B ≤ (i + (n + 1)) * B := Nat.mul_le_mul_right B (by omega)
    rw [gather, ih, hi, hn]
    by_cases hfirst : i * B ≤ j ∧ j < i * B + B
    · -- the first block
      have hflat : flat B store block (first * B + j) = store (block (first + i)) (j - i * B) := by
        have hj : first * B + j = (j - i * B) + B * (first + i) := by
          have hmul : B * (first + i) = first * B + i * B := by
            rw [Nat.mul_add, Nat.mul_comm B first, Nat.mul_comm B i]
          omega
        have hlt : j - i * B < B := by omega
        have hdiv : (first * B + j) / B = first + i := by
          rw [hj, Nat.add_mul_div_left _ _ hB, Nat.div_eq_of_lt hlt, Nat.zero_add]
        have hmod : (first * B + j) % B = j - i * B := by
          rw [hj, Nat.add_mul_mod_self_left, Nat.mod_eq_of_lt hlt]
        rw [flat, hdiv, hmod]
      rw [if_neg (by omega), if_pos (by omega), copyAt_of_mem hfirst.1 hfirst.2, hflat]
    · by_cases hrest : i * B + B ≤ j ∧ j < (i + (n + 1)) * B
      · rw [if_pos hrest, if_pos (by omega)]
      · rw [if_neg hrest, if_neg (by omega), copyAt, if_neg hfirst]

variable [DecidableEq ι]

/-- The other blocks stay. -/
theorem scatter_of_ne {x : ι} (h : ∀ l, i ≤ l → l < i + n → block (first + l) ≠ x) :
    scatter B block first buf n i store x = store x := by
  induction n generalizing i store with
  | zero => rfl
  | succ n ih =>
    rw [scatter, ih fun l hl hlt => h l (by omega) (by omega)]
    exact Function.update_of_ne (h i (Nat.le_refl i) (by omega)).symm ..

/-- **What is written is a range of the array.** -/
theorem flat_scatter (hB : 0 < B)
    (hinj : ∀ {a b}, a < N → b < N → block a = block b → a = b) (hN : first + i + n ≤ N)
    (hk : k / B < N) : flat B (scatter B block first buf n i store) block k =
      if first + i ≤ k / B ∧ k / B < first + i + n then buf (k - first * B)
      else flat B store block k := by
  induction n generalizing i store with
  | zero => exact (if_neg (by omega)).symm
  | succ n ih =>
    rw [scatter, ih (by omega)]
    by_cases hfirst : k / B = first + i
    · -- the first block
      have hdm : B * (first + i) + k % B = k := hfirst ▸ Nat.div_add_mod k B
      have hmul : B * (first + i) = first * B + i * B := by
        rw [Nat.mul_add, Nat.mul_comm B first, Nat.mul_comm B i]
      have hlt : k % B < B := Nat.mod_lt k hB
      have hk' : i * B + k % B = k - first * B := by omega
      rw [if_neg (by omega), if_pos (by omega), flat, hfirst, Function.update_self,
        copyAt_of_mem (Nat.zero_le _) (by omega), Nat.sub_zero, hk']
    · have hflat : flat B (Function.update store (block (first + i))
          (copyAt (store (block (first + i))) 0 B fun j => buf (i * B + j))) block k =
          flat B store block k := by
        refine flat_congr (Function.update_of_ne ?_ ..)
        exact fun h => hfirst (hinj hk (by omega) h)
      rw [hflat]
      by_cases hrest : first + (i + 1) ≤ k / B ∧ k / B < first + (i + 1) + n
      · rw [if_pos hrest, if_pos (by omega)]
      · rw [if_neg hrest, if_neg (by omega)]

end Blocks

end Nachos.Lib
