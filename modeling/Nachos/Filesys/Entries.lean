import Nachos.Filesys.Allocation
import Nachos.Filesys.FileSystem

/-!
# What a directory holds

An entry that is in use stands for a name, of which the first characters count, and a sector. The
operations on the bytes of the table are a lookup by name and updates of one entry.
-/

namespace Nachos.Filesys

open Lib Threads Userprog Mips

/-! ### Names -/

/-- The characters of a name that count: the first `n` from `i` on, up to its end. -/
def keyFrom (name : Memory) (n i : ℕ) : List Byte := (slice name i n).takeWhile (· != 0)

/-- The first `FileNameMaxLen` characters. -/
def key (name : Memory) : List Byte := keyFrom name fileNameMaxLen 0

section Names

variable {a b m m' : Memory} {n i : ℕ}

lemma keyFrom_zero : keyFrom m 0 i = [] := rfl

lemma keyFrom_succ : keyFrom m (n + 1) i = if m i = 0 then [] else m i :: keyFrom m n (i + 1) := by
  rw [keyFrom, slice_succ, List.takeWhile_cons]
  by_cases h : m i = 0
  · rw [if_pos h, h]
    rfl
  · rw [if_neg h, if_pos (by simpa using h)]
    rfl

lemma keyFrom_congr (h : ∀ j < n, m (i + j) = m' (i + j)) : keyFrom m n i = keyFrom m' n i :=
  congrArg (List.takeWhile _) (slice_congr h)

/-- **What `strncmp` compares.** -/
theorem sameName_iff : sameName a b n i = true ↔ keyFrom a n i = keyFrom b n i := by
  induction n generalizing i with
  | zero => simp [sameName, keyFrom_zero]
  | succ n ih =>
    rw [sameName, keyFrom_succ, keyFrom_succ, Bool.and_eq_true, beq_iff_eq, Bool.or_eq_true,
      beq_iff_eq, ih]
    by_cases ha : a i = 0
    · by_cases hb : b i = 0
      · rw [if_pos ha, if_pos hb]
        exact iff_of_true ⟨ha.trans hb.symm, .inl ha⟩ rfl
      · rw [if_pos ha, if_neg hb]
        exact iff_of_false (fun h => hb (h.1.symm.trans ha)) (List.cons_ne_nil _ _).symm
    · by_cases hb : b i = 0
      · rw [if_neg ha, if_pos hb]
        exact iff_of_false (fun h => ha (h.1.trans hb)) (List.cons_ne_nil _ _)
      · rw [if_neg ha, if_neg hb, List.cons.injEq, or_iff_right ha]

/-- As far as it counts, a name is copied. -/
lemma keyFrom_strncpy (h : ∀ j < i, m j ≠ 0) : keyFrom (strncpy m) n i = keyFrom m n i := by
  induction n generalizing i with
  | zero => rfl
  | succ n ih =>
    have hany : (List.range (i + 1)).any (m · == 0) = (m i == 0) := by
      rw [List.range_succ, List.any_append]
      have hnone : (List.range i).any (m · == 0) = false := by
        rw [List.any_eq_false]
        exact fun j hj => by simpa using h j (List.mem_range.mp hj)
      rw [hnone, Bool.false_or]
      simp
    have hi : strncpy m i = m i := by
      rw [strncpy, hany]
      split
      next hz => exact (eq_of_beq hz).symm
      next => rfl
    rw [keyFrom_succ, keyFrom_succ, hi]
    split
    next => rfl
    next hz =>
      rw [ih fun j hj => ?_]
      rcases Nat.lt_succ_iff_lt_or_eq.mp hj with hj | rfl
      · exact h j hj
      · exact hz

lemma key_strncpy : key (strncpy m) = key m := keyFrom_strncpy fun _ h => absurd h (Nat.not_lt_zero _)

end Names

/-! ### Entries -/

namespace Directory

variable (d : Directory)

/-- The entry, when it is in use: the characters of the name and the sector. -/
def entry (i : ℕ) : Option (List Byte × ℤ) :=
  if i < numDirEntries ∧ d.inUse i = true then some (key (d.name i), d.sector i) else none

/-- The number of entries that are not in use. -/
def numFree : ℕ := (List.range numDirEntries).countP fun i => (d.entry i).isNone

variable {d} {d' : Directory} {name : Memory} {i j n : ℕ} {k : List Byte} {s : ℤ}

lemma lt_of_entry (h : d.entry i = some (k, s)) : i < numDirEntries := by
  by_contra hi
  rw [entry, if_neg fun hu => hi hu.1] at h
  cases h

/-- An entry depends on its bytes. -/
lemma entry_congr (h : ∀ l < entrySize, d'.table (entrySize * i + l) = d.table (entrySize * i + l)) :
    d'.entry i = d.entry i := by
  have huse : d'.inUse i = d.inUse i := by
    rw [inUse, inUse]
    exact congrArg (· != 0) (h 0 (by decide))
  have hname : key (d'.name i) = key (d.name i) := by
    refine keyFrom_congr fun l hl => ?_
    rw [name, name, Nat.zero_add, Nat.add_assoc]
    exact h (8 + l) (by simp only [entrySize, fileNameMaxLen] at hl ⊢; omega)
  have hsector : d'.sector i = d.sector i := by
    rw [sector, sector, Machine.readLong, Machine.readLong]
    have hb : ∀ l < 4, d'.table (entrySize * i + 4 + l) = d.table (entrySize * i + 4 + l) := by
      intro l hl
      rw [Nat.add_assoc]
      exact h (4 + l) (by simp only [entrySize]; omega)
    rw [hb 1 (by decide), hb 2 (by decide), hb 3 (by decide)]
    exact congrArg (fun x => (_ ++ x : Word).toInt) (hb 0 (by decide))
  rw [entry, entry, huse, hname, hsector]

/-- The tables hold the same entries. -/
lemma entry_eq (h : ∀ l < size, d'.table l = d.table l) : d'.entry = d.entry := by
  funext i
  by_cases hi : i < numDirEntries
  · refine entry_congr fun l hl => h _ ?_
    simp only [size, numDirEntries, entrySize] at *
    omega
  · rw [entry, entry, if_neg fun hu => hi hu.1, if_neg fun hu => hi hu.1]

/-! ### `Find` -/

lemma entry_eq_some (hi : i < numDirEntries) (hu : d.inUse i = true) :
    d.entry i = some (key (d.name i), d.sector i) := if_pos ⟨hi, hu⟩

lemma inUse_of_entry (h : d.entry i = some (k, s)) :
    d.inUse i = true ∧ key (d.name i) = k ∧ d.sector i = s := by
  rw [entry] at h
  split at h
  next hu =>
    cases h
    exact ⟨hu.2, rfl, rfl⟩
  next => cases h

lemma findFrom_eq_some (h : d.findFrom name n i = some j) :
    j < i + n ∧ d.inUse j = true ∧ key (d.name j) = key name := by
  induction n generalizing i with
  | zero => cases h
  | succ n ih =>
    rw [findFrom] at h
    split at h
    next hfound =>
      cases h
      rw [Bool.and_eq_true] at hfound
      exact ⟨by omega, hfound.1, sameName_iff.mp hfound.2⟩
    next =>
      obtain ⟨hj, h⟩ := ih h
      exact ⟨by omega, h⟩

lemma findFrom_eq_none (h : d.findFrom name n i = none) (hi : i ≤ j) (hj : j < i + n)
    (hu : d.inUse j = true) : key (d.name j) ≠ key name := by
  induction n generalizing i with
  | zero => omega
  | succ n ih =>
    rw [findFrom] at h
    split at h
    next => cases h
    next hfound =>
      rcases Nat.eq_or_lt_of_le hi with rfl | hlt
      · intro hkey
        exact hfound (Bool.and_eq_true _ _ ▸ ⟨hu, sameName_iff.mpr hkey⟩)
      · exact ih h hlt (by omega)

/-- **What `Find` returns**: the sector of the entry with this name, or `-1` when there is none. -/
theorem find_cases (d : Directory) (name : Memory) :
    (∃ i s, d.entry i = some (key name, s) ∧ d.findIndex name = some i ∧ d.find name = s) ∨
      ((∀ i s, d.entry i ≠ some (key name, s)) ∧ d.findIndex name = none ∧ d.find name = -1) := by
  rw [find]
  cases h : d.findIndex name with
  | some i =>
    obtain ⟨hi, hu, hkey⟩ := findFrom_eq_some h
    rw [Nat.zero_add] at hi
    exact .inl ⟨i, d.sector i, hkey ▸ entry_eq_some hi hu, rfl, rfl⟩
  | none =>
    refine .inr ⟨fun i s he => ?_, rfl, rfl⟩
    obtain ⟨hu, hkey, -⟩ := inUse_of_entry he
    have hi : i < 0 + numDirEntries := by
      rw [Nat.zero_add]
      exact lt_of_entry he
    exact findFrom_eq_none h (Nat.zero_le i) hi hu hkey

/-! ### `Add` and `Remove` -/

lemma freeFrom_eq_some (h : d.freeFrom n i = some j) : j < i + n ∧ d.inUse j = false := by
  induction n generalizing i with
  | zero => cases h
  | succ n ih =>
    rw [freeFrom] at h
    split at h
    next =>
      obtain ⟨hj, h⟩ := ih h
      exact ⟨by omega, h⟩
    next hu =>
      cases h
      exact ⟨by omega, eq_false_of_ne_true hu⟩

lemma freeFrom_eq_none (h : d.freeFrom n i = none) (hi : i ≤ j) (hj : j < i + n) :
    d.inUse j = true := by
  induction n generalizing i with
  | zero => omega
  | succ n ih =>
    rw [freeFrom] at h
    split at h
    next hu =>
      rcases Nat.eq_or_lt_of_le hi with rfl | hlt
      · exact hu
      · exact ih h hlt (by omega)
    next => cases h

/-- Another entry is at other bytes. -/
lemma entry_of_ne (hne : j ≠ i)
    (h : ∀ l, ¬ (entrySize * i ≤ l ∧ l < entrySize * i + entrySize) → d'.table l = d.table l) :
    d'.entry j = d.entry j := by
  refine entry_congr fun l hl => h _ ?_
  simp only [entrySize] at *
  omega

lemma entry_eq_none (hu : d.inUse i = false) : d.entry i = none :=
  if_neg fun h => by rw [hu] at h; exact absurd h.2 (by decide)

lemma entry_setInUse_false : (d.setInUse i false).entry = Function.update d.entry i none := by
  funext j
  by_cases hj : j = i
  · subst hj
    rw [Function.update_self]
    refine entry_eq_none ?_
    simp [inUse, setInUse]
  · rw [Function.update_of_ne hj]
    refine entry_of_ne hj fun l hl => ?_
    refine Function.update_of_ne (fun h => hl ?_) ..
    simp only [h, entrySize]
    omega

/-- The bytes of the entry that `Add` fills. -/
def filled (table name : Memory) (i : ℕ) (s : ℤ) : Memory :=
  Machine.storeBytes
    (copyAt (Function.update table (entrySize * i) 1) (entrySize * i + 8) fileNameMaxLen
      (strncpy name)) (entrySize * i + 4) 4 (BitVec.ofInt 32 s)

lemma filled_of_notMem {table : Memory} {l : ℕ}
    (hl : ¬ (entrySize * i ≤ l ∧ l < entrySize * i + entrySize)) :
    filled table name i s l = table l := by
  simp only [entrySize] at hl
  rw [filled, storeBytes_of_notMem (by simp only [entrySize]; omega), copyAt, if_neg, Function.update_of_ne]
  · simp only [entrySize]
    omega
  · simp only [entrySize, fileNameMaxLen]
    omega

/-- The entry that `Add` fills. -/
lemma entry_fill (hi : i < numDirEntries) (hs : -2 ^ 31 ≤ s) (hs' : s < 2 ^ 31) :
    (((d.setInUse i true).setName i name).setSector i s).entry =
      Function.update d.entry i (some (key name, s)) := by
  have htable : (((d.setInUse i true).setName i name).setSector i s).table =
      filled d.table name i s := rfl
  generalize ((d.setInUse i true).setName i name).setSector i s = d' at htable
  funext j
  by_cases hj : j = i
  · subst hj
    have huse : d'.inUse j = true := by
      rw [inUse, htable, filled, storeBytes_of_notMem (by omega), copyAt_of_lt (by omega),
        Function.update_self]
      rfl
    have hkey : key (d'.name j) = key name := by
      rw [← key_strncpy (m := name)]
      refine keyFrom_congr fun l hl => ?_
      rw [Nat.zero_add, Directory.name, htable, filled, storeBytes_of_notMem (by omega),
        copyAt_of_mem (by omega) (by omega)]
      congr 1
      omega
    have hsector : d'.sector j = s := by
      have hload : Machine.readLong (filled d.table name j s) (entrySize * j + 4) =
          BitVec.ofInt 32 s := load_storeBytes (.inr (.inr rfl))
      rw [sector, htable, hload]
      exact FileHeader.toInt_ofInt hs hs'
    rw [Function.update_self, entry_eq_some hi huse, hkey, hsector]
  · rw [Function.update_of_ne hj]
    refine entry_of_ne hj fun l hl => ?_
    rw [htable, filled_of_notMem hl]

/-- **What `Add` does**, when the name is not in use. -/
theorem add_cases (hnone : d.findIndex name = none) (hs : -2 ^ 31 ≤ s) (hs' : s < 2 ^ 31) :
    (∃ i < numDirEntries, d.entry i = none ∧ ∃ d', d.add name s = (true, d') ∧
        d'.entry = Function.update d.entry i (some (key name, s))) ∨
      (d.numFree = 0 ∧ d.add name s = (false, d)) := by
  rw [add, hnone]
  cases h : d.freeFrom numDirEntries 0 with
  | some i =>
    obtain ⟨hi, hu⟩ := freeFrom_eq_some h
    rw [Nat.zero_add] at hi
    exact .inl ⟨i, hi, entry_eq_none hu, _, rfl, entry_fill hi hs hs'⟩
  | none =>
    refine .inr ⟨?_, rfl⟩
    rw [numFree, List.countP_eq_zero]
    intro i hi
    rw [List.mem_range] at hi
    rw [entry_eq_some hi (freeFrom_eq_none h (Nat.zero_le i) (by omega))]
    exact Bool.false_ne_true

/-- **What `Remove` does.** -/
theorem remove_eq (h : d.findIndex name = some i) :
    ∃ d', d.remove name = (true, d') ∧ d'.entry = Function.update d.entry i none := by
  rw [remove, h]
  exact ⟨_, rfl, entry_setInUse_false⟩

/-! ### The number of free entries -/

lemma numFree_congr (h : d'.entry = d.entry) : d'.numFree = d.numFree := by
  rw [numFree, numFree, h]

/-- One free entry less when one is filled, one more when it is emptied. -/
lemma numFree_update (hi : i < numDirEntries) {e e' : ℕ → Option (List Byte × ℤ)}
    (hd : d.entry = e) (hd' : d'.entry = e') (hnone : e i = none) (hsome : (e' i).isSome = true)
    (h : ∀ j, j ≠ i → e' j = e j) : d'.numFree + 1 = d.numFree := by
  have hc := countP_range_of_ne (p := fun j => (e j).isNone) (q := fun j => (e' j).isNone) (i := i)
    (by simp [hnone]) (by simpa using hsome) (fun j hj => by rw [h j hj]) numDirEntries
  rw [if_pos hi] at hc
  rw [numFree, numFree, hd, hd']
  exact hc

end Directory

end Nachos.Filesys
