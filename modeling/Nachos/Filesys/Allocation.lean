import Nachos.Filesys.Transfer

/-!
# Space for a file

`Allocate` takes clear sectors of the free map and no others, `Deallocate` gives them back, and a
header that is written to a sector is read from it again.
-/

namespace Nachos.Filesys

open Lib Threads Userprog Mips

namespace FileHeader

lemma toInt_ofInt {x : ℤ} (h : -2 ^ 31 ≤ x) (h' : x < 2 ^ 31) : (BitVec.ofInt 32 x).toInt = x := by
  rw [BitVec.toInt_ofInt, Int.bmod_eq_of_le] <;> omega

lemma divRoundUp_eq (n : ℕ) : divRoundUp n sectorSize = ((sectorsFor n : ℕ) : ℤ) := by
  have hmod : (n : ℤ).tmod sectorSize = ((n % sectorSize : ℕ) : ℤ) := by
    rw [Int.tmod_eq_emod_of_nonneg (by omega), Int.natCast_emod]
  rw [divRoundUp, tdiv_eq (by omega), hmod, Int.toNat_natCast, sectorsFor]
  simp only [sectorSize]
  split <;> omega

/-! ### `Allocate` -/

/-- The entries `i`, …, `i + n - 1` of the header have been filled, with sectors that were clear. -/
structure Filled (hdr : FileHeader) (b : BitMap) (i n : ℕ) (hdr' : FileHeader) (b' : BitMap) :
    Prop where
  numBytes : hdr'.numBytes = hdr.numBytes
  numSectors : hdr'.numSectors = hdr.numSectors
  others : ∀ j < i, hdr'.dataSectors j = hdr.dataSectors j
  dataSectors : ∀ j, i ≤ j → j < i + n → (hdr'.dataSectors j).toInt = hdr'.block j
  block_lt : ∀ j, i ≤ j → j < i + n → hdr'.block j < b.numBits
  clear : ∀ j, i ≤ j → j < i + n → b.bit (hdr'.block j) = false
  block_inj : ∀ {j k}, i ≤ j → j < i + n → i ≤ k → k < i + n →
    hdr'.block j = hdr'.block k → j = k
  numBits : b'.numBits = b.numBits
  bit_iff : ∀ x, b'.bit x = true ↔ b.bit x = true ∨ ∃ j, i ≤ j ∧ j < i + n ∧ hdr'.block j = x
  numClear : b'.numClear + n = b.numClear

/-- **`Find`, `n` times.** -/
theorem allocateSectors_eq (hdr : FileHeader) {b : BitMap} {i n : ℕ} (hb : b.numBits = Filesys.numSectors)
    (hn : n ≤ b.numClear) (hi : i + n ≤ numDirect) :
    ∃ hdr' b', allocateSectors n i hdr b = .ok (hdr', b') ∧ Filled hdr b i n hdr' b' := by
  induction n generalizing i hdr b with
  | zero =>
    refine ⟨hdr, b, rfl, rfl, rfl, fun _ _ => rfl, ?_, ?_, ?_, ?_, rfl, ?_, rfl⟩
    · exact fun j _ _ => by omega
    · exact fun j _ _ => by omega
    · exact fun j _ _ => by omega
    · exact fun _ _ _ _ => by omega
    · exact fun x => ⟨.inl, fun h => h.resolve_right fun ⟨j, _, _, _⟩ => by omega⟩
  | succ n ih =>
    rcases BitMap.find_cases b with ⟨x, hx, hclear, -, hfind⟩ | ⟨hall, -⟩
    · have hnum := BitMap.numClear_setBit hx hclear
      obtain ⟨hdr', b', heq, hf⟩ := ih (i := i + 1) (b := b.setBit x)
        { hdr with dataSectors := Function.update hdr.dataSectors i (BitVec.ofInt 32 x) }
        hb (by omega) (by omega)
      have hi' : hdr'.dataSectors i = BitVec.ofInt 32 x :=
        (hf.others i (by omega)).trans (Function.update_self ..)
      have hint : (hdr'.dataSectors i).toInt = x := by
        rw [hi', toInt_ofInt (by omega) (by rw [hb, Filesys.numSectors] at hx; omega)]
      have hblock : hdr'.block i = x := by rw [block, hint, Int.toNat_natCast]
      have hrest : ∀ j, i + 1 ≤ j → j < i + 1 + n →
          b.bit (hdr'.block j) = false ∧ hdr'.block j ≠ x := by
        intro j hj hj'
        have hset := hf.clear j hj hj'
        rw [BitMap.bit_setBit, Bool.or_eq_false_iff, decide_eq_false_iff_not] at hset
        exact ⟨hset.2, hset.1⟩
      refine ⟨hdr', b', ?_, hf.numBytes, hf.numSectors, fun j hj => ?_, fun j hj hj' => ?_,
        fun j hj hj' => ?_, fun j hj hj' => ?_, fun {j k} hj hj' hk hk' h => ?_, hf.numBits,
        fun y => ?_, ?_⟩
      · rw [allocateSectors, if_pos (by omega), hfind]
        exact heq
      · exact (hf.others j (by omega)).trans (Function.update_of_ne (by omega) ..)
      · rcases Nat.eq_or_lt_of_le hj with rfl | hj
        · rw [hint, hblock]
        · exact hf.dataSectors j hj (by omega)
      · rcases Nat.eq_or_lt_of_le hj with rfl | hj
        · rwa [hblock]
        · exact hf.block_lt j hj (by omega)
      · rcases Nat.eq_or_lt_of_le hj with rfl | hj
        · rwa [hblock]
        · exact (hrest j hj (by omega)).1
      · rcases Nat.eq_or_lt_of_le hj with rfl | hj
        · rcases Nat.eq_or_lt_of_le hk with rfl | hk
          · rfl
          · exact absurd (h.symm.trans hblock) (hrest k hk (by omega)).2
        · rcases Nat.eq_or_lt_of_le hk with rfl | hk
          · exact absurd (h.trans hblock) (hrest j hj (by omega)).2
          · exact hf.block_inj hj (by omega) hk (by omega) h
      · rw [hf.bit_iff, BitMap.bit_setBit, Bool.or_eq_true, decide_eq_true_eq]
        constructor
        · rintro ((rfl | h) | ⟨j, hj, hj', h⟩)
          · exact .inr ⟨i, Nat.le_refl i, by omega, hblock⟩
          · exact .inl h
          · exact .inr ⟨j, by omega, by omega, h⟩
        · rintro (h | ⟨j, hj, hj', h⟩)
          · exact .inl (.inr h)
          · rcases Nat.eq_or_lt_of_le hj with rfl | hj
            · exact .inl (.inl (h.symm.trans hblock))
            · exact .inr ⟨j, hj, by omega, h⟩
      · have := hf.numClear
        omega
    · rw [BitMap.numClear_eq_zero_iff.mpr hall] at hn
      omega

/-- The header has been given sectors that were clear, for a file of `n` bytes. -/
structure Took (b : BitMap) (n : ℕ) (hdr : FileHeader) (b' : BitMap) : Prop where
  valid : hdr.Valid
  size_eq : hdr.size = n
  clear : ∀ x ∈ hdr.sectors, b.bit x = false
  numBits : b'.numBits = b.numBits
  bit_iff : ∀ x, b'.bit x = true ↔ b.bit x = true ∨ x ∈ hdr.sectors
  numClear : b'.numClear + sectorsFor n = b.numClear

/-- **What `Allocate` does.** -/
theorem allocate_eq (hdr : FileHeader) {b : BitMap} {n : ℕ} (hb : b.numBits = Filesys.numSectors)
    (hn : n ≤ maxFileSize) :
    (b.numClear < sectorsFor n ∧ ∃ hdr', hdr.allocate b n = .ok (false, hdr', b)) ∨
      (sectorsFor n ≤ b.numClear ∧
        ∃ hdr' b', hdr.allocate b n = .ok (true, hdr', b') ∧ Took b n hdr' b') := by
  rw [allocate, divRoundUp_eq, Int.toNat_natCast]
  by_cases hroom : b.numClear < sectorsFor n
  · exact .inl ⟨hroom, _, if_pos (by omega)⟩
  · have hn' : n ≤ 3840 := hn
    have hcount : sectorsFor n ≤ numDirect := by
      simp only [sectorsFor, sectorSize, numDirect]
      omega
    have hsize : (BitVec.ofInt 32 (n : ℤ)).toInt = n := toInt_ofInt (by omega) (by omega)
    have hsectors : (BitVec.ofInt 32 (sectorsFor n : ℤ)).toInt = sectorsFor n := by
      simp only [numDirect] at hcount
      exact toInt_ofInt (by omega) (by omega)
    obtain ⟨hdr', b', heq, hf⟩ := allocateSectors_eq (i := 0)
      { hdr with numBytes := BitVec.ofInt 32 n, numSectors := BitVec.ofInt 32 (sectorsFor n) }
      hb (Nat.le_of_not_lt hroom) (by omega)
    have hsize' : hdr'.size = n := by
      rw [FileHeader.size, hf.numBytes, hsize, Int.toNat_natCast]
    have hcount' : hdr'.count = sectorsFor n := by
      rw [FileHeader.count, hf.numSectors, hsectors, Int.toNat_natCast]
    have hmem : ∀ x, x ∈ hdr'.sectors ↔ ∃ j, 0 ≤ j ∧ j < 0 + sectorsFor n ∧ hdr'.block j = x := by
      intro x
      rw [mem_sectors, hcount']
      simp
    refine .inr ⟨Nat.le_of_not_lt hroom, hdr', b', ?_, ?_, hsize', ?_, hf.numBits, ?_, hf.numClear⟩
    · rw [if_neg (by omega), heq]
      rfl
    · refine ⟨?_, ?_, ?_, ?_, ?_, ?_, ?_⟩
      · rw [hf.numBytes, hsize, hsize']
      · rw [hf.numSectors, hsectors, hcount']
      · rwa [hsize']
      · rw [hcount', hsize']
      · exact fun j hj => hf.dataSectors j (Nat.zero_le j) (by omega)
      · exact fun j hj => hb ▸ hf.block_lt j (Nat.zero_le j) (by omega)
      · exact fun hi hj => hf.block_inj (Nat.zero_le _) (by omega) (Nat.zero_le _) (by omega)
    · intro x hx
      obtain ⟨j, hj, hj', rfl⟩ := (hmem x).mp hx
      exact hf.clear j hj hj'
    · exact fun x => (hf.bit_iff x).trans (or_congr_right (hmem x).symm)

/-! ### `Deallocate` -/

/-- Sectors have been given back. -/
structure GaveBack (b : BitMap) (freed : List ℕ) (b' : BitMap) : Prop where
  numBits : b'.numBits = b.numBits
  bit_iff : ∀ x, b'.bit x = true ↔ b.bit x = true ∧ x ∉ freed
  numClear : b'.numClear = b.numClear + freed.length

/-- `Clear` gives a sector back. -/
lemma clear_gaveBack {b : BitMap} {x : ℕ} (hx : x < b.numBits) (hset : b.bit x = true) :
    b.clear x = .ok (b.clearBit x) ∧ GaveBack b [x] (b.clearBit x) := by
  refine ⟨if_pos ⟨by omega, by omega⟩, rfl, fun y => ?_, BitMap.numClear_clearBit hx hset⟩
  rw [BitMap.bit_clearBit]
  simp [and_comm]

lemma GaveBack.trans {b b' b'' : BitMap} {l l' : List ℕ} (h : GaveBack b l b')
    (h' : GaveBack b' l' b'') : GaveBack b (l ++ l') b'' := by
  refine ⟨h'.numBits.trans h.numBits, fun x => ?_, ?_⟩
  · rw [h'.bit_iff, h.bit_iff, List.mem_append, not_or, and_assoc]
  · rw [h'.numClear, h.numClear, List.length_append, Nat.add_assoc]

/-- The sectors from the index `i` on. -/
lemma deallocateSectors_eq {hdr : FileHeader} {b : BitMap} {i n : ℕ} (hv : hdr.Valid)
    (hb : b.numBits = Filesys.numSectors) (hi : i + n ≤ hdr.count)
    (hset : ∀ j, i ≤ j → j < i + n → b.bit (hdr.block j) = true) :
    ∃ b', hdr.deallocateSectors n i b = .ok b' ∧
      GaveBack b ((List.range' i n).map hdr.block) b' := by
  induction n generalizing i b with
  | zero => exact ⟨b, rfl, rfl, fun x => by simp, rfl⟩
  | succ n ih =>
    have hx : hdr.block i < b.numBits := hb ▸ hv.block_lt i (by omega)
    obtain ⟨hclear, hgave⟩ := clear_gaveBack hx (hset i (Nat.le_refl i) (by omega))
    have htest : b.test (hdr.block i) = .ok true := by
      rw [BitMap.test, if_pos ⟨by omega, by omega⟩, Int.toNat_natCast,
        hset i (Nat.le_refl i) (by omega)]
    obtain ⟨b', heq, hgave'⟩ := ih (i := i + 1) (b := b.clearBit (hdr.block i)) hb (by omega)
      fun j hj hj' => by
        have hne : hdr.block j ≠ hdr.block i := fun h =>
          absurd (hv.block_inj (by omega) (by omega) h) (by omega)
        exact (hgave.bit_iff _).mpr ⟨hset j (by omega) (by omega), by simpa using hne⟩
    refine ⟨b', ?_, hgave.trans hgave'⟩
    rw [deallocateSectors, hv.covers.dataSector_eq (by omega), ok_bind, htest, ok_bind, if_pos rfl,
      hclear, ok_bind, heq]

/-- **What `Deallocate` does.** -/
theorem deallocate_eq {hdr : FileHeader} {b : BitMap} (hv : hdr.Valid)
    (hb : b.numBits = Filesys.numSectors) (hset : ∀ x ∈ hdr.sectors, b.bit x = true) :
    ∃ b', hdr.deallocate b = .ok b' ∧ GaveBack b hdr.sectors b' := by
  obtain ⟨b', heq, hgave⟩ := deallocateSectors_eq (i := 0) (n := hdr.count) hv hb (by omega)
    fun j _ hj => hset _ (block_mem (by omega))
  rw [← List.range_eq_range'] at hgave
  exact ⟨b', heq, hgave⟩

/-! ### Headers on the disk -/

/-- Two headers that a sector cannot tell apart. -/
structure Same (hdr hdr' : FileHeader) : Prop where
  numBytes : hdr'.numBytes = hdr.numBytes
  numSectors : hdr'.numSectors = hdr.numSectors
  dataSectors : ∀ i < numDirect, hdr'.dataSectors i = hdr.dataSectors i

namespace Same

variable {hdr hdr' : FileHeader} {i : ℕ} (h : Same hdr hdr')
include h

lemma size_eq : hdr'.size = hdr.size := by rw [size, size, h.numBytes]

lemma count_eq : hdr'.count = hdr.count := by rw [count, count, h.numSectors]

lemma block_eq (hi : i < numDirect) : hdr'.block i = hdr.block i := by
  rw [block, block, h.dataSectors i hi]

lemma sectors_eq (hv : hdr.Valid) : hdr'.sectors = hdr.sectors := by
  rw [sectors, sectors, h.count_eq]
  refine List.map_congr_left fun i hi => ?_
  exact h.block_eq (Nat.lt_of_lt_of_le (List.mem_range.mp hi) hv.count_le)

lemma valid (hv : hdr.Valid) : hdr'.Valid := by
  have hle : ∀ {i}, i < hdr'.count → i < hdr.count ∧ i < numDirect := by
    intro i hi
    rw [h.count_eq] at hi
    exact ⟨hi, Nat.lt_of_lt_of_le hi hv.count_le⟩
  refine ⟨?_, ?_, ?_, ?_, fun i hi => ?_, fun i hi => ?_, fun {i j} hi hj heq => ?_⟩
  · rw [h.numBytes, h.size_eq, hv.numBytes]
  · rw [h.numSectors, h.count_eq, hv.numSectors]
  · rw [h.size_eq]
    exact hv.size_le
  · rw [h.count_eq, h.size_eq, hv.count_eq]
  · rw [h.dataSectors i (hle hi).2, h.block_eq (hle hi).2, hv.dataSectors i (hle hi).1]
  · rw [h.block_eq (hle hi).2]
    exact hv.block_lt i (hle hi).1
  · rw [h.block_eq (hle hi).2, h.block_eq (hle hj).2] at heq
    exact hv.block_inj (hle hi).1 (hle hj).1 heq

end Same

/-- A header that has been written to a sector. -/
lemma same_ofMemory (hdr : FileHeader) (m : Memory) :
    Same hdr (ofMemory (copyAt m 0 sectorSize (bytesOf hdr.word))) := by
  refine ⟨wordsOf_copyAt (by decide), wordsOf_copyAt (by decide), fun i hi => ?_⟩
  refine wordsOf_copyAt (i := i + 2) ?_
  simp only [sectorSize, numDirect] at hi ⊢
  omega

end FileHeader

end Nachos.Filesys
