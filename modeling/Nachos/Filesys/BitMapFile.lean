import Nachos.Filesys.Layout
import Nachos.Userprog.BitSet

/-!
# Bitmaps that are kept in a file

Bitmaps of one size and a file to which they are written and from which they are fetched. Whatever
operations are made on them in whatever order, they behave as sets of numbers, and the file as one
set more, if it has room for the words of a bitmap.
-/

namespace Nachos.Filesys

open Lib Threads Userprog Mips

/-! ### The operations -/

/-- An operation on the bitmap `k`. -/
inductive BitOp where
  | mark (k : ℕ) (which : ℤ)
  | clear (k : ℕ) (which : ℤ)
  | test (k : ℕ) (which : ℤ)
  | find (k : ℕ)
  | numClear (k : ℕ)
  | writeBack (k : ℕ)
  | fetchFrom (k : ℕ)
  deriving DecidableEq

/-- What an operation returns. -/
inductive BitAnswer where
  | unit
  | bool (b : Bool)
  | int (x : ℤ)
  deriving DecidableEq

/-- The bitmaps and the disk that the file is on. -/
structure BitMaps where
  maps : ℕ → BitMap
  disk : Disk

def BitMaps.setMap (s : BitMaps) (k : ℕ) (b : BitMap) : BitMaps :=
  { s with maps := Function.update s.maps k b }

/-- One operation. What `new char` gives to `ReadAt` and `WriteAt` is chosen with it. -/
def bitStep (file : OpenFile) : BitOp × (ℕ → Memory) → BitMaps →
    Except Fault (List (BitOp × BitAnswer) × BitMaps)
  | (.mark k which, _), s => do
    let b ← (s.maps k).mark which
    return ([(.mark k which, .unit)], s.setMap k b)
  | (.clear k which, _), s => do
    let b ← (s.maps k).clear which
    return ([(.clear k which, .unit)], s.setMap k b)
  | (.test k which, _), s => do
    let r ← (s.maps k).test which
    return ([(.test k which, .bool r)], s)
  | (.find k, _), s =>
    let (i, b) := (s.maps k).find
    .ok ([(.find k, .int i)], s.setMap k b)
  | (.numClear k, _), s => .ok ([(.numClear k, .int (s.maps k).numClear)], s)
  | (.writeBack k, fresh), s => do
    let disk ← writeMap (s.maps k) s.disk fresh file
    return ([(.writeBack k, .unit)], { s with disk })
  | (.fetchFrom k, fresh), s => do
    let b ← fetchMap (s.maps k) s.disk (fresh 0) file
    return ([(.fetchFrom k, .unit)], s.setMap k b)

/-! ### Sets -/

/-- Sets of numbers below `n`, and one that is kept in a file. -/
structure Sets (n : ℕ) where
  set : ℕ → Finset (Fin n)
  file : Finset (Fin n)

namespace Sets

variable {n : ℕ} (s : Sets n)

def setSet (k : ℕ) (t : Finset (Fin n)) : Sets n := { s with set := Function.update s.set k t }

/-- **What a bitmap is for**: the operations on sets, with their answers. -/
inductive Step : Sets n → List (BitOp × BitAnswer) → Sets n → Prop
  | mark (s k) (i : Fin n) :
      Step s [(.mark k (i : ℕ), .unit)] (s.setSet k (insert i (s.set k)))
  | clear (s k) (i : Fin n) :
      Step s [(.clear k (i : ℕ), .unit)] (s.setSet k ((s.set k).erase i))
  | test (s k) (i : Fin n) : Step s [(.test k (i : ℕ), .bool (decide (i ∈ s.set k)))] s
  | find (s k) (i : Fin n) (least : IsLeast {i | i ∉ s.set k} i) :
      Step s [(.find k, .int (i : ℕ))] (s.setSet k (insert i (s.set k)))
  | findFull (s k) (full : s.set k = Finset.univ) : Step s [(.find k, .int (-1))] s
  | numClear (s k) : Step s [(.numClear k, .int ((n - (s.set k).card : ℕ) : ℤ))] s
  | writeBack (s k) : Step s [(.writeBack k, .unit)] { s with file := s.set k }
  | fetchFrom (s k) : Step s [(.fetchFrom k, .unit)] (s.setSet k s.file)

end Sets

/-! ### Words in a file -/

/-- Is the operation one on the file? -/
def BitOp.usesFile : BitOp → Bool
  | .writeBack _ => true
  | .fetchFrom _ => true
  | _ => false

/-- The number of the operation, if it has one, is one of a bit. -/
def BitOp.InRange (n : ℕ) : BitOp → Prop
  | .mark _ which => 0 ≤ which ∧ which < n
  | .clear _ which => 0 ≤ which ∧ which < n
  | .test _ which => 0 ≤ which ∧ which < n
  | _ => True

/-- The file has room for the words of a bitmap of `n` bits. -/
structure HasRoom (file : OpenFile) (n : ℕ) : Prop where
  covers : file.hdr.Covers
  room : (n + (bitsInWord - 1)) / bitsInWord * 4 ≤ file.hdr.size

/-- **The file is large enough**, if the step uses it. -/
def Filed (file : OpenFile) (n : ℕ) (_ : BitMaps) (es : List (BitOp × BitAnswer)) (_ : BitMaps) :
    Prop :=
  ∀ e ∈ es, e.1.usesFile = true → HasRoom file n

/-- All bitmaps have `n` bits. -/
def Sized (n : ℕ) (s : BitMaps) : Prop := ∀ k, (s.maps k).numBits = n

/-- The set in the file. -/
def fileSet (n : ℕ) (file : OpenFile) (disk : Disk) : Finset (Fin n) :=
  (BitMap.mk n (wordsOf (file.hdr.content disk))).toSet n

/-- **The sets** that the bitmaps and the file stand for. -/
def BitMaps.sets (n : ℕ) (file : OpenFile) (s : BitMaps) : Sets n where
  set k := (s.maps k).toSet n
  file := fileSet n file s.disk

section File

variable {n : ℕ} {b : BitMap} {file : OpenFile}

lemma numWords_eq (hb : b.numBits = n) :
    numWords b = ((n + (bitsInWord - 1)) / bitsInWord : ℕ) := by
  have hmod : (n : ℤ).tmod bitsInWord = (n : ℤ) % bitsInWord := Int.tmod_eq_emod_of_nonneg (by omega)
  have hdiv : (n : ℤ).tdiv bitsInWord = (n : ℤ) / bitsInWord := Int.tdiv_eq_ediv_of_nonneg (by omega)
  rw [numWords, divRoundUp, hb, hdiv]
  by_cases h : (n : ℤ).tmod bitsInWord > 0
  · rw [if_pos h]
    simp only [hmod, gt_iff_lt] at h
    simp only [bitsInWord] at h ⊢
    omega
  · rw [if_neg h]
    simp only [hmod, gt_iff_lt] at h
    simp only [bitsInWord] at h ⊢
    omega

/-- A bitmap depends on the words in its array. -/
lemma toSet_map_congr {b' : BitMap}
    (h : ∀ w < (n + (bitsInWord - 1)) / bitsInWord, b'.map w = b.map w) :
    b'.toSet n = b.toSet n :=
  BitMap.toSet_congr fun _ hi => BitMap.bit_congr (h _ (BitMap.word_lt hi))

/-- **`FetchFrom`** gives the set in the file. -/
lemma fetchMap_toSet (hb : b.numBits = n) (hfile : HasRoom file n) (disk : Disk) (fresh : Memory) :
    ∃ b', fetchMap b disk fresh file = .ok b' ∧ b'.numBits = n ∧
      b'.toSet n = fileSet n file disk := by
  set len := (n + (bitsInWord - 1)) / bitsInWord * 4 with hlen
  have hsize : file.hdr.size ≤ 3840 := hfile.covers.size_le
  have hroom : len ≤ file.hdr.size := hfile.room
  have hread := OpenFile.readAt_eq (n := len) (p := 0) hfile.covers disk fresh (by omega)
  rw [OpenFile.take_drop_bytes, Nat.sub_zero, min_eq_left hroom] at hread
  have hwords : numWords b * 4 = (len : ℕ) := by
    rw [numWords_eq hb, hlen]
    push_cast
    rfl
  have hfetch : fetchMap b disk fresh file = .ok { b with
      map := wordsOf (copyAt (bytesOf b.map) 0 (slice (file.hdr.content disk) 0 len).length
        ((slice (file.hdr.content disk) 0 len).getD · 0)) } := by
    rw [fetchMap, hwords, ← Int.natCast_zero, hread, ok_bind]
    rfl
  refine ⟨_, hfetch, hb, toSet_map_congr fun w hw => ?_⟩
  have hword : 4 * w + 4 ≤ len := by omega
  refine @wordsOf_congr _ _ w w fun j hj => ?_
  rw [length_slice, copyAt_of_mem (Nat.zero_le _) (by omega), Nat.sub_zero, getD_slice (by omega),
    Nat.zero_add]

/-- **`WriteBack`** puts the set into the file. -/
lemma writeMap_toSet (hb : b.numBits = n) (hfile : HasRoom file n) (disk : Disk)
    (fresh : ℕ → Memory) :
    ∃ disk', writeMap b disk fresh file = .ok disk' ∧ fileSet n file disk' = b.toSet n := by
  set len := (n + (bitsInWord - 1)) / bitsInWord * 4 with hlen
  have hsize : file.hdr.size ≤ 3840 := hfile.covers.size_le
  have hroom : len ≤ file.hdr.size := hfile.room
  obtain ⟨disk', hwrite, hwrote⟩ := OpenFile.writeAt_eq (n := len) (p := 0) hfile.covers disk fresh
    (bytesOf b.map) (by omega)
  have hwords : numWords b * 4 = (len : ℕ) := by
    rw [numWords_eq hb, hlen]
    push_cast
    rfl
  have hback : writeMap b disk fresh file = .ok disk' := by
    rw [writeMap, hwords, ← Int.natCast_zero, hwrite, ok_bind]
    rfl
  refine ⟨disk', hback, toSet_map_congr fun w hw => ?_⟩
  have hword : 4 * w + 4 ≤ len := by omega
  rw [← wordsOf_bytesOf (w := b.map) w]
  refine @wordsOf_congr _ _ w w fun j hj => ?_
  rw [hwrote.content _ (by omega), Nat.sub_zero, min_eq_left hroom,
    copyAt_of_mem (Nat.zero_le _) (by omega), Nat.sub_zero]

end File

/-! ### Runs -/

section Runs

variable {n : ℕ} {file : OpenFile} {s s' : BitMaps} {es : List (BitOp × BitAnswer)}

@[simp] lemma maps_setMap_self {k : ℕ} {b : BitMap} : (s.setMap k b).maps k = b :=
  Function.update_self ..

lemma maps_setMap_of_ne {k k' : ℕ} {b : BitMap} (hk : k' ≠ k) :
    (s.setMap k b).maps k' = s.maps k' :=
  Function.update_of_ne hk ..

lemma Sized.setMap (hs : Sized n s) {k : ℕ} {b : BitMap} (hb : b.numBits = n) :
    Sized n (s.setMap k b) := by
  intro k'
  by_cases hk : k' = k
  · rw [hk, maps_setMap_self, hb]
  · rw [maps_setMap_of_ne hk, hs k']

lemma sets_setMap {k : ℕ} {b : BitMap} :
    (s.setMap k b).sets n file = (s.sets n file).setSet k (b.toSet n) := by
  have hset : ∀ k', ((s.setMap k b).sets n file).set k' =
      ((s.sets n file).setSet k (b.toSet n)).set k' := by
    intro k'
    simp only [BitMaps.sets, BitMaps.setMap, Sets.setSet]
    by_cases hk : k' = k
    · rw [hk, Function.update_self, Function.update_self]
    · rw [Function.update_of_ne hk, Function.update_of_ne hk]
  exact congrArg₂ Sets.mk (funext hset) rfl

/-- **One step**: the bitmaps go on as sets. -/
theorem bitStep_sets {c : BitOp × (ℕ → Memory)} (hs : Sized n s)
    (hstep : bitStep file c s = .ok (es, s')) (hfile : Filed file n s es s') :
    Sized n s' ∧ Sets.Step (s.sets n file) es (s'.sets n file) := by
  obtain ⟨op, fresh⟩ := c
  cases op with
  | mark k which =>
    obtain ⟨b, hb, hret⟩ := bind_eq_ok hstep
    cases hret
    obtain ⟨i, rfl⟩ : ∃ i : Fin n, which = (i : ℕ) := by
      by_contra hout
      rw [BitMap.mark, if_neg (mt (BitMap.inRange_iff (hs k)).mp hout)] at hb
      cases hb
    rw [BitMap.mark_fin (hs k)] at hb
    cases hb
    rw [sets_setMap, BitMap.toSet_setBit]
    exact ⟨hs.setMap (hs k), .mark (s.sets n file) k i⟩
  | clear k which =>
    obtain ⟨b, hb, hret⟩ := bind_eq_ok hstep
    cases hret
    obtain ⟨i, rfl⟩ : ∃ i : Fin n, which = (i : ℕ) := by
      by_contra hout
      rw [BitMap.clear, if_neg (mt (BitMap.inRange_iff (hs k)).mp hout)] at hb
      cases hb
    rw [BitMap.clear_fin (hs k)] at hb
    cases hb
    rw [sets_setMap, BitMap.toSet_clearBit]
    exact ⟨hs.setMap (hs k), .clear (s.sets n file) k i⟩
  | test k which =>
    obtain ⟨r, hr, hret⟩ := bind_eq_ok hstep
    cases hret
    obtain ⟨i, rfl⟩ : ∃ i : Fin n, which = (i : ℕ) := by
      by_contra hout
      rw [BitMap.test, if_neg (mt (BitMap.inRange_iff (hs k)).mp hout)] at hr
      cases hr
    rw [BitMap.test_fin (hs k)] at hr
    cases hr
    exact ⟨hs, .test (s.sets n file) k i⟩
  | find k =>
    obtain ⟨i, hleast, hfind⟩ | ⟨hfull, hfind⟩ := BitMap.find_toSet (hs k)
    · simp only [bitStep, hfind] at hstep
      cases hstep
      rw [sets_setMap, BitMap.toSet_setBit]
      exact ⟨hs.setMap (hs k), .find (s.sets n file) k i hleast⟩
    · simp only [bitStep, hfind] at hstep
      cases hstep
      have hsame : s.setMap k (s.maps k) = s := by
        rw [BitMaps.setMap, Function.update_eq_self]
      rw [hsame]
      exact ⟨hs, .findFull (s.sets n file) k hfull⟩
  | numClear k =>
    cases hstep
    rw [BitMap.numClear_toSet (hs k)]
    exact ⟨hs, .numClear (s.sets n file) k⟩
  | writeBack k =>
    obtain ⟨disk, hdisk, hret⟩ := bind_eq_ok hstep
    cases hret
    obtain ⟨disk', hwrite, hset⟩ :=
      writeMap_toSet (hs k) (hfile _ (List.mem_singleton_self _) rfl) s.disk fresh
    obtain rfl : disk' = disk := Except.ok.inj (hwrite.symm.trans hdisk)
    have hsets : ({ s with disk := disk' } : BitMaps).sets n file =
        { s.sets n file with file := (s.maps k).toSet n } := congrArg (Sets.mk _) hset
    rw [hsets]
    exact ⟨hs, .writeBack (s.sets n file) k⟩
  | fetchFrom k =>
    obtain ⟨b, hb, hret⟩ := bind_eq_ok hstep
    cases hret
    obtain ⟨b', hfetch, hn, hset⟩ :=
      fetchMap_toSet (hs k) (hfile _ (List.mem_singleton_self _) rfl) s.disk (fresh 0)
    rw [hfetch] at hb
    cases hb
    rw [sets_setMap, hset]
    exact ⟨hs.setMap hn, .fetchFrom (s.sets n file) k⟩

/-- **No operation fails** whose number is one of a bit. -/
theorem bitStep_ok {op : BitOp} (hs : Sized n s) (hrange : op.InRange n)
    (hfile : op.usesFile = true → HasRoom file n) (fresh : ℕ → Memory) :
    ∃ r, bitStep file (op, fresh) s = .ok r := by
  cases op with
  | mark k which =>
    obtain ⟨i, rfl⟩ := (BitMap.inRange_iff (hs k)).mp ((hs k).symm ▸ hrange)
    exact ⟨_, by rw [bitStep, BitMap.mark_fin (hs k), ok_bind]; rfl⟩
  | clear k which =>
    obtain ⟨i, rfl⟩ := (BitMap.inRange_iff (hs k)).mp ((hs k).symm ▸ hrange)
    exact ⟨_, by rw [bitStep, BitMap.clear_fin (hs k), ok_bind]; rfl⟩
  | test k which =>
    obtain ⟨i, rfl⟩ := (BitMap.inRange_iff (hs k)).mp ((hs k).symm ▸ hrange)
    exact ⟨_, by rw [bitStep, BitMap.test_fin (hs k), ok_bind]; rfl⟩
  | find k => exact ⟨_, rfl⟩
  | numClear k => exact ⟨_, rfl⟩
  | writeBack k =>
    obtain ⟨disk', hwrite, -⟩ := writeMap_toSet (hs k) (hfile rfl) s.disk fresh
    exact ⟨_, by rw [bitStep, hwrite, ok_bind]; rfl⟩
  | fetchFrom k =>
    obtain ⟨b', hfetch, -⟩ := fetchMap_toSet (hs k) (hfile rfl) s.disk (fresh 0)
    exact ⟨_, by rw [bitStep, hfetch, ok_bind]; rfl⟩

/-- **Bitmaps behave as sets** in every run: they give the answers of sets, no operation fails, and
what is written back is what another bitmap fetches. -/
theorem sets_of_run {s₀ : BitMaps} {tr : List (BitOp × BitAnswer)} (h₀ : Sized n s₀)
    (h : Run (Guarded (Filed file n) (StepOf (bitStep file))) s₀ tr s) :
    Run Sets.Step (s₀.sets n file) tr (s.sets n file) ∧
      (∀ op fresh, op.InRange n → (op.usesFile = true → HasRoom file n) →
        ∃ r, bitStep file (op, fresh) s = .ok r) ∧
      ∀ k k' fresh fresh', HasRoom file n → ∃ tr' s',
        exec (bitStep file) [(.writeBack k, fresh), (.fetchFrom k', fresh')] s = .ok (tr', s') ∧
          (s'.maps k').toSet n = (s.maps k).toSet n := by
  have hsim : ∃ t, Run Sets.Step (s₀.sets n file) tr t ∧ Sized n s ∧ t = s.sets n file := by
    refine h.simulation (R := fun s t => Sized n s ∧ t = s.sets n file) ⟨h₀, rfl⟩ ?_
    rintro s t es s' ⟨hs, rfl⟩ ⟨⟨c, hc⟩, hfile⟩
    obtain ⟨hs', hstep⟩ := bitStep_sets hs hc hfile
    exact ⟨_, hstep, hs', rfl⟩
  obtain ⟨t, hrun, hs, rfl⟩ := hsim
  refine ⟨hrun, fun op fresh hrange hfile => bitStep_ok hs hrange hfile fresh,
    fun k k' fresh fresh' hroom => ?_⟩
  obtain ⟨disk', hwrite, hset⟩ := writeMap_toSet (hs k) hroom s.disk fresh
  obtain ⟨b', hfetch, -, hset'⟩ := fetchMap_toSet (hs k') hroom disk' (fresh' 0)
  have hback : bitStep file (.writeBack k, fresh) s =
      .ok ([(.writeBack k, .unit)], { s with disk := disk' }) := by
    rw [bitStep, hwrite, ok_bind]
    rfl
  have hfrom : bitStep file (.fetchFrom k', fresh') { s with disk := disk' } =
      .ok ([(.fetchFrom k', .unit)], { s with disk := disk' }.setMap k' b') := by
    rw [bitStep, hfetch, ok_bind]
    rfl
  have hexec : exec (bitStep file) [(.writeBack k, fresh), (.fetchFrom k', fresh')] s =
      .ok ([(.writeBack k, .unit), (.fetchFrom k', .unit)],
        { s with disk := disk' }.setMap k' b') := by
    rw [exec, hback]
    simp only [exec, hfrom]
    rfl
  refine ⟨_, _, hexec, ?_⟩
  rw [maps_setMap_self, hset', hset]

/-- A file of eight bytes in sector 9. -/
def eightBytes : OpenFile := ⟨⟨8, 1, fun _ => 9⟩, 0⟩

lemma hasRoom_eightBytes : HasRoom eightBytes 33 where
  covers :=
    { numBytes := rfl
      count_le := by decide
      covers := by decide
      dataSectors := fun _ _ => rfl
      block_lt := fun _ _ => (by decide : 9 < numSectors)
      block_inj := fun {i j} hi hj _ => by
        have hcount : eightBytes.hdr.count = 1 := rfl
        omega }
  room := by decide

/-- Bitmaps of 33 bits, all set, and those past the last one too. -/
def allSet : BitMaps := ⟨fun _ => ⟨33, fun _ => 0xFFFFFFFF⟩, fun _ _ => 0⟩

/-- `Find` gives the bit 32, which was cleared, and another bitmap fetches what is left. -/
theorem sets_of_run_allSet : ∃ tr s,
    (.find 0, .int 32) ∈ tr ∧ Run Sets.Step (allSet.sets 33 eightBytes) tr (s.sets 33 eightBytes) ∧
      (∀ op fresh, op.InRange 33 → (op.usesFile = true → HasRoom eightBytes 33) →
        ∃ r, bitStep eightBytes (op, fresh) s = .ok r) ∧
      ∀ k k' fresh fresh', HasRoom eightBytes 33 → ∃ tr' s',
        exec (bitStep eightBytes) [(.writeBack k, fresh), (.fetchFrom k', fresh')] s =
          .ok (tr', s') ∧ (s'.maps k').toSet 33 = (s.maps k).toSet 33 := by
  have htest : passes (bitStep eightBytes)
      [(.clear 0 32, fun _ _ => 0), (.clear 0 31, fun _ _ => 0), (.mark 0 31, fun _ _ => 0),
        (.find 0, fun _ _ => 0), (.writeBack 0, fun _ _ => 0), (.fetchFrom 1, fun _ _ => 0)]
      allSet (fun tr _ => decide ((.find 0, .int 32) ∈ tr)) = true := by decide +kernel
  obtain ⟨tr, s, hr, hfind⟩ := run_of_passes _ _ _ _ htest
  have hguard : Run (Guarded (Filed eightBytes 33) (StepOf (bitStep eightBytes))) allSet tr s :=
    hr.mono fun hs => ⟨hs, fun _ _ _ => hasRoom_eightBytes⟩
  exact ⟨tr, s, of_decide_eq_true hfind, sets_of_run (fun _ => rfl) hguard⟩

end Runs

end Nachos.Filesys
