import Nachos.Lib.Except
import Nachos.Filesys.Disk

/-!
# What a transfer does to a file

The header of a file says where the bytes of the file lie: `content` reads them off the disk, and
`bytes` are those below the length. For positions and counts whose sum is an `int`, `ReadAt` gives a
range of these bytes, and `WriteAt` changes a range of them and no sector of another file. The bytes
behind the end of the file, in its last sector, are not kept.
-/

namespace Nachos.Filesys

open Lib Threads Userprog Mips

lemma int_eq {x : ℤ} (h : -2 ^ 31 ≤ x) (h' : x < 2 ^ 31) : int x = x := by
  unfold int
  rw [Int.bmod_eq_of_le] <;> omega

/-- A sum that is too large for an `int` is negative. -/
lemma int_sub {x : ℤ} (h : 2 ^ 31 ≤ x) (h' : x < 2 ^ 32) : int x = x - 2 ^ 32 := by
  have hmod : x % ((2 ^ 32 : ℕ) : ℤ) = x := Int.emod_eq_of_lt (by omega) (by omega)
  rw [int, Int.bmod, hmod, if_neg (by omega)]
  rfl

lemma tdiv_eq {x : ℤ} (h : 0 ≤ x) : x.tdiv sectorSize = ((x.toNat / sectorSize : ℕ) : ℤ) := by
  rw [Int.tdiv_eq_ediv_of_nonneg h, Int.natCast_ediv, Int.toNat_of_nonneg h]

lemma readSector_eq {x : ℕ} (h : x < numSectors) (disk : Disk) :
    readSector disk x = .ok (disk x) := by
  rw [readSector, if_pos ⟨by omega, by exact_mod_cast h⟩, Int.toNat_natCast]

lemma writeSector_eq {x : ℕ} (h : x < numSectors) (disk : Disk) (data : Memory) :
    writeSector disk x data =
      .ok (Function.update disk x (copyAt (disk x) 0 sectorSize data)) := by
  rw [writeSector, if_pos ⟨by omega, by exact_mod_cast h⟩, Int.toNat_natCast]

/-! ### Words in memory -/

lemma wordsOf_congr {m m' : Memory} {i i' : ℕ} (h : ∀ j < 4, m (4 * i + j) = m' (4 * i' + j)) :
    wordsOf m i = wordsOf m' i' := by
  simp only [wordsOf, Machine.readLong]
  rw [h 1 (by decide), h 2 (by decide), h 3 (by decide)]
  exact congrArg _ (h 0 (by decide))

/-- The bytes of an array of words are these words. -/
lemma wordsOf_bytesOf {w : ℕ → Word} (i : ℕ) : wordsOf (bytesOf w) i = w i := by
  have hbyte : ∀ j < 4, bytesOf w (4 * i + j) = (w i).extractLsb' (8 * j) 8 := by
    intro j hj
    have hdiv : (4 * i + j) / 4 = i := by omega
    have hmod : (4 * i + j) % 4 = j := by omega
    rw [bytesOf, hdiv, hmod]
  have hzero : bytesOf w (4 * i) = (w i).extractLsb' 0 8 := hbyte 0 (by decide)
  simp only [wordsOf, Machine.readLong]
  rw [hzero, hbyte 1 (by decide), hbyte 2 (by decide), hbyte 3 (by decide),
    BitVec.extractLsb'_append_extractLsb'_eq_extractLsb' (by rfl),
    BitVec.extractLsb'_append_extractLsb'_eq_extractLsb' (by rfl),
    BitVec.extractLsb'_append_extractLsb'_eq_extractLsb' (by rfl)]
  exact BitVec.extractLsb'_eq_self

/-- A copy of an array of words. -/
lemma wordsOf_copyAt {m : Memory} {w : ℕ → Word} {n i : ℕ} (h : 4 * i + 4 ≤ n) :
    wordsOf (copyAt m 0 n (bytesOf w)) i = w i := by
  rw [← wordsOf_bytesOf (w := w) i]
  refine wordsOf_congr fun j hj => ?_
  rw [copyAt_of_mem (Nat.zero_le _) (by omega), Nat.sub_zero]

/-! ### Headers -/

namespace FileHeader

/-- The length of the file. -/
def size (hdr : FileHeader) : ℕ := hdr.numBytes.toInt.toNat

/-- The number of its data sectors. -/
def count (hdr : FileHeader) : ℕ := hdr.numSectors.toInt.toNat

/-- The number of the `i`-th one. -/
def block (hdr : FileHeader) (i : ℕ) : ℕ := (hdr.dataSectors i).toInt.toNat

/-- The data sectors. -/
def sectors (hdr : FileHeader) : List ℕ := (List.range hdr.count).map hdr.block

/-- The number of sectors for `n` bytes. -/
def sectorsFor (n : ℕ) : ℕ := (n + (sectorSize - 1)) / sectorSize

/-- A header of a file on the disk. -/
structure Valid (hdr : FileHeader) : Prop where
  numBytes : hdr.numBytes.toInt = hdr.size
  numSectors : hdr.numSectors.toInt = hdr.count
  size_le : hdr.size ≤ maxFileSize
  count_eq : hdr.count = sectorsFor hdr.size
  dataSectors : ∀ i < hdr.count, (hdr.dataSectors i).toInt = hdr.block i
  block_lt : ∀ i < hdr.count, hdr.block i < Filesys.numSectors
  block_inj : ∀ {i j}, i < hdr.count → j < hdr.count → hdr.block i = hdr.block j → i = j

/-- A header whose data sectors, each of them another sector of the disk, cover the file. -/
structure Covers (hdr : FileHeader) : Prop where
  numBytes : hdr.numBytes.toInt = hdr.size
  count_le : hdr.count ≤ numDirect
  covers : sectorsFor hdr.size ≤ hdr.count
  dataSectors : ∀ i < hdr.count, (hdr.dataSectors i).toInt = hdr.block i
  block_lt : ∀ i < hdr.count, hdr.block i < Filesys.numSectors
  block_inj : ∀ {i j}, i < hdr.count → j < hdr.count → hdr.block i = hdr.block j → i = j

/-- The bytes in the data sectors. -/
def content (hdr : FileHeader) (disk : Disk) : Memory := flat sectorSize disk hdr.block

/-- The bytes of the file. -/
def bytes (hdr : FileHeader) (disk : Disk) : List Byte := slice (hdr.content disk) 0 hdr.size

section Sectors

variable {hdr : FileHeader} {disk disk' : Disk} {i k x : ℕ}

lemma mem_sectors : x ∈ hdr.sectors ↔ ∃ i < hdr.count, hdr.block i = x := by
  simp [sectors]

lemma block_mem (h : i < hdr.count) : hdr.block i ∈ hdr.sectors := mem_sectors.mpr ⟨i, h, rfl⟩

@[simp] lemma length_sectors : hdr.sectors.length = hdr.count := by simp [sectors]

@[simp] lemma length_bytes : (hdr.bytes disk).length = hdr.size := length_slice

lemma Valid.count_le (hv : hdr.Valid) : hdr.count ≤ numDirect := by
  have h := hv.size_le
  rw [hv.count_eq, sectorsFor]
  simp only [maxFileSize, numDirect, sectorSize] at h ⊢
  omega

lemma Valid.covers (hv : hdr.Valid) : hdr.Covers :=
  ⟨hv.numBytes, hv.count_le, hv.count_eq.ge, hv.dataSectors, hv.block_lt, hv.block_inj⟩

namespace Covers

variable (hv : hdr.Covers)
include hv

lemma fileLength_eq : hdr.fileLength = hdr.size := hv.numBytes

lemma size_le : hdr.size ≤ maxFileSize := by
  have h := hv.covers.trans hv.count_le
  rw [sectorsFor] at h
  simp only [maxFileSize, numDirect, sectorSize] at h ⊢
  omega

/-- A byte of the file lies in one of its sectors. -/
lemma div_lt (h : k < hdr.size) : k / sectorSize < hdr.count := by
  have hle := hv.covers
  rw [sectorsFor] at hle
  simp only [sectorSize] at h hle ⊢
  omega

lemma nodup_sectors : hdr.sectors.Nodup := by
  refine List.Nodup.map_on (fun i hi j hj => ?_) List.nodup_range
  exact hv.block_inj (List.mem_range.mp hi) (List.mem_range.mp hj)

lemma dataSector_eq (h : i < hdr.count) : hdr.dataSector i = .ok (hdr.block i) := by
  have hi : i < numDirect := Nat.lt_of_lt_of_le h hv.count_le
  have hword : hdr.word ((i : ℤ) + 2).toNat = hdr.dataSectors i := rfl
  rw [dataSector, if_pos ⟨by omega, by exact_mod_cast hi⟩, hword, hv.dataSectors i h]

lemma byteToSector_eq (h : i < hdr.count) :
    hdr.byteToSector ((i : ℤ) * sectorSize) = .ok (hdr.block i) := by
  have hi : ((i : ℤ) * sectorSize).tdiv sectorSize = i :=
    Int.mul_tdiv_cancel _ (by decide)
  rw [byteToSector, hi, hv.dataSector_eq h]

/-- The bytes of a file depend on its sectors. -/
lemma content_congr (h : ∀ x ∈ hdr.sectors, disk' x = disk x) (hk : k < hdr.size) :
    hdr.content disk' k = hdr.content disk k :=
  flat_congr (h _ (block_mem (hv.div_lt hk)))

lemma bytes_congr (h : ∀ x ∈ hdr.sectors, disk' x = disk x) : hdr.bytes disk' = hdr.bytes disk := by
  refine slice_congr fun k hk => ?_
  rw [Nat.zero_add]
  exact hv.content_congr h hk

end Covers

end Sectors

end FileHeader

/-! ### The loops -/

namespace OpenFile

variable {hdr : FileHeader} {disk : Disk} {fresh source buf : Memory} {first n i p : ℕ}

section Loops

variable (hv : hdr.Covers)
include hv

lemma readSectors_eq (h : first + i + n ≤ hdr.count) :
    readSectors disk hdr first n i buf =
      .ok (gather sectorSize disk hdr.block first n i buf) := by
  induction n generalizing i buf with
  | zero => rfl
  | succ n ih =>
    have hi : first + i < hdr.count := by omega
    have hsector : hdr.byteToSector (((first : ℤ) + i) * sectorSize) = .ok (hdr.block (first + i)) :=
      hv.byteToSector_eq hi
    rw [readSectors, hsector, ok_bind, readSector_eq (hv.block_lt _ hi), ok_bind, ih (by omega),
      gather]

lemma writeSectors_eq (h : first + i + n ≤ hdr.count) :
    writeSectors hdr first buf n i disk =
      .ok (scatter sectorSize hdr.block first buf n i disk) := by
  induction n generalizing i disk with
  | zero => rfl
  | succ n ih =>
    have hi : first + i < hdr.count := by omega
    have hsector : hdr.byteToSector (((first : ℤ) + i) * sectorSize) = .ok (hdr.block (first + i)) :=
      hv.byteToSector_eq hi
    rw [writeSectors, hsector, ok_bind, writeSector_eq (hv.block_lt _ hi), ok_bind,
      ih (by omega), scatter]

end Loops

/-- A sector that is found has a number in the header. -/
lemma lt_of_byteToSector {sector : ℤ}
    (h : hdr.byteToSector (((first : ℤ) + i) * sectorSize) = .ok sector) :
    first + i < numDirect := by
  have hdiv : (((first : ℤ) + i) * sectorSize).tdiv sectorSize = first + i :=
    Int.mul_tdiv_cancel _ (by decide)
  rw [FileHeader.byteToSector, hdiv, FileHeader.dataSector] at h
  split at h
  next hin => exact_mod_cast hin.2
  next => cases h

/-- The sectors that are read, or written, have a number in the header. -/
lemma le_of_readSectors {buf' : Memory} (h : readSectors disk hdr first n i buf = .ok buf')
    (hn : 0 < n) : first + i + n ≤ numDirect := by
  induction n generalizing i buf with
  | zero => omega
  | succ n ih =>
    rw [readSectors] at h
    obtain ⟨sector, hsector, h⟩ := bind_eq_ok h
    obtain ⟨data, -, h⟩ := bind_eq_ok h
    have hi := lt_of_byteToSector hsector
    rcases Nat.eq_zero_or_pos n with rfl | hpos
    · omega
    · have := ih h hpos
      omega

lemma le_of_writeSectors {disk' : Disk} (h : writeSectors hdr first buf n i disk = .ok disk')
    (hn : 0 < n) : first + i + n ≤ numDirect := by
  induction n generalizing i disk with
  | zero => omega
  | succ n ih =>
    rw [writeSectors] at h
    obtain ⟨sector, hsector, h⟩ := bind_eq_ok h
    obtain ⟨disk₁, -, h⟩ := bind_eq_ok h
    have hi := lt_of_byteToSector hsector
    rcases Nat.eq_zero_or_pos n with rfl | hpos
    · omega
    · have := ih h hpos
      omega

/-! ### `ReadAt` -/

variable {f : OpenFile}

section Range

/-- The bytes of a file that a request covers. -/
lemma take_drop_bytes (n p : ℕ) : ((hdr.bytes disk).drop p).take n =
    slice (hdr.content disk) p (min n (hdr.size - p)) := by
  rw [FileHeader.bytes, take_drop_slice, Nat.zero_add]

/-- The sectors of a request of `m` bytes, and where in them it starts. -/
lemma request_eq {m : ℕ} (hm : 0 < m) (hsum : p + m < 2 ^ 31) :
    firstSector p = ((p / sectorSize : ℕ) : ℤ) ∧
      lastSector m p = (((p + m - 1) / sectorSize : ℕ) : ℤ) ∧
      (1 : ℤ) + ((p + m - 1) / sectorSize : ℕ) - (p / sectorSize : ℕ) =
        ((1 + (p + m - 1) / sectorSize - p / sectorSize : ℕ) : ℤ) ∧
      (p : ℤ) - (p / sectorSize : ℕ) * sectorSize = ((p % sectorSize : ℕ) : ℤ) := by
  have hdiv : p / sectorSize ≤ (p + m - 1) / sectorSize := Nat.div_le_div_right (by omega)
  refine ⟨tdiv_eq (by omega), ?_, by omega, ?_⟩
  · rw [lastSector, int_eq (by omega) (by omega), tdiv_eq (by omega)]
    congr 2
    omega
  · have hmod := Nat.div_add_mod p sectorSize
    rw [Nat.mul_comm] at hmod
    omega

/-- The request is in the buffer. -/
lemma inBuffer_request {m : ℕ} (hm : 0 < m) : InBuffer ((p % sectorSize : ℕ) : ℤ) m
    (((1 + (p + m - 1) / sectorSize - p / sectorSize : ℕ) : ℤ) * sectorSize) := by
  refine ⟨by omega, ?_⟩
  simp only [sectorSize]
  omega

variable (hv : f.hdr.Covers)
include hv

lemma clip_eq (hp : p < f.hdr.size) (hsum : p + n < 2 ^ 31) :
    f.clip n p = ((min n (f.hdr.size - p) : ℕ) : ℤ) := by
  have hle : f.hdr.size ≤ 3840 := hv.size_le
  rw [clip, hv.fileLength_eq, int_eq (by omega) (by omega), int_eq (by omega) (by omega)]
  split <;> omega

/-- **What `ReadAt` gives.** -/
theorem readAt_eq (disk : Disk) (fresh : Memory) (hsum : p + n < 2 ^ 31) :
    f.readAt disk fresh n p = .ok (((f.hdr.bytes disk).drop p).take n) := by
  rw [readAt, hv.fileLength_eq]
  split
  next h =>
    -- nothing is asked for, or nothing is there
    rcases h with h | h
    · have hn : n = 0 := by omega
      rw [hn, List.take_zero]
    · rw [List.drop_eq_nil_of_le (by rw [FileHeader.length_bytes]; omega), List.take_nil]
  next h =>
    have hp : p < f.hdr.size := by omega
    have hle : f.hdr.size ≤ 3840 := hv.size_le
    rw [take_drop_bytes, clip_eq hv hp hsum]
    generalize hm : min n (f.hdr.size - p) = m
    obtain ⟨hfirst, hlast, hcount, hstart⟩ := request_eq (p := p) (m := m) (by omega) (by omega)
    have hin : (p + m - 1) / sectorSize < f.hdr.count := hv.div_lt (by omega)
    dsimp only
    rw [hfirst, hlast, hcount, hstart, if_neg (by omega), Int.toNat_natCast, Int.toNat_natCast,
      Int.toNat_natCast, readSectors_eq hv (by omega), ok_bind, if_pos (inBuffer_request (by omega))]
    refine congrArg Except.ok (slice_congr fun i hi => ?_)
    rw [gather_apply (by decide), if_pos (by simp only [sectorSize] at *; omega)]
    congr 1
    simp only [sectorSize] at *
    omega

/-! ### `WriteAt` -/

/-- `m` bytes of the file have been written, from the position `p` on. -/
structure Wrote (hdr : FileHeader) (disk disk' : Disk) (source : Memory) (p m : ℕ) : Prop where
  others : ∀ x ∉ hdr.sectors, disk' x = disk x
  content : ∀ k < hdr.size, hdr.content disk' k = copyAt (hdr.content disk) p m source k

/-- What is read to the buffer. -/
lemma readInto_eq (disk : Disk) (fresh buf : Memory) (a o : ℕ) (ha : a * sectorSize + sectorSize < 2 ^ 31) :
    ∃ buf', f.readInto disk fresh buf o (a * sectorSize) = .ok buf' ∧
      (∀ j, j < o ∨ o + sectorSize ≤ j → buf' j = buf j) ∧
      ∀ i < sectorSize, a * sectorSize + i < f.hdr.size →
        buf' (o + i) = f.hdr.content disk (a * sectorSize + i) := by
  have hread := readAt_eq hv disk fresh ha
  rw [Nat.cast_mul] at hread
  rw [readInto, hread, ok_bind, take_drop_bytes]
  refine ⟨_, rfl, fun j hj => ?_, fun i hi hsize => ?_⟩
  · rw [Int.toNat_natCast, length_slice]
    rcases hj with hj | hj
    · exact copyAt_of_lt hj
    · exact copyAt_of_le (by omega)
  · rw [Int.toNat_natCast, length_slice, copyAt_of_mem (by omega) (by omega),
      getD_slice (by omega)]
    congr 1
    omega

/-- The sectors that are to be partially modified are in the buffer. -/
lemma partialSectors_eq (disk : Disk) (fresh : ℕ → Memory) (firstAligned lastAligned : Bool) {a b : ℕ}
    (hab : a ≤ b) (hb : b * sectorSize + sectorSize < 2 ^ 31) :
    ∃ buf, f.partialSectors disk fresh a b firstAligned lastAligned = .ok buf ∧
      (firstAligned = false → ∀ i < sectorSize, a * sectorSize + i < f.hdr.size →
        buf i = f.hdr.content disk (a * sectorSize + i)) ∧
      (lastAligned = false → ∀ i < sectorSize, b * sectorSize + i < f.hdr.size →
        buf ((b - a) * sectorSize + i) = f.hdr.content disk (b * sectorSize + i)) := by
  have ha : a * sectorSize + sectorSize < 2 ^ 31 :=
    Nat.lt_of_le_of_lt (Nat.add_le_add_right (Nat.mul_le_mul_right _ hab) _) hb
  have hoff : ((b : ℤ) - a) * sectorSize = (((b - a) * sectorSize : ℕ) : ℤ) := by
    rw [Nat.cast_mul, Nat.cast_sub hab]
  obtain ⟨buf₁, h₁, -, hin₁⟩ :=
    readInto_eq hv disk (fresh 1) (fresh 0) a 0 ha
  have hfirst : ∃ buf, (if firstAligned then .ok (fresh 0) else
      f.readInto disk (fresh 1) (fresh 0) 0 (a * sectorSize)) = .ok buf ∧
      (firstAligned = false → ∀ i < sectorSize, a * sectorSize + i < f.hdr.size →
        buf i = f.hdr.content disk (a * sectorSize + i)) := by
    cases firstAligned with
    | true => exact ⟨_, rfl, fun h => nomatch h⟩
    | false =>
      refine ⟨buf₁, h₁, fun _ i hi hsize => ?_⟩
      rw [← hin₁ i hi hsize, Nat.zero_add]
  obtain ⟨buf, hbuf, hin⟩ := hfirst
  rw [partialSectors, hbuf, ok_bind, hoff]
  by_cases hread : (!lastAligned && ((a : ℤ) != b || firstAligned)) = true
  · -- the last sector is read too; where it is the first one, that one was not read
    obtain ⟨buf', h', hother, hin'⟩ :=
      readInto_eq hv disk (fresh 2) buf b ((b - a) * sectorSize) hb
    rw [if_pos hread]
    refine ⟨buf', h', fun hf i hi hsize => ?_, fun _ => hin'⟩
    have hne : a ≠ b := by
      rintro rfl
      simp [hf] at hread
    have hlt : 1 * sectorSize ≤ (b - a) * sectorSize := Nat.mul_le_mul_right _ (by omega)
    rw [hother i (.inl (by omega)), hin hf i hi hsize]
  · rw [if_neg hread]
    refine ⟨buf, rfl, hin, fun hl i hi hsize => ?_⟩
    obtain ⟨rfl, hf⟩ : a = b ∧ firstAligned = false := by simpa [hl] using hread
    rw [Nat.sub_self, Nat.zero_mul, Nat.zero_add, hin hf i hi hsize]

omit hv in
/-- What is written back are the bytes of the file, with the new ones. -/
lemma copyAt_buffer {content : Memory} {size m k : ℕ} (hm : 0 < m)
    (hfirst : p % sectorSize ≠ 0 → ∀ i < sectorSize, p / sectorSize * sectorSize + i < size →
      buf i = content (p / sectorSize * sectorSize + i))
    (hlast : (p + m) % sectorSize ≠ 0 → ∀ i < sectorSize,
      (p + m - 1) / sectorSize * sectorSize + i < size →
        buf (((p + m - 1) / sectorSize - p / sectorSize) * sectorSize + i) =
          content ((p + m - 1) / sectorSize * sectorSize + i))
    (hk : k < size) (hle : p / sectorSize ≤ k / sectorSize)
    (hge : k / sectorSize ≤ (p + m - 1) / sectorSize) :
    copyAt buf (p % sectorSize) m source (k - p / sectorSize * sectorSize) =
      copyAt content p m source k := by
  simp only [sectorSize] at *
  by_cases hmid : p ≤ k ∧ k < p + m
  · -- what is written
    rw [copyAt_of_mem (by omega) (by omega), copyAt_of_mem hmid.1 hmid.2]
    congr 1
    omega
  · by_cases hkp : k < p
    · -- in front of it, in the first sector
      rw [copyAt_of_lt (by omega), copyAt_of_lt hkp, hfirst (by omega) _ (by omega) (by omega)]
      congr 1
      omega
    · -- behind it, in the last sector
      have hread := hlast (by omega) (k - (p + m - 1) / 128 * 128) (by omega) (by omega)
      rw [copyAt_of_le (by omega), copyAt_of_le (by omega)]
      refine Eq.trans (congrArg buf ?_) (hread.trans (congrArg content ?_))
      · omega
      · omega

/-- **What `WriteAt` does.** -/
theorem writeAt_eq (disk : Disk) (fresh : ℕ → Memory) (source : Memory) (hsum : p + n < 2 ^ 31) :
    ∃ disk', f.writeAt disk fresh source n p = .ok (((min n (f.hdr.size - p) : ℕ) : ℤ), disk') ∧
      Wrote f.hdr disk disk' source p (min n (f.hdr.size - p)) := by
  rw [writeAt, hv.fileLength_eq]
  split
  next h =>
    have hm : min n (f.hdr.size - p) = 0 := by omega
    rw [hm]
    refine ⟨disk, rfl, fun x _ => rfl, fun k _ => ?_⟩
    rw [copyAt, if_neg (by omega)]
  next h =>
    have hp : p < f.hdr.size := by omega
    have hle : f.hdr.size ≤ 3840 := hv.size_le
    rw [clip_eq hv hp hsum]
    generalize hm : min n (f.hdr.size - p) = m
    obtain ⟨hfirst, hlast, hcount, hstart⟩ := request_eq (p := p) (m := m) (by omega) (by omega)
    have hin : (p + m - 1) / sectorSize < f.hdr.count := hv.div_lt (by omega)
    have hab : p / sectorSize ≤ (p + m - 1) / sectorSize := Nat.div_le_div_right (by omega)
    have hb : (p + m - 1) / sectorSize * sectorSize + sectorSize < 2 ^ 31 := by
      simp only [sectorSize]
      omega
    dsimp only
    rw [hfirst, hlast, hcount, hstart, if_neg (by omega), Int.toNat_natCast, Int.toNat_natCast,
      Int.toNat_natCast, int_eq (by omega) (by omega)]
    obtain ⟨buf, hbuf, hreadFirst, hreadLast⟩ := partialSectors_eq hv disk fresh
      ((p : ℤ) = (p / sectorSize : ℕ) * sectorSize)
      ((p : ℤ) + m = (((p + m - 1) / sectorSize : ℕ) + 1) * sectorSize) hab hb
    rw [hbuf, ok_bind, if_pos (inBuffer_request (by omega)), writeSectors_eq hv (by omega), ok_bind]
    refine ⟨_, rfl, fun x hx => ?_, fun k hk => ?_⟩
    · refine scatter_of_ne fun l _ hl h => hx (h ▸ ?_)
      exact FileHeader.block_mem (by omega)
    · rw [FileHeader.content, flat_scatter (N := f.hdr.count) (by decide) hv.block_inj (by omega)
        (hv.div_lt hk)]
      split
      next hk' =>
        refine copyAt_buffer (by omega) (fun hp => hreadFirst (decide_eq_false ?_))
          (fun hp => hreadLast (decide_eq_false ?_)) hk (by omega) (by omega)
        · simp only [sectorSize] at hp ⊢
          omega
        · simp only [sectorSize] at hp ⊢
          omega
      next hk' =>
        have hout : ¬ (p ≤ k ∧ k < p + m) := by
          rintro ⟨hle, hlt⟩
          have h₁ : p / sectorSize ≤ k / sectorSize := Nat.div_le_div_right hle
          have h₂ : k / sectorSize ≤ (p + m - 1) / sectorSize := Nat.div_le_div_right (by omega)
          omega
        rw [copyAt, if_neg hout]
        rfl

/-- A request whose end is not an `int` is not clipped, and is for a negative number of sectors or
for many more than a header has places for. -/
lemma request_wraps (hp : p < f.hdr.size) (hn : n < 2 ^ 31) (hsum : 2 ^ 31 ≤ p + n) :
    f.clip n p = n ∧ firstSector p = ((p / sectorSize : ℕ) : ℤ) ∧
      (1 + lastSector n p - firstSector p < 0 ∨ lastSector n p = ((2 ^ 24 - 1 : ℕ) : ℤ)) := by
  have hle : f.hdr.size ≤ 3840 := hv.size_le
  have hint : int (p + n) = (p + n : ℤ) - 2 ^ 32 := int_sub (by omega) (by omega)
  have hfirst : firstSector p = ((p / sectorSize : ℕ) : ℤ) := tdiv_eq (by omega)
  refine ⟨?_, hfirst, ?_⟩
  · rw [clip, hv.fileLength_eq, if_neg]
    omega
  · by_cases hsum' : p + n = 2 ^ 31
    · -- the only sum that is an int without the last byte
      have hone : (p : ℤ) + n - 1 = 2 ^ 31 - 1 := by omega
      rw [lastSector, hone]
      exact .inr (by decide)
    · have hneg : (p + n - 1 : ℤ) - 2 ^ 32 = -((2 ^ 32 + 1 - p - n : ℕ) : ℤ) := by omega
      have hlast : lastSector n p = -(((2 ^ 32 + 1 - p - n) / sectorSize : ℕ) : ℤ) := by
        rw [lastSector, int_sub (by omega) (by omega), hneg, Int.neg_tdiv, tdiv_eq (by omega),
          Int.toNat_natCast]
      rw [hlast, hfirst]
      simp only [sectorSize]
      omega

/-- Such a request does not go through. -/
lemma not_readAt {fresh : Memory} {data : List Byte} (hp : p < f.hdr.size) (hn : n < 2 ^ 31)
    (hsum : 2 ^ 31 ≤ p + n) : f.readAt disk fresh n p ≠ .ok data := by
  have hle : f.hdr.size ≤ 3840 := hv.size_le
  obtain ⟨hclip, hfirst, hlast⟩ := request_wraps hv hp hn hsum
  rw [readAt, hv.fileLength_eq, if_neg (by omega), hclip]
  dsimp only
  intro h
  split at h
  next => cases h
  next hsectors =>
    replace hlast := hlast.resolve_left hsectors
    obtain ⟨buf, hread, -⟩ := bind_eq_ok h
    rw [hlast, hfirst] at hread
    have hbound := le_of_readSectors hread (by simp only [sectorSize]; omega)
    simp only [sectorSize, numDirect] at hbound
    omega

lemma not_writeAt {fresh : ℕ → Memory} {r : ℤ × Disk} (hp : p < f.hdr.size) (hn : n < 2 ^ 31)
    (hsum : 2 ^ 31 ≤ p + n) : f.writeAt disk fresh source n p ≠ .ok r := by
  have hle : f.hdr.size ≤ 3840 := hv.size_le
  obtain ⟨hclip, hfirst, hlast⟩ := request_wraps hv hp hn hsum
  rw [writeAt, hv.fileLength_eq, if_neg (by omega), hclip]
  dsimp only
  intro h
  split at h
  next => cases h
  next hsectors =>
    replace hlast := hlast.resolve_left hsectors
    obtain ⟨buf, -, h⟩ := bind_eq_ok h
    split at h
    next =>
      obtain ⟨disk', hwrite, -⟩ := bind_eq_ok h
      rw [hlast, hfirst] at hwrite
      have hbound := le_of_writeSectors hwrite (by simp only [sectorSize]; omega)
      simp only [sectorSize, numDirect] at hbound
      omega
    next => cases h

/-- What a call of `WriteAt` does that goes through. -/
theorem wrote_of_writeAt {fresh : ℕ → Memory} {numBytes position : ℤ} {r : ℤ × Disk}
    (hn : numBytes < 2 ^ 31) (hp : 0 < numBytes → 0 ≤ position)
    (h : f.writeAt disk fresh source numBytes position = .ok r) :
    ∃ p m, Wrote f.hdr disk r.2 source p m := by
  by_cases hcheck : numBytes ≤ 0 ∨ position ≥ f.hdr.fileLength
  · rw [writeAt, if_pos hcheck] at h
    cases h
    refine ⟨0, 0, fun x _ => rfl, fun k _ => ?_⟩
    rw [copyAt, if_neg (by omega)]
  · rw [hv.fileLength_eq] at hcheck
    obtain ⟨n, rfl⟩ := Int.eq_ofNat_of_zero_le (a := numBytes) (by omega)
    obtain ⟨p, rfl⟩ := Int.eq_ofNat_of_zero_le (hp (by omega))
    by_cases hsum : p + n < 2 ^ 31
    · obtain ⟨disk', hw, hwrote⟩ :=
        writeAt_eq hv disk fresh source hsum
      rw [hw] at h
      cases h
      exact ⟨_, _, hwrote⟩
    · exact absurd h (not_writeAt hv (by omega) (by omega) (by omega))

end Range

end OpenFile

end Nachos.Filesys
