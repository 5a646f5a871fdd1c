import Nachos.Filesys.Refinement

/-!
# Requests of all kinds

`ReadAt` and `WriteAt` take any two `int`s. When their sum is an `int` and the position is not
negative, the two are what they should be, a read and a write of a range of an array of bytes. The
check of the request does not see the others: a negative position, or a sum that wraps around, gives
a range that is not in the file.
-/

namespace Nachos.Filesys

open Lib Threads Userprog Mips

namespace OpenFile

variable {f : OpenFile} {disk : Disk} {numBytes position : ℤ}

/-! ### An array of bytes -/

/-- The number of bytes that a request is for, as far as the file goes. -/
def requested (f : OpenFile) (numBytes position : ℤ) : ℤ :=
  max 0 (min numBytes (f.hdr.fileLength - position))

/-- **The file is an array of bytes** for a request: `ReadAt` gives the bytes, and `WriteAt`
replaces them, which the reads that follow see. -/
structure AsArray (f : OpenFile) (disk : Disk) (numBytes position : ℤ) : Prop where
  readAt : ∀ fresh, f.readAt disk fresh numBytes position =
    .ok (part (f.hdr.bytes disk) position.toNat (f.requested numBytes position).toNat)
  length : ((part (f.hdr.bytes disk) position.toNat
    (f.requested numBytes position).toNat).length : ℤ) = f.requested numBytes position
  writeAt : ∀ fresh source, ∃ disk',
    f.writeAt disk fresh source numBytes position = .ok (f.requested numBytes position, disk') ∧
    f.hdr.bytes disk' = overlay (f.hdr.bytes disk) position.toNat
      (f.requested numBytes position).toNat source ∧
    (∀ x ∉ f.hdr.sectors, disk' x = disk x) ∧
    ∀ fresh' numBytes' position', 0 ≤ position' → position' + numBytes' < 2 ^ 31 →
      f.readAt disk' fresh' numBytes' position' =
        .ok (part (overlay (f.hdr.bytes disk) position.toNat
          (f.requested numBytes position).toNat source) position'.toNat
            (f.requested numBytes' position').toNat)

section AsArray

variable (hv : f.hdr.Covers) (hp : 0 ≤ position) (hsum : position + numBytes < 2 ^ 31)
include hv hp

/-- The number of bytes, for a count that is not negative. -/
lemma requested_eq {n : ℕ} (hn : numBytes = n) :
    f.requested numBytes position = ((min n (f.hdr.size - position.toNat) : ℕ) : ℤ) := by
  rw [requested, hv.fileLength_eq]
  omega

lemma length_part_requested : ((part (f.hdr.bytes disk) position.toNat
    (f.requested numBytes position).toNat).length : ℤ) = f.requested numBytes position := by
  rw [Represents.length_part, requested, hv.fileLength_eq]
  omega

include hsum

lemma readAt_part (disk : Disk) (fresh : Memory) : f.readAt disk fresh numBytes position =
    .ok (part (f.hdr.bytes disk) position.toNat (f.requested numBytes position).toNat) := by
  obtain hneg | hpos := le_or_gt numBytes 0
  · have hzero : f.requested numBytes position = 0 := max_eq_left (by omega)
    rw [readAt, if_pos (.inl hneg), hzero]
    rfl
  · obtain ⟨n, hn⟩ := Int.eq_ofNat_of_zero_le hpos.le
    obtain ⟨p, rfl⟩ := Int.eq_ofNat_of_zero_le hp
    rw [requested_eq hv hp hn, hn, readAt_eq hv disk fresh (by omega), Int.toNat_natCast,
      Int.toNat_natCast, part]
    refine congrArg Except.ok ?_
    rw [take_drop_bytes, take_drop_bytes]
    congr 1
    omega

lemma writeAt_overlay (disk : Disk) (fresh : ℕ → Memory) (source : Memory) : ∃ disk',
    f.writeAt disk fresh source numBytes position = .ok (f.requested numBytes position, disk') ∧
    f.hdr.bytes disk' = overlay (f.hdr.bytes disk) position.toNat
      (f.requested numBytes position).toNat source ∧ ∀ x ∉ f.hdr.sectors, disk' x = disk x := by
  obtain hneg | hpos := le_or_gt numBytes 0
  · have hzero : f.requested numBytes position = 0 := max_eq_left (by omega)
    refine ⟨disk, ?_, ?_, fun _ _ => rfl⟩
    · rw [writeAt, if_pos (.inl hneg), hzero]
    · rw [hzero, Int.toNat_zero]
      refine Represents.bytes_of_wrote ⟨fun _ _ => rfl, fun k _ => ?_⟩
      rw [copyAt, if_neg (by omega)]
  · obtain ⟨n, hn⟩ := Int.eq_ofNat_of_zero_le hpos.le
    obtain ⟨p, rfl⟩ := Int.eq_ofNat_of_zero_le hp
    obtain ⟨disk', hwrite, hwrote⟩ := writeAt_eq (n := n) (p := p) hv disk fresh source (by omega)
    rw [requested_eq hv hp hn, hn, Int.toNat_natCast, Int.toNat_natCast]
    refine ⟨disk', hwrite, Represents.bytes_of_wrote ?_, hwrote.others⟩
    rwa [min_eq_left (Nat.min_le_right ..)]

end AsArray

/-- **`ReadAt` and `WriteAt` are operations on an array of bytes**, for every position that is not
negative and every count whose sum with it is an `int`. -/
theorem asArray (hv : f.hdr.Covers) (disk : Disk) (hp : 0 ≤ position)
    (hsum : position + numBytes < 2 ^ 31) : AsArray f disk numBytes position where
  readAt fresh := readAt_part hv hp hsum disk fresh
  length := length_part_requested hv hp
  writeAt fresh source := by
    obtain ⟨disk', hwrite, hbytes, hother⟩ := writeAt_overlay hv hp hsum disk fresh source
    refine ⟨disk', hwrite, hbytes, hother, fun fresh' numBytes' position' hp' hsum' => ?_⟩
    rw [readAt_part hv hp' hsum' disk' fresh', hbytes]

/-- A file of three bytes in sector 9. -/
def threeBytes : OpenFile := ⟨⟨3, 1, fun _ => 9⟩, 0⟩

lemma covers_threeBytes : threeBytes.hdr.Covers where
  numBytes := rfl
  count_le := by decide
  covers := by decide
  dataSectors _ _ := rfl
  block_lt _ _ := by
    show 9 < numSectors
    decide
  block_inj {i j} hi hj _ := by
    have hcount : threeBytes.hdr.count = 1 := rfl
    omega

/-- Five bytes from the second one on, of a disk of zeros. -/
theorem asArray_threeBytes : AsArray threeBytes (fun _ _ => 0) 5 1 :=
  asArray covers_threeBytes (fun _ _ => 0) (by decide) (by decide)

/-! ### Requests that the check does not see -/

/-- Nothing is transferred, and nothing is touched. -/
def Refused (f : OpenFile) (numBytes position : ℤ) : Prop :=
  (∀ disk fresh, f.readAt disk fresh numBytes position = .ok []) ∧
    ∀ disk fresh source, f.writeAt disk fresh source numBytes position = .ok (0, disk)

/-- The range of `n` bytes is in the file, its sectors are sectors of the file, and what is copied
is in the buffer. -/
structure InFile (f : OpenFile) (n position : ℤ) : Prop where
  range : 0 ≤ position ∧ 0 ≤ n ∧ position + n ≤ f.hdr.fileLength
  sectors : 0 ≤ firstSector position ∧ firstSector position ≤ lastSector n position ∧
    lastSector n position < FileHeader.sectorsFor f.hdr.size
  buffer : InBuffer (position - firstSector position * sectorSize) n
    ((1 + lastSector n position - firstSector position) * sectorSize)

/-- **The bounds of a transfer**, for the number of bytes that is left after the check. -/
def Bounded (f : OpenFile) (numBytes position : ℤ) : Prop :=
  Refused f numBytes position ∨ InFile f (f.clip numBytes position) position

section Bounded

/-- A transfer that completes is of the number of bytes that is left after the check. -/
lemma count_of_writeAt {fresh : ℕ → Memory} {source : Memory} {r : ℤ × Disk}
    (hcheck : ¬ (numBytes ≤ 0 ∨ position ≥ f.hdr.fileLength))
    (h : f.writeAt disk fresh source numBytes position = .ok r) :
    r.1 = f.clip numBytes position := by
  rw [writeAt, if_neg hcheck] at h
  dsimp only at h
  split at h
  next => cases h
  next =>
    obtain ⟨buf, -, h⟩ := bind_eq_ok h
    split at h
    next =>
      obtain ⟨disk', -, h⟩ := bind_eq_ok h
      cases h
      rfl
    next => cases h

variable (hlen : 0 ≤ f.hdr.fileLength ∧ f.hdr.fileLength ≤ maxFileSize)
  (hn : numBytes < 2 ^ 31) (hp : -2 ^ 31 ≤ position)
include hlen

include hp in
/-- What is refused are the requests that the check sees. -/
lemma refused_iff : Refused f numBytes position ↔ numBytes ≤ 0 ∨ position ≥ f.hdr.fileLength := by
  refine ⟨fun h => ?_, fun h => ⟨fun disk fresh => if_pos h, fun disk fresh source => if_pos h⟩⟩
  by_contra hcheck
  have hzero : (0 : ℤ) = f.clip numBytes position :=
    count_of_writeAt hcheck (h.2 (fun _ _ => 0) (fun _ _ => 0) fun _ => 0)
  have hmax : (maxFileSize : ℤ) = 3840 := rfl
  rw [clip] at hzero
  split at hzero
  next =>
    obtain hsmall | hlarge := lt_or_ge (f.hdr.fileLength - position) (2 ^ 31)
    · rw [int_eq (by omega) hsmall] at hzero
      omega
    · rw [int_sub hlarge (by omega)] at hzero
      omega
  next => omega

/-- The number of bytes that is left, when the sum is an `int`. -/
lemma clip_eq_min (hp : 0 ≤ position) (hpos : 0 < numBytes) (hsum : position + numBytes < 2 ^ 31) :
    f.clip numBytes position = min numBytes (f.hdr.fileLength - position) := by
  have hmax : (maxFileSize : ℤ) = 3840 := rfl
  rw [clip, int_eq (by omega) hsum]
  split
  next =>
    rw [int_eq (by omega) (by omega)]
    omega
  next => omega

include hn in
/-- When the range is in the file, for a request that the check lets through. -/
lemma inFile_iff (hpos : 0 < numBytes) (hlt : position < f.hdr.fileLength) :
    InFile f (f.clip numBytes position) position ↔
      0 ≤ position ∧ position + numBytes < 2 ^ 31 := by
  have hmax : (maxFileSize : ℤ) = 3840 := rfl
  refine ⟨fun h => ⟨h.range.1, ?_⟩, fun ⟨hp, hsum⟩ => ?_⟩
  · by_contra hsum
    obtain ⟨hp, -, hle⟩ := h.range
    have hint : int (position + numBytes) = position + numBytes - 2 ^ 32 :=
      int_sub (by omega) (by omega)
    rw [clip, hint, if_neg (by omega)] at hle
    omega
  · rw [clip_eq_min hlen hp hpos hsum]
    obtain ⟨p, rfl⟩ := Int.eq_ofNat_of_zero_le hp
    obtain ⟨m, hm⟩ := Int.eq_ofNat_of_zero_le
      (show 0 ≤ min numBytes (f.hdr.fileLength - p) by omega)
    have hsize : f.hdr.fileLength = f.hdr.size := (Int.toNat_of_nonneg hlen.1).symm
    obtain ⟨hfirst, hlast, hcount, hstart⟩ := request_eq (p := p) (m := m) (by omega) (by omega)
    have hdiv : p / sectorSize ≤ (p + m - 1) / sectorSize := Nat.div_le_div_right (by omega)
    rw [hm]
    refine ⟨⟨hp, by omega, by omega⟩, ?_, ?_⟩
    · rw [hfirst, hlast, FileHeader.sectorsFor]
      refine ⟨Int.natCast_nonneg _, Int.ofNat_le.2 hdiv, Int.ofNat_lt.2 ?_⟩
      have hle : p + m ≤ f.hdr.size := by omega
      simp only [sectorSize]
      omega
    · rw [hfirst, hlast, hcount, hstart]
      exact inBuffer_request (by omega)

end Bounded

/-- **When a transfer keeps to the file**: nothing is asked for, or the position is behind the end,
or it is not negative and its sum with the count is an `int`. -/
theorem bounded_iff (f : OpenFile) (numBytes position : Word)
    (hlen : 0 ≤ f.hdr.fileLength ∧ f.hdr.fileLength ≤ maxFileSize) :
    Bounded f numBytes.toInt position.toInt ↔
      numBytes.toInt ≤ 0 ∨ position.toInt ≥ f.hdr.fileLength ∨
        (0 ≤ position.toInt ∧ position.toInt + numBytes.toInt < 2 ^ 31) := by
  have hn : numBytes.toInt < 2 ^ 31 := numBytes.toInt_lt
  have hp : -2 ^ 31 ≤ position.toInt := position.le_toInt
  rw [Bounded, refused_iff hlen hp]
  by_cases hcheck : numBytes.toInt ≤ 0 ∨ position.toInt ≥ f.hdr.fileLength
  · exact iff_of_true (.inl hcheck) (hcheck.imp_right .inl)
  · rw [inFile_iff hlen hn (by omega) (by omega)]
    tauto

/-- The second byte of three. -/
theorem bounded_iff_threeBytes : Bounded threeBytes 1 1 ↔
    (1 : Word).toInt ≤ 0 ∨ (1 : Word).toInt ≥ threeBytes.hdr.fileLength ∨
      (0 ≤ (1 : Word).toInt ∧ (1 : Word).toInt + (1 : Word).toInt < 2 ^ 31) :=
  bounded_iff threeBytes 1 1 (by decide)

/-- The byte in front of the file is read. -/
theorem not_bounded : ¬ ∀ (f : OpenFile) (numBytes position : Word),
    0 ≤ f.hdr.fileLength ∧ f.hdr.fileLength ≤ maxFileSize →
      Bounded f numBytes.toInt position.toInt := by
  intro h
  obtain hrefused | hin := h threeBytes 1 (-1) (by decide)
  · have hread := hrefused.1 (fun _ _ => 0) fun _ => 0
    have herror : threeBytes.readAt (fun _ _ => 0) (fun _ => 0) (1 : Word).toInt (-1 : Word).toInt =
        .error .memory := rfl
    rw [herror] at hread
    cases hread
  · exact absurd hin.range.1 (by decide)

end OpenFile

end Nachos.Filesys
