import Nachos.Filesys.Format

/-!
# `Create` and sizes that no file has

`Create` asks for the sectors of a file before anything else looks at its size. A negative size asks
for none, and such a file is created; a size above `MaxFileSize` asks for more than the header has
places for, and when there are as many the header is overrun.
-/

namespace Nachos.Filesys

open Lib Threads Userprog Mips

/-- There is a file with the name. -/
def Named (disk : Disk) (k : List Byte) : Prop := ∃ i s, (directoryOn disk).entry i = some (k, s)

/-- A file of the size can be created. -/
structure Fits (disk : Disk) (k : List Byte) (size : ℤ) : Prop where
  absent : ¬ Named disk k
  inRange : 0 ≤ size ∧ size ≤ maxFileSize
  entry : 0 < (directoryOn disk).numFree
  sectors : 1 + FileHeader.sectorsFor size.toNat ≤ (freeMapOn disk).numClear

/-- **What `Create` is meant to do**: it goes through, returns `TRUE` when the file can be created,
and when it returns `FALSE` has changed nothing. -/
def Decides (fs : FileSystem) (name : Memory) (size : ℤ) : Prop :=
  ∀ fresh, ∃ r, fs.create fresh name size = .ok r ∧
    (r.1 = true ↔ Fits fs.disk (key name) size) ∧ (r.1 = false → r.2 = fs)

/-- The sizes do not matter: `Create` fails before it looks at them, or there are too few
sectors. -/
def TooFew (disk : Disk) (k : List Byte) (size : ℤ) : Prop :=
  Named disk k ∨ (directoryOn disk).numFree = 0 ∨ (freeMapOn disk).numClear = 0 ∨
    (maxFileSize < size ∧ (freeMapOn disk).numClear < 1 + FileHeader.sectorsFor size.toNat)

namespace FileHeader

/-- A negative size asks for no sector. -/
lemma allocate_neg (hdr : FileHeader) (b : BitMap) {size : ℤ} (h : size < 0) :
    ∃ hdr', hdr.allocate b size = .ok (true, hdr', b) := by
  have hsectors : divRoundUp size sectorSize ≤ 0 := by
    obtain ⟨n, hn⟩ := Int.eq_ofNat_of_zero_le (a := -size) (by omega)
    have hneg : size = -(n : ℤ) := by omega
    have hmod : size.tmod sectorSize = -((n % sectorSize : ℕ) : ℤ) := by
      rw [hneg, Int.neg_tmod, Int.tmod_eq_emod_of_nonneg (by omega), Int.natCast_emod]
    have hdiv : size.tdiv sectorSize = -((n / sectorSize : ℕ) : ℤ) := by
      rw [hneg, Int.neg_tdiv, tdiv_eq (by omega), Int.toNat_natCast]
    rw [divRoundUp, hmod, hdiv, if_neg (by omega)]
    generalize n / sectorSize = q
    omega
  rw [allocate]
  rw [if_neg (by omega), Int.toNat_of_nonpos hsectors]
  exact ⟨_, rfl⟩

/-- The header has no place for more than `NumDirect` sectors. -/
lemma allocateSectors_overrun {n i : ℕ} (hdr : FileHeader) (b : BitMap) (hi : i ≤ numDirect)
    (hn : numDirect < i + n) : allocateSectors n i hdr b = .error .memory := by
  induction n generalizing i hdr b with
  | zero => omega
  | succ n ih =>
    rw [allocateSectors]
    split
    next hlt => exact ih _ _ hlt (by omega)
    next => rfl

/-- A size that is too large is rejected for want of sectors, or the header is overrun. -/
lemma allocate_large (hdr : FileHeader) (b : BitMap) {n : ℕ} (h : maxFileSize < n) :
    (b.numClear < sectorsFor n ∧ ∃ hdr', hdr.allocate b n = .ok (false, hdr', b)) ∨
      (sectorsFor n ≤ b.numClear ∧ hdr.allocate b n = .error .memory) := by
  rw [allocate, divRoundUp_eq, Int.toNat_natCast]
  by_cases hroom : b.numClear < sectorsFor n
  · exact .inl ⟨hroom, _, if_pos (by omega)⟩
  · refine .inr ⟨Nat.le_of_not_lt hroom, ?_⟩
    have hcount : numDirect < 0 + sectorsFor n := by
      simp only [sectorsFor, sectorSize, numDirect, maxFileSize] at h ⊢
      omega
    rw [if_neg (by omega), allocateSectors_overrun _ _ (Nat.zero_le _) hcount]
    rfl

end FileHeader

namespace FileSystem

variable {fs : FileSystem} {name : Memory} {size : ℤ}

lemma fits_of_created {fs' : FileSystem} {k : List Byte} {n i sector : ℕ}
    (hc : Created fs fs' k n i sector) (hn : n ≤ maxFileSize) : Fits fs.disk k n := by
  have hclear := hc.numClear
  have hfree := Directory.numFree_update hc.lt rfl hc.entry hc.free (by simp)
    fun j hj => Function.update_of_ne hj ..
  refine ⟨fun ⟨j, s, hj⟩ => hc.absent j s hj, ⟨by omega, by exact_mod_cast hn⟩, by omega, ?_⟩
  rw [Int.toNat_natCast]
  omega

variable (hw : WellFormed fs.disk) (hm : Mounted fs)
include hw hm

/-- With a size that a file can have, `Create` does what it is meant to do. -/
lemma decides_of_size (hsize : 0 ≤ size ∧ size ≤ maxFileSize) : Decides fs name size := by
  intro fresh
  obtain ⟨n, rfl⟩ := Int.eq_ofNat_of_zero_le hsize.1
  have hn : n ≤ maxFileSize := by exact_mod_cast hsize.2
  obtain ⟨r, hcreate, ⟨rfl, hno⟩ | ⟨htrue, i, sector, hc⟩⟩ := create_eq hw hm fresh name hn
  · refine ⟨_, hcreate, iff_of_false Bool.false_ne_true fun hfits => ?_, fun _ => rfl⟩
    have hentry := hfits.entry
    have hsectors := hfits.sectors
    rw [Int.toNat_natCast] at hsectors
    rcases hno with hnamed | hfull | hfew
    · exact hfits.absent hnamed
    · omega
    · omega
  · refine ⟨r, hcreate, iff_of_true htrue (fits_of_created hc hn), fun hfalse => ?_⟩
    rw [htrue] at hfalse
    cases hfalse

/-- With the others, when it fails for another reason. -/
lemma decides_iff_of_not_size (hsize : ¬ (0 ≤ size ∧ size ≤ maxFileSize)) :
    Decides fs name size ↔ TooFew fs.disk (key name) size := by
  have hnot : ¬ Fits fs.disk (key name) size := fun hfits => hsize hfits.inRange
  refine ⟨fun hdecides => ?_, fun hfew fresh => ?_⟩
  · by_contra hroom
    obtain ⟨r, hcreate, htrue, -⟩ := hdecides fun _ _ => 0
    have hfalse : r.1 = false := Bool.eq_false_iff.2 fun h => hnot (htrue.1 h)
    obtain ⟨-, hwhy⟩ | ⟨d, b, i, sector, hready, heq⟩ := create_cases hw hm (fun _ _ => 0) name size
    · exact hroom (hwhy.imp_right (Or.imp_right .inl))
    · rw [heq] at hcreate
      obtain hneg | hpos := lt_or_ge size 0
      · obtain ⟨hdr', halloc⟩ := FileHeader.allocate_neg (.ofMemory fun _ => 0) (b.setBit sector) hneg
        rw [halloc, ok_bind] at hcreate
        dsimp only at hcreate
        rw [if_neg (by decide)] at hcreate
        obtain ⟨disk₁, -, hcreate⟩ := bind_eq_ok hcreate
        obtain ⟨disk₂, -, hcreate⟩ := bind_eq_ok hcreate
        obtain ⟨disk₃, -, hcreate⟩ := bind_eq_ok hcreate
        cases hcreate
        cases hfalse
      · obtain ⟨n, rfl⟩ := Int.eq_ofNat_of_zero_le hpos
        have hlarge : maxFileSize < n := by
          simp only [maxFileSize, numDirect, sectorSize] at hsize ⊢
          omega
        have hclear := hready.numClear_setBit
        obtain ⟨hlt, -⟩ | ⟨-, halloc⟩ :=
          FileHeader.allocate_large (.ofMemory fun _ => 0) (b.setBit sector) hlarge
        · refine hroom (.inr (.inr (.inr ⟨by exact_mod_cast hlarge, ?_⟩)))
          rw [Int.toNat_natCast]
          omega
        · rw [halloc] at hcreate
          cases hcreate
  · have hfails : fs.create fresh name size = .ok (false, fs) := by
      obtain ⟨heq, -⟩ | ⟨d, b, i, sector, hready, heq⟩ := create_cases hw hm fresh name size
      · exact heq
      · have hclear := hready.numClear_setBit
        rcases hfew with ⟨j, s, hj⟩ | hfull | hnone | ⟨hlarge, hlt⟩
        · exact absurd hj (hready.absent j s)
        · have hsome := List.countP_eq_zero.1 hfull i (List.mem_range.2 hready.index)
          rw [hready.free] at hsome
          exact absurd rfl hsome
        · omega
        · obtain ⟨n, rfl⟩ := Int.eq_ofNat_of_zero_le (a := size) (by omega)
          rw [Int.toNat_natCast] at hlt
          obtain ⟨-, hdr', halloc⟩ | ⟨hle, -⟩ :=
            FileHeader.allocate_large (.ofMemory (fresh 3)) (b.setBit sector) (by exact_mod_cast hlarge)
          · rw [heq, halloc]
            rfl
          · omega
    exact ⟨_, hfails, iff_of_false Bool.false_ne_true hnot, fun _ => rfl⟩

/-- **When `Create` rejects impossible sizes**: the size is one that a file can have, or there is
no room anyway. -/
theorem decides_iff (name : Memory) (initialSize : Word) :
    Decides fs name initialSize.toInt ↔
      (0 ≤ initialSize.toInt ∧ initialSize.toInt ≤ maxFileSize) ∨
        TooFew fs.disk (key name) initialSize.toInt := by
  by_cases hsize : 0 ≤ initialSize.toInt ∧ initialSize.toInt ≤ maxFileSize
  · exact iff_of_true (decides_of_size hw hm hsize) (.inl hsize)
  · rw [decides_iff_of_not_size hw hm hsize, or_iff_right hsize]

omit hw hm

/-- On a formatted disk there is room. -/
lemma not_tooFew_format {disk : Disk} {fresh : ℕ → Memory} {k : List Byte}
    (h : format disk fresh = .ok fs) (hsize : size ≤ maxFileSize) : ¬ TooFew fs.disk k size := by
  obtain ⟨fs', hformat, hf⟩ := format_eq disk fresh
  rw [h] at hformat
  cases hformat
  have hfree : (directoryOn fs.disk).numFree = numDirEntries := by
    rw [Directory.numFree, List.countP_eq_length.mpr, List.length_range]
    exact fun i _ => by rw [hf.entry]; rfl
  rintro (⟨i, s, he⟩ | hfull | hnone | ⟨hlarge, -⟩)
  · rw [hf.entry] at he
    cases he
  · rw [hfree] at hfull
    cases hfull
  · rw [hf.numClear] at hnone
    cases hnone
  · omega

/-- A file of -1 bytes. -/
theorem not_decides : ¬ ∀ (fs : FileSystem) (name : Memory) (initialSize : Word),
    WellFormed fs.disk → Mounted fs → Decides fs name initialSize.toInt := by
  intro h
  obtain ⟨fs, hformat, hf⟩ := format_eq (fun _ _ => 0) fun _ _ => 0
  have hdecides := h fs (fun _ => 0) (-1) hf.wellFormed hf.mounted
  rw [decides_iff_of_not_size hf.wellFormed hf.mounted (by decide)] at hdecides
  exact not_tooFew_format hformat (by decide) hdecides

/-- A file of 100 bytes, on a formatted disk. -/
theorem decides_iff_format : ∃ fs, format (fun _ _ => 0) (fun _ _ => 0) = .ok fs ∧
    (Decides fs (fun _ => 0) (100 : Word).toInt ↔
      (0 ≤ (100 : Word).toInt ∧ (100 : Word).toInt ≤ maxFileSize) ∨
        TooFew fs.disk (key fun _ => 0) (100 : Word).toInt) := by
  obtain ⟨fs, hformat, hf⟩ := format_eq (fun _ _ => 0) fun _ _ => 0
  exact ⟨fs, hformat, decides_iff hf.wellFormed hf.mounted _ 100⟩

end FileSystem

end Nachos.Filesys
