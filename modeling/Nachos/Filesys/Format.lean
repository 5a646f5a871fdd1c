import Nachos.Filesys.Operations

/-!
# A formatted disk

`FileSystem(TRUE)` goes through on every disk, and the disk is well formed then, with no file and
all sectors free but those of the free map and the directory.
-/

namespace Nachos.Filesys

open Lib Threads Userprog Mips

/-- `FileSystem(FALSE)`. -/
theorem mount_eq (disk : Disk) : FileSystem.mount disk =
    .ok ⟨disk, ⟨headerAt disk freeMapSector, 0⟩, ⟨headerAt disk directorySector, 0⟩⟩ := by
  have hmap : OpenFile.new disk freeMapSector = .ok ⟨headerAt disk freeMapSector, 0⟩ := by
    rw [OpenFile.new, FileHeader.fetchFrom, readSector_eq (by decide)]
    rfl
  have hdir : OpenFile.new disk directorySector = .ok ⟨headerAt disk directorySector, 0⟩ := by
    rw [OpenFile.new, FileHeader.fetchFrom, readSector_eq (by decide)]
    rfl
  rw [FileSystem.mount, hmap, ok_bind, hdir, ok_bind]
  rfl

/-- A new directory has no entry. -/
lemma Directory.entry_new (fresh : Memory) (i : ℕ) : (Directory.new fresh).entry i = none := by
  refine Directory.entry_eq_none ?_
  have hi : entrySize * i % entrySize = 0 := Nat.mul_mod_right _ _
  have htable : (Directory.new fresh).table (entrySize * i) = 0 := if_pos hi
  rw [Directory.inUse, htable]
  rfl

/-- A new directory has been written, and the free map of its sectors. -/
structure Formatted (fs : FileSystem) : Prop where
  wellFormed : WellFormed fs.disk
  mounted : Mounted fs
  entry : ∀ i, (directoryOn fs.disk).entry i = none
  numClear : (freeMapOn fs.disk).numClear = numSectors - 5

namespace FileSystem

/-- The free map with the two headers. -/
def initialMap : BitMap := ((BitMap.new numSectors).setBit freeMapSector).setBit directorySector

lemma numClear_initialMap : initialMap.numClear = numSectors - 2 := by
  have hnew : (BitMap.new numSectors).numClear = numSectors := by
    rw [BitMap.numClear, BitMap.numBits_new, List.countP_eq_length.mpr, List.length_range]
    exact fun i _ => by rw [BitMap.bit_new]; rfl
  have h₁ := BitMap.numClear_setBit (b := BitMap.new numSectors) (i := freeMapSector) (by decide)
    BitMap.bit_new
  have h₂ := BitMap.numClear_setBit (b := (BitMap.new numSectors).setBit freeMapSector)
    (i := directorySector) (by decide) (by simp [BitMap.bit_setBit])
  rw [initialMap]
  omega

lemma bit_initialMap (x : ℕ) :
    initialMap.bit x = true ↔ x = freeMapSector ∨ x = directorySector := by
  simp [initialMap, BitMap.bit_setBit, or_comm]

/-- The disk with the headers of the free map and the directory. -/
def withHeaders (disk : Disk) (mapHdr dirHdr : FileHeader) : Disk :=
  let disk := Function.update disk freeMapSector
    (copyAt (disk freeMapSector) 0 sectorSize (bytesOf mapHdr.word))
  Function.update disk directorySector
    (copyAt (disk directorySector) 0 sectorSize (bytesOf dirHdr.word))

section Headers

variable (disk : Disk) {mapHdr dirHdr : FileHeader} {b₁ b₂ : BitMap}
  (hmap : FileHeader.Took initialMap freeMapFileSize mapHdr b₁)
  (hdir : FileHeader.Took b₁ directoryFileSize dirHdr b₂)
include hmap hdir

/-- The headers can be read, and the free map marks their sectors. -/
lemma systemFiles_withHeaders : SystemFiles (withHeaders disk mapHdr dirHdr) ∧
    ∀ x, b₂.bit x = true ↔ x ∈ systemSectors (withHeaders disk mapHdr dirHdr) := by
  have hsameMap :
      FileHeader.Same mapHdr (headerAt (withHeaders disk mapHdr dirHdr) freeMapSector) := by
    rw [headerAt, withHeaders, Function.update_of_ne (by decide), Function.update_self]
    exact FileHeader.same_ofMemory _ _
  have hsameDir :
      FileHeader.Same dirHdr (headerAt (withHeaders disk mapHdr dirHdr) directorySector) := by
    rw [headerAt, withHeaders, Function.update_self]
    exact FileHeader.same_ofMemory _ _
  have hsectors : systemSectors (withHeaders disk mapHdr dirHdr) =
      freeMapSector :: directorySector :: (mapHdr.sectors ++ dirHdr.sectors) := by
    rw [systemSectors, hsameMap.sectors_eq hmap.valid, hsameDir.sectors_eq hdir.valid]
  have hbit₁ : ∀ x, b₁.bit x = true ↔
      (x = freeMapSector ∨ x = directorySector) ∨ x ∈ mapHdr.sectors := fun x => by
    rw [hmap.bit_iff, bit_initialMap]
  have hnew : ∀ x ∈ dirHdr.sectors,
      ¬ ((x = freeMapSector ∨ x = directorySector) ∨ x ∈ mapHdr.sectors) := fun x hx => by
    rw [← hbit₁, hdir.clear x hx]
    exact Bool.false_ne_true
  have hnew' : ∀ x ∈ mapHdr.sectors, ¬ (x = freeMapSector ∨ x = directorySector) := fun x hx => by
    rw [← bit_initialMap, hmap.clear x hx]
    exact Bool.false_ne_true
  refine ⟨⟨hsameMap.valid hmap.valid, hsameMap.size_eq.trans hmap.size_eq,
    hsameDir.valid hdir.valid, hsameDir.size_eq.trans hdir.size_eq, ?_⟩, fun x => ?_⟩
  · rw [hsectors, List.nodup_cons, List.nodup_cons, List.mem_cons, List.mem_append, List.mem_append,
      List.nodup_append']
    refine ⟨?_, ?_, hmap.valid.covers.nodup_sectors, hdir.valid.covers.nodup_sectors, fun x hx hx' => ?_⟩
    · rintro (h | h | h)
      · exact absurd h (by decide)
      · exact hnew' _ h (.inl rfl)
      · exact hnew _ h (.inl (.inl rfl))
    · rintro (h | h)
      · exact hnew' _ h (.inr rfl)
      · exact hnew _ h (.inl (.inr rfl))
    · exact hnew x hx' (.inr hx)
  · rw [hdir.bit_iff, hbit₁, hsectors, List.mem_cons, List.mem_cons, List.mem_append]
    tauto

end Headers

/-- The disk after the new directory and the free map have been written. -/
lemma formatted {disk₂ disk₄ : Disk} {fresh : Memory} {b : BitMap}
    (hflush : Flushed disk₂ disk₄ (Directory.new fresh) b)
    (hmarked : ∀ x, b.bit x = true ↔ x ∈ systemSectors disk₂) (hb : b.numBits = numSectors)
    (hclear : b.numClear = numSectors - 5) :
    Formatted ⟨disk₄, ⟨headerAt disk₂ freeMapSector, 0⟩, ⟨headerAt disk₂ directorySector, 0⟩⟩ := by
  have hentry : ∀ i, (directoryOn disk₄).entry i = none := fun i => by
    rw [hflush.entry, Directory.entry_new]
  have hused : used disk₄ = systemSectors disk₄ := by
    simp [used, regions, hentry, fileSectors]
  refine ⟨⟨hflush.files, fun {i k s} he => ?_, ?_, fun x hx => ?_, fun {i j k s s'} he => ?_⟩,
    ⟨hflush.map.symm, hflush.dir.symm⟩, hentry, ?_⟩
  · rw [hentry] at he
    cases he
  · rw [hused]
    exact hflush.files.nodup
  · rw [hflush.bit x hx, hmarked, hused, hflush.systemSectors]
  · rw [hentry] at he
    cases he
  · rw [← hclear]
    exact BitMap.numClear_congr hb.symm fun x hx => hflush.bit x (hb ▸ hx)

/-- **What formatting does.** -/
theorem format_eq (disk : Disk) (fresh : ℕ → Memory) :
    ∃ fs, format disk fresh = .ok fs ∧ Formatted fs := by
  have hbits : initialMap.numBits = numSectors := rfl
  have hroom : FileHeader.sectorsFor freeMapFileSize = 1 ∧
      FileHeader.sectorsFor directoryFileSize = 2 := by decide
  have hclear := numClear_initialMap
  rcases FileHeader.allocate_eq (FileHeader.ofMemory (fresh 0)) hbits
    (show freeMapFileSize ≤ maxFileSize by decide) with
    ⟨hfull, -⟩ | ⟨-, mapHdr, b₁, halloc₁, htook₁⟩
  · rw [hclear, hroom.1] at hfull
    exact absurd hfull (by decide)
  have hb₁ : b₁.numBits = numSectors := htook₁.numBits
  have hclear₁ := htook₁.numClear
  rcases FileHeader.allocate_eq (FileHeader.ofMemory (fresh 1)) hb₁
    (show directoryFileSize ≤ maxFileSize by decide) with
    ⟨hfull, -⟩ | ⟨-, dirHdr, b₂, halloc₂, htook₂⟩
  · rw [hclear, hroom.1] at hclear₁
    rw [hroom.2] at hfull
    simp only [numSectors] at hclear₁
    omega
  have hclear₂ := htook₂.numClear
  obtain ⟨disk₁, hwrite₁, hwrite₂⟩ : ∃ disk₁, mapHdr.writeBack disk freeMapSector = .ok disk₁ ∧
      dirHdr.writeBack disk₁ directorySector = .ok (withHeaders disk mapHdr dirHdr) :=
    ⟨_, writeSector_eq (by decide) _ _, writeSector_eq (by decide) _ _⟩
  obtain ⟨hfiles, hmarked⟩ := systemFiles_withHeaders disk htook₁ htook₂
  have hb₂ : b₂.numBits = numSectors := htook₂.numBits.trans hb₁
  generalize withHeaders disk mapHdr dirHdr = disk₂ at hwrite₂ hfiles hmarked
  have hmapFile : (OpenFile.mk (headerAt disk₂ freeMapSector) 0).hdr =
      headerAt disk₂ freeMapSector := rfl
  have hdirFile : (OpenFile.mk (headerAt disk₂ directorySector) 0).hdr =
      headerAt disk₂ directorySector := rfl
  obtain ⟨disk₃, disk₄, hwrite₃, hwrite₄, hflush⟩ := flush_map_directory hfiles hmapFile hdirFile hb₂
    (Directory.new (fresh 2)) (fun i => fresh (3 + i)) (fun i => fresh (6 + i))
  refine ⟨⟨disk₄, ⟨headerAt disk₂ freeMapSector, 0⟩, ⟨headerAt disk₂ directorySector, 0⟩⟩, ?_,
    formatted hflush hmarked hb₂ ?_⟩
  · have hmark₁ : (BitMap.new numSectors).mark freeMapSector =
        .ok ((BitMap.new numSectors).setBit freeMapSector) := if_pos (by decide)
    have hmark₂ : ((BitMap.new numSectors).setBit freeMapSector).mark directorySector =
        .ok initialMap := if_pos (by decide)
    rw [format, hmark₁, ok_bind, hmark₂, ok_bind, halloc₁, ok_bind]
    dsimp only
    rw [if_neg (by decide), halloc₂, ok_bind]
    dsimp only
    rw [if_neg (by decide), hwrite₁, ok_bind, hwrite₂, ok_bind, mount_eq, ok_bind]
    dsimp only
    rw [hwrite₃, ok_bind, hwrite₄, ok_bind]
    rfl
  · rw [hroom.1] at hclear₁
    rw [hroom.2] at hclear₂
    simp only [numSectors] at *
    omega

end FileSystem

end Nachos.Filesys
