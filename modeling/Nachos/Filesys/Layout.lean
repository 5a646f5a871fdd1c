import Nachos.Lib.Regions
import Nachos.Filesys.Entries

/-!
# The layout of the disk

The sectors 0 and 1 hold the headers of the free map and the directory. Each entry of the directory
that is in use has a header, and each header has data sectors. On a disk that is well formed, all
these sectors are different, they are the ones that the free map marks, and the names of the entries
differ.
-/

namespace Nachos.Filesys

open Lib Threads Userprog Mips

/-- The header in a sector. -/
def headerAt (disk : Disk) (sector : ℕ) : FileHeader := FileHeader.ofMemory (disk sector)

/-- The directory on the disk. -/
def directoryOn (disk : Disk) : Directory := ⟨(headerAt disk directorySector).content disk⟩

/-- The free map in memory. -/
def mapOf (m : Memory) : BitMap := ⟨numSectors, wordsOf m⟩

/-- The free map on the disk. -/
def freeMapOn (disk : Disk) : BitMap := mapOf ((headerAt disk freeMapSector).content disk)

/-- The headers and the data sectors of the free map and the directory. -/
def systemSectors (disk : Disk) : List ℕ :=
  freeMapSector :: directorySector ::
    ((headerAt disk freeMapSector).sectors ++ (headerAt disk directorySector).sectors)

/-- The header and the data sectors of an entry of the directory. -/
def fileSectors (disk : Disk) : Option (List Byte × ℤ) → List ℕ
  | none => []
  | some (_, sector) => sector.toNat :: (headerAt disk sector.toNat).sectors

/-- The sectors that are in use. -/
def used (disk : Disk) : List ℕ :=
  regions (systemSectors disk) (fun i => fileSectors disk ((directoryOn disk).entry i))
    numDirEntries

/-! ### Whole files -/

section Whole

variable {f : OpenFile} {n x : ℕ} {m m' : Memory}

/-- A file is read as a whole. -/
lemma read_whole (hv : f.hdr.Valid) (hn : f.hdr.size = n) (disk : Disk) (buf old : Memory) :
    ∃ data, f.readAt disk buf n 0 = .ok data ∧
      ∀ l < n, copyAt old 0 data.length (data.getD · 0) l = f.hdr.content disk l := by
  have hle : f.hdr.size ≤ 3840 := hv.size_le
  have hread := OpenFile.readAt_eq (n := n) (p := 0) hv.covers disk buf (by omega)
  rw [OpenFile.take_drop_bytes, hn, Nat.sub_zero, Nat.min_self] at hread
  refine ⟨_, hread, fun l hl => ?_⟩
  rw [length_slice, copyAt_of_mem (Nat.zero_le l) (by omega), Nat.sub_zero, getD_slice hl,
    Nat.zero_add]

/-- A file is written as a whole. -/
lemma write_whole (hv : f.hdr.Valid) (hn : f.hdr.size = n) (disk : Disk) (fresh : ℕ → Memory)
    (source : Memory) : ∃ r, f.writeAt disk fresh source n 0 = .ok r ∧
      (∀ x ∉ f.hdr.sectors, r.2 x = disk x) ∧ ∀ l < n, f.hdr.content r.2 l = source l := by
  have hle : f.hdr.size ≤ 3840 := hv.size_le
  obtain ⟨disk', hwrite, hwrote⟩ :=
    OpenFile.writeAt_eq (n := n) (p := 0) hv.covers disk fresh source (by omega)
  refine ⟨_, hwrite, hwrote.others, fun l hl => ?_⟩
  rw [hwrote.content l (by omega), copyAt_of_mem (Nat.zero_le l) (by omega), Nat.sub_zero]

/-- A free map depends on its bytes. -/
lemma bit_mapOf_congr (h : ∀ k < freeMapFileSize, m' k = m k) (hx : x < numSectors) :
    (mapOf m').bit x = (mapOf m).bit x := by
  refine BitMap.bit_congr (wordsOf_congr fun j hj => h _ ?_)
  simp only [bitsInWord, freeMapFileSize, numSectors] at *
  omega

lemma bit_mapOf_bytesOf (b : BitMap) : (mapOf (bytesOf b.map)).bit x = b.bit x :=
  BitMap.bit_congr (wordsOf_bytesOf _)

end Whole

/-! ### The two system files -/

/-- The free map and the directory can be read and written. -/
structure SystemFiles (disk : Disk) : Prop where
  mapHdr : (headerAt disk freeMapSector).Valid
  mapSize : (headerAt disk freeMapSector).size = freeMapFileSize
  dirHdr : (headerAt disk directorySector).Valid
  dirSize : (headerAt disk directorySector).size = directoryFileSize
  nodup : (systemSectors disk).Nodup

section SystemFiles

variable {disk disk' : Disk} {fresh buf : Memory} {file : OpenFile} {x : ℕ}

namespace SystemFiles

variable (hs : SystemFiles disk)
include hs

/-- The data sectors of the free map hold nothing else. -/
lemma of_mem_map (hx : x ∈ (headerAt disk freeMapSector).sectors) :
    x ≠ freeMapSector ∧ x ≠ directorySector ∧ x ∉ (headerAt disk directorySector).sectors := by
  obtain ⟨hmap, hdir⟩ := List.nodup_cons.mp hs.nodup
  obtain ⟨hdir, hdata⟩ := List.nodup_cons.mp hdir
  refine ⟨?_, ?_, fun hx' => (List.nodup_append'.mp hdata).2.2 hx hx'⟩
  · rintro rfl
    exact hmap (List.mem_cons_of_mem _ (List.mem_append_left _ hx))
  · rintro rfl
    exact hdir (List.mem_append_left _ hx)

/-- The data sectors of the directory hold nothing else. -/
lemma of_mem_dir (hx : x ∈ (headerAt disk directorySector).sectors) :
    x ≠ freeMapSector ∧ x ≠ directorySector ∧ x ∉ (headerAt disk freeMapSector).sectors := by
  obtain ⟨hmap, hdir⟩ := List.nodup_cons.mp hs.nodup
  refine ⟨?_, ?_, fun hx' => (hs.of_mem_map hx').2.2 hx⟩
  · rintro rfl
    exact hmap (List.mem_cons_of_mem _ (List.mem_append_right _ hx))
  · rintro rfl
    exact (List.nodup_cons.mp hdir).1 (List.mem_append_right _ hx)

section Congr

variable (hmap : disk' freeMapSector = disk freeMapSector)
  (hdir : disk' directorySector = disk directorySector)
include hmap hdir

omit hs in
lemma systemSectors_congr : systemSectors disk' = systemSectors disk := by
  rw [systemSectors, systemSectors, headerAt, headerAt, headerAt, headerAt, hmap, hdir]

/-- The headers decide. -/
lemma congr : SystemFiles disk' := by
  have hm : headerAt disk' freeMapSector = headerAt disk freeMapSector :=
    congrArg FileHeader.ofMemory hmap
  have hd : headerAt disk' directorySector = headerAt disk directorySector :=
    congrArg FileHeader.ofMemory hdir
  refine ⟨?_, ?_, ?_, ?_, ?_⟩
  · exact hm ▸ hs.mapHdr
  · exact hm ▸ hs.mapSize
  · exact hd ▸ hs.dirHdr
  · exact hd ▸ hs.dirSize
  · rw [systemSectors_congr hmap hdir]
    exact hs.nodup

end Congr

/-- The directory depends on its sectors. -/
lemma entry_congr (hdir : disk' directorySector = disk directorySector)
    (h : ∀ x ∈ (headerAt disk directorySector).sectors, disk' x = disk x) :
    (directoryOn disk').entry = (directoryOn disk).entry := by
  refine Directory.entry_eq fun l hl => ?_
  have hd : headerAt disk' directorySector = headerAt disk directorySector :=
    congrArg FileHeader.ofMemory hdir
  rw [directoryOn, directoryOn, hd]
  exact hs.dirHdr.covers.content_congr h (hs.dirSize ▸ hl)

/-- The free map depends on its sectors. -/
lemma bit_congr (hmap : disk' freeMapSector = disk freeMapSector)
    (h : ∀ x ∈ (headerAt disk freeMapSector).sectors, disk' x = disk x) (hx : x < numSectors) :
    (freeMapOn disk').bit x = (freeMapOn disk).bit x := by
  have hm : headerAt disk' freeMapSector = headerAt disk freeMapSector :=
    congrArg FileHeader.ofMemory hmap
  rw [freeMapOn, freeMapOn, hm]
  refine bit_mapOf_congr (fun k hk => ?_) hx
  exact hs.mapHdr.covers.content_congr h (hs.mapSize ▸ hk)

/-! ### Copies of the system files -/

/-- `Directory::FetchFrom`. -/
lemma fetchDirectory_eq (hf : file.hdr = headerAt disk directorySector) (d : Directory)
    (buf : Memory) :
    ∃ d', d.fetchFrom disk buf file = .ok d' ∧ d'.entry = (directoryOn disk).entry := by
  have hsize : file.hdr.size = Directory.size := hf ▸ hs.dirSize
  obtain ⟨data, hread, hdata⟩ := read_whole (hf ▸ hs.dirHdr) hsize disk buf d.table
  refine ⟨⟨copyAt d.table 0 data.length (data.getD · 0)⟩, ?_, Directory.entry_eq fun l hl => ?_⟩
  · rw [Directory.fetchFrom, hread, ok_bind]
    rfl
  · rw [directoryOn, ← hf]
    exact hdata l hl

/-- `BitMap::FetchFrom`. -/
lemma fetchMap_eq (hf : file.hdr = headerAt disk freeMapSector) (buf : Memory) :
    ∃ b, fetchMap (BitMap.new numSectors) disk buf file = .ok b ∧ b.numBits = numSectors ∧
      ∀ x < numSectors, b.bit x = (freeMapOn disk).bit x := by
  have hsize : file.hdr.size = freeMapFileSize := hf ▸ hs.mapSize
  obtain ⟨data, hread, hdata⟩ := read_whole (hf ▸ hs.mapHdr) hsize disk buf
    (bytesOf (BitMap.new numSectors).map)
  have hwords : numWords (BitMap.new numSectors) * 4 = (freeMapFileSize : ℕ) := by decide
  refine ⟨mapOf (copyAt (bytesOf (BitMap.new numSectors).map) 0 data.length (data.getD · 0)), ?_,
    rfl, fun x hx => ?_⟩
  · rw [fetchMap, hwords, hread, ok_bind]
    rfl
  · rw [freeMapOn, ← hf]
    exact bit_mapOf_congr hdata hx

/-- `Directory::WriteBack`. -/
lemma writeDirectory_eq (hf : file.hdr = headerAt disk directorySector) (d : Directory)
    (fresh : ℕ → Memory) :
    ∃ disk', d.writeBack disk fresh file = .ok disk' ∧
      (∀ x ∉ (headerAt disk directorySector).sectors, disk' x = disk x) ∧
      (directoryOn disk').entry = d.entry ∧
      ∀ x < numSectors, (freeMapOn disk').bit x = (freeMapOn disk).bit x := by
  have hsize : file.hdr.size = Directory.size := hf ▸ hs.dirSize
  obtain ⟨r, hwrite, hother, hdata⟩ := write_whole (hf ▸ hs.dirHdr) hsize disk fresh d.table
  rw [hf] at hother hdata
  have hdir : headerAt r.2 directorySector = headerAt disk directorySector :=
    congrArg FileHeader.ofMemory (hother _ fun h => (hs.of_mem_dir h).2.1 rfl)
  refine ⟨r.2, ?_, hother, Directory.entry_eq fun l hl => ?_, fun x hx => ?_⟩
  · rw [Directory.writeBack, hwrite, ok_bind]
    rfl
  · rw [directoryOn, hdir]
    exact hdata l hl
  · refine hs.bit_congr (hother _ fun h => (hs.of_mem_dir h).1 rfl) (fun x hx => ?_) hx
    exact hother x (hs.of_mem_map hx).2.2

/-- `BitMap::WriteBack`. -/
lemma writeMap_eq (hf : file.hdr = headerAt disk freeMapSector) {b : BitMap}
    (hb : b.numBits = numSectors) (fresh : ℕ → Memory) :
    ∃ disk', writeMap b disk fresh file = .ok disk' ∧
      (∀ x ∉ (headerAt disk freeMapSector).sectors, disk' x = disk x) ∧
      (directoryOn disk').entry = (directoryOn disk).entry ∧
      ∀ x < numSectors, (freeMapOn disk').bit x = b.bit x := by
  have hsize : file.hdr.size = freeMapFileSize := hf ▸ hs.mapSize
  obtain ⟨r, hwrite, hother, hdata⟩ := write_whole (hf ▸ hs.mapHdr) hsize disk fresh (bytesOf b.map)
  rw [hf] at hother hdata
  have hmap : headerAt r.2 freeMapSector = headerAt disk freeMapSector :=
    congrArg FileHeader.ofMemory (hother _ fun h => (hs.of_mem_map h).1 rfl)
  have hwords : numWords b * 4 = (freeMapFileSize : ℕ) := by
    rw [numWords, hb]
    decide
  refine ⟨r.2, ?_, hother, ?_, fun x hx => ?_⟩
  · rw [writeMap, hwords, hwrite, ok_bind]
    rfl
  · refine hs.entry_congr (hother _ fun h => (hs.of_mem_map h).2.1 rfl) fun x hx => ?_
    exact hother x (hs.of_mem_dir hx).2.2
  · rw [freeMapOn, hmap, ← bit_mapOf_bytesOf b]
    exact bit_mapOf_congr hdata hx

end SystemFiles

/-! ### Both files are written -/

/-- A directory and a free map have been written back, and nothing else. -/
structure Flushed (disk disk' : Disk) (d : Directory) (b : BitMap) : Prop where
  files : SystemFiles disk'
  map : headerAt disk' freeMapSector = headerAt disk freeMapSector
  dir : headerAt disk' directorySector = headerAt disk directorySector
  others : ∀ x, x ∉ (headerAt disk freeMapSector).sectors →
    x ∉ (headerAt disk directorySector).sectors → disk' x = disk x
  entry : (directoryOn disk').entry = d.entry
  bit : ∀ x < numSectors, (freeMapOn disk').bit x = b.bit x

lemma Flushed.systemSectors {d : Directory} {b : BitMap} (h : Flushed disk disk' d b) :
    systemSectors disk' = systemSectors disk := by
  rw [Filesys.systemSectors, Filesys.systemSectors, h.map, h.dir]

section Flush

variable {mapFile dirFile : OpenFile} {b : BitMap} (hs : SystemFiles disk)
  (hmap : mapFile.hdr = headerAt disk freeMapSector)
  (hdir : dirFile.hdr = headerAt disk directorySector) (hb : b.numBits = numSectors)
include hs hmap hdir hb

lemma flush_directory_map (d : Directory) (fresh fresh' : ℕ → Memory) :
    ∃ disk₁ disk₂, d.writeBack disk fresh dirFile = .ok disk₁ ∧
      writeMap b disk₁ fresh' mapFile = .ok disk₂ ∧ Flushed disk disk₂ d b := by
  obtain ⟨disk₁, hwrite, hother, hentry, -⟩ := hs.writeDirectory_eq hdir d fresh
  have hm : disk₁ freeMapSector = disk freeMapSector := hother _ fun h => (hs.of_mem_dir h).1 rfl
  have hd : disk₁ directorySector = disk directorySector :=
    hother _ fun h => (hs.of_mem_dir h).2.1 rfl
  have hs₁ := hs.congr hm hd
  have hmap₁ : headerAt disk₁ freeMapSector = headerAt disk freeMapSector :=
    congrArg FileHeader.ofMemory hm
  obtain ⟨disk₂, hwrite₂, hother₂, hentry₂, hbit₂⟩ :=
    hs₁.writeMap_eq (hmap.trans hmap₁.symm) hb fresh'
  have hm₂ := hother₂ _ fun h => (hs₁.of_mem_map h).1 rfl
  have hd₂ := hother₂ _ fun h => (hs₁.of_mem_map h).2.1 rfl
  refine ⟨disk₁, disk₂, hwrite, hwrite₂, hs₁.congr hm₂ hd₂, ?_, ?_, fun x hxm hxd => ?_, ?_, hbit₂⟩
  · rw [headerAt, headerAt, hm₂, hm]
  · rw [headerAt, headerAt, hd₂, hd]
  · rw [hother₂ x (hmap₁ ▸ hxm), hother x hxd]
  · rw [hentry₂, hentry]

lemma flush_map_directory (d : Directory) (fresh fresh' : ℕ → Memory) :
    ∃ disk₁ disk₂, writeMap b disk fresh mapFile = .ok disk₁ ∧
      d.writeBack disk₁ fresh' dirFile = .ok disk₂ ∧ Flushed disk disk₂ d b := by
  obtain ⟨disk₁, hwrite, hother, -, hbit⟩ := hs.writeMap_eq hmap hb fresh
  have hm : disk₁ freeMapSector = disk freeMapSector := hother _ fun h => (hs.of_mem_map h).1 rfl
  have hd : disk₁ directorySector = disk directorySector :=
    hother _ fun h => (hs.of_mem_map h).2.1 rfl
  have hs₁ := hs.congr hm hd
  have hdir₁ : headerAt disk₁ directorySector = headerAt disk directorySector :=
    congrArg FileHeader.ofMemory hd
  obtain ⟨disk₂, hwrite₂, hother₂, hentry₂, hbit₂⟩ :=
    hs₁.writeDirectory_eq (hdir.trans hdir₁.symm) d fresh'
  have hm₂ := hother₂ _ fun h => (hs₁.of_mem_dir h).1 rfl
  have hd₂ := hother₂ _ fun h => (hs₁.of_mem_dir h).2.1 rfl
  refine ⟨disk₁, disk₂, hwrite, hwrite₂, hs₁.congr hm₂ hd₂, ?_, ?_, fun x hxm hxd => ?_, hentry₂,
    fun x hx => ?_⟩
  · rw [headerAt, headerAt, hm₂, hm]
  · rw [headerAt, headerAt, hd₂, hd]
  · rw [hother₂ x (hdir₁ ▸ hxd), hother x hxm]
  · rw [hbit₂ x hx, hbit x hx]

end Flush

end SystemFiles

/-! ### Well-formed disks -/

/-- **What holds of a disk between the operations.** -/
structure WellFormed (disk : Disk) : Prop where
  files : SystemFiles disk
  /-- the headers of the entries -/
  header : ∀ {i k s}, (directoryOn disk).entry i = some (k, s) →
    0 ≤ s ∧ s < numSectors ∧ (headerAt disk s.toNat).Valid
  distinct : (used disk).Nodup
  marked : ∀ x < numSectors, (freeMapOn disk).bit x = true ↔ x ∈ used disk
  names : ∀ {i j k s s'}, (directoryOn disk).entry i = some (k, s) →
    (directoryOn disk).entry j = some (k, s') → i = j

section WellFormed

variable {disk disk' : Disk} {i j x : ℕ} {k : List Byte} {s : ℤ}

lemma fileSectors_congr (h : disk' s.toNat = disk s.toNat) :
    fileSectors disk' (some (k, s)) = fileSectors disk (some (k, s)) := by
  rw [fileSectors, fileSectors, headerAt, headerAt, h]

namespace WellFormed

variable (hw : WellFormed disk)
include hw

/-- The sectors of an entry are not those of the system files. -/
lemma not_system (he : (directoryOn disk).entry i = some (k, s))
    (hx : x ∈ fileSectors disk (some (k, s))) : x ∉ systemSectors disk := by
  obtain ⟨-, -, hdisj, -⟩ := nodup_regions.mp hw.distinct
  intro hx'
  refine hdisj i (Directory.lt_of_entry he) x hx' ?_
  rwa [he]

/-- The sectors of two entries are different. -/
lemma not_other {k' : List Byte} {s' : ℤ} (he : (directoryOn disk).entry i = some (k, s))
    (he' : (directoryOn disk).entry j = some (k', s')) (hij : i ≠ j)
    (hx : x ∈ fileSectors disk (some (k, s))) : x ∉ fileSectors disk (some (k', s')) := by
  obtain ⟨-, -, -, hpair⟩ := nodup_regions.mp hw.distinct
  have h := hpair i (Directory.lt_of_entry he) j (Directory.lt_of_entry he') hij x
  rw [he, he'] at h
  exact h hx

omit hw in
lemma mem_used (he : (directoryOn disk).entry i = some (k, s))
    (hx : x ∈ fileSectors disk (some (k, s))) : x ∈ used disk :=
  mem_regions.mpr (.inr ⟨i, Directory.lt_of_entry he, by rwa [he]⟩)

end WellFormed

end WellFormed

end Nachos.Filesys
