import Nachos.Filesys.Update

/-!
# What the operations do

On a well-formed disk, `Create`, `Open` and `Remove` go through, and each is described by the
entry of the directory that it adds, finds or drops.
-/

namespace Nachos.Filesys

open Lib Threads Userprog Mips

/-- The open files of the file system have the headers that are on the disk. -/
structure Mounted (fs : FileSystem) : Prop where
  map : fs.freeMapFile.hdr = headerAt fs.disk freeMapSector
  dir : fs.directoryFile.hdr = headerAt fs.disk directorySector

/-- The name is in use, or there is no free entry, or there are too few free sectors. -/
def NoRoom (disk : Disk) (k : List Byte) (n : ℕ) : Prop :=
  (∃ i s, (directoryOn disk).entry i = some (k, s)) ∨ (directoryOn disk).numFree = 0 ∨
    (freeMapOn disk).numClear < 1 + FileHeader.sectorsFor n

/-- A file of `n` bytes has been created, in the entry `i`, with its header in `sector`. -/
structure Created (fs fs' : FileSystem) (k : List Byte) (n i sector : ℕ) : Prop where
  wellFormed : WellFormed fs'.disk
  mounted : Mounted fs'
  absent : ∀ j s, (directoryOn fs.disk).entry j ≠ some (k, s)
  lt : i < numDirEntries
  free : (directoryOn fs.disk).entry i = none
  entry : (directoryOn fs'.disk).entry =
    Function.update (directoryOn fs.disk).entry i (some (k, (sector : ℤ)))
  size : (headerAt fs'.disk sector).size = n
  unused : sector ∉ used fs.disk
  others : ∀ x, x ∉ systemSectors fs.disk → x ≠ sector → fs'.disk x = fs.disk x
  numClear : (freeMapOn fs'.disk).numClear + (1 + FileHeader.sectorsFor n) =
    (freeMapOn fs.disk).numClear

/-- The file of the entry `i`, with its header in `sector`, has been removed. -/
structure Removed (fs fs' : FileSystem) (k : List Byte) (i sector : ℕ) : Prop where
  wellFormed : WellFormed fs'.disk
  mounted : Mounted fs'
  found : (directoryOn fs.disk).entry i = some (k, (sector : ℤ))
  entry : (directoryOn fs'.disk).entry = Function.update (directoryOn fs.disk).entry i none
  others : ∀ x, x ∉ systemSectors fs.disk → fs'.disk x = fs.disk x
  numClear : (freeMapOn fs'.disk).numClear =
    (freeMapOn fs.disk).numClear + (1 + FileHeader.sectorsFor (headerAt fs.disk sector).size)

/-- What `Create` has when it asks for the sectors of the data: the free map `b`, a sector for the
header, and the directory with the name in the entry `i`. -/
structure Ready (fs : FileSystem) (k : List Byte) (d : Directory) (b : BitMap) (i sector : ℕ) :
    Prop where
  lt : sector < numSectors
  unset : b.bit sector = false
  numBits : b.numBits = numSectors
  bit : ∀ x < numSectors, b.bit x = (freeMapOn fs.disk).bit x
  numClear : b.numClear = (freeMapOn fs.disk).numClear
  index : i < numDirEntries
  free : (directoryOn fs.disk).entry i = none
  absent : ∀ j s, (directoryOn fs.disk).entry j ≠ some (k, s)
  entry : d.entry = Function.update (directoryOn fs.disk).entry i (some (k, (sector : ℤ)))

/-- The sector of the header is taken before those of the data. -/
lemma Ready.numClear_setBit {fs : FileSystem} {k : List Byte} {d : Directory} {b : BitMap}
    {i sector : ℕ} (h : Ready fs k d b i sector) :
    (b.setBit sector).numClear + 1 = (freeMapOn fs.disk).numClear := by
  rw [← h.numClear]
  exact BitMap.numClear_setBit (h.numBits.symm ▸ h.lt) h.unset

namespace FileSystem

section Operations

variable {fs : FileSystem} {fresh : ℕ → Memory} {name : Memory} {n : ℕ}
  (hw : WellFormed fs.disk) (hm : Mounted fs)
include hw hm

lemma fetchDirectory_eq (new buf : Memory) : ∃ d, fs.fetchDirectory new buf = .ok d ∧
    d.entry = (directoryOn fs.disk).entry :=
  hw.files.fetchDirectory_eq hm.dir _ buf

lemma fetchFreeMap_eq (buf : Memory) : ∃ b, fs.fetchFreeMap buf = .ok b ∧
    b.numBits = numSectors ∧ (∀ x < numSectors, b.bit x = (freeMapOn fs.disk).bit x) ∧
      b.numClear = (freeMapOn fs.disk).numClear := by
  obtain ⟨b, hfetch, hb, hbit⟩ := hw.files.fetchMap_eq hm.map buf
  refine ⟨b, hfetch, hb, hbit, BitMap.numClear_congr hb fun x hx => hbit x hx⟩

/-- The header, the directory and the free map are written. -/
lemma created {d : Directory} {b b' : BitMap} {hdr : FileHeader} {i sector : ℕ} {k : List Byte}
    (hready : Ready fs k d b i sector) (htook : FileHeader.Took (b.setBit sector) n hdr b')
    (fresh fresh' : ℕ → Memory) :
    ∃ disk₁ disk₂ disk₃, hdr.writeBack fs.disk sector = .ok disk₁ ∧
      d.writeBack disk₁ fresh fs.directoryFile = .ok disk₂ ∧
      writeMap b' disk₂ fresh' fs.freeMapFile = .ok disk₃ ∧
      Created fs { fs with disk := disk₃ } k n i sector := by
  obtain ⟨hsector, hunset, hb, hbit, -, hi, hfree, hnone, hentry⟩ := hready
  have hunused : sector ∉ used fs.disk := by
    rw [← hw.marked sector hsector, ← hbit sector hsector, hunset]
    exact Bool.false_ne_true
  have hnot : ∀ x ∈ systemSectors fs.disk, x ≠ sector := by
    rintro x hx rfl
    exact hunused (mem_regions.mpr (.inl hx))
  obtain ⟨disk₁, hwrite, hdisk₁⟩ : ∃ disk₁, hdr.writeBack fs.disk sector = .ok disk₁ ∧
      disk₁ = Function.update fs.disk sector
        (copyAt (fs.disk sector) 0 sectorSize (bytesOf hdr.word)) :=
    ⟨_, writeSector_eq hsector _ _, rfl⟩
  have hm₁ : disk₁ freeMapSector = fs.disk freeMapSector := by
    rw [hdisk₁, Function.update_of_ne (hnot _ List.mem_cons_self)]
  have hd₁ : disk₁ directorySector = fs.disk directorySector := by
    rw [hdisk₁, Function.update_of_ne (hnot _ (List.mem_cons_of_mem _ List.mem_cons_self))]
  have hmap : fs.freeMapFile.hdr = headerAt disk₁ freeMapSector := by
    rw [hm.map, headerAt, headerAt, hm₁]
  have hdir : fs.directoryFile.hdr = headerAt disk₁ directorySector := by
    rw [hm.dir, headerAt, headerAt, hd₁]
  obtain ⟨disk₂, disk₃, hwrite₂, hwrite₃, hflush⟩ := flush_directory_map
    (hw.files.congr hm₁ hd₁) hmap hdir (htook.numBits.trans hb) d fresh fresh'
  have hclear : ∀ x ∈ hdr.sectors, b.bit x = false ∧ x ≠ sector := by
    intro x hx
    have h := htook.clear x hx
    rw [BitMap.bit_setBit, Bool.or_eq_false_iff, decide_eq_false_iff_not] at h
    exact ⟨h.2, h.1⟩
  have hdata : ∀ x ∈ hdr.sectors, x ∉ used fs.disk ∧ x ≠ sector := by
    intro x hx
    have hx' : x < numSectors := by
      obtain ⟨j, hj, rfl⟩ := FileHeader.mem_sectors.mp hx
      exact htook.valid.block_lt j hj
    refine ⟨?_, (hclear x hx).2⟩
    rw [← hw.marked x hx', ← hbit x hx', (hclear x hx).1]
    exact Bool.false_ne_true
  obtain ⟨hwf, hnew, hothers⟩ := hw.add hsector hunused htook.valid hdata hi hfree hnone hdisk₁
    hflush hentry fun x hx => by
      rw [htook.bit_iff, BitMap.bit_setBit, Bool.or_eq_true, decide_eq_true_eq, hbit x hx, or_assoc,
        or_left_comm]
  refine ⟨disk₁, disk₂, disk₃, hwrite, hwrite₂, hwrite₃, hwf, ⟨?_, ?_⟩, hnone, hi, hfree,
    hflush.entry.trans hentry, hnew.size_eq.trans htook.size_eq, hunused, hothers, ?_⟩
  · exact hmap.trans hflush.map.symm
  · exact hdir.trans hflush.dir.symm
  · have hnum := htook.numClear
    have hset := BitMap.numClear_setBit (hb ▸ hsector) hunset
    have hb' : b.numClear = (freeMapOn fs.disk).numClear :=
      BitMap.numClear_congr hb fun x hx => hbit x hx
    have hb'' : (freeMapOn disk₃).numClear = b'.numClear := by
      refine BitMap.numClear_congr (htook.numBits.trans hb).symm fun x hx => hflush.bit x ?_
      rwa [htook.numBits, BitMap.numBits_setBit, hb] at hx
    show (freeMapOn disk₃).numClear + _ = _
    omega

/-- `Create` fails before it looks at the size, or has found room for the header and the name. -/
lemma create_cases (fresh : ℕ → Memory) (name : Memory) (size : ℤ) :
    (fs.create fresh name size = .ok (false, fs) ∧
      ((∃ i s, (directoryOn fs.disk).entry i = some (key name, s)) ∨
        (directoryOn fs.disk).numFree = 0 ∨ (freeMapOn fs.disk).numClear = 0)) ∨
    ∃ d b i sector, Ready fs (key name) d b i sector ∧
      fs.create fresh name size = (do
        let hdr ← (FileHeader.ofMemory (fresh 3)).allocate (b.setBit sector) size
        if !hdr.1 then
          return (false, fs)
        let disk ← hdr.2.1.writeBack fs.disk sector
        let disk ← d.writeBack disk (fun i => fresh (4 + i)) fs.directoryFile
        let disk ← writeMap hdr.2.2 disk (fun i => fresh (7 + i)) fs.freeMapFile
        return (true, { fs with disk := disk })) := by
  obtain ⟨d, hfetch, hd⟩ := fetchDirectory_eq hw hm (fresh 0) (fresh 1)
  obtain ⟨b, hfetch', hb, hbit, hclear⟩ := fetchFreeMap_eq hw hm (fresh 2)
  rw [create, hfetch, ok_bind]
  rcases d.find_cases name with ⟨i, s, he, -, hfind⟩ | ⟨hnone, hindex, hfind⟩
  · -- the name is in use
    rw [hd] at he
    have hs : s ≠ -1 := by
      have := (hw.header he).1
      omega
    rw [hfind, if_pos hs]
    exact .inl ⟨rfl, .inl ⟨i, s, he⟩⟩
  rw [hd] at hnone
  rw [hfind, if_neg (by decide), hfetch', ok_bind]
  rcases b.find_cases with ⟨sector, hsector, hunset, -, hfound⟩ | ⟨hall, hfound⟩
  swap
  · -- there is no free sector
    rw [hfound]
    refine .inl ⟨rfl, .inr (.inr ?_)⟩
    rw [← hclear, BitMap.numClear_eq_zero_iff.mpr hall]
  rw [hb] at hsector
  rw [hfound]
  dsimp only
  rw [if_neg (by omega)]
  rcases Directory.add_cases (s := sector) hindex (by omega) (by rw [numSectors] at hsector; omega) with
    ⟨i, hi, hfree, d', hadd, hentry⟩ | ⟨hfull, hadd⟩
  swap
  · -- there is no free entry
    rw [hadd]
    refine .inl ⟨rfl, .inr (.inl ?_)⟩
    rw [← Directory.numFree_congr hd]
    exact hfull
  rw [hadd]
  dsimp only
  rw [if_neg (by decide)]
  exact .inr ⟨d', b, i, sector, ⟨hsector, hunset, hb, hbit, hclear, hi, hd ▸ hfree, hnone,
    hd ▸ hentry⟩, rfl⟩

/-- **What `Create` does.** -/
theorem create_eq (fresh : ℕ → Memory) (name : Memory) (hn : n ≤ maxFileSize) :
    ∃ r, fs.create fresh name n = .ok r ∧
      (r = (false, fs) ∧ NoRoom fs.disk (key name) n ∨
        r.1 = true ∧ ∃ i sector, Created fs r.2 (key name) n i sector) := by
  obtain ⟨hfails, hwhy⟩ | ⟨d, b, i, sector, hready, hcreate⟩ := create_cases hw hm fresh name n
  · refine ⟨_, hfails, .inl ⟨rfl, hwhy.imp_right (Or.imp_right fun hzero => ?_)⟩⟩
    rw [hzero]
    omega
  have hclear := hready.numClear_setBit
  rw [hcreate]
  rcases FileHeader.allocate_eq (b := b.setBit sector) (FileHeader.ofMemory (fresh 3)) hready.numBits hn
    with ⟨hroom, hdr, halloc⟩ | ⟨-, hdr, b', halloc, htook⟩
  · -- there are too few sectors for the data
    rw [halloc, ok_bind]
    refine ⟨_, rfl, .inl ⟨rfl, .inr (.inr ?_)⟩⟩
    omega
  obtain ⟨disk₁, disk₂, disk₃, hwrite₁, hwrite₂, hwrite₃, hcreated⟩ := created hw hm hready htook
    (fun i => fresh (4 + i)) (fun i => fresh (7 + i))
  rw [halloc, ok_bind]
  dsimp only
  rw [if_neg (by decide), hwrite₁, ok_bind, hwrite₂, ok_bind, hwrite₃, ok_bind]
  exact ⟨_, rfl, .inr ⟨rfl, i, sector, hcreated⟩⟩

omit hm in
/-- `OpenFile::OpenFile`, for a file of the directory. -/
lemma new_eq {i : ℕ} {k : List Byte} {s : ℤ} (he : (directoryOn fs.disk).entry i = some (k, s)) :
    OpenFile.new fs.disk s = .ok ⟨headerAt fs.disk s.toNat, 0⟩ ∧
      FileHeader.fetchFrom fs.disk s = .ok (headerAt fs.disk s.toNat) := by
  obtain ⟨hs, hs', -⟩ := hw.header he
  obtain ⟨x, rfl⟩ := Int.eq_ofNat_of_zero_le hs
  have hread := readSector_eq (x := x) (by omega) fs.disk
  have hfetch : FileHeader.fetchFrom fs.disk x = .ok (headerAt fs.disk x) := by
    rw [FileHeader.fetchFrom, hread, ok_bind]
    rfl
  refine ⟨?_, hfetch⟩
  rw [OpenFile.new, hfetch, ok_bind]
  rfl

/-- **What `Open` does.** -/
theorem openFile_eq (fresh : ℕ → Memory) (name : Memory) :
    ∃ r, fs.openFile fresh name = .ok r ∧
      (r = none ∧ (∀ i s, (directoryOn fs.disk).entry i ≠ some (key name, s)) ∨
        ∃ i s, (directoryOn fs.disk).entry i = some (key name, s) ∧
          r = some (s, ⟨headerAt fs.disk s.toNat, 0⟩)) := by
  obtain ⟨d, hfetch, hd⟩ := fetchDirectory_eq hw hm (fresh 0) (fresh 1)
  rw [openFile, hfetch, ok_bind]
  rcases d.find_cases name with ⟨i, s, he, -, hfind⟩ | ⟨hnone, -, hfind⟩
  · rw [hd] at he
    rw [hfind]
    dsimp only
    rw [if_pos (hw.header he).1, (new_eq hw he).1]
    exact ⟨_, rfl, .inr ⟨i, s, he, rfl⟩⟩
  · rw [hd] at hnone
    rw [hfind]
    exact ⟨_, rfl, .inl ⟨rfl, hnone⟩⟩

/-- **What `Remove` does.** -/
theorem remove_eq (fresh : ℕ → Memory) (name : Memory) :
    ∃ r, fs.remove fresh name = .ok r ∧
      (r = (none, fs) ∧ (∀ i s, (directoryOn fs.disk).entry i ≠ some (key name, s)) ∨
        ∃ i, ∃ sector : ℕ, r.1 = some (sector : ℤ) ∧ Removed fs r.2 (key name) i sector) := by
  obtain ⟨d, hfetch, hd⟩ := fetchDirectory_eq hw hm (fresh 0) (fresh 1)
  obtain ⟨b, hfetch', hb, hbit, hclear⟩ := fetchFreeMap_eq hw hm (fresh 2)
  rw [remove, hfetch, ok_bind]
  rcases d.find_cases name with ⟨i, s, he, hindex, hfind⟩ | ⟨hnone, -, hfind⟩
  swap
  · -- there is no such file
    rw [hd] at hnone
    rw [hfind]
    exact ⟨_, rfl, .inl ⟨rfl, hnone⟩⟩
  rw [hd] at he
  have hfile := (new_eq hw he).2
  obtain ⟨hs, hs', hv⟩ := hw.header he
  obtain ⟨sector, rfl⟩ := Int.eq_ofNat_of_zero_le hs
  rw [Int.toNat_natCast] at hv hfile
  -- its sectors are marked
  have hset : ∀ x ∈ sector :: (headerAt fs.disk sector).sectors, x < numSectors ∧ b.bit x = true := by
    intro x hx
    have hx' : x < numSectors := by
      rcases List.mem_cons.mp hx with rfl | hx
      · omega
      · obtain ⟨j, hj, rfl⟩ := FileHeader.mem_sectors.mp hx
        exact hv.block_lt j hj
    exact ⟨hx', by rw [hbit x hx']; exact (hw.marked x hx').mpr (WellFormed.mem_used he hx)⟩
  have hdistinct : sector ∉ (headerAt fs.disk sector).sectors := by
    obtain ⟨-, hslot, -, -⟩ := nodup_regions.mp hw.distinct
    have hnodup := hslot i (Directory.lt_of_entry he)
    rw [he] at hnodup
    exact (List.nodup_cons.mp hnodup).1
  obtain ⟨b₁, hfree₁, hgave₁⟩ := FileHeader.deallocate_eq hv hb fun x hx =>
    (hset x (List.mem_cons_of_mem _ hx)).2
  obtain ⟨hfree₂, hgave₂⟩ := FileHeader.clear_gaveBack (b := b₁) (x := sector)
    (by rw [hgave₁.numBits, hb]; omega)
    ((hgave₁.bit_iff sector).mpr ⟨(hset sector List.mem_cons_self).2, hdistinct⟩)
  have hgave := hgave₁.trans hgave₂
  obtain ⟨d', hremove, hentry⟩ := Directory.remove_eq hindex
  rw [hd] at hentry
  obtain ⟨disk₁, disk₂, hwrite₁, hwrite₂, hflush⟩ := flush_map_directory hw.files hm.map hm.dir
    (hgave.numBits.trans hb) d' (fun i => fresh (3 + i)) (fun i => fresh (6 + i))
  rw [hfind]
  dsimp only
  rw [if_neg (by omega), hfile, ok_bind, hfetch', ok_bind, hfree₁, ok_bind, hfree₂, ok_bind, hwrite₁,
    ok_bind, hremove, hwrite₂, ok_bind]
  refine ⟨_, rfl, .inr ⟨i, sector, rfl, ?_, ⟨hm.map.trans hflush.map.symm,
    hm.dir.trans hflush.dir.symm⟩, he, hflush.entry.trans hentry, fun x hx => ?_, ?_⟩⟩
  · refine hw.drop he hflush hentry fun x hx => ?_
    rw [hgave.bit_iff, hbit x hx, fileSectors, Int.toNat_natCast]
    simp [or_comm]
  · refine hflush.others x (fun h => hx ?_) (fun h => hx ?_)
    · exact List.mem_cons_of_mem _ (List.mem_cons_of_mem _ (List.mem_append_left _ h))
    · exact List.mem_cons_of_mem _ (List.mem_cons_of_mem _ (List.mem_append_right _ h))
  · have hbits : (freeMapOn disk₂).numClear = (b₁.clearBit sector).numClear := by
      refine BitMap.numClear_congr (hgave.numBits.trans hb).symm fun x hx => hflush.bit x ?_
      rwa [hgave.numBits, hb] at hx
    have hlength : ((headerAt fs.disk sector).sectors ++ [sector]).length =
        1 + FileHeader.sectorsFor (headerAt fs.disk sector).size := by
      rw [List.length_append, FileHeader.length_sectors, hv.count_eq, List.length_singleton,
        Nat.add_comm]
    show (freeMapOn disk₂).numClear = _
    rw [hbits, hgave.numClear, hlength, hclear]

end Operations

end FileSystem

end Nachos.Filesys
