import Nachos.Filesys.Layout

/-!
# Updates of a well-formed disk

A file is added, removed or written: the disk stays well formed, and the sectors of the other files
stay as they are.
-/

namespace Nachos.Filesys

open Lib Threads Userprog Mips

section Update

variable {disk disk₁ disk' : Disk} {d : Directory} {b : BitMap} {hdr : FileHeader}
  {i sector : ℕ} {k : List Byte} {s : ℤ}

/-- The sectors that are in use depend on the headers. -/
lemma used_congr (hsystem : systemSectors disk' = systemSectors disk)
    (hentry : (directoryOn disk').entry = (directoryOn disk).entry)
    (hheader : ∀ {i k s}, (directoryOn disk).entry i = some (k, s) →
      disk' s.toNat = disk s.toNat) : used disk' = used disk := by
  have hfile : (fun i => fileSectors disk' ((directoryOn disk').entry i)) =
      fun i => fileSectors disk ((directoryOn disk).entry i) := by
    funext i
    rw [hentry]
    cases he : (directoryOn disk).entry i with
    | none => rfl
    | some e => exact fileSectors_congr (hheader he)
  rw [used, used, hsystem, hfile]

/-- The sectors that are in use after one entry has changed. -/
lemma used_update {e : Option (List Byte × ℤ)}
    (hsystem : systemSectors disk' = systemSectors disk)
    (hentry : (directoryOn disk').entry = Function.update (directoryOn disk).entry i e)
    (hheader : ∀ {j k s}, (directoryOn disk).entry j = some (k, s) → disk' s.toNat = disk s.toNat) :
    used disk' = regions (systemSectors disk)
      (Function.update (fun j => fileSectors disk ((directoryOn disk).entry j)) i
        (fileSectors disk' e)) numDirEntries := by
  have hfile : (fun j => fileSectors disk' ((directoryOn disk').entry j)) =
      Function.update (fun j => fileSectors disk ((directoryOn disk).entry j)) i
        (fileSectors disk' e) := by
    funext j
    rw [hentry]
    by_cases hji : j = i
    · rw [hji, Function.update_self, Function.update_self]
    · rw [Function.update_of_ne hji, Function.update_of_ne hji]
      cases hj : (directoryOn disk).entry j with
      | none => rfl
      | some e => exact fileSectors_congr (hheader hj)
  rw [used, hsystem, hfile]

namespace WellFormed

variable (hw : WellFormed disk)
include hw

/-- A disk with the same system files and the same headers. -/
lemma congr (hsystem : ∀ x ∈ systemSectors disk, disk' x = disk x)
    (hheader : ∀ {i k s}, (directoryOn disk).entry i = some (k, s) →
      disk' s.toNat = disk s.toNat) :
    WellFormed disk' ∧ (directoryOn disk').entry = (directoryOn disk).entry ∧
      ∀ x < numSectors, (freeMapOn disk').bit x = (freeMapOn disk).bit x := by
  have hmap : disk' freeMapSector = disk freeMapSector := hsystem _ List.mem_cons_self
  have hdir : disk' directorySector = disk directorySector :=
    hsystem _ (List.mem_cons_of_mem _ List.mem_cons_self)
  have hdata : ∀ x ∈ (headerAt disk freeMapSector).sectors ++
      (headerAt disk directorySector).sectors, disk' x = disk x := fun x hx =>
    hsystem x (List.mem_cons_of_mem _ (List.mem_cons_of_mem _ hx))
  have hentry : (directoryOn disk').entry = (directoryOn disk).entry :=
    hw.files.entry_congr hdir fun x hx => hdata x (List.mem_append_right _ hx)
  have hbit : ∀ x < numSectors, (freeMapOn disk').bit x = (freeMapOn disk).bit x := fun x hx =>
    hw.files.bit_congr hmap (fun y hy => hdata y (List.mem_append_left _ hy)) hx
  have hused : used disk' = used disk :=
    used_congr (SystemFiles.systemSectors_congr hmap hdir) hentry hheader
  refine ⟨⟨hw.files.congr hmap hdir, fun {i k s} he => ?_, ?_, fun x hx => ?_,
    fun {i j k s s'} he he' => ?_⟩, hentry, hbit⟩
  · rw [hentry] at he
    rw [headerAt, hheader he]
    exact hw.header he
  · rw [hused]
    exact hw.distinct
  · rw [hused, hbit x hx]
    exact hw.marked x hx
  · rw [hentry] at he he'
    exact hw.names he he'

/-- **A file is written.** -/
theorem write (he : (directoryOn disk).entry i = some (k, s))
    (hother : ∀ x ∉ (headerAt disk s.toNat).sectors, disk' x = disk x) :
    WellFormed disk' ∧ (directoryOn disk').entry = (directoryOn disk).entry ∧
      (∀ x < numSectors, (freeMapOn disk').bit x = (freeMapOn disk).bit x) ∧
      ∀ {j k' s'}, (directoryOn disk).entry j = some (k', s') → disk' s'.toNat = disk s'.toNat := by
  have hheader : ∀ {j k' s'}, (directoryOn disk).entry j = some (k', s') →
      disk' s'.toNat = disk s'.toNat := by
    intro j k' s' he'
    refine hother _ fun hx => ?_
    by_cases hij : i = j
    · -- its own header
      subst hij
      rw [he] at he'
      cases he'
      obtain ⟨-, hslot, -, -⟩ := nodup_regions.mp hw.distinct
      have hnodup := hslot i (Directory.lt_of_entry he)
      rw [he] at hnodup
      exact (List.nodup_cons.mp hnodup).1 hx
    · exact hw.not_other he he' hij (List.mem_cons_of_mem _ hx) List.mem_cons_self
  obtain ⟨hw', hentry, hbit⟩ := hw.congr (fun x hx => hother x fun hx' =>
    hw.not_system he (List.mem_cons_of_mem _ hx') hx) hheader
  exact ⟨hw', hentry, hbit, hheader⟩

/-- The headers of the files are not in the sectors of the directory and the free map. -/
lemma header_of_others (hother : ∀ x, x ∉ (headerAt disk freeMapSector).sectors →
      x ∉ (headerAt disk directorySector).sectors → disk' x = disk₁ x)
    (he : (directoryOn disk).entry i = some (k, s)) : disk' s.toNat = disk₁ s.toNat := by
  have hout := hw.not_system he List.mem_cons_self
  refine hother _ (fun h => hout ?_) (fun h => hout ?_)
  · exact List.mem_cons_of_mem _ (List.mem_cons_of_mem _ (List.mem_append_left _ h))
  · exact List.mem_cons_of_mem _ (List.mem_cons_of_mem _ (List.mem_append_right _ h))

/-- **A file is removed.** -/
theorem drop (he : (directoryOn disk).entry i = some (k, s)) (hflush : Flushed disk disk' d b)
    (hd : d.entry = Function.update (directoryOn disk).entry i none)
    (hbit : ∀ x < numSectors, b.bit x = true ↔
      (freeMapOn disk).bit x = true ∧ x ∉ fileSectors disk (some (k, s))) :
    WellFormed disk' := by
  have hentry := hflush.entry.trans hd
  have hsame : ∀ {j k' s'}, (directoryOn disk).entry j = some (k', s') →
      disk' s'.toNat = disk s'.toNat := hw.header_of_others hflush.others
  have hold : ∀ {j k' s'}, (directoryOn disk').entry j = some (k', s') →
      (directoryOn disk).entry j = some (k', s') := by
    intro j k' s' he'
    rw [hentry] at he'
    by_cases hji : j = i
    · rw [hji, Function.update_self] at he'
      cases he'
    · rwa [Function.update_of_ne hji] at he'
  have hused := used_update hflush.systemSectors hentry hsame
  refine ⟨hflush.files, fun {j k' s'} he' => ?_, ?_, fun x hx => ?_, fun {j j' k' s' s''} h h' => ?_⟩
  · rw [headerAt, hsame (hold he')]
    exact hw.header (hold he')
  · rw [hused]
    exact nodup_empty hw.distinct
  · have hmem := mem_regions_empty (x := x) hw.distinct (Directory.lt_of_entry he)
    rw [he] at hmem
    rw [hflush.bit x hx, hbit x hx, hw.marked x hx, hused]
    exact hmem.symm
  · exact hw.names (hold h) (hold h')

/-- **A file is added**, with a header in a free sector and data in others. -/
theorem add (hsector : sector < numSectors) (hfree : sector ∉ used disk) (hv : hdr.Valid)
    (hdata : ∀ x ∈ hdr.sectors, x ∉ used disk ∧ x ≠ sector) (hi : i < numDirEntries)
    (hnone : (directoryOn disk).entry i = none)
    (hname : ∀ j s, (directoryOn disk).entry j ≠ some (k, s))
    (hdisk : disk₁ = Function.update disk sector
      (copyAt (disk sector) 0 sectorSize (bytesOf hdr.word)))
    (hflush : Flushed disk₁ disk' d b)
    (hd : d.entry = Function.update (directoryOn disk).entry i (some (k, (sector : ℤ))))
    (hbit : ∀ x < numSectors, b.bit x = true ↔
      (freeMapOn disk).bit x = true ∨ x = sector ∨ x ∈ hdr.sectors) :
    WellFormed disk' ∧ FileHeader.Same hdr (headerAt disk' sector) ∧
      ∀ x, x ∉ systemSectors disk → x ≠ sector → disk' x = disk x := by
  have hnot : ∀ x ∈ systemSectors disk, x ≠ sector := by
    rintro x hx rfl
    exact hfree (mem_regions.mpr (.inl hx))
  have hdisk₁ : ∀ x, x ≠ sector → disk₁ x = disk x := fun x hx => by
    rw [hdisk, Function.update_of_ne hx]
  have hm : disk₁ freeMapSector = disk freeMapSector := hdisk₁ _ (hnot _ List.mem_cons_self)
  have hdir : disk₁ directorySector = disk directorySector :=
    hdisk₁ _ (hnot _ (List.mem_cons_of_mem _ List.mem_cons_self))
  have hsystem : systemSectors disk' = systemSectors disk :=
    hflush.systemSectors.trans (SystemFiles.systemSectors_congr hm hdir)
  have hothers : ∀ x, x ∉ (headerAt disk freeMapSector).sectors →
      x ∉ (headerAt disk directorySector).sectors → disk' x = disk₁ x := by
    have hout := hflush.others
    rwa [headerAt, headerAt, hm, hdir] at hout
  have hsys : ∀ x, x ∉ systemSectors disk → disk' x = disk₁ x := by
    intro x hx
    refine hothers x (fun h => hx ?_) (fun h => hx ?_)
    · exact List.mem_cons_of_mem _ (List.mem_cons_of_mem _ (List.mem_append_left _ h))
    · exact List.mem_cons_of_mem _ (List.mem_cons_of_mem _ (List.mem_append_right _ h))
  have hnew : FileHeader.Same hdr (headerAt disk' sector) := by
    rw [headerAt, hsys sector fun h => hnot _ h rfl, hdisk, Function.update_self]
    exact FileHeader.same_ofMemory hdr _
  have hsame : ∀ {j k' s'}, (directoryOn disk).entry j = some (k', s') →
      disk' s'.toNat = disk s'.toNat := by
    intro j k' s' he'
    have hne : s'.toNat ≠ sector := fun h => hfree (h ▸ mem_used he' List.mem_cons_self)
    rw [hw.header_of_others hothers he', hdisk₁ _ hne]
  have hentry := hflush.entry.trans hd
  have hold : ∀ {j k' s'}, (directoryOn disk').entry j = some (k', s') →
      (j = i ∧ k' = k ∧ s' = sector) ∨ (directoryOn disk).entry j = some (k', s') := by
    intro j k' s' he'
    rw [hentry] at he'
    by_cases hji : j = i
    · rw [hji, Function.update_self] at he'
      cases he'
      exact .inl ⟨hji, rfl, rfl⟩
    · rw [Function.update_of_ne hji] at he'
      exact .inr he'
  have hsectors : fileSectors disk' (some (k, (sector : ℤ))) = sector :: hdr.sectors := by
    rw [fileSectors, Int.toNat_natCast, hnew.sectors_eq hv]
  have hused := used_update hsystem hentry hsame
  rw [hsectors] at hused
  have hempty : fileSectors disk ((directoryOn disk).entry i) = [] := by
    rw [hnone]
    rfl
  refine ⟨⟨hflush.files, fun {j k' s'} he' => ?_, ?_, fun x hx => ?_,
    fun {j j' k' s' s''} h h' => ?_⟩, hnew, fun x hx hne => ?_⟩
  · rcases hold he' with ⟨-, -, rfl⟩ | he'
    · exact ⟨by omega, by omega, hnew.valid hv⟩
    · rw [headerAt, hsame he']
      exact hw.header he'
  · rw [hused]
    refine nodup_fill hw.distinct (List.nodup_cons.mpr ⟨fun h => ?_, hv.covers.nodup_sectors⟩) ?_
    · exact (hdata _ h).2 rfl
    · intro x hx
      rcases List.mem_cons.mp hx with rfl | hx
      · exact hfree
      · exact (hdata x hx).1
  · rw [hflush.bit x hx, hbit x hx, hw.marked x hx, hused, mem_regions_fill hi hempty,
      List.mem_cons]
    rfl
  · rcases hold h with ⟨rfl, rfl, -⟩ | h
    · rcases hold h' with ⟨rfl, -, -⟩ | h'
      · rfl
      · exact absurd h' (hname _ _)
    · rcases hold h' with ⟨rfl, rfl, -⟩ | h'
      · exact absurd h (hname _ _)
      · exact hw.names h h'
  · rw [hsys x hx, hdisk₁ x hne]

end WellFormed

end Update

end Nachos.Filesys
