import Nachos.Filesys.Store

/-!
# The file system refines the store

The bytes that the headers of the entries name are the files of the store, and the open files are
its handles. For positions and counts that are not negative and whose sum is an `int`, every
operation goes through, and does and returns what the store does and returns.
-/

namespace Nachos.Filesys

open Lib Threads Userprog Mips

/-- The file system `s` stores what `t` says. -/
structure Represents (s : System) (t : Store) : Prop where
  sound : s.Sound
  /-- the bytes of a file -/
  file : ∀ {i k sector}, (directoryOn s.disk).entry i = some (k, sector) →
    t.files k = some ((headerAt s.disk sector.toNat).bytes s.disk)
  present : ∀ {k data}, t.files k = some data →
    ∃ i sector, (directoryOn s.disk).entry i = some (k, sector)
  /-- the name that a handle stands for, and its position -/
  handle : ∀ {h v}, s.handles h = some v → ∃ i k pos,
    (directoryOn s.disk).entry i = some (k, v.sector) ∧ t.handles h = some (k, pos) ∧
      v.file.seekPosition = (pos : ℕ)
  noHandle : ∀ {h}, s.handles h = none → t.handles h = none
  freeEntries : (directoryOn s.disk).numFree = t.freeEntries
  freeSectors : (freeMapOn s.disk).numClear = t.freeSectors

namespace System

/-- Sizes, positions and counts are in range, and their sums are `int`s. -/
def InRange (s : System) : Op → Prop
  | .create _ initialSize => 0 ≤ initialSize.toInt ∧ initialSize.toInt ≤ maxFileSize
  | .seek _ position => 0 ≤ position.toInt
  | .read h numBytes | .write h _ numBytes => 0 ≤ numBytes.toInt ∧
      ∀ v, s.handles h = some v → v.file.seekPosition + numBytes.toInt < 2 ^ 31
  | .readAt _ numBytes position | .writeAt _ _ numBytes position =>
      0 ≤ numBytes.toInt ∧ 0 ≤ position.toInt ∧ position.toInt + numBytes.toInt < 2 ^ 31
  | _ => True

/-- The handle that an operation uses is there. -/
def Usable (s : System) : Op → Prop
  | .seek h _ | .read h _ | .write h _ _ | .readAt h _ _ | .writeAt h _ _ _ | .length h =>
      s.handles h ≠ none
  | _ => True

end System

namespace Represents

variable {s : System} {t : Store} {h i : ℕ} {k : List Byte} {sector : ℤ} {v : Handle}

/-- What is found through a handle. -/
lemma open_ (hR : Represents s t) (hv : s.handles h = some v) : ∃ i k pos,
    (directoryOn s.disk).entry i = some (k, v.sector) ∧ t.handles h = some (k, pos) ∧
      v.file.seekPosition = (pos : ℕ) ∧ v.file.hdr = headerAt s.disk v.sector.toNat ∧
        v.file.hdr.Valid ∧ t.files k = some (v.file.hdr.bytes s.disk) := by
  obtain ⟨i, k, pos, he, ht, hpos⟩ := hR.handle hv
  obtain ⟨i', k', he', hhdr⟩ := hR.sound.handles hv
  have hfile := hR.file he
  rw [← hhdr] at hfile
  exact ⟨i, k, pos, he, ht, hpos, hhdr, hR.sound.valid hv, hfile⟩

/-- A handle is set, to a file that exists. -/
lemma setHandle (hR : Represents s t) {pos : ℕ}
    (he : (directoryOn s.disk).entry i = some (k, v.sector))
    (hpos : v.file.seekPosition = pos) (hs : (s.setHandle h (some v)).Sound) :
    Represents (s.setHandle h (some v)) (t.setHandle h (some (k, pos))) := by
  refine ⟨hs, hR.file, hR.present, fun {h' w} hw => ?_, fun {h'} hw => ?_, hR.freeEntries,
    hR.freeSectors⟩
  · by_cases hne : h' = h
    · rw [hne, System.handles_setHandle_self] at hw
      cases hw
      refine ⟨i, k, pos, he, ?_, hpos⟩
      rw [hne]
      exact Function.update_self ..
    · rw [System.handles_setHandle_of_ne hne] at hw
      obtain ⟨i', k', pos', he', ht, hpos'⟩ := hR.handle hw
      exact ⟨i', k', pos', he', (Function.update_of_ne hne ..).trans ht, hpos'⟩
  · have hne : h' ≠ h := by
      rintro rfl
      rw [System.handles_setHandle_self] at hw
      cases hw
    rw [System.handles_setHandle_of_ne hne] at hw
    exact (Function.update_of_ne hne ..).trans (hR.noHandle hw)

/-- The position of a handle is set. -/
lemma seek (hR : Represents s t) (hv : s.handles h = some v)
    (he : (directoryOn s.disk).entry i = some (k, v.sector)) {x : ℤ} {pos : ℕ} (hx : x = pos) :
    Represents (s.setFile h v (v.file.seek x)) (t.setHandle h (some (k, pos))) :=
  hR.setHandle (v := { v with file := v.file.seek x }) he hx (hR.sound.setFile hv rfl)

/-- A handle is cleared. -/
lemma clearHandle (hR : Represents s t) :
    Represents (s.setHandle h none) (t.setHandle h none) := by
  have hs : (s.setHandle h none).Sound := hR.sound.setHandle fun _ hv => by cases hv
  refine ⟨hs, hR.file, hR.present, fun {h' w} hw => ?_,
    fun {h'} hw => ?_, hR.freeEntries, hR.freeSectors⟩
  · have hne : h' ≠ h := by
      rintro rfl
      rw [System.handles_setHandle_self] at hw
      cases hw
    rw [System.handles_setHandle_of_ne hne] at hw
    obtain ⟨i', k', pos', he', ht, hpos'⟩ := hR.handle hw
    exact ⟨i', k', pos', he', (Function.update_of_ne hne ..).trans ht, hpos'⟩
  · by_cases hne : h' = h
    · rw [hne]
      exact Function.update_self ..
    · rw [System.handles_setHandle_of_ne hne] at hw
      exact (Function.update_of_ne hne ..).trans (hR.noHandle hw)

/-! ### Writes -/

/-- The bytes after a write. -/
lemma bytes_of_wrote {hdr : FileHeader} {disk disk' : Disk} {source : Memory} {p n : ℕ}
    (hw : OpenFile.Wrote hdr disk disk' source p (min n (hdr.size - p))) :
    hdr.bytes disk' = overlay (hdr.bytes disk) p n source := by
  refine List.ext_getElem? fun j => ?_
  rw [overlay, List.getElem?_mapIdx, FileHeader.bytes, FileHeader.bytes, getElem?_slice,
    getElem?_slice, Nat.zero_add]
  by_cases hj : j < hdr.size
  · rw [if_pos hj, if_pos hj, hw.content j hj, copyAt, Option.map_some]
    have hiff : (p ≤ j ∧ j < p + min n (hdr.size - p)) ↔ p ≤ j ∧ j < p + n := by omega
    simp only [hiff]
  · rw [if_neg hj, if_neg hj]
    rfl

/-- A file is written. -/
lemma setDisk (hR : Represents s t) (hv : s.handles h = some v)
    (he : (directoryOn s.disk).entry i = some (k, v.sector)) {disk : Disk} {source : Memory}
    {p n : ℕ} (hw : OpenFile.Wrote v.file.hdr s.disk disk source p (min n (v.file.hdr.size - p))) :
    Represents (s.setDisk disk)
      (t.setFile k (some (overlay (v.file.hdr.bytes s.disk) p n source))) := by
  obtain ⟨i', k', he', hhdr⟩ := hR.sound.handles hv
  have hother := hw.others
  rw [hhdr] at hother
  obtain ⟨-, hentry, hbit, hheader⟩ := hR.sound.wellFormed.write he hother
  have hnew : v.file.hdr.bytes disk = overlay (v.file.hdr.bytes s.disk) p n source :=
    bytes_of_wrote hw
  refine ⟨hR.sound.setDisk hv hw, fun {j k' sector} hj => ?_, fun {k' data} hk => ?_,
    fun {h' w} hh => ?_, hR.noHandle, ?_, ?_⟩
  · change (directoryOn disk).entry j = some (k', sector) at hj
    rw [hentry] at hj
    have hhdr' : headerAt disk sector.toNat = headerAt s.disk sector.toNat :=
      congrArg FileHeader.ofMemory (hheader hj)
    change Function.update t.files k _ k' = some ((headerAt disk sector.toNat).bytes disk)
    rw [hhdr']
    by_cases hk : k' = k
    · subst hk
      have hji := hR.sound.wellFormed.names hj he
      subst hji
      rw [he] at hj
      cases hj
      rw [Function.update_self, ← hnew, hhdr]
    · rw [Function.update_of_ne hk, hR.file hj]
      have hij : j ≠ i := by
        rintro rfl
        rw [he] at hj
        cases hj
        exact hk rfl
      refine congrArg some ((hR.sound.wellFormed.header hj).2.2.covers.bytes_congr fun x hx => ?_).symm
      exact hother x fun hx' => hR.sound.wellFormed.not_other hj he hij
        (List.mem_cons_of_mem _ hx) (List.mem_cons_of_mem _ hx')
  · change Function.update t.files k _ k' = some data at hk
    by_cases hne : k' = k
    · exact ⟨i, v.sector, by rw [hne]; exact (congrFun hentry i).trans he⟩
    · rw [Function.update_of_ne hne] at hk
      obtain ⟨j, sector, hj⟩ := hR.present hk
      exact ⟨j, sector, (congrFun hentry j).trans hj⟩
  · obtain ⟨j, k', pos, hj, ht, hpos⟩ := hR.handle hh
    exact ⟨j, k', pos, (congrFun hentry j).trans hj, ht, hpos⟩
  · exact (Directory.numFree_congr hentry).trans hR.freeEntries
  · have hbits : (freeMapOn s.disk).numBits = numSectors := rfl
    have hclear : (freeMapOn disk).numClear = (freeMapOn s.disk).numClear := by
      refine BitMap.numClear_congr rfl fun x hx => hbit x ?_
      rwa [hbits] at hx
    exact hclear.trans hR.freeSectors

/-! ### Files that come and go -/

/-- A file is created. -/
lemma create (hR : Represents s t) {fs : FileSystem} {n sec : ℕ}
    (hc : Created s.toFileSystem fs k n i sec) :
    Represents { s with toFileSystem := fs } (t.add k ((headerAt fs.disk sec).bytes fs.disk)) := by
  have hw := hR.sound.wellFormed
  have hsame : ∀ {j k' sector x}, (directoryOn s.disk).entry j = some (k', sector) →
      x ∈ fileSectors s.disk (some (k', sector)) → fs.disk x = s.disk x := by
    intro j k' sector x hj hx
    exact hc.others x (hw.not_system hj hx) fun h => hc.unused (h ▸ WellFormed.mem_used hj hx)
  have hold : ∀ {j k' sector}, (directoryOn s.disk).entry j = some (k', sector) →
      j ≠ i ∧ k' ≠ k ∧ (directoryOn fs.disk).entry j = some (k', sector) := by
    intro j k' sector hj
    have hji : j ≠ i := by
      rintro rfl
      rw [hc.free] at hj
      cases hj
    refine ⟨hji, ?_, ?_⟩
    · rintro rfl
      exact hc.absent _ _ hj
    · rw [hc.entry, Function.update_of_ne hji]
      exact hj
  have hsize : ((headerAt fs.disk sec).bytes fs.disk).length = n := by
    rw [FileHeader.length_bytes, hc.size]
  refine ⟨hR.sound.create hc, fun {j k' sector} hj => ?_, fun {k' data} hk => ?_,
    fun {h' w} hh => ?_, hR.noHandle, ?_, ?_⟩
  · change (directoryOn fs.disk).entry j = some (k', sector) at hj
    change Function.update t.files k _ k' = some ((headerAt fs.disk sector.toNat).bytes fs.disk)
    rw [hc.entry] at hj
    by_cases hji : j = i
    · rw [hji, Function.update_self] at hj
      cases hj
      rw [Function.update_self, Int.toNat_natCast]
    · rw [Function.update_of_ne hji] at hj
      have hhdr : headerAt fs.disk sector.toNat = headerAt s.disk sector.toNat :=
        congrArg FileHeader.ofMemory (hsame hj List.mem_cons_self)
      rw [Function.update_of_ne (hold hj).2.1, hR.file hj, hhdr]
      refine congrArg some ((hw.header hj).2.2.covers.bytes_congr fun x hx => ?_).symm
      exact hsame hj (List.mem_cons_of_mem _ hx)
  · change Function.update t.files k _ k' = some data at hk
    by_cases hne : k' = k
    · refine ⟨i, sec, ?_⟩
      rw [hne]
      exact (congrFun hc.entry i).trans (Function.update_self ..)
    · rw [Function.update_of_ne hne] at hk
      obtain ⟨j, sector, hj⟩ := hR.present hk
      exact ⟨j, sector, (hold hj).2.2⟩
  · obtain ⟨j, k', pos, hj, ht, hpos⟩ := hR.handle hh
    exact ⟨j, k', pos, (hold hj).2.2, ht, hpos⟩
  · have hfree := Directory.numFree_update hc.lt rfl hc.entry hc.free (by simp)
      fun j hj => Function.update_of_ne hj ..
    have hbefore := hR.freeEntries
    change (directoryOn fs.disk).numFree = t.freeEntries - 1
    omega
  · have hclear := hc.numClear
    have hbefore := hR.freeSectors
    change (freeMapOn fs.disk).numClear = t.freeSectors - (1 + FileHeader.sectorsFor _)
    rw [hsize]
    omega

/-- A file is removed. -/
lemma remove (hR : Represents s t) {fs : FileSystem} {sec : ℕ}
    (hr : Removed s.toFileSystem fs k i sec) :
    Represents (({ s with toFileSystem := fs } : System).dropHandles sec)
      (t.drop k ((headerAt s.disk sec).bytes s.disk)) := by
  have hw := hR.sound.wellFormed
  have hsame : ∀ {j k' sector x}, (directoryOn s.disk).entry j = some (k', sector) →
      x ∈ fileSectors s.disk (some (k', sector)) → fs.disk x = s.disk x := by
    intro j k' sector x hj hx
    exact hr.others x (hw.not_system hj hx)
  have hold : ∀ {j k' sector}, (directoryOn fs.disk).entry j = some (k', sector) →
      j ≠ i ∧ k' ≠ k ∧ (directoryOn s.disk).entry j = some (k', sector) := by
    intro j k' sector hj
    rw [hr.entry] at hj
    have hji : j ≠ i := by
      rintro rfl
      rw [Function.update_self] at hj
      cases hj
    rw [Function.update_of_ne hji] at hj
    refine ⟨hji, ?_, hj⟩
    rintro rfl
    exact hji (hw.names hj hr.found)
  have hkept : ∀ {j k' sector}, (directoryOn s.disk).entry j = some (k', sector) → k' ≠ k →
      (directoryOn fs.disk).entry j = some (k', sector) := by
    intro j k' sector hj hk
    have hji : j ≠ i := by
      rintro rfl
      have hfound := Option.some.inj (hr.found.symm.trans hj)
      exact hk (congrArg Prod.fst hfound).symm
    rw [hr.entry, Function.update_of_ne hji]
    exact hj
  have hsize : ((headerAt s.disk sec).bytes s.disk).length = (headerAt s.disk sec).size :=
    FileHeader.length_bytes
  refine ⟨hR.sound.remove hr, fun {j k' sector} hj => ?_, fun {k' data} hk => ?_,
    fun {h' w} hh => ?_, fun {h'} hh => ?_, ?_, ?_⟩
  · obtain ⟨-, hk, hj⟩ := hold hj
    change Function.update t.files k _ k' = some ((headerAt fs.disk sector.toNat).bytes fs.disk)
    have hhdr : headerAt fs.disk sector.toNat = headerAt s.disk sector.toNat :=
      congrArg FileHeader.ofMemory (hsame hj List.mem_cons_self)
    rw [Function.update_of_ne hk, hR.file hj, hhdr]
    refine congrArg some ((hw.header hj).2.2.covers.bytes_congr fun x hx => ?_).symm
    exact hsame hj (List.mem_cons_of_mem _ hx)
  · change Function.update t.files k _ k' = some data at hk
    have hne : k' ≠ k := by
      rintro rfl
      rw [Function.update_self] at hk
      cases hk
    rw [Function.update_of_ne hne] at hk
    obtain ⟨j, sector, hj⟩ := hR.present hk
    exact ⟨j, sector, hkept hj hne⟩
  · obtain ⟨hh, hne⟩ := System.handles_dropHandles.mp hh
    obtain ⟨j, k', pos, hj, ht, hpos⟩ := hR.handle hh
    have hk : k' ≠ k := by
      rintro rfl
      have hji := hw.names hj hr.found
      subst hji
      have hfound := Option.some.inj (hr.found.symm.trans hj)
      exact hne (congrArg Prod.snd hfound).symm
    refine ⟨j, k', pos, hkept hj hk, ?_, hpos⟩
    change (t.handles h').filter (·.1 ≠ k) = some (k', pos)
    rw [ht]
    simp [hk]
  · change (t.handles h').filter (·.1 ≠ k) = none
    cases hv : s.handles h' with
    | none => rw [hR.noHandle hv]; rfl
    | some w =>
      have hsector : w.sector = sec := by
        by_contra hne
        have := (System.handles_dropHandles (s := { s with toFileSystem := fs })).mpr ⟨hv, hne⟩
        rw [hh] at this
        cases this
      obtain ⟨j, k', pos, hj, ht, -⟩ := hR.handle hv
      have hji : j = i := by
        by_contra hne
        rw [hsector] at hj
        exact hw.not_other hj hr.found hne List.mem_cons_self List.mem_cons_self
      rw [hji, hr.found] at hj
      have hk : k' = k := (congrArg Prod.fst (Option.some.inj hj)).symm
      rw [ht, hk]
      simp
  · have hfree := Directory.numFree_update (Directory.lt_of_entry hr.found) hr.entry rfl
      (Function.update_self ..) (by rw [hr.found]; rfl) fun j hj => (Function.update_of_ne hj ..).symm
    have hbefore := hR.freeEntries
    change (directoryOn fs.disk).numFree = t.freeEntries + 1
    omega
  · have hclear := hr.numClear
    have hbefore := hR.freeSectors
    change (freeMapOn fs.disk).numClear = t.freeSectors + (1 + FileHeader.sectorsFor _)
    rw [hsize]
    omega

/-! ### Operations -/

/-- Is there room for a new file? -/
lemma room_of_created (hR : Represents s t) {fs : FileSystem} {n sec : ℕ}
    (hc : Created s.toFileSystem fs k n i sec) : t.Room k n := by
  have hclear := hc.numClear
  have hfree := Directory.numFree_update hc.lt rfl hc.entry hc.free (by simp)
    fun j hj => Function.update_of_ne hj ..
  refine ⟨?_, ?_, ?_⟩
  · by_contra hne
    obtain ⟨data, hk⟩ := Option.ne_none_iff_exists'.mp hne
    obtain ⟨j, sector, hj⟩ := hR.present hk
    exact hc.absent j sector hj
  · rw [← hR.freeEntries]
    omega
  · rw [← hR.freeSectors]
    omega

lemma not_room (hR : Represents s t) {n : ℕ} (h : NoRoom s.disk k n) : ¬ t.Room k n := by
  rintro ⟨hk, hfree, hclear⟩
  rw [← hR.freeEntries] at hfree
  rw [← hR.freeSectors] at hclear
  rcases h with ⟨j, sector, hj⟩ | h | h
  · rw [hR.file hj] at hk
    cases hk
  · omega
  · omega

lemma files_eq_none (hR : Represents s t)
    (h : ∀ j sector, (directoryOn s.disk).entry j ≠ some (k, sector)) : t.files k = none := by
  by_contra hne
  obtain ⟨data, hk⟩ := Option.ne_none_iff_exists'.mp hne
  obtain ⟨j, sector, hj⟩ := hR.present hk
  exact h j sector hj

/-- After a restart there are no handles. -/
lemma restart (hR : Represents s t) {fs : FileSystem} (hs : (⟨fs, fun _ => none⟩ : System).Sound)
    (hdisk : fs.disk = s.disk) :
    Represents ⟨fs, fun _ => none⟩ { t with handles := fun _ => none } := by
  refine ⟨hs, fun {i k sector} hk => ?_, fun {k data} hk => ?_, fun {h v} hv => ?_, fun _ => rfl,
    ?_, ?_⟩
  · simp only [hdisk] at hk ⊢
    exact hR.file hk
  · simp only [hdisk]
    exact hR.present hk
  · cases hv
  · simpa only [hdisk] using hR.freeEntries
  · simpa only [hdisk] using hR.freeSectors

lemma handle_eq (hv : s.handles h = some v) : s.handle h = .ok v := by
  rw [System.handle, hv]

/-- How much of a file is there from a position on. -/
lemma length_part (hdr : FileHeader) (disk : Disk) (p n : ℕ) :
    (part (hdr.bytes disk) p n).length = min n (hdr.size - p) := by
  rw [part, List.length_take, List.length_drop, FileHeader.length_bytes]

/-- The position behind what was transferred is one. -/
lemma int_seekPosition {hdr : FileHeader} {p n : ℕ} (hsum : p + n < 2 ^ 31) :
    int ((p : ℤ) + (min n (hdr.size - p) : ℕ)) = ((p + min n (hdr.size - p) : ℕ) : ℤ) := by
  rw [int_eq (by omega) (by omega)]
  omega

/-- **Every operation goes through, and does what the store does.** -/
theorem exec (hR : Represents s t) {op : Op} (hin : s.InRange op) (huse : s.Usable op)
    (fresh : ℕ → Memory) : ∃ r s' t', s.exec fresh op = .ok (r, s') ∧ t.Does op r t' ∧
      Represents s' t' := by
  have hw := hR.sound.wellFormed
  have hm := hR.sound.mounted
  cases op with
  | create name initialSize =>
    obtain ⟨n, hn⟩ := Int.eq_ofNat_of_zero_le hin.1
    obtain ⟨⟨b, fs⟩, hcreate, hcase⟩ := FileSystem.create_eq (n := n) hw hm fresh (cString name)
      (by have := hin.2; rw [hn] at this; exact_mod_cast this)
    simp only [System.exec, hn, hcreate, ok_bind, Store.Does, Int.toNat_natCast]
    rcases hcase with ⟨heq, hno⟩ | ⟨hb, i, sec, hc⟩
    · cases heq
      exact ⟨_, s, t, rfl, .inr ⟨hR.not_room hno, rfl, rfl⟩, hR⟩
    · subst hb
      exact ⟨_, _, _, rfl, .inl ⟨hR.room_of_created hc, rfl, _, FileHeader.length_bytes.trans hc.size,
        rfl⟩, hR.create hc⟩
  | openFile h name =>
    obtain ⟨r, hopen, hcase⟩ := FileSystem.openFile_eq hw hm fresh (cString name)
    simp only [System.exec, hopen, ok_bind, Store.Does]
    rcases hcase with ⟨rfl, hno⟩ | ⟨i, sector, he, rfl⟩
    · exact ⟨_, _, _, rfl, .inr ⟨hR.files_eq_none hno, rfl, rfl⟩, hR.clearHandle⟩
    · refine ⟨_, _, _, rfl, .inl ⟨?_, rfl, rfl⟩, hR.setHandle he rfl ?_⟩
      · rw [hR.file he]
        exact Option.some_ne_none _
      · exact hR.sound.setHandle fun _ hv => by cases hv; exact ⟨i, _, he, rfl⟩
  | seek h position =>
    obtain ⟨v, hv⟩ := Option.ne_none_iff_exists'.mp huse
    obtain ⟨i, k, pos, he, ht, -⟩ := hR.open_ hv
    obtain ⟨p, hp⟩ := Int.eq_ofNat_of_zero_le hin
    simp only [System.exec, handle_eq hv, ok_bind, Store.Does]
    exact ⟨_, _, _, rfl, ⟨k, pos, ht, rfl, rfl⟩, hR.seek hv he (by rw [hp, Int.toNat_natCast])⟩
  | read h numBytes =>
    obtain ⟨v, hv⟩ := Option.ne_none_iff_exists'.mp huse
    obtain ⟨i, k, pos, he, ht, hpos, hhdr, hvalid, hfile⟩ := hR.open_ hv
    obtain ⟨n, hn⟩ := Int.eq_ofNat_of_zero_le hin.1
    have hsum : pos + n < 2 ^ 31 := by
      have := hin.2 v hv
      omega
    have hread := OpenFile.readAt_eq hvalid.covers s.disk (fresh 0) hsum
    simp only [System.exec, handle_eq hv, ok_bind, OpenFile.read, hn, hpos, hread, Store.Does, Int.toNat_natCast]
    refine ⟨_, _, _, rfl, ⟨k, pos, _, ht, hfile, rfl, rfl⟩, hR.seek hv he ?_⟩
    change int (_ + ((part (v.file.hdr.bytes s.disk) pos n).length : ℤ)) = _
    rw [length_part, int_seekPosition hsum]
  | write h source numBytes =>
    obtain ⟨v, hv⟩ := Option.ne_none_iff_exists'.mp huse
    obtain ⟨i, k, pos, he, ht, hpos, hhdr, hvalid, hfile⟩ := hR.open_ hv
    obtain ⟨n, hn⟩ := Int.eq_ofNat_of_zero_le hin.1
    have hsum : pos + n < 2 ^ 31 := by
      have := hin.2 v hv
      omega
    obtain ⟨disk, hwrite, hwrote⟩ := OpenFile.writeAt_eq hvalid.covers s.disk fresh source hsum
    have hR' := hR.setDisk hv he hwrote
    obtain ⟨-, hentry, -⟩ := hw.write he (hhdr ▸ hwrote.others)
    simp only [System.exec, handle_eq hv, ok_bind, OpenFile.write, hn, hpos, hwrite, Store.Does,
      Int.toNat_natCast]
    refine ⟨_, _, _, rfl, ⟨k, pos, _, ht, hfile, ?_, rfl⟩,
      hR'.seek hv ((congrFun hentry i).trans he) ?_⟩
    · rw [length_part]
    · rw [length_part, int_seekPosition hsum]
  | readAt h numBytes position =>
    obtain ⟨v, hv⟩ := Option.ne_none_iff_exists'.mp huse
    obtain ⟨i, k, pos, he, ht, hpos, hhdr, hvalid, hfile⟩ := hR.open_ hv
    obtain ⟨n, hn⟩ := Int.eq_ofNat_of_zero_le hin.1
    obtain ⟨p, hp⟩ := Int.eq_ofNat_of_zero_le hin.2.1
    have hsum : p + n < 2 ^ 31 := by
      have := hin.2.2
      omega
    have hread := OpenFile.readAt_eq hvalid.covers s.disk (fresh 0) hsum
    simp only [System.exec, handle_eq hv, ok_bind, hn, hp, hread, Store.Does, Int.toNat_natCast]
    exact ⟨_, _, _, rfl, ⟨k, pos, _, ht, hfile, rfl, rfl⟩, hR⟩
  | writeAt h source numBytes position =>
    obtain ⟨v, hv⟩ := Option.ne_none_iff_exists'.mp huse
    obtain ⟨i, k, pos, he, ht, hpos, hhdr, hvalid, hfile⟩ := hR.open_ hv
    obtain ⟨n, hn⟩ := Int.eq_ofNat_of_zero_le hin.1
    obtain ⟨p, hp⟩ := Int.eq_ofNat_of_zero_le hin.2.1
    have hsum : p + n < 2 ^ 31 := by
      have := hin.2.2
      omega
    obtain ⟨disk, hwrite, hwrote⟩ := OpenFile.writeAt_eq hvalid.covers s.disk fresh source hsum
    simp only [System.exec, handle_eq hv, ok_bind, hn, hp, hwrite, Store.Does, Int.toNat_natCast]
    refine ⟨_, _, _, rfl, ⟨k, pos, _, ht, hfile, ?_, rfl⟩, hR.setDisk hv he hwrote⟩
    rw [length_part]
  | length h =>
    obtain ⟨v, hv⟩ := Option.ne_none_iff_exists'.mp huse
    obtain ⟨i, k, pos, he, ht, hpos, hhdr, hvalid, hfile⟩ := hR.open_ hv
    simp only [System.exec, handle_eq hv, ok_bind, Store.Does]
    refine ⟨_, _, _, rfl, ⟨k, pos, _, ht, hfile, ?_, rfl⟩, hR⟩
    rw [OpenFile.length, hvalid.covers.fileLength_eq, FileHeader.length_bytes]
  | remove name =>
    obtain ⟨⟨b, fs⟩, hremove, hcase⟩ := FileSystem.remove_eq hw hm fresh (cString name)
    simp only [System.exec, hremove, ok_bind, Store.Does]
    rcases hcase with ⟨heq, hno⟩ | ⟨i, sec, hb, hr⟩
    · cases heq
      exact ⟨_, s, t, rfl, .inr ⟨hR.files_eq_none hno, rfl, rfl⟩, hR⟩
    · change b = _ at hb
      subst hb
      exact ⟨_, _, _, rfl, .inl ⟨_, hR.file hr.found, rfl, rfl⟩, hR.remove hr⟩
  | restart =>
    simp only [System.exec, mount_eq, ok_bind, Store.Does]
    refine ⟨_, _, _, rfl, ⟨rfl, rfl⟩, hR.restart ⟨hw, ⟨rfl, rfl⟩, fun hv => by cases hv⟩ rfl⟩

end Represents

/-! ### Runs -/

/-- The operations of a step are in range. -/
def InRanges (s : System) (es : List (Op × Result)) (_ : System) : Prop :=
  ∀ e ∈ es, s.InRange e.1

/-- A formatted disk stores nothing. -/
lemma represents_boot (disk : Disk) (fresh : ℕ → Memory) :
    ∃ s₀, boot disk fresh = .ok s₀ ∧ Represents s₀ Store.empty := by
  obtain ⟨fs, hformat, hf⟩ := FileSystem.format_eq disk fresh
  have hboot : boot disk fresh = .ok ⟨fs, fun _ => none⟩ := by
    rw [boot, hformat, ok_bind]
    rfl
  have hfree : (directoryOn fs.disk).numFree = numDirEntries := by
    rw [Directory.numFree, List.countP_eq_length.mpr, List.length_range]
    exact fun i _ => by rw [hf.entry]; rfl
  refine ⟨_, hboot, sound_of_boot hboot, fun {i k sector} he => ?_, fun {k data} hk => ?_,
    fun {h v} hv => ?_, fun _ => rfl, hfree, hf.numClear⟩
  · rw [hf.entry] at he
    cases he
  · cases hk
  · cases hv

/-- A step does what the store does. -/
lemma does_of_step {s s' : System} {t : Store} {es : List (Op × Result)} (hR : Represents s t)
    (h : Guarded InRanges Step s es s') : ∃ t', Store.Step t es t' ∧ Represents s' t' := by
  obtain ⟨⟨c, hc⟩, hg⟩ := h
  obtain ⟨⟨r, s₁⟩, hexec, hes⟩ := bind_eq_ok hc
  cases hes
  have hin := hg _ List.mem_cons_self
  have huse : s.Usable c.op := by
    have hopen : ∀ {h : ℕ} {f : Handle → Except Fault (Result × System)} {x},
        (s.handle h >>= f) = .ok x → s.handles h ≠ none := by
      intro h f x hx
      obtain ⟨v, hv, -⟩ := bind_eq_ok hx
      rw [System.Sound.handle_eq hv]
      exact Option.some_ne_none v
    cases hop : c.op with
    | create | openFile | remove | restart => trivial
    | seek | read | write | readAt | writeAt | length =>
      rw [hop] at hexec
      exact hopen hexec
  obtain ⟨r', s₁', t', hexec', hdoes, hR'⟩ := hR.exec hin huse c.fresh
  rw [hexec] at hexec'
  cases hexec'
  exact ⟨t', ⟨c.op, r, rfl, hdoes⟩, hR'⟩

/-- **The file system refines the store**: it can be formatted on every disk, what a run shows is
what a run of the store shows, and an operation in range on a handle that is there goes through. -/
theorem refines (disk : Disk) (fresh : ℕ → Memory) : ∃ s₀, boot disk fresh = .ok s₀ ∧
    ∀ tr s, Run (Guarded InRanges Step) s₀ tr s →
      (∃ t, Run Store.Step Store.empty tr t ∧ Represents s t) ∧
      ∀ c, s.InRange c.op → s.Usable c.op → ∃ r, step c s = .ok r := by
  obtain ⟨s₀, hboot, hR₀⟩ := represents_boot disk fresh
  refine ⟨s₀, hboot, fun tr s hr => ?_⟩
  obtain ⟨t, ht, hR⟩ : ∃ t, Run Store.Step Store.empty tr t ∧ Represents s t := by
    refine hr.simulation hR₀ ?_
    exact does_of_step
  refine ⟨⟨t, ht, hR⟩, fun c hin huse => ?_⟩
  obtain ⟨r, s', t', hexec, -⟩ := hR.exec hin huse c.fresh
  exact ⟨([(c.op, r)], s'), by rw [step, hexec, ok_bind]; rfl⟩

/-- Operations that are in range whatever the handles are. -/
def inRangeOp : Op → Bool
  | .create _ initialSize => sizeOk initialSize
  | .readAt _ numBytes position | .writeAt _ _ numBytes position =>
      0 ≤ numBytes.toInt && 0 ≤ position.toInt && position.toInt + numBytes.toInt < 2 ^ 31
  | .read .. | .write .. | .seek .. => false
  | _ => true

lemma inRange_of_inRangeOp {s : System} {op : Op} (h : inRangeOp op = true) : s.InRange op := by
  cases op with
  | create =>
    rw [inRangeOp, sizeOk, Bool.and_eq_true] at h
    exact ⟨of_decide_eq_true h.1, of_decide_eq_true h.2⟩
  | readAt =>
    simp only [inRangeOp, Bool.and_eq_true, decide_eq_true_eq, and_assoc] at h
    exact h
  | writeAt =>
    simp only [inRangeOp, Bool.and_eq_true, decide_eq_true_eq, and_assoc] at h
    exact h
  | seek | read | write => cases h
  | openFile | length | remove | restart => trivial

/-- A file is created, written inside and read back. -/
theorem refines_write : ∃ s₀ tr s, bootZeros = .ok s₀ ∧ Run (Guarded InRanges Step) s₀ tr s ∧
    (directoryOn s.disk).inUse 0 = true ∧ ∃ t, Run Store.Step Store.empty tr t ∧ Represents s t := by
  have hpass : startPasses bootZeros step (fun c => inRangeOp c.op)
      (fun s => (directoryOn s.disk).inUse 0)
      (writeInside ++ [⟨.readAt 0 128 64, fun _ => zeros⟩]) = true := by
    decide +kernel
  obtain ⟨s₀, tr, s, hboot, hr, hp⟩ := run_of_startPasses (G := InRanges) (fun hc hs e he =>
    inRange_of_inRangeOp (ops_of_step hc hs e he)) hpass
  obtain ⟨s₀', hboot', hall⟩ := refines (fun _ => zeros) fun _ => zeros
  rw [show boot _ _ = bootZeros from rfl, hboot] at hboot'
  cases hboot'
  exact ⟨s₀, tr, s, hboot, hr, hp, (hall tr s hr).1⟩

end Nachos.Filesys
