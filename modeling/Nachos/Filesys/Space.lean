import Nachos.Filesys.Format

/-!
# Disk space accounting

The sectors that the free map marks are the ones in use, all of them different. `WriteAt` does not
check that a position is not negative: in front of the data sectors lies the number of them, and the
sector with that number is written. In a run without such writes, every disk is accounted for.
-/

namespace Nachos.Filesys

open Lib Threads Userprog Mips

/-- **The accounting**: the marked sectors are `0`, `1`, the data sectors of the two system files
and, for every entry in use, its header and its data; they are different, and so are the names of
the entries as far as they count. -/
structure Accounted (disk : Disk) : Prop where
  marked : ∀ x, x ∈ used disk ↔ x < numSectors ∧ (freeMapOn disk).bit x = true
  distinct : (used disk).Nodup
  names : ∀ {i j k s s'}, (directoryOn disk).entry i = some (k, s) →
    (directoryOn disk).entry j = some (k, s') → i = j

lemma WellFormed.accounted {disk : Disk} (hw : WellFormed disk) : Accounted disk := by
  have hfile : ∀ {hdr : FileHeader} {x : ℕ}, hdr.Valid → x ∈ hdr.sectors → x < numSectors := by
    intro hdr x hv hx
    obtain ⟨j, hj, rfl⟩ := FileHeader.mem_sectors.mp hx
    exact hv.block_lt j hj
  have hlt : ∀ x ∈ used disk, x < numSectors := by
    intro x hx
    rcases mem_regions.mp hx with hx | ⟨i, -, hx⟩
    · rw [systemSectors, List.mem_cons, List.mem_cons, List.mem_append] at hx
      rcases hx with rfl | rfl | hx | hx
      · decide
      · decide
      · exact hfile hw.files.mapHdr hx
      · exact hfile hw.files.dirHdr hx
    · cases he : (directoryOn disk).entry i with
      | none =>
        rw [he] at hx
        cases hx
      | some e =>
        rw [he] at hx
        obtain ⟨hs, hs', hv⟩ := hw.header he
        rcases List.mem_cons.mp hx with rfl | hx
        · omega
        · exact hfile hv hx
  refine ⟨fun x => ⟨fun hx => ?_, fun h => (hw.marked x h.1).mp h.2⟩, hw.distinct, hw.names⟩
  exact ⟨hlt x hx, (hw.marked x (hlt x hx)).mpr hx⟩

/-! ### The invariant -/

namespace System

/-- The disk is well formed, and the open files have headers that are on it. -/
structure Sound (s : System) : Prop where
  wellFormed : WellFormed s.disk
  mounted : Mounted s.toFileSystem
  handles : ∀ {h handle}, s.handles h = some handle →
    ∃ i k, (directoryOn s.disk).entry i = some (k, handle.sector) ∧
      handle.file.hdr = headerAt s.disk handle.sector.toNat

/-- The sizes are the ones `Create` is meant for, and no byte in front of a file is written. -/
def Permitted (s : System) : Op → Prop
  | .create _ initialSize => 0 ≤ initialSize.toInt ∧ initialSize.toInt ≤ maxFileSize
  | .write h _ numBytes => 0 < numBytes.toInt →
      ∀ handle, s.handles h = some handle → 0 ≤ handle.file.seekPosition
  | .writeAt _ _ numBytes position => 0 < numBytes.toInt → 0 ≤ position.toInt
  | _ => True

namespace Sound

variable {s s' : System} {fresh : ℕ → Memory} {h : ℕ} {handle : Handle}

lemma handle_eq {v : Handle} (hh : s.handle h = .ok v) : s.handles h = some v := by
  rw [System.handle] at hh
  split at hh
  next => cases hh
  next hv =>
    cases hh
    exact hv

variable (hs : s.Sound)
include hs

/-- One handle changes, and keeps its header. -/
lemma setFile (hh : s.handles h = some handle) {file : OpenFile}
    (hfile : file.hdr = handle.file.hdr) : (s.setFile h handle file).Sound := by
  refine ⟨hs.wellFormed, ⟨hs.mounted.map, hs.mounted.dir⟩, fun {h' v} hv => ?_⟩
  by_cases hne : h' = h
  · rw [System.setFile, hne, handles_setHandle_self] at hv
    cases hv
    obtain ⟨i, k, he, hhdr⟩ := hs.handles hh
    exact ⟨i, k, he, hfile.trans hhdr⟩
  · rw [System.setFile, handles_setHandle_of_ne hne] at hv
    exact hs.handles hv

/-- A file is written. -/
lemma setDisk (hh : s.handles h = some handle) {disk : Disk} {source : Memory} {p m : ℕ}
    (hwrote : OpenFile.Wrote handle.file.hdr s.disk disk source p m) : (s.setDisk disk).Sound := by
  obtain ⟨i, k, he, hhdr⟩ := hs.handles hh
  have hother := hwrote.others
  rw [hhdr] at hother
  obtain ⟨hw, hentry, -, hheader⟩ := hs.wellFormed.write he hother
  have hsystem : ∀ x ∈ systemSectors s.disk, disk x = s.disk x := fun x hx =>
    hother x fun hx' => hs.wellFormed.not_system he (List.mem_cons_of_mem _ hx') hx
  refine ⟨hw, ⟨?_, ?_⟩, fun {h' v} hv => ?_⟩
  · rw [headerAt]
    exact hs.mounted.map.trans (congrArg FileHeader.ofMemory (hsystem _ List.mem_cons_self).symm)
  · rw [headerAt]
    exact hs.mounted.dir.trans (congrArg FileHeader.ofMemory
      (hsystem _ (List.mem_cons_of_mem _ List.mem_cons_self)).symm)
  · obtain ⟨j, k', he', hhdr'⟩ := hs.handles hv
    refine ⟨j, k', ?_, ?_⟩
    · exact (congrFun hentry j).trans he'
    · rw [hhdr', headerAt, headerAt]
      exact congrArg FileHeader.ofMemory (hheader he').symm

/-- A file is created. -/
lemma create {fs : FileSystem} {k : List Byte} {n i sector : ℕ}
    (hc : Created s.toFileSystem fs k n i sector) : ({ s with toFileSystem := fs } : System).Sound := by
  refine ⟨hc.wellFormed, hc.mounted, fun {h v} hv => ?_⟩
  obtain ⟨j, k', he, hhdr⟩ := hs.handles hv
  have hji : j ≠ i := by
    rintro rfl
    rw [hc.free] at he
    cases he
  have hne : v.sector.toNat ≠ sector := fun h =>
    hc.unused (h ▸ WellFormed.mem_used he List.mem_cons_self)
  have hsame := hc.others _ (hs.wellFormed.not_system he List.mem_cons_self) hne
  refine ⟨j, k', ?_, ?_⟩
  · rw [hc.entry, Function.update_of_ne hji]
    exact he
  · rw [hhdr, headerAt, headerAt]
    exact congrArg FileHeader.ofMemory hsame.symm

/-- A file is removed. -/
lemma remove {fs : FileSystem} {k : List Byte} {i sector : ℕ}
    (hr : Removed s.toFileSystem fs k i sector) :
    (({ s with toFileSystem := fs } : System).dropHandles sector).Sound := by
  refine ⟨hr.wellFormed, hr.mounted, fun {h v} hv => ?_⟩
  obtain ⟨hv, hne⟩ := handles_dropHandles.mp hv
  obtain ⟨j, k', he, hhdr⟩ := hs.handles hv
  have hji : j ≠ i := by
    rintro rfl
    have hfound := Option.some.inj (hr.found.symm.trans he)
    exact hne (congrArg Prod.snd hfound).symm
  have hsame := hr.others _ (hs.wellFormed.not_system he List.mem_cons_self)
  refine ⟨j, k', ?_, ?_⟩
  · exact (congrFun hr.entry j).trans ((Function.update_of_ne hji ..).trans he)
  · rw [hhdr, headerAt, headerAt]
    exact congrArg FileHeader.ofMemory hsame.symm

/-- A file is opened, or the place of its handle is cleared. -/
lemma setHandle {v : Option Handle} (hv : ∀ handle, v = some handle →
    ∃ i k, (directoryOn s.disk).entry i = some (k, handle.sector) ∧
      handle.file.hdr = headerAt s.disk handle.sector.toNat) : (s.setHandle h v).Sound := by
  refine ⟨hs.wellFormed, ⟨hs.mounted.map, hs.mounted.dir⟩, fun {h' v'} hv' => ?_⟩
  by_cases hne : h' = h
  · rw [hne, handles_setHandle_self] at hv'
    exact hv v' hv'
  · rw [handles_setHandle_of_ne hne] at hv'
    exact hs.handles hv'

lemma valid (hh : s.handles h = some handle) : handle.file.hdr.Valid := by
  obtain ⟨i, k, he, hhdr⟩ := hs.handles hh
  rw [hhdr]
  exact (hs.wellFormed.header he).2.2

/-- **Every operation that is permitted keeps the invariant.** -/
theorem exec {op : Op} {r : Result} (hp : s.Permitted op) (h : s.exec fresh op = .ok (r, s')) :
    s'.Sound := by
  have hlt : ∀ w : Word, w.toInt < 2 ^ 31 := fun w => BitVec.toInt_lt
  cases op with
  | create name initialSize =>
    obtain ⟨n, hn⟩ := Int.eq_ofNat_of_zero_le hp.1
    obtain ⟨r', hcreate, hcase⟩ := FileSystem.create_eq hs.wellFormed hs.mounted fresh (cString name)
      (n := n) (by exact_mod_cast hn ▸ hp.2)
    rw [System.exec, hn, hcreate, ok_bind] at h
    cases h
    rcases hcase with ⟨rfl, -⟩ | ⟨-, i, sector, hc⟩
    · exact hs
    · exact hs.create hc
  | openFile h' name =>
    obtain ⟨r', hopen, hcase⟩ := FileSystem.openFile_eq hs.wellFormed hs.mounted fresh (cString name)
    rw [System.exec, hopen, ok_bind] at h
    rcases hcase with ⟨rfl, -⟩ | ⟨i, x, he, rfl⟩
    · cases h
      exact hs.setHandle fun _ hv => nomatch hv
    · cases h
      exact hs.setHandle fun _ hv => by cases hv; exact ⟨i, _, he, rfl⟩
  | seek h' position =>
    obtain ⟨handle, hh, h⟩ := bind_eq_ok h
    cases h
    exact hs.setFile (handle_eq hh) rfl
  | read h' numBytes =>
    obtain ⟨handle, hh, h⟩ := bind_eq_ok h
    obtain ⟨r', hread, h⟩ := bind_eq_ok h
    cases h
    obtain ⟨data, -, hfile⟩ := bind_eq_ok hread
    cases hfile
    exact hs.setFile (handle_eq hh) rfl
  | write h' source numBytes =>
    obtain ⟨handle, hh, h⟩ := bind_eq_ok h
    obtain ⟨r', hwrite, h⟩ := bind_eq_ok h
    cases h
    obtain ⟨written, hwriteAt, hfile⟩ := bind_eq_ok hwrite
    cases hfile
    obtain ⟨p, m, hwrote⟩ := OpenFile.wrote_of_writeAt (hs.valid (handle_eq hh)).covers (hlt _)
      (fun hpos => hp hpos _ (handle_eq hh)) hwriteAt
    exact (hs.setDisk (handle_eq hh) hwrote).setFile (handle_eq hh) rfl
  | readAt h' numBytes position =>
    obtain ⟨handle, hh, h⟩ := bind_eq_ok h
    obtain ⟨r', hread, h⟩ := bind_eq_ok h
    cases h
    exact hs
  | writeAt h' source numBytes position =>
    obtain ⟨handle, hh, h⟩ := bind_eq_ok h
    obtain ⟨r', hwrite, h⟩ := bind_eq_ok h
    cases h
    obtain ⟨p, m, hwrote⟩ := OpenFile.wrote_of_writeAt (hs.valid (handle_eq hh)).covers (hlt _) hp hwrite
    exact hs.setDisk (handle_eq hh) hwrote
  | length h' =>
    obtain ⟨handle, hh, h⟩ := bind_eq_ok h
    cases h
    exact hs
  | remove name =>
    obtain ⟨r', hremove, hcase⟩ := FileSystem.remove_eq hs.wellFormed hs.mounted fresh (cString name)
    rw [System.exec, hremove, ok_bind] at h
    rcases hcase with ⟨rfl, -⟩ | ⟨i, sector, hr, hremoved⟩
    · cases h
      exact hs
    · rw [hr] at h
      cases h
      exact hs.remove hremoved
  | restart =>
    rw [System.exec, mount_eq, ok_bind] at h
    cases h
    exact ⟨hs.wellFormed, ⟨rfl, rfl⟩, fun hv => nomatch hv⟩

end Sound

/-- A `Create` that fails changes nothing. -/
lemma eq_of_create_false {s s' : System} {fresh : ℕ → Memory} {name : List Byte}
    {initialSize : Word}
    (h : s.exec fresh (.create name initialSize) = .ok (.success false, s')) : s' = s := by
  obtain ⟨⟨b, fs⟩, hcreate, h⟩ := bind_eq_ok h
  obtain ⟨hb, rfl⟩ := Prod.mk.inj (Except.ok.inj h)
  cases hb
  obtain ⟨directory, -, hcreate⟩ := bind_eq_ok hcreate
  split at hcreate
  next => cases hcreate; rfl
  obtain ⟨freeMap, -, hcreate⟩ := bind_eq_ok hcreate
  dsimp only at hcreate
  split at hcreate
  next => cases hcreate; rfl
  split at hcreate
  next => cases hcreate; rfl
  obtain ⟨hdr, -, hcreate⟩ := bind_eq_ok hcreate
  split at hcreate
  next => cases hcreate; rfl
  obtain ⟨disk₁, -, hcreate⟩ := bind_eq_ok hcreate
  obtain ⟨disk₂, -, hcreate⟩ := bind_eq_ok hcreate
  obtain ⟨disk₃, -, hcreate⟩ := bind_eq_ok hcreate
  cases hcreate

end System

/-! ### Runs -/

/-- The operations of a step are permitted. -/
def Permits (s : System) (es : List (Op × Result)) (_ : System) : Prop :=
  ∀ e ∈ es, s.Permitted e.1

section Runs

variable {disk : Disk} {fresh : ℕ → Memory} {s₀ s : System} {tr : List (Op × Result)}

lemma sound_of_boot (h : boot disk fresh = .ok s₀) : s₀.Sound := by
  obtain ⟨fs, hformat, h⟩ := bind_eq_ok h
  cases h
  obtain ⟨fs', hformat', hf⟩ := FileSystem.format_eq disk fresh
  rw [hformat'] at hformat
  cases hformat
  exact ⟨hf.wellFormed, hf.mounted, fun hv => nomatch hv⟩

/-- **The invariant of a run.** -/
theorem sound_of_run (hboot : boot disk fresh = .ok s₀) (hr : Run (Guarded Permits Step) s₀ tr s) :
    s.Sound := by
  refine hr.invariant_state (sound_of_boot hboot) fun {s es s'} hs hstep => ?_
  obtain ⟨⟨c, hc⟩, hg⟩ := hstep
  obtain ⟨r, hexec, h⟩ := bind_eq_ok hc
  cases h
  exact hs.exec (hg _ List.mem_cons_self) hexec

/-- **In a run whose writes do not reach in front of a file, the disk is accounted for**, and a
`Create` that fails leaves it as it is. -/
theorem accounted_of_run (hboot : boot disk fresh = .ok s₀)
    (hr : Run (Guarded Permits Step) s₀ tr s) :
    Accounted s.disk ∧ ∀ fresh name initialSize s',
      s.exec fresh (.create name initialSize) = .ok (.success false, s') → s'.disk = s.disk :=
  ⟨(sound_of_run hboot hr).wellFormed.accounted, fun _ _ _ _ h =>
    congrArg (fun s => s.disk) (System.eq_of_create_false h)⟩

end Runs

/-! ### A write in front of a file -/

/-- The size is one that a file can have. -/
def sizeOk (initialSize : Word) : Bool :=
  0 ≤ initialSize.toInt && initialSize.toInt ≤ maxFileSize

/-- `Create`, `Open`, `ReadAt`, `WriteAt` and `Remove`, with sizes that a file can have. -/
def basicOp : Op → Bool
  | .create _ initialSize => sizeOk initialSize
  | .openFile .. | .readAt .. | .writeAt .. | .remove .. => true
  | _ => false

/-- The steps with these operations. -/
def Basic (_ : System) (es : List (Op × Result)) (_ : System) : Prop :=
  ∀ e ∈ es, basicOp e.1 = true

/-- They write no byte in front of a file. -/
def insideOp : Op → Bool
  | .create _ initialSize => sizeOk initialSize
  | .writeAt _ _ _ position => 0 ≤ position.toInt
  | .write .. => false
  | _ => true

lemma permitted_of_insideOp {s : System} {op : Op} (h : insideOp op = true) : s.Permitted op := by
  cases op with
  | create name initialSize =>
    rw [insideOp, sizeOk, Bool.and_eq_true] at h
    exact ⟨of_decide_eq_true h.1, of_decide_eq_true h.2⟩
  | writeAt h' source numBytes position => exact fun _ => of_decide_eq_true h
  | write => cases h
  | _ => trivial

/-- Memory that holds zeros. -/
def zeros : Memory := fun _ => 0

/-- A file of two sectors is created, and the sector in front of it is written. -/
def writeInFront : List Choice :=
  [⟨.create [97] 256, fun _ => zeros⟩, ⟨.openFile 0 [97], fun _ => zeros⟩,
    ⟨.writeAt 0 zeros 128 (-128), fun _ => zeros⟩]

/-- The same file is written inside. -/
def writeInside : List Choice :=
  [⟨.create [97] 256, fun _ => zeros⟩, ⟨.openFile 0 [97], fun _ => zeros⟩,
    ⟨.writeAt 0 zeros 128 64, fun _ => zeros⟩]

/-- A disk of zeros is formatted. -/
def bootZeros : Except Fault System := boot (fun _ => zeros) fun _ => zeros

lemma ops_of_step {ok : Op → Bool} {c : Choice} {s s' : System} {es : List (Op × Result)}
    (hc : ok c.op = true) (hs : step c s = .ok (es, s')) : ∀ e ∈ es, ok e.1 = true := by
  obtain ⟨r, -, hes⟩ := bind_eq_ok hs
  cases hes
  intro e he
  rwa [List.mem_singleton.mp he]

/-- **The free map is overwritten**, and marks no sector that is in use. -/
theorem not_accounted : ¬ ∀ disk fresh s₀ tr s, boot disk fresh = .ok s₀ →
    Run (Guarded Basic Step) s₀ tr s → Accounted s.disk := by
  intro hall
  have hpass : startPasses bootZeros step (fun c => basicOp c.op)
      (fun s => !(freeMapOn s.disk).bit freeMapSector) writeInFront = true := by
    decide +kernel
  obtain ⟨s₀, tr, s, hboot, hr, hp⟩ := run_of_startPasses (G := Basic) ops_of_step hpass
  have hused : freeMapSector ∈ used s.disk := List.mem_append_left _ List.mem_cons_self
  have hmarked := ((hall _ _ _ _ _ hboot hr).marked freeMapSector).mp hused
  rw [Bool.not_eq_true', hmarked.2] at hp
  cases hp

/-- A file is created and written. -/
theorem accounted_of_run_write : ∃ s₀ tr s, bootZeros = .ok s₀ ∧
    Run (Guarded Permits Step) s₀ tr s ∧ (directoryOn s.disk).inUse 0 = true ∧
      (Accounted s.disk ∧ ∀ fresh name initialSize s',
        s.exec fresh (.create name initialSize) = .ok (.success false, s') →
          s'.disk = s.disk) := by
  have hpass : startPasses bootZeros step (fun c => insideOp c.op)
      (fun s => (directoryOn s.disk).inUse 0) writeInside = true := by
    decide +kernel
  obtain ⟨s₀, tr, s, hboot, hr, hp⟩ := run_of_startPasses (G := Permits) (fun hc hs e he =>
    permitted_of_insideOp (ops_of_step hc hs e he)) hpass
  exact ⟨s₀, tr, s, hboot, hr, hp, accounted_of_run hboot hr⟩

end Nachos.Filesys
