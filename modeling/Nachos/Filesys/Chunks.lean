import Mathlib.Data.List.GetD
import Nachos.Filesys.Request
import Nachos.Filesys.Sizes

/-!
# Transfers in chunks

A client writes a string part by part, or reads a file part by part until nothing is left, and the
seek position goes along. The parts add up to one transfer, as long as no sum of the position and a
count wraps around. `Copy` and `Print` take parts of `TransferSize` bytes.
-/

namespace Nachos.Filesys

open Lib Threads Userprog Mips

/-- A buffer that holds the bytes. -/
def cells (data : List Byte) : Memory := fun i => data.getD i 0

namespace OpenFile

/-- The parts of a string are written, one after the other: the total of the counts, the disk and
the file. -/
def writeChunks (fresh : ℕ → ℕ → Memory) :
    List (List Byte) → Disk → OpenFile → Except Fault (ℤ × Disk × OpenFile)
  | [], disk, f => .ok (0, disk, f)
  | chunk :: rest, disk, f => do
    let r ← f.write disk (fresh rest.length) (cells chunk) chunk.length
    let total ← writeChunks fresh rest r.2.1 r.2.2
    return (r.1 + total.1, total.2)

/-- Reads with the counts `sizes k`, `sizes (k + 1)`, … until one gives nothing, `n` of them at
most: the bytes, whether one has given nothing, and the file. -/
def readChunks (disk : Disk) (fresh : ℕ → Memory) (sizes : ℕ → ℤ) :
    ℕ → ℕ → OpenFile → Except Fault (List Byte × Bool × OpenFile)
  | 0, _, f => .ok ([], false, f)
  | n + 1, k, f => do
    let r ← f.read disk (fresh k) (sizes k)
    if r.1 = [] then return ([], true, r.2)
    else do
      let rest ← readChunks disk fresh sizes n (k + 1) r.2
      return (r.1 ++ rest.1, rest.2)

end OpenFile

/-! ### Writing -/

section Overlay

variable {data a b : List Byte} {p : ℕ}

lemma getElem?_overlay {n : ℕ} {source : Memory} {i : ℕ} : (overlay data p n source)[i]? =
    data[i]?.map fun x => if p ≤ i ∧ i < p + n then source (i - p) else x := by
  rw [overlay, List.getElem?_mapIdx]

/-- Two writes, the second one behind the first one as far as that went, are one. -/
lemma overlay_overlay : overlay (overlay data p a.length (cells a))
      (p + min a.length (data.length - p)) b.length (cells b) =
    overlay data p (a ++ b).length (cells (a ++ b)) := by
  refine List.ext_getElem? fun i => ?_
  rw [getElem?_overlay, getElem?_overlay, getElem?_overlay, Option.map_map]
  by_cases hi : i < data.length
  · refine congrArg (Option.map · _) (funext fun x => ?_)
    simp only [Function.comp_apply, List.length_append]
    by_cases hfirst : p ≤ i ∧ i < p + a.length
    · have hcell : cells (a ++ b) (i - p) = cells a (i - p) := List.getD_append _ _ _ _ (by omega)
      rw [if_pos hfirst, if_neg (by omega), if_pos (by omega), hcell]
    · rw [if_neg hfirst]
      by_cases hsecond : p + a.length ≤ i ∧ i < p + a.length + b.length
      · have hcell : cells (a ++ b) (i - p) = cells b (i - (p + a.length)) := by
          refine (List.getD_append_right _ _ _ _ (by omega)).trans ?_
          exact congrArg (b.getD · 0) (by omega)
        have hmin : min a.length (data.length - p) = a.length := by omega
        rw [hmin, if_pos hsecond, if_pos (by omega), hcell]
      · rw [if_neg (by omega), if_neg (by omega)]
  · rw [List.getElem?_eq_none (by omega)]
    rfl

lemma overlay_zero {source : Memory} : overlay data p 0 source = data := by
  refine List.ext_getElem? fun i => ?_
  rw [getElem?_overlay]
  simp only [if_neg (show ¬ (p ≤ i ∧ i < p + 0) by omega), Option.map_id']

/-- The whole of the data is replaced. -/
lemma overlay_all (h : a.length = data.length) : overlay data 0 a.length (cells a) = a := by
  refine List.ext_getElem? fun i => ?_
  rw [getElem?_overlay]
  by_cases hi : i < data.length
  · rw [List.getElem?_eq_getElem hi, List.getElem?_eq_getElem (by omega), Option.map_some,
      if_pos (by omega)]
    exact congrArg some (List.getD_eq_getElem _ _ (by omega))
  · rw [List.getElem?_eq_none (by omega), List.getElem?_eq_none (by omega)]
    rfl

end Overlay

namespace OpenFile

variable {f : OpenFile} {disk : Disk}

/-- What is written in parts, from the position `p` on. -/
structure WroteChunks (f : OpenFile) (disk : Disk) (data : List Byte) (p : ℕ)
    (r : ℤ × Disk × OpenFile) : Prop where
  count : r.1 = (min data.length (f.hdr.size - p) : ℕ)
  bytes : f.hdr.bytes r.2.1 = overlay (f.hdr.bytes disk) p data.length (cells data)
  others : ∀ x ∉ f.hdr.sectors, r.2.1 x = disk x
  file : r.2.2 = ⟨f.hdr, ((p + min data.length (f.hdr.size - p) : ℕ) : ℤ)⟩

/-- One part. -/
lemma write_eq (disk : Disk) (hv : f.hdr.Covers) (fresh : ℕ → Memory) {chunk : List Byte} {p : ℕ}
    (hp : f.seekPosition = p) (hsum : p + chunk.length < 2 ^ 31) : ∃ disk',
    f.write disk fresh (cells chunk) chunk.length =
      .ok (((min chunk.length (f.hdr.size - p) : ℕ) : ℤ), disk',
        ⟨f.hdr, ((p + min chunk.length (f.hdr.size - p) : ℕ) : ℤ)⟩) ∧
    f.hdr.bytes disk' = overlay (f.hdr.bytes disk) p chunk.length (cells chunk) ∧
    ∀ x ∉ f.hdr.sectors, disk' x = disk x := by
  obtain ⟨disk', hwrite, hwrote⟩ := writeAt_eq hv disk fresh (cells chunk) hsum
  refine ⟨disk', ?_, Represents.bytes_of_wrote hwrote, hwrote.others⟩
  rw [write, hp, hwrite, ok_bind]
  dsimp only
  rw [Represents.int_seekPosition hsum]
  rfl

/-- **Parts that are written one after the other** are one write. -/
lemma writeChunks_eq (disk : Disk) (hv : f.hdr.Covers) (fresh : ℕ → ℕ → Memory)
    {chunks : List (List Byte)} {p : ℕ} (hp : f.seekPosition = p) (hsum : p + chunks.flatten.length < 2 ^ 31) :
    ∃ r, f.writeChunks fresh chunks disk = .ok r ∧ WroteChunks f disk chunks.flatten p r := by
  induction chunks generalizing f disk p with
  | nil =>
    refine ⟨_, rfl, by simp, overlay_zero.symm, fun _ _ => rfl, ?_⟩
    obtain ⟨hdr, seekPosition⟩ := f
    cases hp
    simp
  | cons chunk rest ih =>
    rw [List.flatten_cons, List.length_append] at hsum
    obtain ⟨disk', hwrite, hbytes, hothers⟩ :=
      write_eq disk hv (fresh rest.length) hp (show p + chunk.length < 2 ^ 31 by omega)
    obtain ⟨r, hrest, hcount, hbytes', hothers', hfile⟩ :=
      ih (f := ⟨f.hdr, ((p + min chunk.length (f.hdr.size - p) : ℕ) : ℤ)⟩) disk' hv rfl (by omega)
    refine ⟨((min chunk.length (f.hdr.size - p) : ℕ) + r.1, r.2), ?_, ?_, ?_, ?_, ?_⟩
    · rw [writeChunks, hwrite, ok_bind]
      dsimp only
      rw [hrest, ok_bind]
      rfl
    · rw [hcount, List.flatten_cons, List.length_append]
      dsimp only
      omega
    · rw [hbytes', hbytes, List.flatten_cons, ← overlay_overlay, FileHeader.length_bytes]
    · exact fun x hx => (hothers' x hx).trans (hothers x hx)
    · rw [hfile, List.flatten_cons, List.length_append]
      dsimp only
      congr 2
      omega

/-! ### Reading -/

/-- The sum of the first `k` counts. -/
def total (sizes : ℕ → ℤ) : ℕ → ℤ
  | 0 => 0
  | k + 1 => total sizes k + sizes k

/-- No sum of the position and a count wraps around before the end of the file. -/
def NoWrap (sizes : ℕ → ℤ) (size : ℕ) : Prop :=
  ∀ k, total sizes k < size → total sizes (k + 1) < 2 ^ 31

section Read

variable {fresh : ℕ → Memory} {sizes : ℕ → ℤ} (hv : f.hdr.Covers)
  (hsizes : ∀ k, 0 < sizes k ∧ sizes k < 2 ^ 31)

include hsizes in
lemma total_nonneg (k : ℕ) : 0 ≤ total sizes k := by
  induction k with
  | zero => exact le_rfl
  | succ k ih =>
    have hpos := (hsizes k).1
    rw [total]
    omega

include hsizes in
lemma total_mono {j k : ℕ} (h : j ≤ k) : total sizes j ≤ total sizes k := by
  induction h with
  | refl => exact le_rfl
  | @step k h ih =>
    have hpos := (hsizes k).1
    rw [total]
    omega

include hv

variable (disk) in
/-- One read. -/
lemma read_eq (fresh : Memory) {n p : ℕ} (hp : f.seekPosition = p) (hsum : p + n < 2 ^ 31) :
    f.read disk fresh n = .ok (((f.hdr.bytes disk).drop p).take n,
      ⟨f.hdr, ((p + min n (f.hdr.size - p) : ℕ) : ℤ)⟩) := by
  have hlength : (((f.hdr.bytes disk).drop p).take n).length = min n (f.hdr.size - p) :=
    Represents.length_part f.hdr disk p n
  rw [read, hp, readAt_eq hv disk fresh hsum, ok_bind, hlength, Represents.int_seekPosition hsum]
  rfl

/-- A read behind the last byte. -/
lemma read_end (fresh : Memory) {n : ℤ} (hp : f.seekPosition = f.hdr.size) :
    f.read disk fresh n = .ok ([], f) := by
  have hle : f.hdr.size ≤ 3840 := hv.size_le
  have hend : f.seekPosition ≥ f.hdr.fileLength := by rw [hv.fileLength_eq, hp]
  have hread : f.readAt disk fresh n f.seekPosition = .ok [] := if_pos (.inr hend)
  rw [read, hread, ok_bind]
  show Except.ok ([], f.seek (int (f.seekPosition + 0))) = _
  rw [add_zero, int_eq (by omega) (by omega)]
  rfl

omit hv in
lemma take_append_drop_min {α : Type} (l : List α) (n : ℕ) :
    l.take n ++ l.drop (min n l.length) = l := by
  obtain h | h := le_total n l.length
  · rw [min_eq_left h, List.take_append_drop]
  · rw [min_eq_right h, List.take_of_length_le h, List.drop_length, List.append_nil]

include hsizes

variable (disk fresh) in
/-- **Parts that are read one after the other** are the bytes that are left. -/
lemma readChunks_eq (hnoWrap : NoWrap sizes f.hdr.size) {k p : ℕ} (hp : f.seekPosition = p)
    (htotal : (p : ℤ) = min (total sizes k) f.hdr.size) :
    ∃ n, readChunks disk fresh sizes n k f =
      .ok ((f.hdr.bytes disk).drop p, true, ⟨f.hdr, (f.hdr.size : ℤ)⟩) := by
  have hle : f.hdr.size ≤ 3840 := hv.size_le
  induction hleft : f.hdr.size - p using Nat.strong_induction_on generalizing f k p with
  | _ left ih =>
    obtain ⟨n, hn⟩ := Int.eq_ofNat_of_zero_le (hsizes k).1.le
    have hpos := hsizes k
    by_cases hend : p < f.hdr.size
    · have hsum : p + n < 2 ^ 31 := by
        have hsucc := hnoWrap k (by omega)
        rw [total, hn] at hsucc
        omega
      have hread := read_eq disk hv (fresh k) hp hsum
      obtain ⟨rounds, hrest⟩ := ih (f.hdr.size - (p + min n (f.hdr.size - p))) (by omega)
        (f := ⟨f.hdr, ((p + min n (f.hdr.size - p) : ℕ) : ℤ)⟩) (k := k + 1) hv hnoWrap rfl
        (by rw [total, hn]; dsimp only; omega) hle rfl
      refine ⟨rounds + 1, ?_⟩
      have hne : ((f.hdr.bytes disk).drop p).take n ≠ [] := by
        intro hnil
        have hlength := congrArg List.length hnil
        rw [List.length_take, List.length_drop, FileHeader.length_bytes, List.length_nil] at hlength
        omega
      rw [readChunks, hn, hread, ok_bind, if_neg hne, hrest, ok_bind]
      have hrest := take_append_drop_min ((f.hdr.bytes disk).drop p) n
      rw [List.length_drop, FileHeader.length_bytes, List.drop_drop] at hrest
      exact congrArg (fun data => Except.ok (data, true, _)) hrest
    · have hp' : f.seekPosition = f.hdr.size := by omega
      refine ⟨1, ?_⟩
      rw [readChunks, read_end hv (fresh k) hp', ok_bind, if_pos rfl,
        List.drop_eq_nil_of_le (by rw [FileHeader.length_bytes]; omega), ← hp']
      rfl

/-- A sum that wraps around ends the reading. -/
lemma not_readChunks {j k p n : ℕ} {data : List Byte} {file : OpenFile} (hk : total sizes k < f.hdr.size)
    (hwrap : 2 ^ 31 ≤ total sizes (k + 1)) (hjk : j ≤ k) (hp : f.seekPosition = p)
    (htotal : (p : ℤ) = total sizes j) :
    readChunks disk fresh sizes n j f ≠ .ok (data, true, file) := by
  have hle : f.hdr.size ≤ 3840 := hv.size_le
  have hlt := (total_mono hsizes hjk).trans_lt hk
  induction n generalizing f j p data file with
  | zero =>
    intro h
    cases h
  | succ n ih =>
    obtain ⟨c, hc⟩ := Int.eq_ofNat_of_zero_le (hsizes j).1.le
    have hpos := hsizes j
    rw [readChunks, hc]
    intro h
    obtain rfl | hlater := Nat.eq_or_lt_of_le hjk
    · -- the read whose sum wraps around
      obtain ⟨read, hread, -⟩ := bind_eq_ok h
      obtain ⟨bytes, hdata, -⟩ := bind_eq_ok hread
      rw [total, hc] at hwrap
      rw [hp] at hdata
      exact not_readAt hv (by omega) (by omega) (by omega) hdata
    · -- a read in front of it
      have hnext := (total_mono hsizes hlater).trans_lt hk
      rw [total, hc] at hnext
      rw [read_eq disk hv (fresh j) hp (by omega), ok_bind] at h
      have hne : ((f.hdr.bytes disk).drop p).take c ≠ [] := by
        intro hnil
        have hlength := congrArg List.length hnil
        rw [List.length_take, List.length_drop, FileHeader.length_bytes, List.length_nil] at hlength
        omega
      rw [if_neg hne] at h
      obtain ⟨⟨rest, done, file'⟩, hrest, h⟩ := bind_eq_ok h
      cases h
      refine ih (f := ⟨f.hdr, ((p + min c (f.hdr.size - p) : ℕ) : ℤ)⟩) hv hk hlater rfl ?_ hle ?_ hrest
      · rw [total, hc]
        omega
      · rw [total, hc]
        exact hnext

end Read

end OpenFile

/-! ### `Copy` and `Print` -/

/-- `TransferSize`. -/
abbrev transferSize : ℕ := 10

/-- What the calls of `fread` give, `n` of them at most, until one gives nothing. -/
def freads : ℕ → List Byte → List (List Byte)
  | 0, _ => []
  | n + 1, file =>
    if file.take transferSize = [] then []
    else file.take transferSize :: freads n (file.drop transferSize)

namespace FileSystem

variable (fs : FileSystem) (fresh : ℕ → Memory)

/-- `Copy`, of a UNIX file with the bytes `source`: whether there is an output file, and what has
become of the file system. A call of `fread` that gives something gives at least one byte. -/
def copy (buffers : ℕ → ℕ → Memory) (source : List Byte) (target : Memory) :
    Except Fault (Bool × FileSystem) := do
  let created ← fs.create fresh target source.length
  if !created.1 then
    return (false, created.2)
  match ← created.2.openFile fresh target with
  | none => throw .assertion
  | some (_, file) => do
    let written ← file.writeChunks buffers (freads source.length source) created.2.disk
    return (true, { created.2 with disk := written.2.1 })

/-- `Print`, with `n` reads at most: the bytes that are printed and whether the loop has ended, or
nothing when there is no such file. -/
def print (buffers : ℕ → Memory) (n : ℕ) (name : Memory) :
    Except Fault (Option (List Byte × Bool)) := do
  match ← fs.openFile fresh name with
  | none => return none
  | some (_, file) => do
    let read ← OpenFile.readChunks fs.disk buffers (fun _ => transferSize) n 0 file
    return some (read.1, read.2.1)

end FileSystem

/-- The calls of `fread` give the whole file. -/
lemma flatten_freads {n : ℕ} {file : List Byte} (h : file.length ≤ n) :
    (freads n file).flatten = file := by
  induction n generalizing file with
  | zero => exact (List.length_eq_zero_iff.1 (Nat.le_zero.1 h)).symm
  | succ n ih =>
    rw [freads]
    cases file with
    | nil => rfl
    | cons b file =>
      have hdrop : ((b :: file).drop transferSize).length ≤ n := by
        rw [List.length_drop]
        simp only [List.length_cons, transferSize] at h ⊢
        omega
      rw [if_neg (by simp), List.flatten_cons, ih hdrop, List.take_append_drop]

section CopyPrint

variable {fs : FileSystem} {name : Memory}

/-- `Print` of a file of the directory. -/
lemma print_eq (hw : WellFormed fs.disk) (hm : Mounted fs) (fresh : ℕ → Memory)
    (buffers : ℕ → Memory) {i : ℕ} {s : ℤ}
    (he : (directoryOn fs.disk).entry i = some (key name, s)) : ∃ n,
    fs.print fresh buffers n name = .ok (some ((headerAt fs.disk s.toNat).bytes fs.disk, true)) := by
  have hv := (hw.header he).2.2.covers
  have hle : (headerAt fs.disk s.toNat).size ≤ 3840 := hv.size_le
  have hten : 0 < (transferSize : ℤ) ∧ (transferSize : ℤ) < 2 ^ 31 := by decide
  have hnoWrap : OpenFile.NoWrap (fun _ => (transferSize : ℤ)) (headerAt fs.disk s.toNat).size := by
    intro k hk
    have hvalue : (transferSize : ℤ) = 10 := rfl
    rw [OpenFile.total]
    omega
  obtain ⟨n, hn⟩ := OpenFile.readChunks_eq (f := ⟨headerAt fs.disk s.toNat, 0⟩) (k := 0) (p := 0)
    fs.disk buffers hv (fun _ => hten) hnoWrap rfl (by simp [OpenFile.total])
  obtain ⟨r, hopen, ⟨-, hnone⟩ | ⟨j, s', he', rfl⟩⟩ := FileSystem.openFile_eq hw hm fresh name
  · exact absurd he (hnone i s)
  · have hji := hw.names he' he
    subst hji
    rw [he] at he'
    cases he'
    refine ⟨n, ?_⟩
    rw [FileSystem.print, hopen, ok_bind]
    dsimp only
    rw [hn, ok_bind]
    rfl

/-- The file system after a write to a file. -/
lemma mounted_write (hw : WellFormed fs.disk) (hm : Mounted fs) {disk : Disk} {i : ℕ}
    {k : List Byte} {s : ℤ} (he : (directoryOn fs.disk).entry i = some (k, s))
    (hothers : ∀ x ∉ (headerAt fs.disk s.toNat).sectors, disk x = fs.disk x) :
    Mounted { fs with disk } := by
  have hsystem : ∀ x ∈ systemSectors fs.disk, disk x = fs.disk x := fun x hx =>
    hothers x fun hx' => hw.not_system he (List.mem_cons_of_mem _ hx') hx
  refine ⟨?_, ?_⟩
  · exact hm.map.trans (congrArg FileHeader.ofMemory (hsystem _ List.mem_cons_self).symm)
  · exact hm.dir.trans (congrArg FileHeader.ofMemory
      (hsystem _ (List.mem_cons_of_mem _ List.mem_cons_self)).symm)

/-- `Copy` makes a file when there is room, and then `Print` prints what has been copied. -/
def CopyPrints (fs : FileSystem) (name : Memory) (source : List Byte) : Prop :=
  ∀ fresh buffers, ∃ r, fs.copy fresh buffers source name = .ok r ∧
    (r.1 = true ↔ Fits fs.disk (key name) source.length) ∧ (r.1 = false → r.2 = fs) ∧
    (r.1 = true → ∀ fresh' buffers', ∃ n,
      r.2.print fresh' buffers' n name = .ok (some (source, true)))

/-- **What `Copy` makes can be printed.** -/
lemma copy_print (hw : WellFormed fs.disk) (hm : Mounted fs) (fresh : ℕ → Memory)
    (buffers : ℕ → ℕ → Memory) {source : List Byte} (hsource : source.length ≤ maxFileSize) :
    ∃ r, fs.copy fresh buffers source name = .ok r ∧
      (r.1 = true ↔ Fits fs.disk (key name) source.length) ∧ (r.1 = false → r.2 = fs) ∧
      (r.1 = true → ∀ fresh' buffers', ∃ n,
        r.2.print fresh' buffers' n name = .ok (some (source, true))) := by
  have hle : source.length ≤ 3840 := hsource
  have hdecides : Decides fs name source.length :=
    FileSystem.decides_of_size hw hm ⟨by omega, by exact_mod_cast hsource⟩
  obtain ⟨r, hcreate, hfits, hsame⟩ := hdecides fresh
  obtain ⟨r', hcreate', hcases⟩ := FileSystem.create_eq hw hm fresh name hsource
  rw [hcreate] at hcreate'
  cases hcreate'
  rcases hcases with ⟨rfl, -⟩ | ⟨htrue, i, sector, hc⟩
  · refine ⟨(false, fs), ?_, hfits, fun _ => rfl, (fun h => by cases h)⟩
    rw [FileSystem.copy, hcreate, ok_bind]
    rfl
  obtain ⟨b, fs₁⟩ := r
  change b = true at htrue
  subst htrue
  have hw₁ := hc.wellFormed
  have hm₁ := hc.mounted
  have he : (directoryOn fs₁.disk).entry i = some (key name, (sector : ℤ)) :=
    (congrFun hc.entry i).trans (Function.update_self ..)
  have hv := (hw₁.header he).2.2
  rw [Int.toNat_natCast] at hv
  have hsum : 0 + (freads source.length source).flatten.length < 2 ^ 31 := by
    rw [flatten_freads le_rfl]
    omega
  obtain ⟨written, hwrite, hwrote⟩ := OpenFile.writeChunks_eq
    (f := ⟨headerAt fs₁.disk sector, 0⟩) fs₁.disk hv.covers buffers rfl hsum
  rw [flatten_freads le_rfl] at hwrote
  have hcopy : fs.copy fresh buffers source name =
      .ok (true, { fs₁ with disk := written.2.1 }) := by
    obtain ⟨r, hopen, ⟨-, hnone⟩ | ⟨j, s', he', rfl⟩⟩ := FileSystem.openFile_eq hw₁ hm₁ fresh name
    · exact absurd he (hnone i sector)
    · have hji := hw₁.names he' he
      subst hji
      rw [he] at he'
      cases he'
      rw [FileSystem.copy, hcreate, ok_bind]
      dsimp only
      rw [if_neg (by decide), hopen, ok_bind]
      dsimp only
      rw [Int.toNat_natCast, hwrite, ok_bind]
      rfl
  refine ⟨_, hcopy, hfits, (fun h => by cases h), fun _ fresh' buffers' => ?_⟩
  have hothers : ∀ x ∉ (headerAt fs₁.disk (sector : ℤ).toNat).sectors,
      written.2.1 x = fs₁.disk x := hwrote.others
  obtain ⟨hw₂, hentry, -, hheader⟩ := hw₁.write he hothers
  have hsame : headerAt written.2.1 sector = headerAt fs₁.disk sector :=
    congrArg FileHeader.ofMemory (hheader he)
  have hm₂ : Mounted { fs₁ with disk := written.2.1 } := mounted_write hw₁ hm₁ he hothers
  obtain ⟨n, hprint⟩ := print_eq hw₂ hm₂ fresh' buffers' ((congrFun hentry i).trans he)
  refine ⟨n, hprint.trans ?_⟩
  have hbytes : (headerAt written.2.1 sector).bytes written.2.1 = source := by
    rw [hsame, hwrote.bytes]
    refine overlay_all ?_
    rw [FileHeader.length_bytes, hc.size]
  exact congrArg (fun data => Except.ok (some (data, true))) hbytes

end CopyPrint

/-! ### Chunks -/

namespace OpenFile

/-- Writing a string in parts, from the position 0 on, leaves what one `WriteAt` leaves: the bytes,
the count and the position behind them. -/
def WritesAlike (f : OpenFile) (disk : Disk) (chunks : List (List Byte)) : Prop :=
  ∀ buffers fresh, ∃ (written : ℤ) (disk' : Disk) (f' : OpenFile) (disk'' : Disk),
    f.writeChunks buffers chunks disk = .ok (written, disk', f') ∧
    f.writeAt disk fresh (cells chunks.flatten) chunks.flatten.length 0 = .ok (written, disk'') ∧
    f'.hdr.bytes disk' = f.hdr.bytes disk'' ∧ f'.seekPosition = written

/-- Reading in parts gives the bytes of the file. -/
def ReadsAll (f : OpenFile) (disk : Disk) (sizes : ℕ → ℤ) : Prop :=
  ∀ buffers, ∃ n f', readChunks disk buffers sizes n 0 f = .ok (f.hdr.bytes disk, true, f')

variable {f : OpenFile} {disk : Disk}

lemma writesAlike (hv : f.hdr.Covers) (hseek : f.seekPosition = 0) {chunks : List (List Byte)}
    (hlength : chunks.flatten.length < 2 ^ 31) : WritesAlike f disk chunks := by
  intro buffers fresh
  obtain ⟨⟨written, disk', f'⟩, hwrite, hcount, hbytes, -, hfile⟩ :=
    writeChunks_eq disk hv buffers hseek (show 0 + chunks.flatten.length < 2 ^ 31 by omega)
  obtain ⟨disk'', hone, hwrote⟩ :=
    writeAt_eq (p := 0) hv disk fresh (cells chunks.flatten) (n := chunks.flatten.length) (by omega)
  dsimp only at hcount hbytes hfile
  subst hcount hfile
  refine ⟨_, disk', _, disk'', hwrite, hone, ?_, ?_⟩
  · exact hbytes.trans (Represents.bytes_of_wrote hwrote).symm
  · rw [Nat.zero_add]

/-- **When reading in parts gives the file**: no sum of the position and a count wraps around. -/
lemma readsAll_iff (hv : f.hdr.Covers) (hseek : f.seekPosition = 0) {sizes : ℕ → ℤ}
    (hsizes : ∀ k, 0 < sizes k ∧ sizes k < 2 ^ 31) :
    ReadsAll f disk sizes ↔ NoWrap sizes f.hdr.size := by
  refine ⟨fun h => ?_, fun h buffers => ?_⟩
  · intro k hk
    by_contra hwrap
    obtain ⟨n, f', hread⟩ := h fun _ _ => 0
    exact not_readChunks (p := 0) hv hsizes hk (by omega) (Nat.zero_le k) hseek rfl hread
  · obtain ⟨n, hread⟩ := readChunks_eq (k := 0) (p := 0) disk buffers hv hsizes h hseek
      (by simp [total])
    exact ⟨n, _, hread⟩

/-- **Transfers in chunks**: a string can be written in parts, and what `Copy` makes `Print` prints,
always; a file can be read in parts exactly when no sum of the position and a count wraps around
before the end of the file. -/
theorem chunks_iff (hv : f.hdr.Covers) (hseek : f.seekPosition = 0) (disk : Disk)
    {chunks : List (List Byte)} (hlength : chunks.flatten.length < 2 ^ 31) {sizes : ℕ → ℤ}
    (hsizes : ∀ k, 0 < sizes k ∧ sizes k < 2 ^ 31) {fs : FileSystem} (hw : WellFormed fs.disk)
    (hm : Mounted fs) (name : Memory) {source : List Byte} (hsource : source.length ≤ maxFileSize) :
    (WritesAlike f disk chunks ∧ ReadsAll f disk sizes ∧ CopyPrints fs name source) ↔
      NoWrap sizes f.hdr.size := by
  rw [readsAll_iff hv hseek hsizes, and_iff_right (writesAlike hv hseek hlength)]
  exact and_iff_left fun fresh buffers => copy_print hw hm fresh buffers hsource

/-- One byte, and then as many as an `int` can ask for. -/
def oneThenMax (k : ℕ) : ℤ := if k = 0 then 1 else 2147483647

lemma oneThenMax_range (k : ℕ) : 0 < oneThenMax k ∧ oneThenMax k < 2 ^ 31 := by
  unfold oneThenMax
  split <;> decide

/-- The second read of a file of three bytes does not go through. -/
theorem not_chunks : ¬ ∀ (f : OpenFile) (disk : Disk) (sizes : ℕ → ℤ), f.hdr.Covers →
    f.seekPosition = 0 → (∀ k, 0 < sizes k ∧ sizes k < 2 ^ 31) → ReadsAll f disk sizes := by
  intro h
  have hall := h threeBytes (fun _ _ => 0) oneThenMax covers_threeBytes rfl oneThenMax_range
  rw [readsAll_iff covers_threeBytes rfl oneThenMax_range] at hall
  exact absurd (hall 1 (by decide)) (by decide)

/-- A file of three bytes, written in two parts and read two bytes at a time, and a copy of one byte
on a formatted disk. -/
theorem chunks_iff_threeBytes : ∃ fs, FileSystem.format (fun _ _ => 0) (fun _ _ => 0) = .ok fs ∧
    ((WritesAlike threeBytes (fun _ _ => 0) [[1], [2, 3]] ∧
        ReadsAll threeBytes (fun _ _ => 0) (fun _ => 2) ∧ CopyPrints fs (fun _ => 0) [7]) ↔
      NoWrap (fun _ => 2) threeBytes.hdr.size) := by
  obtain ⟨fs, hformat, hf⟩ := FileSystem.format_eq (fun _ _ => 0) fun _ _ => 0
  exact ⟨fs, hformat, chunks_iff covers_threeBytes rfl _ (by decide) (fun _ => by decide)
    hf.wellFormed hf.mounted _ (by decide)⟩

end OpenFile

end Nachos.Filesys
