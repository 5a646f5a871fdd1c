import Nachos.Filesys.Space

/-!
# Handles of files that have been removed

A client may keep a handle after its file is removed. The open file has a copy of the header, and
`Remove` frees the sectors that it names: `Create` may give them to another file. As long as none of
them is in use again, a write through the handle reaches no file.
-/

namespace Nachos.Filesys

open Lib Threads Userprog Mips

/-- The handles of the files that exist, and of those that have been removed since. -/
structure Session extends System where
  stale : ℕ → Option Handle

namespace Session

variable (s : Session)

/-- After a `Remove`, the handles of the file are stale. -/
def staleAfter (s' : System) : ℕ → Option Handle := fun h =>
  match s.handles h, s'.handles h with
  | some handle, none => some handle
  | _, _ => s.stale h

/-- One operation. -/
def exec (fresh : ℕ → Memory) : Op → Except Fault (Result × Session)
  | .openFile h name => do
    let r ← s.toSystem.exec fresh (.openFile h name)
    return (r.1, ⟨r.2, Function.update s.stale h none⟩)
  | .remove name => do
    let r ← s.toSystem.exec fresh (.remove name)
    return (r.1, ⟨r.2, s.staleAfter r.2⟩)
  | .restart => do
    let r ← s.toSystem.exec fresh .restart
    return (r.1, ⟨r.2, fun _ => none⟩)
  | .readAt h numBytes position => do
    match s.stale h with
    | some handle =>
      let r ← handle.file.readAt s.disk (fresh 0) numBytes.toInt position.toInt
      return (.bytes r, s)
    | none =>
      let r ← s.toSystem.exec fresh (.readAt h numBytes position)
      return (r.1, ⟨r.2, s.stale⟩)
  | .writeAt h source numBytes position => do
    match s.stale h with
    | some handle =>
      let r ← handle.file.writeAt s.disk fresh source numBytes.toInt position.toInt
      return (.count r.1, ⟨s.toSystem.setDisk r.2, s.stale⟩)
    | none =>
      let r ← s.toSystem.exec fresh (.writeAt h source numBytes position)
      return (r.1, ⟨r.2, s.stale⟩)
  | op => do
    let r ← s.toSystem.exec fresh op
    return (r.1, ⟨r.2, s.stale⟩)

/-- One step. -/
def step (c : Choice) (s : Session) : Except Fault (List (Op × Result) × Session) := do
  let r ← s.exec c.fresh c.op
  return ([(c.op, r.1)], r.2)

/-- The steps of a session. -/
abbrev Step : Session → List (Op × Result) → Session → Prop := StepOf step

/-- A disk is formatted, and there are no handles. -/
def boot (disk : Disk) (fresh : ℕ → Memory) : Except Fault Session := do
  return ⟨← Filesys.boot disk fresh, fun _ => none⟩

/-! ### Writes through a handle -/

/-- A write through the handle at `h` changes no sector that is in use, but the data sectors of the
file that the handle was opened on: no header, no other file, not the free map, not the
directory. -/
def Confined (s s' : Session) (h : ℕ) : Prop :=
  ∀ x ∈ used s.disk, (∀ handle, s.stale h = none → s.handles h = some handle →
    x ∉ (headerAt s.disk handle.sector.toNat).sectors) → s'.disk x = s.disk x

/-- A write is not in front of the file, and no sector of a file that has been removed is in use
again. -/
def Permitted (s : Session) : Op → Prop
  | .writeAt h _ numBytes position => 0 < numBytes.toInt → 0 ≤ position.toInt ∧
      ∀ handle, s.stale h = some handle → ∀ x ∈ handle.file.hdr.sectors, x ∉ used s.disk
  | op => s.toSystem.Permitted op

variable {s} in
lemma permitted_system {op : Op} (hp : s.Permitted op) : s.toSystem.Permitted op := by
  cases op with
  | writeAt h source numBytes position => exact fun hpos => (hp hpos).1
  | _ => exact hp

/-- The invariant: the headers of the stale handles were headers of files. -/
structure Sound (s : Session) : Prop where
  system : s.toSystem.Sound
  stale : ∀ {h handle}, s.stale h = some handle → handle.file.hdr.Valid

namespace Sound

variable {s s' : Session} {fresh : ℕ → Memory} {h : ℕ} {r : Result}

/-- The sectors that a write through a stale handle changes are not in use. -/
lemma setDisk (hs : s.Sound) {disk : Disk} (hother : ∀ x ∈ used s.disk, disk x = s.disk x) :
    (s.toSystem.setDisk disk).Sound := by
  obtain ⟨hw, hentry, -⟩ := hs.system.wellFormed.congr
    (fun x hx => hother x (mem_regions.mpr (.inl hx)))
    fun he => hother _ (WellFormed.mem_used he List.mem_cons_self)
  refine ⟨hw, ⟨?_, ?_⟩, fun {h v} hv => ?_⟩
  · have hmap := hother freeMapSector (List.mem_append_left _ List.mem_cons_self)
    exact hs.system.mounted.map.trans (congrArg FileHeader.ofMemory hmap.symm)
  · have hdir := hother directorySector
      (List.mem_append_left _ (List.mem_cons_of_mem _ List.mem_cons_self))
    exact hs.system.mounted.dir.trans (congrArg FileHeader.ofMemory hdir.symm)
  · obtain ⟨i, k, he, hhdr⟩ := hs.system.handles hv
    refine ⟨i, k, (congrFun hentry i).trans he, hhdr.trans ?_⟩
    exact congrArg FileHeader.ofMemory
      (hother _ (WellFormed.mem_used he List.mem_cons_self)).symm

/-- **A write that is permitted reaches no other file.** -/
theorem confined (hs : s.Sound) {source : Memory} {numBytes position : Word}
    (hp : s.Permitted (.writeAt h source numBytes position))
    (he : s.exec fresh (.writeAt h source numBytes position) = .ok (r, s')) : Confined s s' h := by
  have hlt : numBytes.toInt < 2 ^ 31 := BitVec.toInt_lt
  rw [exec] at he
  intro x hx hown
  cases hstale : s.stale h with
  | some handle =>
    rw [hstale] at he
    obtain ⟨written, hwrite, he⟩ := bind_eq_ok he
    cases he
    obtain ⟨p, m, hwrote⟩ :=
      OpenFile.wrote_of_writeAt (hs.stale hstale).covers hlt (fun hpos => (hp hpos).1) hwrite
    by_cases hpos : 0 < numBytes.toInt
    · exact hwrote.others x fun h => (hp hpos).2 _ hstale x h hx
    · -- nothing is written
      rw [OpenFile.writeAt, if_pos (.inl (by omega))] at hwrite
      cases hwrite
      rfl
  | none =>
    rw [hstale] at he
    obtain ⟨written, hexec, he⟩ := bind_eq_ok he
    cases he
    obtain ⟨handle, hh, hexec⟩ := bind_eq_ok hexec
    obtain ⟨written, hwrite, hexec⟩ := bind_eq_ok hexec
    cases hexec
    have hh := System.Sound.handle_eq hh
    obtain ⟨p, m, hwrote⟩ :=
      OpenFile.wrote_of_writeAt (hs.system.valid hh).covers hlt (fun hpos => (hp hpos).1) hwrite
    obtain ⟨i, k, -, hhdr⟩ := hs.system.handles hh
    exact hwrote.others x (hhdr ▸ hown handle hstale hh)

/-- **Every operation that is permitted keeps the invariant.** -/
theorem exec {op : Op} (hs : s.Sound) (hp : s.Permitted op)
    (he : s.exec fresh op = .ok (r, s')) : s'.Sound := by
  cases op with
  | openFile h' name =>
    obtain ⟨written, hexec, he⟩ := bind_eq_ok he
    cases he
    refine ⟨hs.system.exec (permitted_system hp) hexec,
      fun {h v} hv => ?_⟩
    change Function.update s.stale h' none h = some v at hv
    by_cases hne : h = h'
    · rw [hne, Function.update_self] at hv
      cases hv
    · rw [Function.update_of_ne hne] at hv
      exact hs.stale hv
  | remove name =>
    obtain ⟨written, hexec, he⟩ := bind_eq_ok he
    cases he
    refine ⟨hs.system.exec (permitted_system hp) hexec,
      fun {h v} hv => ?_⟩
    change s.staleAfter _ h = some v at hv
    rw [staleAfter] at hv
    split at hv
    next hh _ =>
      cases hv
      exact hs.system.valid hh
    next => exact hs.stale hv
  | restart =>
    obtain ⟨written, hexec, he⟩ := bind_eq_ok he
    cases he
    refine ⟨hs.system.exec (permitted_system hp) hexec, fun hv => ?_⟩
    cases hv
  | readAt h' numBytes position =>
    rw [Session.exec] at he
    split at he
    next =>
      obtain ⟨written, -, he⟩ := bind_eq_ok he
      cases he
      exact hs
    next =>
      obtain ⟨written, hexec, he⟩ := bind_eq_ok he
      cases he
      exact ⟨hs.system.exec (permitted_system hp) hexec,
        hs.stale⟩
  | writeAt h' source numBytes position =>
    have hconfined := hs.confined hp he
    rw [Session.exec] at he
    split at he
    next handle hstale =>
      obtain ⟨written, -, he⟩ := bind_eq_ok he
      cases he
      refine ⟨hs.setDisk fun x hx => hconfined x hx fun _ h => ?_, hs.stale⟩
      rw [hstale] at h
      cases h
    next =>
      obtain ⟨written, hexec, he⟩ := bind_eq_ok he
      cases he
      exact ⟨hs.system.exec (permitted_system hp) hexec, hs.stale⟩
  | _ =>
    obtain ⟨written, hexec, he⟩ := bind_eq_ok he
    cases he
    exact ⟨hs.system.exec (permitted_system hp) hexec, hs.stale⟩

end Sound

/-! ### Runs -/

/-- The operations of a step are permitted. -/
def Permits (s : Session) (es : List (Op × Result)) (_ : Session) : Prop :=
  ∀ e ∈ es, s.Permitted e.1

section Runs

variable {disk : Disk} {fresh : ℕ → Memory} {s₀ s : Session} {tr : List (Op × Result)}

lemma sound_of_run (hboot : boot disk fresh = .ok s₀) (hr : Run (Guarded Permits Step) s₀ tr s) :
    s.Sound := by
  have hstart : s₀.Sound := by
    obtain ⟨s₁, hboot₁, hs₁⟩ := bind_eq_ok hboot
    cases hs₁
    refine ⟨sound_of_boot hboot₁, fun hv => ?_⟩
    cases hv
  refine hr.invariant_state hstart fun {s es s'} hs hstep => ?_
  obtain ⟨⟨c, hc⟩, hg⟩ := hstep
  obtain ⟨r, hexec, h⟩ := bind_eq_ok hc
  cases h
  exact hs.exec (hg _ List.mem_cons_self) hexec

/-- **In a run whose writes are permitted, a write through a handle, of a file that exists or of one
that has been removed, reaches no other file.** -/
theorem confined_of_run (hboot : boot disk fresh = .ok s₀)
    (hr : Run (Guarded Permits Step) s₀ tr s) {fresh' : ℕ → Memory} {h : ℕ} {source : Memory}
    {numBytes position : Word} {r : Result} {s' : Session}
    (hp : s.Permitted (.writeAt h source numBytes position))
    (he : s.exec fresh' (.writeAt h source numBytes position) = .ok (r, s')) : Confined s s' h :=
  (sound_of_run hboot hr).confined hp he

end Runs

/-! ### A sector that is used again -/

/-- `Create`, `Open`, `ReadAt`, `WriteAt` and `Remove`, with sizes that a file can have. -/
def Basic (_ : Session) (es : List (Op × Result)) (_ : Session) : Prop :=
  ∀ e ∈ es, basicOp e.1 = true

/-- A disk of zeros is formatted. -/
def bootZeros : Except Fault Session := boot (fun _ => zeros) fun _ => zeros

/-- A file is opened and removed, and another one is created. -/
def createAgain : List Choice :=
  [⟨.create [97] 256, fun _ => zeros⟩, ⟨.openFile 0 [97], fun _ => zeros⟩,
    ⟨.remove [97], fun _ => zeros⟩, ⟨.create [98] 256, fun _ => zeros⟩]

/-- A file is opened. -/
def openOne : List Choice :=
  [⟨.create [97] 256, fun _ => zeros⟩, ⟨.create [98] 256, fun _ => zeros⟩,
    ⟨.openFile 0 [97], fun _ => zeros⟩]

/-- Memory that holds ones. -/
def ones : Memory := fun _ => 1

/-- A sector in use, a byte of which changes when ones are written through the handle at `0`. -/
def changes (s : Session) (x : ℕ) : Bool :=
  match s.exec (fun _ => zeros) (.writeAt 0 ones 128 0) with
  | .error _ => false
  | .ok (_, s') => x ∈ used s.disk && s'.disk x 0 != s.disk x 0

lemma ops_of_step {ok : Op → Bool} {c : Choice} {s s' : Session} {es : List (Op × Result)}
    (hc : ok c.op = true) (hs : step c s = .ok (es, s')) : ∀ e ∈ es, ok e.1 = true := by
  obtain ⟨r, -, hes⟩ := bind_eq_ok hs
  cases hes
  intro e he
  rwa [List.mem_singleton.mp he]

/-- `Create` and `Open`, with sizes that a file can have. -/
def opensOp : Op → Bool
  | .create _ initialSize => sizeOk initialSize
  | .openFile .. => true
  | _ => false

lemma permitted_of_opensOp {s : Session} {op : Op} (h : opensOp op = true) : s.Permitted op := by
  cases op with
  | create name initialSize =>
    rw [opensOp, sizeOk, Bool.and_eq_true] at h
    exact ⟨of_decide_eq_true h.1, of_decide_eq_true h.2⟩
  | openFile h' name => trivial
  | _ => cases h

/-- **The new file is changed through the handle of the old one.** -/
theorem not_confined : ¬ ∀ disk fresh s₀ tr s fresh' h source numBytes position r s',
    boot disk fresh = .ok s₀ → Run (Guarded Basic Step) s₀ tr s →
      s.exec fresh' (.writeAt h source numBytes position) = .ok (r, s') → Confined s s' h := by
  intro hall
  have hpass : startPasses bootZeros step (fun c => basicOp c.op)
      (fun s => (s.handles 0).isNone && changes s 6) createAgain = true := by
    decide +kernel
  obtain ⟨s₀, tr, s, hboot, hr, hp⟩ := run_of_startPasses (G := Basic) ops_of_step hpass
  rw [Bool.and_eq_true, Option.isNone_iff_eq_none] at hp
  obtain ⟨hnone, hp⟩ := hp
  unfold changes at hp
  split at hp
  next => cases hp
  next r s' hexec =>
    rw [Bool.and_eq_true, decide_eq_true_eq, bne_iff_ne] at hp
    refine hp.2 (congrFun (hall _ _ _ _ _ _ _ _ _ _ _ _ hboot hr hexec 6 hp.1 ?_) 0)
    intro handle _ hh
    rw [hnone] at hh
    cases hh

/-- A file is written through its handle. -/
theorem confined_of_run_write : ∃ s₀ tr s r s', bootZeros = .ok s₀ ∧
    Run (Guarded Permits Step) s₀ tr s ∧
      s.exec (fun _ => zeros) (.writeAt 0 ones 128 0) = .ok (r, s') ∧ s'.disk ≠ s.disk ∧
        Confined s s' 0 := by
  have hpass : startPasses bootZeros step (fun c => opensOp c.op)
      (fun s => (s.stale 0).isNone && changes s 6) openOne = true := by
    decide +kernel
  obtain ⟨s₀, tr, s, hboot, hr, hp⟩ := run_of_startPasses (G := Permits) (fun hc hs e he =>
    permitted_of_opensOp (ops_of_step hc hs e he)) hpass
  rw [Bool.and_eq_true, Option.isNone_iff_eq_none] at hp
  obtain ⟨hnone, hp⟩ := hp
  unfold changes at hp
  split at hp
  next => cases hp
  next r s' hexec =>
    rw [Bool.and_eq_true, decide_eq_true_eq, bne_iff_ne] at hp
    refine ⟨s₀, tr, s, r, s', hboot, hr, hexec, fun h => hp.2 (congrFun (congrFun h 6) 0), ?_⟩
    refine confined_of_run hboot hr (fun _ => ⟨by decide, fun handle hh => ?_⟩) hexec
    rw [hnone] at hh
    cases hh

end Session

end Nachos.Filesys
