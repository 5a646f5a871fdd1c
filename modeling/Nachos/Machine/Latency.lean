import Nachos.Lib.Rotation
import Nachos.Machine.Clock

/-!
# The latency of the disk

`disk.cc` computes how long a request takes. The head moves over one track per `SeekTime` ticks, the
disk turns by one sector per `RotationTime` ticks, and after the seek the head waits for the sector
that is wanted to come round. A read of the track under the head may be served from the track
buffer, which holds what has passed the head since `bufferInit`.
-/

namespace Nachos.Machine

open Lib

/-- `SectorsPerTrack`. -/
abbrev sectorsPerTrack : ℤ := 32

/-- `NumTracks`. -/
abbrev numTracks : ℤ := 32

/-- `NumSectors`. -/
abbrev numSectors : ℤ := sectorsPerTrack * numTracks

/-- `SeekTime`. -/
abbrev seekTime : ℤ := 500

/-- `RotationTime`. -/
abbrev rotationTime : ℤ := 500

/-- The result of `int` arithmetic. -/
def wrap (x : ℤ) : ℤ := x.bmod (2 ^ 32)

/-- `class Disk`: what the latency depends on, and `active`. -/
structure Disk where
  lastSector : ℤ
  bufferInit : ℤ
  active : Bool
  deriving DecidableEq

namespace Disk

/-- `Disk::Disk`. -/
def new : Disk := ⟨0, 0, false⟩

variable (d : Disk) (totalTicks newSector : ℤ)

/-- `Disk::TimeToSeek`, with `*rotation`. -/
def timeToSeek : ℤ × ℤ :=
  let newTrack := newSector.tdiv sectorsPerTrack
  let oldTrack := d.lastSector.tdiv sectorsPerTrack
  let seek := (newTrack - oldTrack).natAbs * seekTime
  let overrun := (wrap (totalTicks + seek)).tmod rotationTime
  (seek, if overrun > 0 then rotationTime - overrun else 0)

/-- `Disk::ModuloDiff`. -/
def moduloDiff (target start : ℤ) : ℤ :=
  let toOffset := target.tmod sectorsPerTrack
  let fromOffset := start.tmod sectorsPerTrack
  ((toOffset - fromOffset) + sectorsPerTrack).tmod sectorsPerTrack

/-- `timeAfter`. -/
def timeAfter : ℤ :=
  let (seek, rotation) := d.timeToSeek totalTicks newSector
  wrap (totalTicks + seek + rotation)

/-- The test in `ComputeLatency` that the track buffer applies. -/
def FromBuffer (writing : Bool) : Prop :=
  writing = false ∧ (d.timeToSeek totalTicks newSector).1 = 0 ∧
    (wrap (d.timeAfter totalTicks newSector - d.bufferInit)).tdiv rotationTime >
      moduloDiff newSector (d.bufferInit.tdiv rotationTime)

instance (writing : Bool) : Decidable (d.FromBuffer totalTicks newSector writing) :=
  inferInstanceAs (Decidable (_ ∧ _ ∧ _))

/-- `Disk::ComputeLatency`. -/
def computeLatency (writing : Bool) : ℤ :=
  let (seek, rotation) := d.timeToSeek totalTicks newSector
  if d.FromBuffer totalTicks newSector writing then rotationTime
  else
    let rotation := rotation +
      moduloDiff newSector ((d.timeAfter totalTicks newSector).tdiv rotationTime) * rotationTime
    seek + rotation + rotationTime

/-- `Disk::UpdateLast`. -/
def updateLast : Disk :=
  let (seek, _) := d.timeToSeek totalTicks newSector
  { d with
    lastSector := newSector
    bufferInit := if seek ≠ 0 then d.timeAfter totalTicks newSector else d.bufferInit }

/-! ### The head and the disk -/

/-- How long the head moves. -/
def seekTicks : ℤ := |newSector / sectorsPerTrack - d.lastSector / sectorsPerTrack| * seekTime

/-- **A transfer of the sector ends after `t` ticks**: in the last `RotationTime` of them the head
is on the track, and the sector passes under it. -/
structure Transfers (t : ℤ) : Prop where
  pos : 0 < t
  sought : totalTicks + d.seekTicks newSector ≤ totalTicks + t - rotationTime
  slot : StartsSlot sectorsPerTrack rotationTime newSector (totalTicks + t - rotationTime)

/-- No sum of `ComputeLatency` overflows. -/
def Fits : Prop := IsInt (roundUp rotationTime (totalTicks + d.seekTicks newSector))

/-- The sector is one of the disk. -/
def IsSector (sector : ℤ) : Prop := 0 ≤ sector ∧ sector < numSectors

section Latency

variable {d totalTicks newSector}

lemma wrap_eq {x : ℤ} (h : IsInt x) : wrap x = x := bmod_of_isInt h

lemma seekTicks_nonneg : 0 ≤ d.seekTicks newSector :=
  Int.mul_nonneg (abs_nonneg _) (by decide)

lemma isInt_sought (h0 : 0 ≤ totalTicks) (hfit : d.Fits totalTicks newSector) :
    IsInt (totalTicks + d.seekTicks newSector) := by
  have hseek : 0 ≤ d.seekTicks newSector := seekTicks_nonneg
  have hle := le_roundUp (r := rotationTime) (a := totalTicks + d.seekTicks newSector) (by decide)
  obtain ⟨-, hlt⟩ := hfit
  exact ⟨by omega, by omega⟩

/-- The head turns to the start of a sector. -/
lemma timeToSeek_eq (h0 : 0 ≤ totalTicks) (hlast : IsSector d.lastSector)
    (hnew : IsSector newSector) (hfit : d.Fits totalTicks newSector) :
    d.timeToSeek totalTicks newSector = (d.seekTicks newSector,
      roundUp rotationTime (totalTicks + d.seekTicks newSector) -
        (totalTicks + d.seekTicks newSector)) := by
  have hseek : 0 ≤ d.seekTicks newSector := seekTicks_nonneg
  have hticks : ((newSector.tdiv sectorsPerTrack - d.lastSector.tdiv sectorsPerTrack).natAbs : ℤ) *
      seekTime = d.seekTicks newSector := by
    rw [Int.tdiv_eq_ediv_of_nonneg hnew.1, Int.tdiv_eq_ediv_of_nonneg hlast.1, Int.natCast_natAbs]
    rfl
  unfold timeToSeek
  simp only [hticks, wrap_eq (isInt_sought h0 hfit), roundUp, nextModEq]
  rw [Int.tmod_eq_emod_of_nonneg (by omega)]
  congr 1
  unfold rotationTime
  split <;> omega

lemma timeAfter_eq (h0 : 0 ≤ totalTicks) (hlast : IsSector d.lastSector)
    (hnew : IsSector newSector) (hfit : d.Fits totalTicks newSector) :
    d.timeAfter totalTicks newSector =
      roundUp rotationTime (totalTicks + d.seekTicks newSector) := by
  unfold timeAfter
  rw [timeToSeek_eq h0 hlast hnew hfit]
  dsimp only
  rw [add_sub_cancel, wrap_eq hfit]

lemma moduloDiff_eq {target start : ℤ} (ht : 0 ≤ target) (hs : 0 ≤ start) :
    moduloDiff target start = (target - start) % sectorsPerTrack := by
  unfold moduloDiff
  unfold sectorsPerTrack
  rw [Int.tmod_eq_emod_of_nonneg ht, Int.tmod_eq_emod_of_nonneg hs,
    Int.tmod_eq_emod_of_nonneg (by omega)]
  omega

/-- What is computed when the track buffer does not apply: the time to the end of the next pass of
the sector. -/
lemma computeLatency_eq {writing : Bool} (h0 : 0 ≤ totalTicks) (hlast : IsSector d.lastSector)
    (hnew : IsSector newSector) (hfit : d.Fits totalTicks newSector)
    (hbuf : ¬ d.FromBuffer totalTicks newSector writing) :
    d.computeLatency totalTicks newSector writing =
      nextStart sectorsPerTrack rotationTime newSector (totalTicks + d.seekTicks newSector) +
        rotationTime - totalTicks := by
  have hseek : 0 ≤ d.seekTicks newSector := seekTicks_nonneg
  have hle := le_roundUp (r := rotationTime) (a := totalTicks + d.seekTicks newSector) (by decide)
  unfold computeLatency
  simp only [timeToSeek_eq h0 hlast hnew hfit, if_neg hbuf, timeAfter_eq h0 hlast hnew hfit]
  rw [Int.tdiv_eq_ediv_of_nonneg (by omega),
    moduloDiff_eq hnew.1 (Int.ediv_nonneg (by omega) (by decide)), nextStart_eq]
  omega

/-- **The latency is the time to the first transfer that is possible**, unless the sector is in the
track buffer. -/
theorem computeLatency_isLeast (writing : Bool) (h0 : 0 ≤ totalTicks)
    (hlast : IsSector d.lastSector) (hnew : IsSector newSector)
    (hfit : d.Fits totalTicks newSector) :
    (¬ d.FromBuffer totalTicks newSector writing →
      IsLeast {t | d.Transfers totalTicks newSector t}
        (d.computeLatency totalTicks newSector writing)) ∧
    (d.FromBuffer totalTicks newSector writing →
      d.computeLatency totalTicks newSector writing = rotationTime) := by
  refine ⟨fun hbuf => ?_, fun hbuf => ?_⟩
  · have hseek : 0 ≤ d.seekTicks newSector := seekTicks_nonneg
    obtain ⟨⟨hafter, hslot⟩, hleast⟩ := isLeast_nextStart (n := sectorsPerTrack)
      (r := rotationTime) (c := newSector) (a := totalTicks + d.seekTicks newSector) (by decide)
      (by decide)
    rw [computeLatency_eq h0 hlast hnew hfit hbuf]
    generalize nextStart sectorsPerTrack rotationTime newSector
      (totalTicks + d.seekTicks newSector) = s at hafter hslot hleast ⊢
    have hs : totalTicks + (s + rotationTime - totalTicks) - rotationTime = s := by omega
    have hpos : 0 < rotationTime := by decide
    refine ⟨⟨by omega, by rwa [hs], by rwa [hs]⟩, fun t ht => ?_⟩
    have := hleast ⟨ht.sought, ht.slot⟩
    omega
  · unfold computeLatency
    exact if_pos hbuf

/-- A seek over one track, from the middle of a sector. -/
theorem computeLatency_isLeast_seek :
    (¬ (Disk.mk 5 0 false).FromBuffer 1730 40 true →
      IsLeast {t | (Disk.mk 5 0 false).Transfers 1730 40 t}
        ((Disk.mk 5 0 false).computeLatency 1730 40 true)) ∧
    ((Disk.mk 5 0 false).FromBuffer 1730 40 true →
      (Disk.mk 5 0 false).computeLatency 1730 40 true = rotationTime) :=
  computeLatency_isLeast true (by decide) ⟨by decide, by decide⟩ ⟨by decide, by decide⟩
    ⟨by decide, by decide⟩

/-- The seek ends at 2230, the next sector boundary is the start of the slot 5 at 2500, and the
slot 8 is over at 4500. -/
example : (Disk.mk 5 0 false).computeLatency 1730 40 true = 4500 - 1730 := by decide

end Latency

/-! ### The track buffer -/

/-- **Between requests**: the last sector is one of the disk, and the track buffer began to be
loaded at the start of a sector. -/
structure Positioned : Prop where
  last : IsSector d.lastSector
  init : 0 ≤ d.bufferInit
  fits : IsInt d.bufferInit
  boundary : rotationTime ∣ d.bufferInit

/-- The sector has passed under the head since the track buffer began to be loaded, the pass that
is under way included. -/
def Passed : Prop :=
  ∃ s, d.bufferInit ≤ s ∧ StartsSlot sectorsPerTrack rotationTime newSector s ∧
    s + rotationTime ≤ roundUp rotationTime totalTicks

section Buffer

variable {d totalTicks newSector}

/-- The head stays where it is on its own track only. -/
lemma seekTicks_eq_zero_iff :
    d.seekTicks newSector = 0 ↔ newSector / sectorsPerTrack = d.lastSector / sectorsPerTrack := by
  unfold seekTicks
  rw [mul_eq_zero, or_iff_left (by decide), abs_eq_zero, sub_eq_zero]

/-- **The track buffer serves the reads of the current track whose sector it holds.** -/
theorem fromBuffer_iff {writing : Bool} (hd : d.Positioned) (h0 : 0 ≤ totalTicks)
    (hnew : IsSector newSector) (hfit : d.Fits totalTicks newSector) :
    d.FromBuffer totalTicks newSector writing ↔
      writing = false ∧ newSector / sectorsPerTrack = d.lastSector / sectorsPerTrack ∧
        d.Passed totalTicks newSector := by
  unfold FromBuffer
  rw [timeToSeek_eq h0 hd.last hnew hfit, timeAfter_eq h0 hd.last hnew hfit,
    seekTicks_eq_zero_iff]
  refine and_congr_right fun _ => and_congr_right fun htrack => ?_
  have hzero : d.seekTicks newSector = 0 := seekTicks_eq_zero_iff.mpr htrack
  have hle := le_roundUp (r := rotationTime) (a := totalTicks) (by decide)
  have hdvd : rotationTime ∣ roundUp rotationTime totalTicks := dvd_roundUp
  unfold Fits at hfit
  rw [hzero, add_zero] at hfit ⊢
  rw [Passed, exists_pass_iff (by decide) (by decide) hd.boundary hdvd,
    Int.tdiv_eq_ediv_of_nonneg hd.init,
    moduloDiff_eq hnew.1 (Int.ediv_nonneg hd.init (by decide))]
  have hround : IsInt (roundUp rotationTime totalTicks - d.bufferInit) := by
    obtain ⟨⟨-, hlt⟩, ⟨-, hlt'⟩, hinit⟩ := hfit, hd.fits, hd.init
    exact ⟨by omega, by omega⟩
  rw [wrap_eq hround, Int.tdiv_eq_ediv_of_dvd (Int.dvd_sub hdvd hd.boundary)]

lemma positioned_new : new.Positioned :=
  ⟨⟨by decide, by decide⟩, by decide, ⟨by decide, by decide⟩, dvd_zero _⟩

lemma positioned_updateLast (hd : d.Positioned) (h0 : 0 ≤ totalTicks) (hnew : IsSector newSector)
    (hfit : d.Fits totalTicks newSector) : (d.updateLast totalTicks newSector).Positioned := by
  have hseek : 0 ≤ d.seekTicks newSector := seekTicks_nonneg
  have hle := le_roundUp (r := rotationTime) (a := totalTicks + d.seekTicks newSector) (by decide)
  have hafter : 0 ≤ d.timeAfter totalTicks newSector ∧ IsInt (d.timeAfter totalTicks newSector) ∧
      rotationTime ∣ d.timeAfter totalTicks newSector := by
    rw [timeAfter_eq h0 hd.last hnew hfit]
    exact ⟨by omega, hfit, dvd_roundUp⟩
  unfold updateLast
  dsimp only
  split
  next => exact ⟨hnew, hafter.1, hafter.2.1, hafter.2.2⟩
  next => exact ⟨hnew, hd.init, hd.fits, hd.boundary⟩

end Buffer

/-! ### Runs -/

/-- The disk and `stats->totalTicks`. -/
structure Spinning where
  disk : Disk
  totalTicks : ℤ

/-- A request that the disk takes. -/
structure Request where
  writing : Bool
  sector : ℤ
  /-- The argument `fromNow` of `Schedule`. -/
  ticks : ℤ

/-- What happens to the disk. -/
inductive Input where
  | tick (n : ℕ)
  /-- `ReadRequest` or `WriteRequest`. -/
  | request (writing : Bool) (sector : ℤ)
  | handleInterrupt

/-- One step; the faults are the assertions on a request. -/
def step : Input → Spinning → Except Unit (List Request × Spinning)
  | .tick n, s => .ok ([], { s with totalTicks := s.totalTicks + n })
  | .request writing sector, s =>
    let ticks := s.disk.computeLatency s.totalTicks sector writing
    if s.disk.active then .error ()
    else if 0 ≤ sector ∧ sector < numSectors then
      .ok ([⟨writing, sector, ticks⟩],
        { s with disk := { s.disk.updateLast s.totalTicks sector with active := true } })
    else .error ()
  | .handleInterrupt, s => .ok ([], { s with disk := { s.disk with active := false } })

/-- **No clock overflows** in a step: every request fits. -/
def NoOverflow (s : Spinning) (es : List Request) (_ : Spinning) : Prop :=
  ∀ e ∈ es, s.disk.Fits s.totalTicks e.sector

/-- **The head is positioned** in every run. -/
theorem positioned_of_run {t₀ : ℤ} (h0 : 0 ≤ t₀) {tr : List Request} {s : Spinning}
    (h : Run (Guarded NoOverflow (StepOf step)) ⟨new, t₀⟩ tr s) :
    s.disk.Positioned ∧ 0 ≤ s.totalTicks := by
  refine h.invariant_state (I := fun s => s.disk.Positioned ∧ 0 ≤ s.totalTicks)
    ⟨positioned_new, h0⟩ ?_
  rintro s es s' ⟨hd, hs⟩ ⟨⟨c, hc⟩, hfit⟩
  cases c with
  | tick n =>
    cases hc
    exact ⟨hd, by dsimp only; omega⟩
  | handleInterrupt =>
    cases hc
    exact ⟨⟨hd.last, hd.init, hd.fits, hd.boundary⟩, hs⟩
  | request writing sector =>
    simp only [step] at hc
    split at hc
    next => cases hc
    split at hc
    next hsector =>
      cases hc
      have hfits := hfit _ (List.mem_singleton_self _)
      have hnew := positioned_updateLast hd hs hsector hfits
      exact ⟨⟨hnew.last, hnew.init, hnew.fits, hnew.boundary⟩, hs⟩
    next => cases hc

end Disk

end Nachos.Machine
