import Nachos.Elevator.Defs
import Nachos.Threads.Client

/-!
# What the code of the elevator program can do

The relation `Act` has one rule for each outcome of the code at a label; `code_act` reads the code
as a rule. The rules keep, of the shared data, `occupancy` and `currentFloor` only.
-/

namespace Nachos.Elevator

open Lib (bind_eq_ok)
open Threads

/-- `occupancy` and `currentFloor`, when there is an `ELEVATOR`. -/
def Shared.view (sh : Shared) : Option (ℤ × ℕ) := sh.e.map fun e => (e.occupancy, e.currentFloor)

/-- The outcomes that change neither `occupancy` nor `currentFloor`, and do not depend on them. -/
inductive Quiet : Ret → Label → Call Label → Prop
  | arrive {r a b} : Quiet r .arrivals (.setLevel .intOff (.arriving a b))
  | pause {r} : Quiet r .arrivals (.yield .arrivals)
  | leave {r} : Quiet r .arrivals .finish
  | arriving {r a b old p} : Quiet r (.arriving a b) (.acquire personIDLock (.numbering old p))
  | numbering {r old p} : Quiet r (.numbering old p) (.release personIDLock (.numbered old p))
  | numbered {r old p} : Quiet r (.numbered old p) (.fork (.personThread p) (.forked old))
  | forked {r old} : Quiet r (.forked old) (.setLevel old .arrivals)
  | start {r frm dst} : Quiet r (.start frm dst) (.acquire elevatorLock (.awake frm dst))
  | awake {r frm dst} : Quiet r (.awake frm dst) (.up haltSem (.scan frm dst))
  | scanActive {r frm dst frm' dst'} : Quiet r (.scan frm dst) (.skip (.spin frm' dst' 0))
  | scan {r frm dst frm' dst'} : Quiet r (.scan frm dst) (.skip (.choose frm' dst'))
  | spin {r frm dst j} : Quiet r (.spin frm dst j) (.yield (.spin frm dst (j + 1)))
  | spun {r frm dst j} : Quiet r (.spin frm dst j) (.skip (.choose frm dst))
  | more {r floor o dst} (room : o < maxOccupancy) :
      Quiet r (.more floor o dst) (.signal (entering floor) elevatorLock (.signalled floor o dst))
  | full {r floor o dst} : Quiet r (.more floor o dst) (.skip (.depart (-1) dst))
  | nobody {r floor o dst} : Quiet r (.signalled floor o dst) (.skip (.depart (-1) dst))
  | signalled {r x p floor o dst} (thread : threadOf r = some x) :
      Quiet r (.signalled floor o dst) (.acquire personLock (.unlist p floor o dst))
  | unlist {r p floor o dst} :
      Quiet r (.unlist p floor o dst) (.release personLock (.more floor (o + 1) dst))
  | alighted {r floor frm i} : Quiet r (.alighted floor frm) (.skip (.clear frm i 0))
  | clear {r p frm i j} :
      Quiet r (.clear frm i j) (.acquire personLock (.unlistLeaving p frm i j))
  | cleared {r frm i j} : Quiet r (.clear frm i j) (.skip (.depart frm (-1)))
  | unlistLeaving {r p frm i j} :
      Quiet r (.unlistLeaving p frm i j) (.release personLock (.clear frm i (j + 1)))
  | depart {r frm dst} : Quiet r (.depart frm dst) (.release elevatorLock (.rest frm dst 0))
  | rest {r frm dst j} : Quiet r (.rest frm dst j) (.yield (.rest frm dst (j + 1)))
  | rested {r frm dst j} : Quiet r (.rest frm dst j) (.skip (.start frm dst))
  | haltTest {r} : Quiet r .haltTest (.setLevel .intOff .haltCheck)
  | haltIdle {r old} : Quiet r .haltCheck (.skip (.haltSpin old 0))
  | haltCheck {r old} : Quiet r .haltCheck (.down haltSem (.haltReset old))
  | haltSpin {r old j} : Quiet r (.haltSpin old j) (.yield (.haltWatch old j))
  | haltBusy {r old j} : Quiet r (.haltWatch old j) (.down haltSem (.haltReset old))
  | haltWatch {r old j} : Quiet r (.haltWatch old j) (.skip (.haltSpin old (j + 1)))
  | haltReset {r old} : Quiet r (.haltReset old) (.setLevel old .haltTest)
  | personThread {r p} : Quiet r (.personThread p) (.setLevel .intOff (.hail p))
  | hail {r p old} : Quiet r (.hail p) (.setLevel .intOff (.hailed p old))
  | enlist {r ρ} : Quiet r (.enlist ρ) (.release personLock (.enlisted ρ))
  | enlisted {r ρ} : Quiet r (.enlisted ρ) (.acquire elevatorLock (.waits ρ))
  | boarded {r ρ} : Quiet r (.boarded ρ) (.acquire personLock (.getOn ρ))
  | getOn {r ρ} : Quiet r (.getOn ρ) (.release personLock (.gotOn ρ))
  | gotOn {r ρ} : Quiet r (.gotOn ρ) (.acquire personLock (.press ρ))
  | press {r ρ} : Quiet r (.press ρ) (.release personLock (.seated ρ))
  | arrived {r ρ} : Quiet r (.arrived ρ) (.acquire personLock (.getOff ρ))
  | getOff {r ρ} : Quiet r (.getOff ρ) (.release personLock (.gotOff ρ))
  | left {r old} {ρ : Rider} : Quiet r (.left ρ) (.setLevel old (.home ρ.oldLevel))
  | home {r old} : Quiet r (.home old) (.setLevel old .done)
  | done {r} : Quiet r .done .finish

/-- The label at which the elevator goes on after a move. -/
def Label.atStop (frm dst : ℤ) : ELEVATOR.Stop → Label
  | .board => .board dst
  | .alight => .alight frm
  | .none => .depart frm dst

/-- **The outcomes of the code.** -/
inductive Act (cfg : Config) (sh : Shared) (r : Ret) : Label → Shared → Call Label → Prop
  | quiet {c sh' call} (quiet : Quiet r c call) (view : sh'.view = sh.view) : Act cfg sh r c sh' call
  | main : Act cfg sh r .main sh (.fork .elevatorThread .arrivals)
  | create {sh'} (view : sh'.view = some (cfg.memory.occupancy, 1)) :
      Act cfg sh r .elevatorThread sh' (.fork .haltTest (.start (-1) (-1)))
  | hailed {p old sh' ρ} (exists_e : sh.e ≠ none) (view : sh'.view = sh.view) :
      Act cfg sh r (.hailed p old) sh' (.acquire personLock (.enlist ρ))
  | choose {e sh' frm dst} (he : sh.e = some e)
      (view : sh'.view = some (e.occupancy, (e.move frm dst).1)) :
      Act cfg sh r (.choose frm dst) sh' (.skip (.atStop frm dst (e.move frm dst).2))
  | board {e dst} (he : sh.e = some e) :
      Act cfg sh r (.board dst) sh (.skip (.more e.currentFloor e.occupancy dst))
  | alight {e frm} (he : sh.e = some e) :
      Act cfg sh r (.alight frm) sh
        (.broadcast (leaving e.currentFloor) elevatorLock (.alighted e.currentFloor frm))
  | waits {ρ} :
      Act cfg sh r (.waits ρ) sh (.wait (entering ρ.person.atFloor) elevatorLock (.boarded ρ))
  | seated {e sh' ρ} (he : sh.e = some e)
      (view : sh'.view = some (e.occupancy + 1, e.currentFloor)) :
      Act cfg sh r (.seated ρ) sh' (.wait (leaving ρ.person.toFloor) elevatorLock (.arrived ρ))
  | gotOff {e sh' ρ} (he : sh.e = some e)
      (view : sh'.view = some (e.occupancy - 1, e.currentFloor)) :
      Act cfg sh r (.gotOff ρ) sh' (.release elevatorLock (.left ρ))

section Code

variable {cfg : Config} {sh sh' : Shared} {r : Ret} {input : Input} {c : Label} {call : Call Label}

lemma withE_eq_ok {f : ELEVATOR → Except Fault (ELEVATOR × Call Label)}
    (h : withE sh f = .ok (sh', call)) :
    ∃ e e', sh.e = some e ∧ f e = .ok (e', call) ∧ sh' = { sh with e := some e' } := by
  unfold withE at h
  split at h
  next => cases h
  next e he =>
    obtain ⟨⟨e', call'⟩, hf, h⟩ := bind_eq_ok h
    cases h
    exact ⟨e, e', he, hf, rfl⟩

/-- Code that keeps `occupancy` and `currentFloor`. -/
lemma view_of_withE {f : ELEVATOR → Except Fault (ELEVATOR × Call Label)}
    (h : withE sh f = .ok (sh', call))
    (hf : ∀ {e e'}, f e = .ok (e', call) →
      e'.occupancy = e.occupancy ∧ e'.currentFloor = e.currentFloor) :
    sh'.view = sh.view := by
  obtain ⟨e, e', he, hfe, rfl⟩ := withE_eq_ok h
  obtain ⟨ho, hc⟩ := hf hfe
  simp [Shared.view, he, ho, hc]

lemma removeFromPPFirst_eq_ok {e e' : ELEVATOR} {pp : Persons} {next : Person → Label}
    (h : removeFromPPFirst e pp next = .ok (e', call)) :
    e' = e ∧ ∃ p, call = .acquire personLock (next p) := by
  obtain ⟨p, -, h⟩ := bind_eq_ok h
  cases p with
  | none => cases h
  | some p =>
    cases h
    exact ⟨rfl, p, rfl⟩

lemma mainCode_act (h : mainCode cfg sh input r c = .ok (sh', call)) : Act cfg sh r c sh' call := by
  cases c with
  | main => cases h; exact .main
  | arrivals =>
    cases input with
    | arrive a b =>
      simp only [mainCode] at h
      split at h
      next => cases h; exact .quiet .arrive rfl
      next => cases h
    | pause => cases h; exact .quiet .pause rfl
    | leave => cases h; exact .quiet .leave rfl
  | arriving a b => cases h; exact .quiet .arriving rfl
  | numbering old p => cases h; exact .quiet .numbering rfl
  | numbered old p => cases h; exact .quiet .numbered rfl
  | forked old => cases h; exact .quiet .forked rfl
  | _ => cases h

lemma haltCode_act (h : haltCode sh r c = .ok (sh', call)) : Act cfg sh r c sh' call := by
  cases c with
  | haltTest => cases h; exact .quiet .haltTest rfl
  | haltCheck =>
    obtain ⟨e, e', he, hf, rfl⟩ := withE_eq_ok h
    obtain ⟨idle, -, hf⟩ := bind_eq_ok hf
    cases hf
    split
    next => exact .quiet .haltIdle (by rw [Shared.view, Shared.view, he])
    next => exact .quiet .haltCheck (by rw [Shared.view, Shared.view, he])
  | haltSpin old j =>
    simp only [haltCode] at h
    split at h
    next => cases h; exact .quiet .haltSpin rfl
    next => cases h
  | haltWatch old j =>
    obtain ⟨e, e', he, hf, rfl⟩ := withE_eq_ok h
    obtain ⟨busy, -, hf⟩ := bind_eq_ok hf
    cases hf
    split
    next => exact .quiet .haltBusy (by rw [Shared.view, Shared.view, he])
    next => exact .quiet .haltWatch (by rw [Shared.view, Shared.view, he])
  | haltReset old => cases h; exact .quiet .haltReset rfl
  | _ => cases h

lemma elevatorCode_act (h : elevatorCode cfg sh r c = .ok (sh', call)) :
    Act cfg sh r c sh' call := by
  cases c with
  | elevatorThread => cases h; exact .create rfl
  | start frm dst => cases h; exact .quiet .start rfl
  | awake frm dst => cases h; exact .quiet .awake rfl
  | scan frm dst =>
    obtain ⟨e, e', he, hf, rfl⟩ := withE_eq_ok h
    obtain ⟨frm', -, hf⟩ := bind_eq_ok hf
    obtain ⟨dst', -, hf⟩ := bind_eq_ok hf
    obtain ⟨n, -, hf⟩ := bind_eq_ok hf
    cases hf
    split
    next => exact .quiet .scanActive (by rw [Shared.view, Shared.view, he])
    next => exact .quiet .scan (by rw [Shared.view, Shared.view, he])
  | spin frm dst j =>
    cases h
    split
    next => exact .quiet .spin rfl
    next => exact .quiet .spun rfl
  | choose frm dst =>
    obtain ⟨e, e', he, hf, rfl⟩ := withE_eq_ok h
    cases hf
    have hact : Act cfg sh r (.choose frm dst)
        { sh with e := some { e with currentFloor := (e.move frm dst).1 } }
        (.skip (.atStop frm dst (e.move frm dst).2)) := .choose he rfl
    cases hs : (e.move frm dst).2 <;> rw [hs] at hact <;> exact hact
  | board dst =>
    obtain ⟨e, e', he, hf, rfl⟩ := withE_eq_ok h
    cases hf
    rw [← he]
    exact .board he
  | more floor o dst =>
    cases h
    split
    next room => exact .quiet (.more room) rfl
    next => exact .quiet .full rfl
  | signalled floor o dst =>
    obtain ⟨e, e', he, hf, rfl⟩ := withE_eq_ok h
    split at hf
    next =>
      cases hf
      exact .quiet .nobody (by rw [Shared.view, Shared.view, he])
    next x hx =>
      obtain ⟨rfl, p, rfl⟩ := removeFromPPFirst_eq_ok hf
      exact .quiet (.signalled hx) (by rw [Shared.view, Shared.view, he])
  | unlist p floor o dst =>
    have hv := view_of_withE h fun hf => by
      obtain ⟨pp, -, hf⟩ := bind_eq_ok hf
      cases hf
      exact ⟨rfl, rfl⟩
    obtain ⟨e, e', he, hf, rfl⟩ := withE_eq_ok h
    obtain ⟨pp, -, hf⟩ := bind_eq_ok hf
    cases hf
    exact .quiet .unlist hv
  | alight frm =>
    obtain ⟨e, e', he, hf, rfl⟩ := withE_eq_ok h
    cases hf
    rw [← he]
    exact .alight he
  | alighted floor frm => cases h; exact .quiet .alighted rfl
  | clear frm i j =>
    obtain ⟨e, e', he, hf, rfl⟩ := withE_eq_ok h
    split at hf
    next =>
      obtain ⟨rfl, p, rfl⟩ := removeFromPPFirst_eq_ok hf
      exact .quiet .clear (by rw [Shared.view, Shared.view, he])
    next =>
      cases hf
      exact .quiet .cleared (by rw [Shared.view, Shared.view, he])
  | unlistLeaving p frm i j =>
    have hv := view_of_withE h fun hf => by
      obtain ⟨pp, -, hf⟩ := bind_eq_ok hf
      cases hf
      exact ⟨rfl, rfl⟩
    obtain ⟨e, e', he, hf, rfl⟩ := withE_eq_ok h
    obtain ⟨pp, -, hf⟩ := bind_eq_ok hf
    cases hf
    exact .quiet .unlistLeaving hv
  | depart frm dst => cases h; exact .quiet .depart rfl
  | rest frm dst j =>
    cases h
    split
    next => exact .quiet .rest rfl
    next => exact .quiet .rested rfl
  | _ => cases h

lemma personCode_act (h : personCode sh r c = .ok (sh', call)) : Act cfg sh r c sh' call := by
  cases c with
  | personThread p => cases h; exact .quiet .personThread rfl
  | hail p => cases h; exact .quiet .hail rfl
  | hailed p old =>
    obtain ⟨e, e', he, hf, rfl⟩ := withE_eq_ok h
    cases hf
    exact .hailed (by rw [he]; simp) (by simp [Shared.view, he])
  | enlist ρ =>
    obtain ⟨e, e', he, hf, rfl⟩ := withE_eq_ok h
    obtain ⟨pp, -, hf⟩ := bind_eq_ok hf
    cases hf
    exact .quiet .enlist (by simp [Shared.view, he])
  | enlisted ρ => cases h; exact .quiet .enlisted rfl
  | waits ρ => cases h; exact .waits
  | boarded ρ => cases h; exact .quiet .boarded rfl
  | getOn ρ =>
    obtain ⟨e, e', he, hf, rfl⟩ := withE_eq_ok h
    obtain ⟨pp, -, hf⟩ := bind_eq_ok hf
    cases hf
    exact .quiet .getOn (by simp [Shared.view, he])
  | gotOn ρ =>
    obtain ⟨e, e', he, hf, rfl⟩ := withE_eq_ok h
    split at hf
    next =>
      cases hf
      exact .quiet .gotOn (by simp [Shared.view, he])
    next => cases hf
  | press ρ =>
    obtain ⟨e, e', he, hf, rfl⟩ := withE_eq_ok h
    obtain ⟨pp, -, hf⟩ := bind_eq_ok hf
    cases hf
    exact .quiet .press (by simp [Shared.view, he])
  | seated ρ =>
    obtain ⟨e, e', he, hf, rfl⟩ := withE_eq_ok h
    cases hf
    exact .seated he rfl
  | arrived ρ => cases h; exact .quiet .arrived rfl
  | getOff ρ =>
    obtain ⟨e, e', he, hf, rfl⟩ := withE_eq_ok h
    obtain ⟨pp, -, hf⟩ := bind_eq_ok hf
    cases hf
    exact .quiet .getOff (by simp [Shared.view, he])
  | gotOff ρ =>
    obtain ⟨e, e', he, hf, rfl⟩ := withE_eq_ok h
    split at hf
    next =>
      cases hf
      exact .gotOff he rfl
    next => cases hf
  | left ρ => cases h; exact .quiet .left rfl
  | home old => cases h; exact .quiet .home rfl
  | done => cases h; exact .quiet .done rfl
  | _ => cases h

/-- **The code does what a rule says.** -/
theorem code_act {t : Tid} (h : (client cfg).code input t c r sh = .ok (sh', call)) :
    Act cfg sh r c sh' call := by
  simp only [client] at h
  split at h
  · exact mainCode_act h
  · exact elevatorCode_act h
  · exact haltCode_act h
  · exact personCode_act h

/-- The code makes its calls by a rule. -/
lemma makes_act (h : (client cfg).Makes call) : ∃ sh r c sh', Act cfg sh r c sh' call := by
  obtain ⟨input, t, c, r, sh, sh', h⟩ := h
  exact ⟨sh, r, c, sh', code_act h⟩

/-! ### `elevatorLock` -/

/-- Where a thread has `elevatorLock`. -/
def Label.locked : Label → Bool
  | .awake .. | .scan .. | .spin .. | .choose .. | .board .. | .more .. | .signalled ..
  | .unlist .. | .alight .. | .alighted .. | .clear .. | .unlistLeaving .. | .depart .. => true
  | .waits .. | .boarded .. | .getOn .. | .gotOn .. | .press .. | .seated .. | .arrived ..
  | .getOff .. | .gotOff .. => true
  | _ => false

lemma Quiet.keeps (h : Quiet r c call) : call.Keeps elevatorLock Label.locked c := by
  cases h <;> simp [Call.Keeps, Label.locked, elevatorLock, personLock, personIDLock]

lemma Act.keeps (h : Act cfg sh r c sh' call) : call.Keeps elevatorLock Label.locked c := by
  cases h with
  | quiet h => exact h.keeps
  | @choose e _ frm dst =>
    cases (e.move frm dst).2 <;> rfl
  | _ => simp [Call.Keeps, Label.locked, elevatorLock, personLock]

/-- **The labels say where `elevatorLock` is held.** -/
theorem locks : (client cfg).Locks elevatorLock Label.locked := fun h => (code_act h).keeps

end Code

/-! ### Where a person is -/

/-- What a person's thread is for: to get on at a floor, or to get off at a floor. -/
inductive Stage where
  | off
  | entering (floor : ℕ)
  | riding (floor : ℕ)
  deriving DecidableEq

/-- From the call of `entering[atFloor]->Wait` to `occupancy++`, and from there to
`occupancy--`. -/
def Label.stage : Label → Stage
  | .boarded ρ | .getOn ρ | .gotOn ρ | .press ρ | .seated ρ => .entering ρ.person.atFloor
  | .arrived ρ | .getOff ρ | .gotOff ρ => .riding ρ.person.toFloor
  | _ => .off

def stageOf (l : Option Label) : Stage := (l.map Label.stage).getD .off

/-- The stage of a thread. -/
def stage (s : State Label Shared) (t : Tid) : Stage := stageOf (s.loc t).label

/-- A condition that the person of a stage waits on. -/
def Stage.cond : Stage → Option ℕ
  | .off => none
  | .entering floor => some (Elevator.entering floor)
  | .riding floor => some (leaving floor)

section Stage

variable {cfg : Config} {sh sh' : Shared} {r : Ret} {c : Label} {call : Call Label}

lemma Quiet.stage (h : Quiet r c call) : stageOf call.label = c.stage := by
  cases h <;> rfl

lemma Act.fork_stage {first c' : Label} (h : Act cfg sh r c sh' (.fork first c')) :
    first.stage = .off := by
  cases h with
  | quiet h => cases h; rfl
  | main | create => rfl

/-- Who waits on a condition is a person, in the stage of the condition. -/
lemma Act.wait_stage {cond l : ℕ} {c' : Label} (h : Act cfg sh r c sh' (.wait cond l c')) :
    c'.stage.cond = some cond := by
  cases h with
  | quiet h => cases h
  | waits | seated => rfl

/-- Who signals is the elevator, on a condition for entering, with room left. -/
lemma Act.signal_label {cond l : ℕ} {c' : Label} (h : Act cfg sh r c sh' (.signal cond l c')) :
    ∃ floor o dst, c' = .signalled floor o dst ∧ cond = entering floor ∧ o < maxOccupancy := by
  cases h with
  | quiet h => cases h with
    | more room => exact ⟨_, _, _, rfl, rfl, room⟩

lemma Act.broadcast_label {cond l : ℕ} {c' : Label}
    (h : Act cfg sh r c sh' (.broadcast cond l c')) :
    ∃ floor frm, c' = .alighted floor frm ∧ cond = leaving floor := by
  cases h with
  | quiet h => cases h
  | alight he => exact ⟨_, _, rfl, rfl⟩

lemma entering_ne_leaving (f g : ℕ) : entering f ≠ leaving g := by
  simp only [entering, leaving]
  omega

lemma Stage.eq_entering {st : Stage} {f : ℕ} (h : st.cond = some (Elevator.entering f)) :
    st = .entering f := by
  cases st with
  | off => cases h
  | entering g =>
    have : 2 * g = 2 * f := Option.some.inj h
    rw [show g = f by omega]
  | riding g => exact absurd (Option.some.inj h).symm (entering_ne_leaving f g)

lemma Stage.eq_riding {st : Stage} {f : ℕ} (h : st.cond = some (leaving f)) :
    st = .riding f := by
  cases st with
  | off => cases h
  | entering g => exact absurd (Option.some.inj h) (entering_ne_leaving g f)
  | riding g =>
    have : 2 * g + 1 = 2 * f + 1 := Option.some.inj h
    rw [show g = f by omega]

end Stage

end Nachos.Elevator
