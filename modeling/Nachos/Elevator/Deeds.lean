import Nachos.Elevator.Act
import Nachos.Elevator.Entries

/-!
# What the code does to the `ELEVATOR`

The relation `Deed` has one rule for each outcome of the code at a label, with the whole object
before and after: the lists, the counters, and the persons that a label carries.
-/

namespace Nachos.Elevator

open Lib (bind_eq_ok)
open Threads

/-- The labels whose code uses the lists or the counters, or where a person is made. -/
def Label.posts : Label → Bool
  | .arrivals | .arriving .. | .scan .. | .signalled .. | .unlist .. | .alighted .. | .clear ..
  | .unlistLeaving .. | .enlist .. | .getOn .. | .gotOn .. | .press .. | .getOff .. => true
  | _ => false

/-- The floors. -/
def Config.IsFloor (cfg : Config) (floor : ℕ) : Prop := 1 ≤ floor ∧ floor ≤ cfg.numFloors

/-- **The outcomes of the code**, with the object before and after. -/
inductive Deed (cfg : Config) (r : Ret) :
    Label → Option ELEVATOR → Option ELEVATOR → Call Label → Prop
  | quiet {c call oe} (quiet : Quiet r c call) (posts : c.posts = false) : Deed cfg r c oe oe call
  | main {oe} : Deed cfg r .main oe oe (.fork .elevatorThread .arrivals)
  | arrive {oe a b} (atFloor : cfg.IsFloor a) (toFloor : cfg.IsFloor b) :
      Deed cfg r .arrivals oe oe (.setLevel .intOff (.arriving a b))
  | pause {oe} : Deed cfg r .arrivals oe oe (.yield .arrivals)
  | leave {oe} : Deed cfg r .arrivals oe oe .finish
  | arriving {oe a b old id} :
      Deed cfg r (.arriving a b) oe oe (.acquire personIDLock (.numbering old ⟨id, a, b⟩))
  | create {oe} :
      Deed cfg r .elevatorThread oe (some (.new cfg.numFloors cfg.memory))
        (.fork .haltTest (.start (-1) (-1)))
  | scan {e frm dst frm' dst' n} (entering : e.target frm e.listEntering true = .ok frm')
      (leaving : e.target dst e.listLeaving false = .ok dst') (active : e.active = .ok n) :
      Deed cfg r (.scan frm dst) (some e) (some e)
        (.skip (if 0 < n then .spin frm' dst' 0 else .choose frm' dst'))
  | choose {e frm dst} :
      Deed cfg r (.choose frm dst) (some e)
        (some { e with currentFloor := (e.move frm dst).1 })
        (.skip (.atStop frm dst (e.move frm dst).2))
  | board {e dst} :
      Deed cfg r (.board dst) (some e) (some e) (.skip (.more e.currentFloor e.occupancy dst))
  | nobody {e floor o dst} (thread : threadOf r = none) :
      Deed cfg r (.signalled floor o dst) (some e) (some e) (.skip (.depart (-1) dst))
  | signalled {e x p floor o dst} (thread : threadOf r = some x)
      (first : first (e.listEntering e.currentFloor) = .ok (some p)) :
      Deed cfg r (.signalled floor o dst) (some e) (some e)
        (.acquire personLock (.unlist p floor o dst))
  | unlist {e p pp floor o dst}
      (removed : removeFromPP (e.listEntering e.currentFloor) p = .ok pp) :
      Deed cfg r (.unlist p floor o dst) (some e)
        (some { e with listEntering := Function.update e.listEntering e.currentFloor pp })
        (.release personLock (.more floor (o + 1) dst))
  | alight {e frm} :
      Deed cfg r (.alight frm) (some e) (some e)
        (.broadcast (leaving e.currentFloor) elevatorLock (.alighted e.currentFloor frm))
  | alighted {oe floor frm} :
      Deed cfg r (.alighted floor frm) oe oe (.skip (.clear frm (countOf r) 0))
  | clear {e p frm i j} (more : j < i)
      (first : first (e.listLeaving e.currentFloor) = .ok (some p)) :
      Deed cfg r (.clear frm i j) (some e) (some e)
        (.acquire personLock (.unlistLeaving p frm i j))
  | cleared {e frm i j} (done : ¬ j < i) :
      Deed cfg r (.clear frm i j) (some e) (some e) (.skip (.depart frm (-1)))
  | unlistLeaving {e p pp frm i j}
      (removed : removeFromPP (e.listLeaving e.currentFloor) p = .ok pp) :
      Deed cfg r (.unlistLeaving p frm i j) (some e)
        (some { e with listLeaving := Function.update e.listLeaving e.currentFloor pp })
        (.release personLock (.clear frm i (j + 1)))
  | hailed {e p old} :
      Deed cfg r (.hailed p old) (some e)
        (some { e with
          personsWaiting :=
            Function.update e.personsWaiting p.atFloor (e.personsWaiting p.atFloor + 1) })
        (.acquire personLock (.enlist ⟨p, old, levelOf r⟩))
  | enlist {e ρ pp} (added : addToPP (e.listEntering ρ.person.atFloor) ρ.person = .ok pp) :
      Deed cfg r (.enlist ρ) (some e)
        (some { e with listEntering := Function.update e.listEntering ρ.person.atFloor pp })
        (.release personLock (.enlisted ρ))
  | waits {oe ρ} :
      Deed cfg r (.waits ρ) oe oe (.wait (entering ρ.person.atFloor) elevatorLock (.boarded ρ))
  | getOn {e ρ pp} (added : addToPP e.personsOn ρ.person = .ok pp) :
      Deed cfg r (.getOn ρ) (some e) (some { e with personsOn := pp })
        (.release personLock (.gotOn ρ))
  | gotOn {e ρ} (there : ρ.person.atFloor = e.currentFloor) :
      Deed cfg r (.gotOn ρ) (some e)
        (some { e with
          personsWaiting := Function.update e.personsWaiting ρ.person.atFloor
            (e.personsWaiting ρ.person.atFloor - 1) })
        (.acquire personLock (.press ρ))
  | press {e ρ pp} (added : addToPP (e.listLeaving ρ.person.toFloor) ρ.person = .ok pp) :
      Deed cfg r (.press ρ) (some e)
        (some { e with listLeaving := Function.update e.listLeaving ρ.person.toFloor pp })
        (.release personLock (.seated ρ))
  | seated {e ρ} :
      Deed cfg r (.seated ρ) (some e) (some { e with occupancy := e.occupancy + 1 })
        (.wait (leaving ρ.person.toFloor) elevatorLock (.arrived ρ))
  | getOff {e ρ pp} (removed : removeFromPP e.personsOn ρ.person = .ok pp) :
      Deed cfg r (.getOff ρ) (some e) (some { e with personsOn := pp })
        (.release personLock (.gotOff ρ))
  | gotOff {e ρ} (there : e.currentFloor = ρ.person.toFloor) :
      Deed cfg r (.gotOff ρ) (some e) (some { e with occupancy := e.occupancy - 1 })
        (.release elevatorLock (.left ρ))

section Code

variable {cfg : Config} {sh sh' : Shared} {r : Ret} {input : Input} {c : Label} {call : Call Label}

lemma first_of_removeFromPPFirst {e e' : ELEVATOR} {pp : Persons} {next : Person → Label}
    (h : removeFromPPFirst e pp next = .ok (e', call)) :
    ∃ p, first pp = .ok (some p) ∧ e' = e ∧ call = .acquire personLock (next p) := by
  obtain ⟨p, hp, h⟩ := bind_eq_ok h
  cases p with
  | none => cases h
  | some p =>
    cases h
    exact ⟨p, hp, rfl, rfl⟩

lemma mainCode_deed (h : mainCode cfg sh input r c = .ok (sh', call)) :
    Deed cfg r c sh.e sh'.e call := by
  cases c with
  | main => cases h; exact .main
  | arrivals =>
    cases input with
    | arrive a b =>
      simp only [mainCode] at h
      split at h
      next hfloors => cases h; exact .arrive hfloors.1 hfloors.2
      next => cases h
    | pause => cases h; exact .pause
    | leave => cases h; exact .leave
  | arriving a b => cases h; exact .arriving
  | numbering old p => cases h; exact .quiet .numbering rfl
  | numbered old p => cases h; exact .quiet .numbered rfl
  | forked old => cases h; exact .quiet .forked rfl
  | _ => cases h

lemma haltCode_deed (h : haltCode sh r c = .ok (sh', call)) : Deed cfg r c sh.e sh'.e call := by
  cases c with
  | haltTest => cases h; exact .quiet .haltTest rfl
  | haltCheck =>
    obtain ⟨e, e', he, hf, rfl⟩ := withE_eq_ok h
    obtain ⟨idle, -, hf⟩ := bind_eq_ok hf
    cases hf
    rw [he]
    split
    next => exact .quiet .haltIdle rfl
    next => exact .quiet .haltCheck rfl
  | haltSpin old j =>
    simp only [haltCode] at h
    split at h
    next => cases h; exact .quiet .haltSpin rfl
    next => cases h
  | haltWatch old j =>
    obtain ⟨e, e', he, hf, rfl⟩ := withE_eq_ok h
    obtain ⟨busy, -, hf⟩ := bind_eq_ok hf
    cases hf
    rw [he]
    split
    next => exact .quiet .haltBusy rfl
    next => exact .quiet .haltWatch rfl
  | haltReset old => cases h; exact .quiet .haltReset rfl
  | _ => cases h

lemma elevatorCode_deed (h : elevatorCode cfg sh r c = .ok (sh', call)) :
    Deed cfg r c sh.e sh'.e call := by
  cases c with
  | elevatorThread => cases h; exact .create
  | start frm dst => cases h; exact .quiet .start rfl
  | awake frm dst => cases h; exact .quiet .awake rfl
  | scan frm dst =>
    obtain ⟨e, e', he, hf, rfl⟩ := withE_eq_ok h
    obtain ⟨frm', hfrm, hf⟩ := bind_eq_ok hf
    obtain ⟨dst', hdst, hf⟩ := bind_eq_ok hf
    obtain ⟨n, hn, hf⟩ := bind_eq_ok hf
    cases hf
    rw [he]
    exact .scan hfrm hdst hn
  | spin frm dst j =>
    cases h
    split
    next => exact .quiet .spin rfl
    next => exact .quiet .spun rfl
  | choose frm dst =>
    obtain ⟨e, e', he, hf, rfl⟩ := withE_eq_ok h
    cases hf
    rw [he]
    have hdeed : Deed cfg r (.choose frm dst) (some e)
        (some { e with currentFloor := (e.move frm dst).1 })
        (.skip (.atStop frm dst (e.move frm dst).2)) := .choose
    cases hs : (e.move frm dst).2 <;> rw [hs] at hdeed <;> exact hdeed
  | board dst =>
    obtain ⟨e, e', he, hf, rfl⟩ := withE_eq_ok h
    cases hf
    rw [he]
    exact .board
  | more floor o dst =>
    cases h
    split
    next room => exact .quiet (.more room) rfl
    next => exact .quiet .full rfl
  | signalled floor o dst =>
    obtain ⟨e, e', he, hf, rfl⟩ := withE_eq_ok h
    rw [he]
    split at hf
    next hthread =>
      cases hf
      exact .nobody hthread
    next x hx =>
      obtain ⟨p, hp, rfl, rfl⟩ := first_of_removeFromPPFirst hf
      exact .signalled hx hp
  | unlist p floor o dst =>
    obtain ⟨e, e', he, hf, rfl⟩ := withE_eq_ok h
    obtain ⟨pp, hpp, hf⟩ := bind_eq_ok hf
    cases hf
    rw [he]
    exact .unlist hpp
  | alight frm =>
    obtain ⟨e, e', he, hf, rfl⟩ := withE_eq_ok h
    cases hf
    rw [he]
    exact .alight
  | alighted floor frm => cases h; exact .alighted
  | clear frm i j =>
    obtain ⟨e, e', he, hf, rfl⟩ := withE_eq_ok h
    rw [he]
    split at hf
    next hlt =>
      obtain ⟨p, hp, rfl, rfl⟩ := first_of_removeFromPPFirst hf
      exact .clear hlt hp
    next hge =>
      cases hf
      exact .cleared hge
  | unlistLeaving p frm i j =>
    obtain ⟨e, e', he, hf, rfl⟩ := withE_eq_ok h
    obtain ⟨pp, hpp, hf⟩ := bind_eq_ok hf
    cases hf
    rw [he]
    exact .unlistLeaving hpp
  | depart frm dst => cases h; exact .quiet .depart rfl
  | rest frm dst j =>
    cases h
    split
    next => exact .quiet .rest rfl
    next => exact .quiet .rested rfl
  | _ => cases h

lemma personCode_deed (h : personCode sh r c = .ok (sh', call)) :
    Deed cfg r c sh.e sh'.e call := by
  cases c with
  | personThread p => cases h; exact .quiet .personThread rfl
  | hail p => cases h; exact .quiet .hail rfl
  | hailed p old =>
    obtain ⟨e, e', he, hf, rfl⟩ := withE_eq_ok h
    cases hf
    rw [he]
    exact .hailed
  | enlist ρ =>
    obtain ⟨e, e', he, hf, rfl⟩ := withE_eq_ok h
    obtain ⟨pp, hpp, hf⟩ := bind_eq_ok hf
    cases hf
    rw [he]
    exact .enlist hpp
  | enlisted ρ => cases h; exact .quiet .enlisted rfl
  | waits ρ => cases h; exact .waits
  | boarded ρ => cases h; exact .quiet .boarded rfl
  | getOn ρ =>
    obtain ⟨e, e', he, hf, rfl⟩ := withE_eq_ok h
    obtain ⟨pp, hpp, hf⟩ := bind_eq_ok hf
    cases hf
    rw [he]
    exact .getOn hpp
  | gotOn ρ =>
    obtain ⟨e, e', he, hf, rfl⟩ := withE_eq_ok h
    rw [he]
    split at hf
    next hfloor =>
      cases hf
      exact .gotOn hfloor
    next => cases hf
  | press ρ =>
    obtain ⟨e, e', he, hf, rfl⟩ := withE_eq_ok h
    obtain ⟨pp, hpp, hf⟩ := bind_eq_ok hf
    cases hf
    rw [he]
    exact .press hpp
  | seated ρ =>
    obtain ⟨e, e', he, hf, rfl⟩ := withE_eq_ok h
    cases hf
    rw [he]
    exact .seated
  | arrived ρ => cases h; exact .quiet .arrived rfl
  | getOff ρ =>
    obtain ⟨e, e', he, hf, rfl⟩ := withE_eq_ok h
    obtain ⟨pp, hpp, hf⟩ := bind_eq_ok hf
    cases hf
    rw [he]
    exact .getOff hpp
  | gotOff ρ =>
    obtain ⟨e, e', he, hf, rfl⟩ := withE_eq_ok h
    change sh.e = some e at he
    rw [he]
    split at hf
    next hfloor =>
      cases hf
      exact .gotOff hfloor
    next => cases hf
  | left ρ => cases h; exact .quiet .left rfl
  | home old => cases h; exact .quiet .home rfl
  | done => cases h; exact .quiet .done rfl
  | _ => cases h

/-- **The code does what a rule says.** -/
theorem code_deed {t : Tid} (h : (client cfg).code input t c r sh = .ok (sh', call)) :
    Deed cfg r c sh.e sh'.e call := by
  simp only [client] at h
  split at h
  · exact mainCode_deed h
  · exact elevatorCode_deed h
  · exact haltCode_deed h
  · exact personCode_deed h

end Code

end Nachos.Elevator
