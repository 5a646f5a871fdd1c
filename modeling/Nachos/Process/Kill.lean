import Nachos.Process.Table

/-!
# What a Kill leaves behind

`doKill` takes the target off the ready list and out of the family, and returns 0. It gives back
neither the pid nor the frames, and it sets no exit status: the pid of the target designates the
same process as before, whatever the other threads do in the meantime.
-/

namespace Nachos.Process

open Lib Threads Mips Userprog

/-- **The process `p` is gone**: what is asked of a `Kill` that has returned 0. -/
structure Gone (s : State) (p : PCBId) : Prop where
  /-- It never executes another instruction. -/
  stopped : ∀ {t tr s' k}, (s.pcb.get p).thread = some t → Run Step s tr s' →
    s'.currentThread = t → s'.code t ≠ .user :: k
  /-- The frames of its address space are free. -/
  frames : ∀ {t a pages}, (s.pcb.get p).thread = some t → (s.thread.get t).space = some a →
    (s.space.get a).pageTable = some pages →
    ∀ page ∈ pages, ¬ s.mm.InUse (Int.toNat page)
  /-- It has no lock, and is granted none. -/
  locks : ∀ {t l tr s'}, (s.pcb.get p).thread = some t → Run Step s tr s' →
    (s'.lock l).activeThread ≠ some t
  /-- Its pid designates no process. -/
  pid : s.pcbs (s.pcb.get p).pid = none
  /-- A parent that waits for it stops waiting. -/
  waiting : ∀ {t}, .joinWait p ∈ s.code t → (s.pcb.get p).hasExited = true
  /-- Its children have no parent. -/
  children : ∀ c ∈ (s.pcb.get p).children, (s.pcb.get c).parent = none

section Kill

variable {s₀ s s₁ s' : State} {e : Executable} {st : Stmt} {k k' : List Stmt} {es tr : List Event}
  {t : Tid} {p : PCBId}

/-- A `Kill` that returns 0 changes nothing any more. -/
lemma Rule.killed_mem (hr : Rule s st k k' es s₁) (h : .killed t p ∈ es) : s₁ = s := by
  cases hr
  case killReturn => rfl
  case startChild | childFunction | forkReturn | freeFrames => cases List.mem_singleton.mp h
  all_goals cases h

/-- **No Kill is complete**: in every run, when a `Kill` of a process that has not been deleted
returns 0, the pid still designates the process. -/
theorem not_gone_of_killed (h₀ : startProcess e = .ok s₀) (h : Run Step s₀ tr s)
    (hstep : Step s es s') (hkilled : .killed t p ∈ es) (live : s.pcb.live p = true) :
    s'.pcbs (s'.pcb.get p).pid = some p ∧ ¬ Gone s' p := by
  obtain ⟨-, hlisted⟩ := listed_of_run h₀ h
  obtain ⟨c, hstep⟩ := hstep
  obtain ⟨st, k, k', s₁, -, hr, rfl⟩ := step_rule hstep
  obtain rfl := hr.killed_mem hkilled
  have hentry : s₁.pcbs (s₁.pcb.get p).pid = some p := hlisted.entry live
  refine ⟨hentry, fun hgone => ?_⟩
  have hpid : s₁.pcbs (s₁.pcb.get p).pid = none := hgone.pid
  rw [hentry] at hpid
  cases hpid

end Kill

/-! ### A parent kills its child -/

/-- The parent calls `Fork(400)`, and then `Kill(1)`, up to its return. -/
def killChoices : List Choice :=
  [.instruction (callRegisters 9 400), .go, .syscall none] ++ List.replicate 15 .go ++
    [.instruction (callRegisters 11 1), .go, .syscall none, .go]

/-- The next step is the return of a `Kill` of the process 1. -/
def killReturns (s : State) : Bool :=
  match step .go s with
  | .ok ([.killed _ 1], s') => s'.pcbs (s'.pcb.get 1).pid == some 1 && s.pcb.live 1
  | _ => false

lemma killed_of_test {s : State} (h : killReturns s = true) :
    ∃ t es s', Step s es s' ∧ .killed t 1 ∈ es ∧ s'.pcbs (s'.pcb.get 1).pid = some 1 ∧
      s.pcb.live 1 = true := by
  unfold killReturns at h
  split at h
  next t s' hs =>
    rw [Bool.and_eq_true, beq_iff_eq] at h
    exact ⟨t, _, s', ⟨.go, hs⟩, .head _, h.1, h.2⟩
  next => cases h

lemma exists_killed : ∃ s₀ tr s, startProcess small = .ok s₀ ∧ Run Step s₀ tr s ∧
    killReturns s = true :=
  run_of_startProcess small killChoices (fun _ s => killReturns s) (by decide +kernel)

/-- After the `Kill` of a child, its pid still designates it. -/
theorem not_gone : ¬ ∀ e s₀ tr s es s' t p, startProcess e = .ok s₀ → Run Step s₀ tr s →
    Step s es s' → .killed t p ∈ es → Gone s' p := by
  intro h
  obtain ⟨s₀, tr, s, h₀, hr, hp⟩ := exists_killed
  obtain ⟨t, es, s', hs, hmem, hentry, -⟩ := killed_of_test hp
  have hpid := (h small s₀ tr s es s' t 1 h₀ hr hs hmem).pid
  rw [hentry] at hpid
  cases hpid

theorem not_gone_of_killed_child : ∃ s₀ tr s es s' t, startProcess small = .ok s₀ ∧
    Run Step s₀ tr s ∧ Step s es s' ∧ .killed t 1 ∈ es ∧
      s'.pcbs (s'.pcb.get 1).pid = some 1 ∧ ¬ Gone s' 1 := by
  obtain ⟨s₀, tr, s, h₀, hr, hp⟩ := exists_killed
  obtain ⟨t, es, s', hs, hmem, -, live⟩ := killed_of_test hp
  exact ⟨s₀, tr, s, es, s', t, h₀, hr, hs, hmem, not_gone_of_killed h₀ hr hs hmem live⟩

end Nachos.Process
