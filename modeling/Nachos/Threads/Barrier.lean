import Mathlib.Algebra.BigOperators.Group.Finset.Basic
import Nachos.Threads.Mutex
import Nachos.Threads.ThreadTest

/-!
# The barrier of the thread test

A thread that waits decrements the counter of those that are not at the barrier yet. When no thread
does so as long as one of them has increments left, the counter is right until all are through, and
the barrier opens then. The increments themselves are never lost: the semaphore or the lock stands
around the `Yield` between reading the variable and writing it.
-/

namespace Nachos.Threads

open Lib

namespace ThreadTest

variable {b : Build} {n j : ℕ} {s s' : State Label Shared} {c c' : Label} {call : Call Label}
  {shared shared' : Shared} {tr es : List TestEvent}

/-! ### What the code does -/

/-- What the code does at a label: the variables after it, the call, and what is seen. -/
inductive Act (b : Build) (shared : Shared) :
    Label → Shared → Call Label → List TestEvent → Prop
  | threadTest {n : ℕ} : Act b shared (.threadTest n) { shared with numThreadsActive := n }
      (.skip (.forks n 1)) []
  | fork {n i} (more : i < n) :
      Act b shared (.forks n i) shared (.fork (.simpleThread i 0) (.forks n (i + 1))) []
  | forked {n i} (all : n ≤ i) : Act b shared (.forks n i) shared (.skip (.simpleThread 0 0)) []
  | enter {which num} (more : num < 5) :
      Act b shared (.simpleThread which num) shared (b.enter (.entered which num)) []
  | read {which num} : Act b shared (.entered which num) shared
      (.yield (.yielded which num shared.sharedVariable)) []
  | write {which num val} : Act b shared (.yielded which num val)
      { shared with sharedVariable := val + 1 } (b.exit (.exited which num)) [.incremented which]
  | next {which num} :
      Act b shared (.exited which num) shared (.yield (.simpleThread which (num + 1))) []
  | arrive {which num} (all : 5 ≤ num) : Act b shared (.simpleThread which num)
      (barrier which shared).1 (barrier which shared).2 (.arrived which :: leaves which shared)
  | wait {which} : Act b shared (.waiting which) (barrier which shared).1
      (barrier which shared).2 (leaves which shared)
  | finish {which} : Act b shared (.passed which) shared .finish
      [.sees which shared.sharedVariable]

lemma act_code (b : Build) (c : Label) (shared : Shared) :
    Act b shared c (code b c shared).1 (code b c shared).2 (c.events shared) := by
  cases c with
  | forks n i =>
    rw [code]
    split
    next more => exact .fork more
    next all => exact .forked (Nat.not_lt.mp all)
  | simpleThread which num =>
    rw [code, Label.events]
    split
    next more => exact .enter more
    next all => exact .arrive (Nat.not_lt.mp all)
  | threadTest => exact .threadTest
  | entered => exact .read
  | yielded => exact .write
  | exited => exact .next
  | waiting => exact .wait
  | passed => exact .finish

/-- What is seen of a step of a thread. -/
lemma act_of_step {new : Tid} {r : Ret}
    (hc : ClientStep (threadTest b) s s' () new c r call) (ch : Choice Unit Empty) :
    Act b s.shared c s'.shared call (testEvents ch s) := by
  have hev : testEvents ch s = c.events s.shared := by
    unfold testEvents
    rw [hc.mode, hc.loc]
  have hact := act_code b c s.shared
  have hcode : code b c s.shared = (s'.shared, call) := Except.ok.inj hc.code
  rw [hcode] at hact
  rwa [hev]

/-- The rest of the kernel shows nothing. -/
lemma testEvents_kernel {ch : Choice Unit Empty} {kes : List (Event Label)}
    (hstep : step (threadTest b) ch s = .ok (kes, s')) (hk : ∀ e ∈ kes, ¬ e.IsRan) :
    testEvents ch s = [] := by
  unfold testEvents
  split
  next c r hm hloc =>
    exfalso
    cases ch with
    | run input new =>
      simp only [step, hm, if_true, runStep, hloc] at hstep
      split at hstep
      next => cases hstep
      next =>
        split at hstep
        next => cases hstep
        next =>
          cases hstep
          exact hk _ List.mem_cons_self trivial
    | preempt =>
      simp only [step] at hstep
      split at hstep
      next tick ready =>
        obtain ⟨-, -, k, r', loc⟩ := inTick_iff.1 tick
        rw [hloc] at loc
        cases loc
      next => cases hstep
    | interrupt i => cases i
    | dispatch =>
      simp only [step, hm] at hstep
      cases hstep
  next => rfl

/-! ### Mutual exclusion -/

/-- Between `P` and `V`, or between `Acquire` and `Release`. -/
def Label.inside : Label → Bool
  | .entered _ _ => true
  | .yielded _ _ _ => true
  | _ => false

lemma act_locks (h : Act .locks shared c shared' call es) : call.Keeps lock Label.inside c := by
  cases h with
  | arrive | wait =>
    unfold barrier
    dsimp only
    split <;> rfl
  | _ => simp [Build.enter, Build.exit, Call.Keeps, Label.inside]

lemma act_brackets (h : Act .semaphores shared c shared' call es) :
    call.Brackets semaphore Label.inside c := by
  cases h with
  | arrive | wait =>
    unfold barrier
    dsimp only
    split <;> simp [Call.Brackets, Call.label, Label.inside]
  | _ => simp [Build.enter, Build.exit, Call.Brackets, Call.label, Label.inside]

lemma act_of_code {input : Unit} {t : Tid} {r : Ret}
    (h : (threadTest b).code input t c r shared = .ok (shared', call)) :
    ∃ es, Act b shared c shared' call es := by
  have hcode : code b c shared = (shared', call) := Except.ok.inj h
  have hact := act_code b c shared
  rw [hcode] at hact
  exact ⟨_, hact⟩

/-- What the threads call leads to `P` and `Acquire` before the variable is read, and nowhere else. -/
lemma act_enters (h : Act b shared c shared' call es) (which num : ℕ) (val : ℤ) :
    (∀ i, call ≠ .down i (.yielded which num val)) ∧
      (∀ l, call ≠ .acquire l (.yielded which num val)) ∧
      ∀ cond l c', call ≠ .wait cond l c' := by
  cases h with
  | arrive | wait =>
    unfold barrier
    dsimp only
    split <;> simp
  | _ => cases b <;> simp [Build.enter, Build.exit]

/-- **One thread at a time** is between reading the variable and writing it. -/
theorem yielded_unique {kes : List (Event Label)}
    (h : KernelRun (threadTest b) (start n) kes s) {t u : Tid} {which num which' num' : ℕ}
    {val val' : ℤ} (ht : (s.loc t).label = some (.yielded which num val))
    (hu : (s.loc u).label = some (.yielded which' num' val')) : t = u := by
  have hmakes : ∀ which num val,
      (∀ i, ¬ (threadTest b).Makes (.down i (.yielded which num val))) ∧
      (∀ l, ¬ (threadTest b).Makes (.acquire l (.yielded which num val))) ∧
      ∀ cond l c', ¬ (threadTest b).Makes (.wait cond l c') := by
    intro which num val
    refine ⟨fun i hm => ?_, fun l hm => ?_, fun cond l c' hm => ?_⟩
    all_goals
      obtain ⟨_, _, _, _, _, _, hcode⟩ := hm
      obtain ⟨es, hact⟩ := act_of_code hcode
    · exact (act_enters hact which num val).1 i rfl
    · exact (act_enters hact which num val).2.1 l rfl
    · exact (act_enters hact which num val).2.2 cond l c' rfl
  cases b with
  | semaphores =>
    have hb : (threadTest .semaphores).Brackets semaphore Label.inside :=
      { code := fun hcode => by
          obtain ⟨es, hact⟩ := act_of_code hcode
          exact act_brackets hact
        handler := fun {d} => nomatch d }
    have hhas : ∀ {t which num val}, (s.loc t).label = some (.yielded which num val) →
        (s.loc t).hasUnit semaphore Label.inside = true := fun {t which num val} hl =>
      hasUnit_of_label (.of_run h t) hl rfl ((hmakes which num val).1 _)
    exact hb.exclusive rfl rfl h (hhas ht) (hhas hu)
  | locks =>
    have hl : (threadTest .locks).Locks lock Label.inside := fun hcode => by
      obtain ⟨es, hact⟩ := act_of_code hcode
      exact act_locks hact
    have hhas : ∀ {t which num val}, (s.loc t).label = some (.yielded which num val) →
        (s.loc t).holds lock Label.inside = true := fun {t which num val} hlabel =>
      holds_of_label (.of_run h t) ((WaitInv.of_run h).good t) hlabel rfl
        ((hmakes which num val).2.1 _) fun cond l => (hmakes which num val).2.2 cond l _
    exact hl.exclusive rfl h (hhas ht) (hhas hu)

/-! ### The threads of the test -/

/-- **The condition**: while a thread has increments left, no thread that waits at the barrier makes
the `numThreadsActive--` of the loop. -/
def Label.finished : Label → Bool
  | .simpleThread _ num => 5 ≤ num
  | .exited _ num => 5 ≤ num + 1
  | .waiting _ => true
  | .passed _ => true
  | _ => false

/-- No thread has increments left. -/
def Finished (s : State Label Shared) : Prop :=
  ∀ t c, (s.loc t).label = some c → c.finished = true

/-- When a thread that waits is about to decrement `numThreadsActive`, all have finished. -/
def Patient (s : State Label Shared) (_ : List TestEvent) (_ : State Label Shared) : Prop :=
  s.mode = .running → ∀ which r,
    s.loc s.currentThread = .run (.client (.waiting which)) r → Finished s

/-- The threads `j` that a thread runs, or is going to fork: the main thread runs `0`. -/
def Label.Covers (j : ℕ) : Label → Prop
  | .threadTest _ => True
  | .forks _ i => j = 0 ∨ i ≤ j
  | .simpleThread which _ => which = j
  | .entered which _ => which = j
  | .yielded which _ _ => which = j
  | .exited which _ => which = j
  | .waiting which => which = j
  | .passed which => which = j

/-- The increments that a thread has made which is here. -/
def Label.increments : Label → ℕ
  | .threadTest _ => 0
  | .forks _ _ => 0
  | .simpleThread _ num => num
  | .entered _ num => num
  | .yielded _ num _ => num
  | .exited _ num => num + 1
  | .waiting _ => 5
  | .passed _ => 5

/-- Has it arrived at the barrier? -/
def Label.arrivals : Label → ℕ
  | .waiting _ => 1
  | .passed _ => 1
  | _ => 0

/-- Where a thread of the test with `n` threads may be. -/
def Label.Valid (n : ℕ) : Label → Prop
  | .threadTest m => m = n
  | .forks m i => m = n ∧ 1 ≤ i
  | .simpleThread which num => which < n ∧ num ≤ 5
  | .entered which num => which < n ∧ num < 5
  | .yielded which num _ => which < n ∧ num < 5
  | .exited which num => which < n ∧ num < 5
  | .waiting which => which < n
  | .passed which => which < n

def increments (j : ℕ) (tr : List TestEvent) : ℕ := tr.count (.incremented j)

def arrivals (j : ℕ) (tr : List TestEvent) : ℕ := tr.count (.arrived j)

lemma increments_append : increments j (tr ++ es) = increments j tr + increments j es :=
  List.count_append

lemma arrivals_append : arrivals j (tr ++ es) = arrivals j tr + arrivals j es :=
  List.count_append

/-- The first label of a thread that a call forks. -/
def first : Call Label → Option Label
  | .fork c _ => some c
  | _ => none

/-- A call leads a thread here, the caller or the one that it forks. -/
def Leads (call : Call Label) (c : Label) : Prop := call.label = some c ∨ first call = some c

/-- **What a step of a thread does**: where it leads, each of the threads that were covered is
covered again, or is through; what they have done is what is seen, and no other thread does
anything. -/
structure Hands (n : ℕ) (c : Label) (call : Call Label) (es : List TestEvent) : Prop where
  valid : ∀ c', Leads call c' → c'.Valid n
  covers : ∀ c' j, Leads call c' → c'.Covers j → c.Covers j ∧
    c'.increments = c.increments + increments j es ∧ c'.arrivals = c.arrivals + arrivals j es
  apart : ∀ c' d j, call.label = some c' → first call = some d → c'.Covers j → ¬ d.Covers j
  other : ∀ j, ¬ c.Covers j → increments j es = 0 ∧ arrivals j es = 0
  kept : ∀ j < n, c.Covers j → (∃ c', Leads call c' ∧ c'.Covers j) ∨
    (c.increments + increments j es = 5 ∧ c.arrivals + arrivals j es = 1)

/-- A thread goes on to a label that covers the same. -/
lemma Hands.goesOn (hlabel : call.label = some c') (hfirst : first call = none)
    (hvalid : c'.Valid n) (hcovers : ∀ j, c'.Covers j ↔ c.Covers j)
    (hdone : ∀ j, c.Covers j → c'.increments = c.increments + increments j es ∧
      c'.arrivals = c.arrivals + arrivals j es)
    (other : ∀ j, ¬ c.Covers j → increments j es = 0 ∧ arrivals j es = 0) : Hands n c call es := by
  have hleads : ∀ d, Leads call d → d = c' := by
    rintro d (hd | hd)
    · rw [hlabel] at hd
      exact (Option.some.inj hd).symm
    · rw [hfirst] at hd
      cases hd
  refine ⟨fun d hd => hleads d hd ▸ hvalid, fun d j hd hj => ?_, fun d d' j _ hd' => ?_, other,
    fun j _ hj => .inl ⟨c', .inl hlabel, (hcovers j).mpr hj⟩⟩
  · rw [hleads d hd] at hj ⊢
    exact ⟨(hcovers j).mp hj, hdone j ((hcovers j).mp hj)⟩
  · rw [hfirst] at hd'
    cases hd'

lemma leaves_quiet (which : ℕ) (shared : Shared) :
    increments j (leaves which shared) = 0 ∧ arrivals j (leaves which shared) = 0 := by
  unfold leaves
  split <;> simp [increments, arrivals]

lemma barrier_label (which : ℕ) (shared : Shared) :
    (∃ c', (barrier which shared).2.label = some c' ∧ (c' = .waiting which ∨ c' = .passed which)) ∧
      first (barrier which shared).2 = none := by
  unfold barrier
  dsimp only
  split
  · exact ⟨⟨_, rfl, .inl rfl⟩, rfl⟩
  · exact ⟨⟨_, rfl, .inr rfl⟩, rfl⟩

/-- A thread that decrements `numThreadsActive` is at the barrier. -/
lemma hands_barrier {which : ℕ} {call : Call Label} (hcall : call = (barrier which shared).2)
    (hcovers : ∀ j, c.Covers j ↔ which = j) (hwhich : which < n)
    (hdone : c.increments + increments which es = 5 ∧ c.arrivals + arrivals which es = 1)
    (other : ∀ j, which ≠ j → increments j es = 0 ∧ arrivals j es = 0) : Hands n c call es := by
  obtain ⟨⟨c', hlabel, hc'⟩, hfirst⟩ := barrier_label which shared
  rw [← hcall] at hlabel hfirst
  have hwait : c'.Valid n ∧ c'.increments = 5 ∧ c'.arrivals = 1 ∧ ∀ j, c'.Covers j ↔ which = j := by
    obtain rfl | rfl := hc'
    · exact ⟨hwhich, rfl, rfl, fun j => Iff.rfl⟩
    · exact ⟨hwhich, rfl, rfl, fun j => Iff.rfl⟩
  obtain ⟨hvalid, hincrements, harrivals, hcovers'⟩ := hwait
  refine .goesOn hlabel hfirst hvalid (fun j => (hcovers' j).trans (hcovers j).symm)
    (fun j hj => ?_) fun j hj => other j (mt (hcovers j).mpr hj)
  obtain rfl := (hcovers j).mp hj
  rw [hincrements, harrivals]
  exact ⟨hdone.1.symm, hdone.2.symm⟩

/-- **Every step of a thread**. -/
theorem hands_of_act (hn : 1 ≤ n) (h : Act b shared c shared' call es) (hvalid : c.Valid n) :
    Hands n c call es := by
  cases h with
  | @threadTest m =>
    obtain rfl : m = n := hvalid
    refine ⟨?_, ?_, ?_, fun _ _ => ⟨rfl, rfl⟩, fun j _ _ => .inl ⟨_, .inl rfl, ?_⟩⟩
    · rintro c' (hc' | hc') <;> cases hc'
      exact ⟨rfl, le_rfl⟩
    · rintro c' j (hc' | hc') _ <;> cases hc'
      exact ⟨trivial, rfl, rfl⟩
    · rintro c' d j _ hd
      cases hd
    · exact (Nat.eq_zero_or_pos j).imp id id
  | @fork m i more =>
    obtain ⟨rfl, hi⟩ := hvalid
    refine ⟨?_, ?_, ?_, fun _ _ => ⟨rfl, rfl⟩, fun j _ hj => .inl ?_⟩
    · rintro c' (hc' | hc') <;> cases hc'
      · exact ⟨rfl, Nat.le_succ_of_le hi⟩
      · exact ⟨more, Nat.zero_le _⟩
    · rintro c' j (hc' | hc') hj <;> cases hc'
      · exact ⟨hj.imp_right Nat.le_of_succ_le, rfl, rfl⟩
      · exact ⟨.inr (le_of_eq hj), rfl, rfl⟩
    · rintro c' d j hc' hd hj hdj
      cases hc'
      cases hd
      simp only [Label.Covers] at hj hdj
      omega
    · obtain rfl | hj := hj
      · exact ⟨_, .inl rfl, .inl rfl⟩
      · obtain rfl | hlt := Nat.eq_or_lt_of_le hj
        · exact ⟨_, .inr rfl, rfl⟩
        · exact ⟨_, .inl rfl, .inr hlt⟩
  | @forked m i all =>
    obtain ⟨rfl, hi⟩ := hvalid
    refine ⟨?_, ?_, ?_, fun _ _ => ⟨rfl, rfl⟩, fun j hj hc => .inl ⟨_, .inl rfl, ?_⟩⟩
    · rintro c' (hc' | hc') <;> cases hc'
      exact ⟨hn, Nat.zero_le _⟩
    · rintro c' j (hc' | hc') hj <;> cases hc'
      exact ⟨.inl hj.symm, rfl, rfl⟩
    · rintro c' d j _ hd
      cases hd
    · obtain rfl | hle := hc
      · rfl
      · omega
  | @enter which num more =>
    have hlabel : (b.enter (.entered which num)).label = some (.entered which num) := by
      cases b <;> rfl
    have hfirst : first (b.enter (.entered which num)) = none := by cases b <;> rfl
    exact .goesOn hlabel hfirst ⟨hvalid.1, more⟩ (fun _ => Iff.rfl) (fun _ _ => ⟨rfl, rfl⟩)
      fun _ _ => ⟨rfl, rfl⟩
  | read =>
    exact .goesOn rfl rfl hvalid (fun _ => Iff.rfl) (fun _ _ => ⟨rfl, rfl⟩) fun _ _ => ⟨rfl, rfl⟩
  | @write which num val =>
    have hlabel : (b.exit (.exited which num)).label = some (.exited which num) := by
      cases b <;> rfl
    have hfirst : first (b.exit (.exited which num)) = none := by cases b <;> rfl
    refine .goesOn hlabel hfirst hvalid (fun _ => Iff.rfl) ?_ fun j hj => ⟨?_, rfl⟩
    · rintro j rfl
      exact ⟨by simp [Label.increments, increments], rfl⟩
    · have hne : which ≠ j := hj
      simp [increments, hne]
  | next =>
    exact .goesOn rfl rfl hvalid (fun _ => Iff.rfl) (fun _ _ => ⟨rfl, rfl⟩) fun _ _ => ⟨rfl, rfl⟩
  | @arrive which num all =>
    obtain rfl : num = 5 := le_antisymm hvalid.2 all
    have hes : ∀ j, increments j (.arrived which :: leaves which shared) = 0 ∧
        arrivals j (.arrived which :: leaves which shared) = if which = j then 1 else 0 := by
      intro j
      obtain ⟨hinc, harr⟩ := leaves_quiet (j := j) which shared
      have hcons : TestEvent.arrived which :: leaves which shared =
        [.arrived which] ++ leaves which shared := rfl
      rw [hcons, increments_append, arrivals_append, hinc, harr]
      by_cases hj : which = j <;> simp [increments, arrivals, hj]
    refine hands_barrier rfl (fun _ => Iff.rfl) hvalid.1 ?_ fun j hj => ?_
    · rw [(hes which).1, (hes which).2, if_pos rfl]
      exact ⟨rfl, rfl⟩
    · rw [(hes j).1, (hes j).2, if_neg hj]
      exact ⟨rfl, rfl⟩
  | @wait which =>
    refine hands_barrier rfl (fun _ => Iff.rfl) hvalid ?_ fun j _ => leaves_quiet which shared
    rw [(leaves_quiet which shared).1, (leaves_quiet which shared).2]
    exact ⟨rfl, rfl⟩
  | @finish which =>
    have hnone : ∀ c', ¬ Leads .finish c' := by
      rintro c' (hc' | hc') <;> cases hc'
    refine ⟨fun c' hc' => absurd hc' (hnone c'), fun c' j hc' => absurd hc' (hnone c'), ?_,
      fun _ _ => ⟨rfl, rfl⟩, fun j _ _ => .inr ⟨rfl, rfl⟩⟩
    intro c' d j hc'
    cases hc'

/-! ### The cast -/

/-- **The threads of the test**, by what they have done: for each of them there is one that runs it,
until it is through. -/
structure Cast (n : ℕ) (tr : List TestEvent) (s : State Label Shared) : Prop where
  valid : ∀ t c, (s.loc t).label = some c → c.Valid n
  done : ∀ t c j, (s.loc t).label = some c → c.Covers j →
    increments j tr = c.increments ∧ arrivals j tr = c.arrivals
  unique : ∀ t u c d j, (s.loc t).label = some c → (s.loc u).label = some d → c.Covers j →
    d.Covers j → t = u
  cast : ∀ j < n, (∃ t c, (s.loc t).label = some c ∧ c.Covers j) ∨
    (increments j tr = 5 ∧ arrivals j tr = 1)

/-- All threads are through with their increments. -/
def AllDone (n : ℕ) (tr : List TestEvent) : Prop := ∀ j < n, increments j tr = 5

lemma cast_start : Cast n [] (start n) := by
  have hlabel : ∀ t c, ((start n).loc t).label = some c → t = 0 ∧ c = .threadTest n := by
    intro t c h
    by_cases ht : t = 0
    · subst ht
      exact ⟨rfl, (Option.some.inj h).symm⟩
    · have hunborn : (start n).loc t = .unborn := by simp [start, State.init, ht]
      rw [hunborn] at h
      cases h
  refine ⟨fun t c h => ?_, fun t c j h _ => ?_, fun t u c d j h h' _ _ => ?_,
    fun j _ => .inl ⟨0, .threadTest n, rfl, trivial⟩⟩
  · rw [(hlabel t c h).2]
    rfl
  · rw [(hlabel t c h).2]
    exact ⟨rfl, rfl⟩
  · rw [(hlabel t c h).1, (hlabel u d h').1]

/-- Where the labels of the next state come from. -/
lemma label_after {new : Tid} {r : Ret} {t : Tid}
    (hc : ClientStep (threadTest b) s s' () new c r call) (h : (s'.loc t).label = some c') :
    (t = s.currentThread ∧ call.label = some c') ∨
      (t ≠ s.currentThread ∧ (s.loc t).label = some c') ∨
      (t ≠ s.currentThread ∧ t = new ∧ first call = some c') := by
  by_cases ht : t = s.currentThread
  · subst ht
    exact .inl ⟨rfl, hc.place.label ▸ h⟩
  · obtain hsame | ⟨hnew, d, d', rfl, -, hloc⟩ := hc.other t ht
    · exact .inr (.inl ⟨ht, hsame ▸ h⟩)
    · rw [hloc] at h
      exact .inr (.inr ⟨ht, hnew, h⟩)

/-- The thread that a call forks is there. -/
lemma forked_of_step {kes : List (Event Label)} {new : Tid} {r : Ret} {d : Label}
    (hs : Step (threadTest b) s kes s') (hran : ¬ ∀ e ∈ kes, ¬ e.IsRan)
    (hc : ClientStep (threadTest b) s s' () new c r call) (hfirst : first call = some d) :
    ∃ t, t ≠ s.currentThread ∧ s'.loc t = .fresh d := by
  have hcode : code b c s.shared = (s'.shared, call) := Except.ok.inj hc.code
  cases hs with
  | call mode loc code' entry =>
    rw [hc.loc] at loc
    cases loc
    have hcode' := Except.ok.inj code'
    rw [hcode] at hcode'
    cases hcode'
    cases entry <;> cases hfirst
  | @fork _ _ _ _ f c' t mode loc code' unborn =>
    rw [hc.loc] at loc
    cases loc
    have hcode' := Except.ok.inj code'
    rw [hcode] at hcode'
    cases hcode'
    cases hfirst
    have ht : t ≠ s.currentThread := by
      rintro rfl
      rw [hc.loc] at unborn
      cases unborn
    refine ⟨t, ht, ?_⟩
    rw [fork_loc, Function.update_of_ne ht, Function.update_self]
  | finish mode loc code' =>
    rw [hc.loc] at loc
    cases loc
    have hcode' := Except.ok.inj code'
    rw [hcode] at hcode'
    cases hcode'
    cases hfirst
  | _ => exact absurd (by simp [Event.IsRan]) hran

/-- A step of a thread. -/
lemma Cast.client (h : Cast n tr s) {new : Tid} {r : Ret}
    (hc : ClientStep (threadTest b) s s' () new c r call) (hands : Hands n c call es)
    (hforked : ∀ d, first call = some d → ∃ t, t ≠ s.currentThread ∧ s'.loc t = .fresh d) :
    Cast n (tr ++ es) s' := by
  have hlabel : (s.loc s.currentThread).label = some c := by
    rw [hc.loc]
    rfl
  -- a thread that the step leads somewhere covers what the running one covered
  have hcovered : ∀ {c' j}, Leads call c' → c'.Covers j → c.Covers j := fun hl hj =>
    (hands.covers _ _ hl hj).1
  refine ⟨fun t c' hl => ?_, fun t c' j hl hj => ?_, fun t u c' d j hl hl' hj hj' => ?_,
    fun j hj => ?_⟩
  · obtain ⟨-, hl⟩ | ⟨-, hl⟩ | ⟨-, -, hl⟩ := label_after hc hl
    · exact hands.valid c' (.inl hl)
    · exact h.valid t c' hl
    · exact hands.valid c' (.inr hl)
  · have hleads : Leads call c' → increments j (tr ++ es) = c'.increments ∧
        arrivals j (tr ++ es) = c'.arrivals := by
      intro hl
      obtain ⟨hcj, hinc, harr⟩ := hands.covers c' j hl hj
      obtain ⟨hinc', harr'⟩ := h.done _ c j hlabel hcj
      rw [increments_append, arrivals_append, hinc, harr, hinc', harr']
      exact ⟨rfl, rfl⟩
    obtain ⟨-, hl⟩ | ⟨ht, hl⟩ | ⟨-, -, hl⟩ := label_after hc hl
    · exact hleads (.inl hl)
    · have hcj : ¬ c.Covers j := fun hcj => ht (h.unique _ _ _ _ j hl hlabel hj hcj)
      obtain ⟨hinc, harr⟩ := hands.other j hcj
      obtain ⟨hinc', harr'⟩ := h.done t c' j hl hj
      rw [increments_append, arrivals_append, hinc, harr, hinc', harr']
      exact ⟨rfl, rfl⟩
    · exact hleads (.inr hl)
  · obtain ⟨ht, hl⟩ | ⟨ht, hl⟩ | ⟨ht, htn, hl⟩ := label_after hc hl <;>
      obtain ⟨hu, hl'⟩ | ⟨hu, hl'⟩ | ⟨hu, hun, hl'⟩ := label_after hc hl'
    · rw [ht, hu]
    · exact absurd (h.unique _ _ _ _ j hl' hlabel hj' (hcovered (.inl hl) hj)) hu
    · exact absurd hj' (hands.apart c' d j hl hl' hj)
    · exact absurd (h.unique _ _ _ _ j hl hlabel hj (hcovered (.inl hl') hj')) ht
    · exact h.unique _ _ _ _ j hl hl' hj hj'
    · exact absurd (h.unique _ _ _ _ j hl hlabel hj (hcovered (.inr hl') hj')) ht
    · exact absurd hj (hands.apart d c' j hl' hl hj')
    · exact absurd (h.unique _ _ _ _ j hl' hlabel hj' (hcovered (.inr hl) hj)) hu
    · rw [htn, hun]
  · by_cases hcj : c.Covers j
    · -- the running thread has covered it
      obtain ⟨c', hleads | hleads, hc'j⟩ | hthrough := hands.kept j hj hcj
      · exact .inl ⟨s.currentThread, c', hc.place.label.trans hleads, hc'j⟩
      · obtain ⟨u, -, hu⟩ := hforked c' hleads
        exact .inl ⟨u, c', by rw [hu]; rfl, hc'j⟩
      · obtain ⟨hinc, harr⟩ := h.done _ c j hlabel hcj
        rw [increments_append, arrivals_append, hinc, harr]
        exact .inr hthrough
    · obtain ⟨hinc, harr⟩ := hands.other j hcj
      obtain ⟨t, d, hl, hdj⟩ | hthrough := h.cast j hj
      · have ht : t ≠ s.currentThread := by
          rintro rfl
          rw [hlabel] at hl
          exact hcj (Option.some.inj hl ▸ hdj)
        have hsame : s'.loc t = s.loc t := by
          obtain hsame | ⟨-, f, c', -, hunborn, -⟩ := hc.other t ht
          · exact hsame
          · rw [hunborn] at hl
            cases hl
        exact .inl ⟨t, d, by rw [hsame]; exact hl, hdj⟩
      · rw [increments_append, arrivals_append, hinc, harr]
        exact .inr hthrough

/-- The labels stay when the code of the threads does not run. -/
lemma label_kernel {kes : List (Event Label)} (hp : Placed s) (hs : Step (threadTest b) s kes s')
    (hk : ∀ e ∈ kes, ¬ e.IsRan) (t : Tid) : (s'.loc t).label = (s.loc t).label := by
  by_cases ht : s.mode = .running ∧ t = s.currentThread
  · obtain ⟨hm, rfl⟩ := ht
    exact (hs.goes hp hm).label hk
  · exact hs.label_other hp hk fun hm he => ht ⟨hm, he⟩

lemma Cast.kernel (h : Cast n tr s) (hlabel : ∀ t, (s'.loc t).label = (s.loc t).label) :
    Cast n tr s' where
  valid t c hl := h.valid t c (hlabel t ▸ hl)
  done t c j hl := h.done t c j (hlabel t ▸ hl)
  unique t u c d j hl hl' := h.unique t u c d j (hlabel t ▸ hl) (hlabel u ▸ hl')
  cast j hj := by
    obtain ⟨t, c, hl, hcj⟩ | hthrough := h.cast j hj
    · exact .inl ⟨t, c, (hlabel t).trans hl, hcj⟩
    · exact .inr hthrough

/-! ### The counter -/

lemma Label.Valid.done (h : c.Valid n) : c.increments ≤ 5 ∧ (c.increments < 5 → c.arrivals = 0) := by
  cases c with
  | waiting | passed => exact ⟨le_rfl, fun hlt => absurd hlt (lt_irrefl 5)⟩
  | threadTest | forks => exact ⟨Nat.zero_le _, fun _ => rfl⟩
  | simpleThread => exact ⟨h.2, fun _ => rfl⟩
  | entered => exact ⟨le_of_lt h.2, fun _ => rfl⟩
  | yielded => exact ⟨le_of_lt h.2, fun _ => rfl⟩
  | exited => exact ⟨h.2, fun _ => rfl⟩

/-- A thread makes five increments at most, and arrives behind the last one. -/
lemma Cast.done_of_lt (h : Cast n tr s) (hj : j < n) :
    increments j tr ≤ 5 ∧ (increments j tr < 5 → arrivals j tr = 0) := by
  obtain ⟨t, c, hl, hcj⟩ | ⟨hinc, -⟩ := h.cast j hj
  · obtain ⟨hinc, harr⟩ := h.done t c j hl hcj
    rw [hinc, harr]
    exact (h.valid t c hl).done
  · rw [hinc]
    exact ⟨le_rfl, fun hlt => absurd hlt (lt_irrefl 5)⟩

/-- Those that have finished have made all their increments. -/
lemma Cast.allDone (h : Cast n tr s) (hfinished : Finished s) : AllDone n tr := by
  intro j hj
  obtain ⟨t, c, hl, hcj⟩ | ⟨hinc, -⟩ := h.cast j hj
  · rw [(h.done t c j hl hcj).1]
    have hvalid := h.valid t c hl
    have hc := hfinished t c hl
    cases c with
    | waiting | passed => rfl
    | simpleThread which num => exact le_antisymm hvalid.2 (of_decide_eq_true hc)
    | exited which num => exact le_antisymm hvalid.2 (of_decide_eq_true hc)
    | threadTest | forks | entered | yielded => cases hc
  · exact hinc

/-- The threads that have not arrived at the barrier. -/
def absent (n : ℕ) (tr : List TestEvent) : Finset ℕ := {j ∈ Finset.range n | arrivals j tr = 0}

/-- **The invariant**: the increments are in the variable, the counter is the number of threads that
have not arrived as long as there are increments left, and nobody has left the barrier then. -/
structure Inv (n : ℕ) (tr : List TestEvent) (s : State Label Shared) : Prop where
  cast : Cast n tr s
  val : ∀ t which num val, (s.loc t).label = some (.yielded which num val) →
    val = s.shared.sharedVariable
  sum : s.shared.sharedVariable = ∑ j ∈ Finset.range n, (increments j tr : ℤ)
  counter : ¬ AllDone n tr → (∀ t m, (s.loc t).label ≠ some (.threadTest m)) →
    s.shared.numThreadsActive = (absent n tr).card
  passed : ∀ t which, (s.loc t).label = some (.passed which) → AllDone n tr
  barrier : Barrier n tr

/-- What a step does to the variable. -/
lemma act_variable (h : Act b shared c shared' call es) :
    (∃ which num val, c = .yielded which num val ∧ shared'.sharedVariable = val + 1 ∧
      es = [.incremented which]) ∨
    ((∀ which num val, c ≠ .yielded which num val) ∧
      shared'.sharedVariable = shared.sharedVariable ∧ ∀ j, increments j es = 0) := by
  cases h with
  | write => exact .inl ⟨_, _, _, rfl, rfl, rfl⟩
  | @arrive which num =>
    refine .inr ⟨by simp, rfl, fun j => ?_⟩
    have hcons : TestEvent.arrived which :: leaves which shared =
      [.arrived which] ++ leaves which shared := rfl
    rw [hcons, increments_append, (leaves_quiet which shared).1]
    rfl
  | wait => exact .inr ⟨by simp, rfl, fun j => (leaves_quiet _ shared).1⟩
  | _ => exact .inr ⟨by simp, rfl, fun j => rfl⟩

/-- What a step does to the counter. -/
inductive Counts (shared shared' : Shared) (es : List TestEvent) : Label → Prop
  | starts {n : ℕ} (counter : shared'.numThreadsActive = n) (quiet : es = []) :
      Counts shared shared' es (.threadTest n)
  | arrives {which num} (all : 5 ≤ num)
      (counter : shared'.numThreadsActive = shared.numThreadsActive - 1)
      (seen : es = .arrived which :: leaves which shared) :
      Counts shared shared' es (.simpleThread which num)
  | waits {which} (counter : shared'.numThreadsActive = shared.numThreadsActive - 1)
      (seen : es = leaves which shared) : Counts shared shared' es (.waiting which)
  | keeps {c : Label} (started : ∀ m, c ≠ .threadTest m)
      (counter : shared'.numThreadsActive = shared.numThreadsActive)
      (quiet : ∀ j, arrivals j es = 0) (stays : ∀ which, .left which ∉ es)
      (seen : ∀ which val, .sees which val ∈ es →
        c = .passed which ∧ val = shared.sharedVariable) : Counts shared shared' es c

lemma counts_of_act (h : Act b shared c shared' call es) : Counts shared shared' es c := by
  cases h with
  | threadTest => exact .starts rfl rfl
  | arrive all => exact .arrives all rfl rfl
  | wait => exact .waits rfl rfl
  | write => exact .keeps (by simp) rfl (fun _ => rfl) (by simp) (by simp)
  | finish => exact .keeps (by simp) rfl (fun _ => rfl) (by simp) (by simp)
  | _ => exact .keeps (by simp) rfl (fun _ => rfl) (by simp) (by simp)

lemma AllDone.append (h : AllDone n tr) (hcast : Cast n (tr ++ es) s) : AllDone n (tr ++ es) := by
  intro j hj
  have hle := (hcast.done_of_lt hj).1
  rw [increments_append, h j hj] at hle ⊢
  omega

/-- Who waits does not open the barrier too early, and who arrives finds it open when all have. -/
lemma Inv.allDone_of_left (h : Inv n tr s) (hpatient : Patient s es s') {r : Ret}
    (hm : s.mode = .running) (hloc : s.loc s.currentThread = .run (.client c) r)
    (hcounts : Counts s.shared shared' es c) {which : ℕ} (hleft : .left which ∈ es) :
    AllDone n tr := by
  cases hcounts with
  | starts counter quiet =>
    rw [quiet] at hleft
    cases hleft
  | keeps started counter quiet stays seen => exact absurd hleft (stays which)
  | waits counter seen => exact h.cast.allDone (hpatient hm _ _ hloc)
  | @arrives which' num all counter seen =>
    have hlabel : (s.loc s.currentThread).label = some (.simpleThread which' num) := by
      rw [hloc]
      rfl
    obtain ⟨hinc, harr⟩ := h.cast.done _ _ which' hlabel rfl
    have hwhich : which' < n := (h.cast.valid _ _ hlabel).1
    have hopen : ¬ s.shared.numThreadsActive - 1 > 0 := by
      intro hpos
      rw [seen, leaves, if_pos hpos] at hleft
      simp at hleft
    by_contra hnot
    -- a thread that has increments left is absent, besides the one that arrives
    obtain ⟨j, hj, hne⟩ : ∃ j < n, increments j tr ≠ 5 := by
      simpa only [AllDone, not_forall, exists_prop] using hnot
    obtain ⟨hle, habsent⟩ := h.cast.done_of_lt hj
    have hlt : increments j tr < 5 := lt_of_le_of_ne hle hne
    have hmem : ∀ i < n, arrivals i tr = 0 → i ∈ absent n tr := fun i hi harr =>
      Finset.mem_filter.mpr ⟨Finset.mem_range.mpr hi, harr⟩
    have hjw : j ≠ which' := by
      rintro rfl
      rw [hinc] at hlt
      exact absurd all (not_le.mpr hlt)
    have hcard : 1 < (absent n tr).card := Finset.one_lt_card.mpr
      ⟨j, hmem j hj (habsent hlt), which', hmem which' hwhich harr, hjw⟩
    have hcounter := h.counter hnot fun t m hl => by
      obtain rfl := h.cast.unique _ _ _ _ which' hl hlabel trivial rfl
      rw [hlabel] at hl
      cases hl
    omega

/-- Where a call leads a thread that has read the variable, or left the barrier. -/
lemma act_label (h : Act b shared c shared' call es) :
    (∀ which num val, call.label = some (.yielded which num val) →
      val = shared.sharedVariable ∧ shared' = shared) ∧
    (∀ which, call.label = some (.passed which) → .left which ∈ es) ∧
    (∀ d, first call = some d → ∃ which, d = .simpleThread which 0) := by
  have hbarrier : ∀ which, (∀ w num val,
      (barrier which shared).2.label ≠ some (.yielded w num val)) ∧
      (∀ w, (barrier which shared).2.label = some (.passed w) → .left w ∈ leaves which shared) ∧
      ∀ d, first (barrier which shared).2 ≠ some d := by
    intro which
    unfold barrier leaves
    dsimp only
    split <;> simp [Call.label, first, eq_comm]
  cases h with
  | @arrive which =>
    obtain ⟨hread, hpassed, hfirst⟩ := hbarrier which
    exact ⟨fun w num val hl => absurd hl (hread w num val),
      fun w hl => List.mem_cons_of_mem _ (hpassed w hl), fun d hd => absurd hd (hfirst d)⟩
  | @wait which =>
    obtain ⟨hread, hpassed, hfirst⟩ := hbarrier which
    exact ⟨fun w num val hl => absurd hl (hread w num val), hpassed,
      fun d hd => absurd hd (hfirst d)⟩
  | enter | write => cases b <;> simp [Build.enter, Build.exit, Call.label, first]
  | _ => simp [Call.label, first, eq_comm]

/-- Who has read the variable still knows its value. -/
lemma Inv.val_client (h : Inv n tr s) {new : Tid} {r : Ret}
    (hc : ClientStep (threadTest b) s s' () new c r call) (hact : Act b s.shared c s'.shared call es)
    (hunique : ∀ t which num val which' num' val',
      (s.loc t).label = some (.yielded which num val) → c = .yielded which' num' val' →
        t = s.currentThread) (t : Tid) (which num : ℕ) (val : ℤ)
    (hl : (s'.loc t).label = some (.yielded which num val)) :
    val = s'.shared.sharedVariable := by
  obtain ⟨hread, -, hfirst⟩ := act_label hact
  obtain ⟨-, hl⟩ | ⟨ht, hl⟩ | ⟨-, -, hl⟩ := label_after hc hl
  · obtain ⟨hval, hshared⟩ := hread which num val hl
    rw [hshared, hval]
  · obtain ⟨which', num', val', hwrite, -⟩ | ⟨-, hsame, -⟩ := act_variable hact
    · exact absurd (hunique t _ _ _ _ _ _ hl hwrite) ht
    · rw [hsame]
      exact h.val t which num val hl
  · obtain ⟨w, hw⟩ := hfirst _ hl
    cases hw

/-- The variable counts the increments. -/
lemma Inv.sum_client (h : Inv n tr s) (hlabel : (s.loc s.currentThread).label = some c)
    (hact : Act b s.shared c s'.shared call es) :
    s'.shared.sharedVariable = ∑ j ∈ Finset.range n, (increments j (tr ++ es) : ℤ) := by
  obtain ⟨which, num, val, rfl, hval, rfl⟩ | ⟨-, hsame, hnone⟩ := act_variable hact
  · have hwhich : which ∈ Finset.range n := Finset.mem_range.mpr (h.cast.valid _ _ hlabel).1
    have hone : ∀ j, (increments j (tr ++ [.incremented which]) : ℤ) =
        increments j tr + if j = which then 1 else 0 := by
      intro j
      rw [increments_append]
      by_cases hj : j = which
      · subst hj
        simp [increments]
      · have hne : which ≠ j := Ne.symm hj
        simp [increments, hj, hne]
    rw [hval, h.val _ _ _ _ hlabel, h.sum, Finset.sum_congr rfl fun j _ => hone j,
      Finset.sum_add_distrib, Finset.sum_ite_eq' _ which, if_pos hwhich]
  · rw [hsame, h.sum]
    refine Finset.sum_congr rfl fun j _ => ?_
    rw [increments_append, hnone, Nat.add_zero]

/-- The counter counts the absent. -/
lemma Inv.counter_client (h : Inv n tr s) {new : Tid} {r : Ret}
    (hc : ClientStep (threadTest b) s s' () new c r call)
    (hlabel : (s.loc s.currentThread).label = some c)
    (hcounts : Counts s.shared s'.shared es c) (hpatient : Patient s es s')
    (hnot : ¬ AllDone n tr) (hstarted : ∀ t m, (s'.loc t).label ≠ some (.threadTest m)) :
    s'.shared.numThreadsActive = (absent n (tr ++ es)).card := by
  have hstarted' : (∀ m, c ≠ .threadTest m) → ∀ t m, (s.loc t).label ≠ some (.threadTest m) := by
    intro hcm t m hl
    by_cases ht : t = s.currentThread
    · rw [ht, hlabel] at hl
      exact hcm m (Option.some.inj hl)
    · obtain hsame | ⟨-, d, d', -, hunborn, -⟩ := hc.other t ht
      · exact hstarted t m (by rw [hsame]; exact hl)
      · rw [hunborn] at hl
        cases hl
  cases hcounts with
  | @starts m counter quiet =>
    obtain rfl : m = n := h.cast.valid _ _ hlabel
    have habsent : absent m (tr ++ es) = Finset.range m := by
      rw [quiet, List.append_nil]
      exact Finset.filter_true_of_mem fun j _ => (h.cast.done _ _ j hlabel trivial).2
    rw [counter, habsent, Finset.card_range]
  | @arrives which num all counter seen =>
    have hwhich : which ∈ absent n tr := by
      refine Finset.mem_filter.mpr ⟨Finset.mem_range.mpr (h.cast.valid _ _ hlabel).1, ?_⟩
      exact (h.cast.done _ _ which hlabel rfl).2
    have habsent : absent n (tr ++ es) = (absent n tr).erase which := by
      ext j
      have hcons : es = [.arrived which] ++ leaves which s.shared := seen
      have harr : arrivals j es = if which = j then 1 else 0 := by
        rw [hcons, arrivals_append, (leaves_quiet which s.shared).2]
        by_cases hj : which = j <;> simp [arrivals, hj]
      simp only [absent, Finset.mem_filter, Finset.mem_erase, arrivals_append, harr]
      by_cases hj : which = j
      · simp [hj]
      · simp [hj, Ne.symm hj]
    have hpos : 0 < (absent n tr).card := Finset.card_pos.mpr ⟨which, hwhich⟩
    rw [counter, h.counter hnot (hstarted' (by simp)), habsent, Finset.card_erase_of_mem hwhich]
    omega
  | waits counter seen => exact absurd (h.cast.allDone (hpatient hc.mode _ _ hc.loc)) hnot
  | keeps started counter quiet stays seen =>
    have habsent : absent n (tr ++ es) = absent n tr :=
      Finset.filter_congr fun j _ => by rw [arrivals_append, quiet, Nat.add_zero]
    rw [counter, h.counter hnot (hstarted' started), habsent]

/-- The barrier, after a step in which nobody leaves it too early. -/
lemma Inv.barrier_append (h : Inv n tr s) (hleft : ∀ {which}, .left which ∈ es → AllDone n tr)
    (hquiet : ∀ {which}, .left which ∈ es → ∀ j, increments j es = 0)
    (hsees : ∀ {which val}, .sees which val ∈ es → AllDone n tr ∧ val = s.shared.sharedVariable) :
    Barrier n (tr ++ es) := by
  refine ⟨fun pre which post hsplit j hj => ?_, fun which val hmem => ?_⟩
  · obtain ⟨mid, htr, -⟩ | ⟨mid, hpre, hes⟩ := append_eq_append_cons hsplit
    · exact h.barrier.1 pre which mid htr j hj
    · have hmem : .left which ∈ es := by
        rw [hes]
        exact List.mem_append_right _ List.mem_cons_self
      have hzero : increments j mid = 0 := by
        have hall := hquiet hmem j
        rw [hes, increments_append] at hall
        omega
      show increments j pre = 5
      rw [hpre, increments_append, hzero, hleft hmem j hj]
  · obtain hmem | hmem := List.mem_append.mp hmem
    · exact h.barrier.2 which val hmem
    · obtain ⟨hdone, rfl⟩ := hsees hmem
      have hfive : ∀ j ∈ Finset.range n, (increments j tr : ℤ) = 5 := fun j hj => by
        rw [hdone j (Finset.mem_range.mp hj)]
        rfl
      rw [h.sum, Finset.sum_congr rfl hfive, Finset.sum_const, Finset.card_range, nsmul_eq_mul,
        mul_comm]

/-- A step of a thread keeps the invariant. -/
lemma Inv.client (hn : 1 ≤ n) (h : Inv n tr s) {new : Tid} {r : Ret}
    (hc : ClientStep (threadTest b) s s' () new c r call) (hact : Act b s.shared c s'.shared call es)
    (hforked : ∀ d, first call = some d → ∃ t, t ≠ s.currentThread ∧ s'.loc t = .fresh d)
    (hpatient : Patient s es s')
    (hunique : ∀ t which num val which' num' val',
      (s.loc t).label = some (.yielded which num val) → c = .yielded which' num' val' →
        t = s.currentThread) :
    Inv n (tr ++ es) s' := by
  have hlabel : (s.loc s.currentThread).label = some c := by
    rw [hc.loc]
    rfl
  have hcast : Cast n (tr ++ es) s' :=
    h.cast.client hc (hands_of_act hn hact (h.cast.valid _ c hlabel)) hforked
  have hcounts := counts_of_act hact
  have hdone : AllDone n tr → AllDone n (tr ++ es) := fun hd => hd.append hcast
  have hleft : ∀ {which}, .left which ∈ es → AllDone n tr := fun hl =>
    h.allDone_of_left hpatient hc.mode hc.loc hcounts hl
  refine ⟨hcast, h.val_client hc hact hunique, h.sum_client hlabel hact, fun hnot hstarted =>
    h.counter_client hc hlabel hcounts hpatient (mt hdone hnot) hstarted, fun t which hl => ?_,
    h.barrier_append hleft (fun hl => ?_) fun hs => ?_⟩
  · -- who has left the barrier
    obtain ⟨-, hpassed, hfirst⟩ := act_label hact
    obtain ⟨-, hl⟩ | ⟨-, hl⟩ | ⟨-, -, hl⟩ := label_after hc hl
    · exact hdone (hleft (hpassed which hl))
    · exact hdone (h.passed t which hl)
    · obtain ⟨w, hw⟩ := hfirst _ hl
      cases hw
  · obtain ⟨w, num, val, -, -, rfl⟩ | ⟨-, -, hnone⟩ := act_variable hact
    · simp at hl
    · exact hnone
  · -- who reads the variable at last
    cases hcounts with
    | keeps started counter quiet stays seen =>
      obtain ⟨rfl, hval⟩ := seen _ _ hs
      exact ⟨h.passed _ _ hlabel, hval⟩
    | starts counter quiet =>
      rw [quiet] at hs
      cases hs
    | arrives all counter seen | waits counter seen =>
      rw [seen, leaves] at hs
      split at hs <;> simp at hs

/-- The rest of the kernel keeps it. -/
lemma Inv.kernel (h : Inv n tr s) (hlabel : ∀ t, (s'.loc t).label = (s.loc t).label)
    (hshared : s'.shared = s.shared) : Inv n tr s' where
  cast := h.cast.kernel hlabel
  val t which num val hl := by
    rw [hshared]
    exact h.val t which num val (hlabel t ▸ hl)
  sum := by rw [hshared, h.sum]
  counter hnot hstarted := by
    rw [hshared]
    exact h.counter hnot fun t m hl => hstarted t m (hlabel t ▸ hl)
  passed t which hl := h.passed t which (hlabel t ▸ hl)
  barrier := h.barrier

lemma inv_start : Inv n [] (start n) := by
  have hlabel : ∀ t c, ((start n).loc t).label = some c → c = .threadTest n := by
    intro t c h
    by_cases ht : t = 0
    · subst ht
      exact (Option.some.inj h).symm
    · have hunborn : (start n).loc t = .unborn := by simp [start, State.init, ht]
      rw [hunborn] at h
      cases h
  refine ⟨cast_start, fun t which num val hl => ?_, ?_, fun _ hstarted => ?_, fun t which hl => ?_,
    fun pre which post hsplit => ?_, fun which val hmem => ?_⟩
  · cases hlabel t _ hl
  · simp [start, State.init, increments]
  · exact absurd rfl (hstarted 0 n)
  · cases hlabel t _ hl
  · simp at hsplit
  · cases hmem

/-- **Every step** in which no thread is impatient keeps the invariant. -/
theorem Inv.step (hn : 1 ≤ n) {kes kes' : List (Event Label)} (h : Inv n tr s)
    (hr : KernelRun (threadTest b) (start n) kes' s) {ch : Choice Unit Empty}
    (hstep : Threads.step (threadTest b) ch s = .ok (kes, s'))
    (hpatient : Patient s (testEvents ch s) s') : Inv n (tr ++ testEvents ch s) s' := by
  have hp := Placed.of_run hr
  have hs := step_rule hstep
  by_cases hk : ∀ e ∈ kes, ¬ e.IsRan
  · rw [testEvents_kernel hstep hk, List.append_nil]
    refine h.kernel (label_kernel hp hs hk) ?_
    obtain hshared | ⟨d, -⟩ := hs.shared hk
    · exact hshared
    · cases d
  · obtain ⟨input, new, c, r, call, hc⟩ := hs.client_or_kernel.resolve_right hk
    have hlabel : (s.loc s.currentThread).label = some c := by
      rw [hc.loc]
      rfl
    refine h.client hn hc (act_of_step hc ch) (fun d hd => forked_of_step hs hk hc hd) hpatient ?_
    rintro t which num val which' num' val' hl rfl
    exact yielded_unique hr hl hlabel

/-- **The barrier holds** in every run in which no thread that waits decrements `numThreadsActive`
before all threads are through with their increments. -/
theorem barrier_of_run (hn : 1 ≤ n)
    (h : Run (Guarded Patient (StepOf (testStep b))) (start n) tr s) : Barrier n tr := by
  have hinv : (∃ kes, KernelRun (threadTest b) (start n) kes s) ∧ Inv n tr s := by
    refine h.invariant (I := fun tr s =>
      (∃ kes, KernelRun (threadTest b) (start n) kes s) ∧ Inv n tr s) ⟨⟨[], .start⟩, inv_start⟩ ?_
    rintro tr s es s' - ⟨⟨kes', hr⟩, hi⟩ ⟨⟨ch, hstep⟩, hpatient⟩
    obtain ⟨rfl, kes, hstep⟩ := observed_eq_ok hstep
    exact ⟨⟨_, hr.snoc ⟨ch, hstep⟩⟩, hi.step hn hr hstep hpatient⟩
  exact hinv.2.barrier

/-- Two threads that change in `Yield` and in `Sleep` only: the second one has made its last
increment when the main thread comes back to the loop of the barrier. -/
def twoThreads : List (Choice Unit Empty) :=
  go 1 12 ++ (List.replicate 8 (.dispatch :: go 1 13)).flatten ++ .dispatch :: go 1 22

/-- No thread that waits decrements `numThreadsActive` while one of two threads has increments
left. -/
def patient (s : State Label Shared) : Bool :=
  match s.mode, s.loc s.currentThread with
  | .running, .run (.client (.waiting _)) _ =>
    (List.range 2).all fun t => (s.loc t).label.all Label.finished
  | _, _ => true

lemma patient_of_unborn (hunborn : ∀ t, 2 ≤ t → s.loc t = .unborn) (h : patient s = true) :
    Patient s es s' := by
  intro hm which r hloc t c hl
  rw [patient, hm, hloc] at h
  have ht : t < 2 := by
    by_contra hge
    rw [hunborn t (not_lt.mp hge)] at hl
    cases hl
  have hall := List.all_eq_true.mp h t (List.mem_range.mpr ht)
  rwa [hl] at hall

/-- Both threads make their increments, and the main thread sees them. -/
theorem barrier_of_run_two : ∃ tr s,
    Run (Guarded Patient (StepOf (testStep .semaphores))) (start 2) tr s ∧
      s.loc 0 = .finished ∧ s.shared.sharedVariable = 10 ∧ Barrier 2 tr := by
  have hpasses : passesAll (testStep .semaphores)
      (fun ch s => ch.new.all (· < 2) && patient s)
      (fun s => s.loc 0 = .finished ∧ s.shared.sharedVariable = 10) twoThreads (start 2) = true := by
    decide +kernel
  have hinit : Placed (start 2) ∧ ∀ t, 2 ≤ t → (start 2).loc t = .unborn := by
    refine ⟨.of_run (K := threadTest .semaphores) .start, fun t ht => ?_⟩
    have hne : t ≠ 0 := by
      rintro rfl
      exact absurd ht (by decide)
    simp [start, State.init, hne]
  obtain ⟨tr, s, hr, -, hp⟩ := run_of_passesAll (G := Patient)
    (fun s => Placed s ∧ ∀ t, 2 ≤ t → s.loc t = .unborn)
    (fun {ch s es s'} hi hok hs => by
      obtain ⟨hnew, hpatient⟩ := Bool.and_eq_true_iff.mp hok
      obtain ⟨-, kes, hstep⟩ := observed_eq_ok hs
      refine ⟨⟨hi.1.step (step_rule hstep), fun t ht => unborn_of_step hi.1 hstep (hi.2 t ht) ?_⟩,
        patient_of_unborn hi.2 hpatient⟩
      intro he
      rw [he] at hnew
      exact absurd (of_decide_eq_true hnew) (not_lt.mpr ht))
    .start hinit hpasses
  obtain ⟨hfinished, hshared⟩ := of_decide_eq_true hp
  exact ⟨tr, s, hr, hfinished, hshared, barrier_of_run (by decide) hr⟩

end ThreadTest

end Nachos.Threads
