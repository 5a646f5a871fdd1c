import Nachos.Lib.Mesa
import Nachos.Threads.Lock

/-!
# Condition variables

`Wait` gives up the client's lock, takes `queueLock`, joins the queue and sleeps; all of this with
interrupts disabled. `Signal` and `Broadcast` run with interrupts enabled and may lose the
processor between taking a thread off the queue and making it ready, but they hold the client's
lock. When all calls on a condition use one lock, `queueLock` is therefore never contended, and
the condition is a Mesa condition variable.
-/

namespace Nachos.Threads

open Lib

variable {C σ ι H : Type}

/-! ### The control flow of the routines -/

/-- The continuations that `Acquire` of a lock can have. -/
def Kont.AfterAcquire : LockId → Kont C → Prop
  | .lock _, .client _ => True
  | .lock n, .waitReturn _ l _ _ => l = n
  | .queueLock cond, .waitSleep c _ _ _ => c = cond
  | .queueLock cond, .signalDequeue c _ => c = cond
  | .queueLock cond, .bcastDequeue c _ _ => c = cond
  | _, _ => False

/-- The continuations that `Release` of a lock can have. -/
def Kont.AfterRelease : LockId → Kont C → Prop
  | .lock _, .client _ => True
  | .lock n, .waitAcquire _ l _ _ => l = n
  | .queueLock cond, .signalReady c _ _ => c = cond
  | .queueLock cond, .bcastReady c _ _ _ => c = cond
  | _, _ => False

/-- The thread is in `Acquire` or `Release` for a caller that calls it. -/
def Loc.Good : Loc C → Prop
  | .acquire l _ k => k.AfterAcquire l
  | .lockAsleep l _ k => k.AfterAcquire l
  | .release l _ k => k.AfterRelease l
  | _ => True

def Kont.Reacquired (l : ℕ) : Kont C → Ret → Prop
  | .waitReturn _ l' _ _, _ => l' = l
  | _, .waited _ l' => l' = l
  | _, _ => False

/-- `Wait` has the lock `l` again, or has just returned. -/
def Loc.Reacquired (l : ℕ) : Loc C → Prop
  | .run k r => k.Reacquired l r
  | .ret _ k r => k.Reacquired l r
  | _ => False

/-- Where a thread is in the routines of a condition: in `Wait`, past the give-up of the lock `l`
and before `Sleep`; in `Signal` or `Broadcast`, before or after taking a thread off the queue. -/
inductive Part where
  | outside
  | gap (l : ℕ)
  | signalDequeue
  | signalReady (x : Option Tid)
  | bcastDequeue (i : ℕ)
  | bcastReady (i : ℕ) (x : Option Tid)
  deriving DecidableEq

def Kont.part (cond : ℕ) : Kont C → Part
  | .waitAcquire c l _ _ => if c = cond then .gap l else .outside
  | .waitSleep c l _ _ => if c = cond then .gap l else .outside
  | .signalDequeue c _ => if c = cond then .signalDequeue else .outside
  | .signalReady c x _ => if c = cond then .signalReady x else .outside
  | .bcastDequeue c i _ => if c = cond then .bcastDequeue i else .outside
  | .bcastReady c i x _ => if c = cond then .bcastReady i x else .outside
  | _ => .outside

def Loc.part (cond : ℕ) : Loc C → Part
  | .run k _ => k.part cond
  | .acquire _ _ k => k.part cond
  | .lockAsleep _ _ k => k.part cond
  | .release _ _ k => k.part cond
  | .ret _ k _ => k.part cond
  | _ => .outside

/-- In `Signal` or `Broadcast`. -/
def Part.inCall : Part → Bool
  | .outside => false
  | .gap _ => false
  | _ => true

/-- The routines that have `queueLock`. -/
def Kont.UnderQueueLock (cond : ℕ) : Kont C → Prop
  | .waitSleep c _ _ _ => c = cond
  | .signalDequeue c _ => c = cond
  | .bcastDequeue c _ _ => c = cond
  | _ => False

def Loc.HoldsQueueLock (cond : ℕ) : Loc C → Prop
  | .run k _ => k.UnderQueueLock cond
  | .ret _ k _ => k.UnderQueueLock cond
  | .release (.queueLock c) _ _ => c = cond
  | _ => False

/-- The `oldLevel` that the innermost routine restores. -/
def Loc.oldLevel : Loc C → IntStatus
  | .acquire _ old _ => old
  | .lockAsleep _ old _ => old
  | .release _ old _ => old
  | .ret old _ _ => old
  | _ => .intOff

/-! ### What the trace shows of a condition -/

/-- The event of the specification that an event is, for one condition. -/
def Event.mesa (cond : ℕ) : Event C → Option (MesaEvent Tid)
  | .waiting t c _ => if c = cond then some (.wait t) else none
  | .signal t c _ => if c = cond then some (.signal t) else none
  | .broadcast t c _ => if c = cond then some (.broadcast t) else none
  | .readied t c x => if c = cond then some (.readied t x) else none
  | .signalled t c x => if c = cond then some (.signalled t x) else none
  | .broadcasted t c n => if c = cond then some (.broadcasted t n) else none
  | _ => none

/-- A `Wait`, `Signal` or `Broadcast` on the condition is made with the lock `L`. -/
def Event.UsesLock (cond L : ℕ) : Event C → Prop
  | .waiting _ c l => c = cond → l = L
  | .signal _ c l => c = cond → l = L
  | .broadcast _ c l => c = cond → l = L
  | _ => True

instance (cond L : ℕ) (e : Event C) : Decidable (e.UsesLock cond L) := by
  cases e <;> unfold Event.UsesLock <;> infer_instance

/-- A step of the running thread, seen from one condition: its part before, what it does to the
queue, the events, and its part after. -/
inductive PartMove (s : State C σ) (cond L : ℕ) :
    Part → CondOp → List (MesaEvent Tid) → Part → Prop
  | stay (p) : PartMove s cond L p .nothing [] p
  | wait (held : s.isHeldByCurrentThread (.lock L)) :
      PartMove s cond L .outside .nothing [.wait s.currentThread] (.gap L)
  | sleep (l) : PartMove s cond L (.gap l) .append [] .outside
  | signal (held : s.isHeldByCurrentThread (.lock L)) :
      PartMove s cond L .outside .nothing [.signal s.currentThread] .signalDequeue
  | signalDequeue :
      PartMove s cond L .signalDequeue .remove [] (.signalReady (s.queue (.cond cond)).head?)
  | signalNone :
      PartMove s cond L (.signalReady none) .nothing [.signalled s.currentThread none] .outside
  | signalReady (x) :
      PartMove s cond L (.signalReady (some x)) .nothing
        [.readied s.currentThread x, .signalled s.currentThread (some x)] .outside
  | broadcast (held : s.isHeldByCurrentThread (.lock L)) :
      PartMove s cond L .outside .nothing [.broadcast s.currentThread] (.bcastDequeue 0)
  | bcastDequeue (i) :
      PartMove s cond L (.bcastDequeue i) .remove [] (.bcastReady i (s.queue (.cond cond)).head?)
  | bcastNone (i) :
      PartMove s cond L (.bcastReady i none) .nothing [.broadcasted s.currentThread i] .outside
  | bcastReady (i x) :
      PartMove s cond L (.bcastReady i (some x)) .nothing [.readied s.currentThread x]
        (.bcastDequeue (i + 1))

section Flow

variable {s s' : State C σ} {es : List (Event C)} {l l' : Loc C}

lemma Moved.good (h : Moved l l') (hl : l.Good) : l'.Good := by
  cases h with
  | stays => exact hl
  | forked | starts | deleted => trivial

lemma Moved.reacquired {n : ℕ} (h : Moved l l') (hl : l'.Reacquired n) : l.Reacquired n := by
  cases h with
  | stays => exact hl
  | forked | starts | deleted => cases hl

lemma Moved.part (h : Moved l l') (cond : ℕ) : l'.part cond = l.part cond := by
  cases h <;> rfl

lemma Moved.holdsQueueLock (h : Moved l l') (cond : ℕ) :
    l'.HoldsQueueLock cond ↔ l.HoldsQueueLock cond := by
  cases h <;> exact Iff.rfl

lemma Goes.good (h : Goes s es l l') (hl : l.Good) : l'.Good := by
  cases h with
  | call entry => cases entry <;> trivial
  | lockWait | lockWaitAgain => exact hl
  | waitAcquire | waitAwake | signalDequeue | bcastDequeue | bcastReady => rfl
  | _ => trivial

/-- `Wait` has the lock again when its `Acquire` took it. -/
lemma Goes.reacquired {n : ℕ} (h : Goes s es l l') (hl : l.Good) (hl' : l'.Reacquired n) :
    l.Reacquired n ∨ es = [.acquired s.currentThread (.lock n)] := by
  cases h with
  | call entry => cases entry <;> cases hl'
  | @take l₀ _ k =>
    cases k with
    | waitReturn =>
      obtain rfl : _ = n := hl'
      cases l₀ <;> cases hl
      exact .inr rfl
    | _ => cases hl'
  | @takeAwake l₀ _ k =>
    cases k with
    | waitReturn =>
      obtain rfl : _ = n := hl'
      cases l₀ <;> cases hl
      exact .inr rfl
    | _ => cases hl'
  | @release l₀ _ k =>
    cases k with
    | waitReturn => cases l₀ <;> cases hl
    | _ => cases hl'
  | ret | waitReturn | tick => exact .inl hl'
  | _ => cases hl'

/-- **The steps of a thread, seen from one condition.** -/
lemma Goes.part (h : Goes s es l l') {cond L : ℕ} (hes : ∀ e ∈ es, e.UsesLock cond L) :
    PartMove s cond L (l.part cond) (l.condOp cond) (es.filterMap (Event.mesa cond))
      (l'.part cond) := by
  cases h with
  | @call c r call es lv l' shared entry =>
    have hes' : ∀ e ∈ es, e.UsesLock cond L := fun e he => hes e (List.mem_cons_of_mem _ he)
    cases entry with
    | wait c₁ l₁ c₂ held =>
      by_cases hc : c₁ = cond
      · have hl : l₁ = L := hes' _ List.mem_cons_self hc
        subst hc hl
        have held : s.isHeldByCurrentThread (.lock l₁) := held
        simpa [Loc.part, Kont.part, Loc.condOp, Event.mesa, List.filterMap_cons] using
          PartMove.wait held
      · simpa [Loc.part, Kont.part, Loc.condOp, Event.mesa, List.filterMap_cons, hc] using PartMove.stay .outside
    | signal c₁ l₁ c₂ held =>
      by_cases hc : c₁ = cond
      · have hl : l₁ = L := hes' _ List.mem_cons_self hc
        subst hc hl
        have held : s.isHeldByCurrentThread (.lock l₁) := held
        simpa [Loc.part, Kont.part, Loc.condOp, Event.mesa, List.filterMap_cons] using
          PartMove.signal held
      · simpa [Loc.part, Kont.part, Loc.condOp, Event.mesa, List.filterMap_cons, hc] using PartMove.stay .outside
    | broadcast c₁ l₁ c₂ held =>
      by_cases hc : c₁ = cond
      · have hl : l₁ = L := hes' _ List.mem_cons_self hc
        subst hc hl
        have held : s.isHeldByCurrentThread (.lock l₁) := held
        simpa [Loc.part, Kont.part, Loc.condOp, Event.mesa, List.filterMap_cons] using
          PartMove.broadcast held
      · simpa [Loc.part, Kont.part, Loc.condOp, Event.mesa, List.filterMap_cons, hc] using PartMove.stay .outside
    | _ => exact .stay .outside
  | @waitAcquire c l₁ old c₂ r =>
    by_cases hc : c = cond <;> simpa [Loc.part, Kont.part, Loc.condOp, hc] using PartMove.stay _
  | @waitSleep c l₁ old c₂ r =>
    by_cases hc : c = cond
    · simpa [Loc.part, Kont.part, Loc.condOp, Event.mesa, List.filterMap_cons, hc] using PartMove.sleep l₁
    · simpa [Loc.part, Kont.part, Loc.condOp, Event.mesa, List.filterMap_cons, hc] using PartMove.stay .outside
  | @signalDequeue c c₂ r =>
    by_cases hc : c = cond
    · subst hc
      simpa [Loc.part, Kont.part, Loc.condOp, dequeue_fst] using PartMove.signalDequeue
    · simpa [Loc.part, Kont.part, Loc.condOp, hc] using PartMove.stay .outside
  | @signalNone c c₂ r =>
    by_cases hc : c = cond
    · simpa [Loc.part, Kont.part, Loc.condOp, Event.mesa, List.filterMap_cons, hc] using PartMove.signalNone
    · simpa [Loc.part, Kont.part, Loc.condOp, Event.mesa, List.filterMap_cons, hc] using PartMove.stay .outside
  | @signalReady c x c₂ r =>
    by_cases hc : c = cond
    · simpa [Loc.part, Kont.part, Loc.condOp, Event.mesa, List.filterMap_cons, hc] using PartMove.signalReady x
    · simpa [Loc.part, Kont.part, Loc.condOp, Event.mesa, List.filterMap_cons, hc] using PartMove.stay .outside
  | @bcastDequeue c i c₂ r =>
    by_cases hc : c = cond
    · subst hc
      simpa [Loc.part, Kont.part, Loc.condOp, dequeue_fst] using PartMove.bcastDequeue i
    · simpa [Loc.part, Kont.part, Loc.condOp, hc] using PartMove.stay .outside
  | @bcastNone c i c₂ r =>
    by_cases hc : c = cond
    · simpa [Loc.part, Kont.part, Loc.condOp, Event.mesa, List.filterMap_cons, hc] using PartMove.bcastNone i
    · simpa [Loc.part, Kont.part, Loc.condOp, Event.mesa, List.filterMap_cons, hc] using PartMove.stay .outside
  | @bcastReady c i x c₂ r =>
    by_cases hc : c = cond
    · simpa [Loc.part, Kont.part, Loc.condOp, Event.mesa, List.filterMap_cons, hc] using PartMove.bcastReady i x
    · simpa [Loc.part, Kont.part, Loc.condOp, Event.mesa, List.filterMap_cons, hc] using PartMove.stay .outside
  | _ => exact .stay _

/-! ### `queueLock` -/

/-- A thread that holds `queueLock`, or asks for it, is in a routine of the condition. -/
lemma Kont.AfterAcquire.part_ne_outside {cond : ℕ} {k : Kont C}
    (h : k.AfterAcquire (.queueLock cond)) : k.part cond ≠ .outside := by
  cases k <;> cases h <;> simp [Kont.part]

/-- Past the give-up of its lock, `Wait` asks for `queueLock` only. -/
lemma Kont.AfterAcquire.eq_of_gap {cond n : ℕ} {l : LockId} {k : Kont C} (h : k.AfterAcquire l)
    (hg : k.part cond = .gap n) : l = .queueLock cond := by
  cases k with
  | waitSleep c =>
    cases l <;> cases h
    by_contra hne
    rw [Kont.part, if_neg fun hc => hne (congrArg _ hc)] at hg
    cases hg
  | waitAcquire => cases l <;> cases h
  | client | waitReturn => cases hg
  | _ =>
    simp only [Kont.part] at hg
    split at hg <;> cases hg

lemma Loc.Good.part_of_holds {cond : ℕ} (hl : l.Good) (h : l.HoldsQueueLock cond) :
    l.part cond ≠ .outside := by
  cases l with
  | run k r | ret old k r =>
    cases k <;> cases h <;> simp [Loc.part, Kont.part]
  | release l old k =>
    cases l <;> cases h
    cases k <;> cases hl <;> simp [Loc.part, Kont.part]
  | _ => cases h

/-- A step that does not move `queueLock` does not change who should hold it. -/
lemma Goes.holds_of_quiet (h : Goes s es l l') (hl : l.Good) {cond : ℕ}
    (he : ∀ e ∈ es, ¬ e.Moves (.queueLock cond)) :
    l'.HoldsQueueLock cond ↔ l.HoldsQueueLock cond := by
  cases h with
  | call entry => cases entry <;> exact Iff.rfl
  | @take l₀ _ k | @takeAwake l₀ _ k =>
    have hne : l₀ ≠ .queueLock cond := he _ List.mem_cons_self
    refine iff_of_false (fun h => hne ?_) id
    cases k <;> cases h <;> cases l₀ <;> cases hl <;> rfl
  | @release l₀ _ k =>
    have hne : l₀ ≠ .queueLock cond := he _ List.mem_cons_self
    refine iff_of_false (fun h => ?_) (fun h => hne ?_)
    · cases k <;> cases h <;> cases l₀ <;> cases hl
    · cases l₀ <;> cases h
      rfl
  | @waitSleep c =>
    have hne : (.queueLock c : LockId) ≠ .queueLock cond := he _ List.mem_cons_self
    refine iff_of_false id (fun h => hne ?_)
    cases h
    rfl
  | _ => exact Iff.rfl

/-- Whoever takes `queueLock` is to hold it. -/
lemma Kont.AfterAcquire.holds_of_taken {cond : ℕ} {old : IntStatus} {k : Kont C} {r : Ret}
    (h : k.AfterAcquire (.queueLock cond)) : (Loc.ret old k r).HoldsQueueLock cond := by
  cases k <;> cases h <;> rfl

/-- Whoever calls `Release` of `queueLock` is to hold it, and does not after the call. -/
lemma Goes.holds_of_released {cond : ℕ}
    (h : Goes s [.released s.currentThread (.queueLock cond)] l l') (hl : l.Good) :
    l.HoldsQueueLock cond ∧ ¬ l'.HoldsQueueLock cond := by
  cases h with
  | @release _ _ k =>
    refine ⟨rfl, fun h => ?_⟩
    cases k <;> cases h <;> cases hl
  | waitSleep => exact ⟨rfl, id⟩

/-- The release of a client's lock does not lead into `Signal` or `Broadcast`. -/
lemma Goes.not_inCall_of_released {n cond : ℕ}
    (h : Goes s [.released s.currentThread (.lock n)] l l') (hl : l.Good) :
    (l'.part cond).inCall = false := by
  cases h with
  | @release _ _ k =>
    cases k <;> cases hl
    · rfl
    · simp only [Loc.part, Kont.part]
      split <;> rfl

end Flow

/-! ### The invariant -/

/-- How the specification's state, the queue and the place of the thread in the routines of the
condition belong together. -/
def Part.Matches (t : Tid) (m : Mesa Tid) (q : List Tid) : Part → Prop
  | .outside => m = ⟨q, none⟩
  | .gap _ => m = ⟨q ++ [t], none⟩
  | .signalDequeue => m = ⟨q, some (t, [])⟩
  | .signalReady x => m.call = some (t, []) ∧ x = m.waiting.head? ∧ q = m.waiting.tail
  | .bcastDequeue i =>
    m.call = some (t, m.waiting.take i) ∧ q = m.waiting.drop i ∧ i ≤ m.waiting.length
  | .bcastReady i x =>
    m.call = some (t, m.waiting.take i) ∧ x = (m.waiting.drop i).head? ∧
      q = m.waiting.drop (i + 1) ∧ i ≤ m.waiting.length

/-- A thread past the give-up of its lock runs with interrupts disabled, and nobody else has the
lock yet. -/
structure InGap (s : State C σ) (L : ℕ) (t : Tid) : Prop where
  mode : s.mode = .running
  current : t = s.currentThread
  level : s.level = .intOff
  oldLevel : (s.loc t).oldLevel = .intOff
  lock : ∀ u, (s.lock (.lock L)).activeThread = some u → u = t

/-- **The invariant of a condition** that is used with the lock `L`. -/
structure CondInv (cond L : ℕ) (tr : List (Event C)) (s : State C σ) : Prop where
  good : ∀ t, (s.loc t).Good
  gap : ∀ t l, (s.loc t).part cond = .gap l → l = L ∧ InGap s L t
  calls : ∀ t, ((s.loc t).part cond).inCall = true → (s.lock (.lock L)).activeThread = some t
  queueLock : ∀ t, (s.lock (.queueLock cond)).activeThread = some t ↔
    (s.loc t).HoldsQueueLock cond
  spec : ∃ m t, Mesa.run (tr.filterMap (Event.mesa cond)) = some m ∧
    (∀ u, u ≠ t → (s.loc u).part cond = .outside) ∧
    ((s.loc t).part cond).Matches t m (s.queue (.cond cond))

lemma Part.eq_outside_of (p : Part) (hg : ∀ l, p ≠ .gap l) (hc : p.inCall = false) :
    p = .outside := by
  cases p with
  | outside => rfl
  | gap l => exact absurd rfl (hg l)
  | _ => cases hc

/-- A step of a thread keeps the specification's state matched. -/
lemma PartMove.matches {s : State C σ} {cond L : ℕ} {p p' : Part} {op : CondOp}
    {es : List (MesaEvent Tid)} (h : PartMove s cond L p op es p') {m : Mesa Tid}
    {tr : List (MesaEvent Tid)} (hm : Mesa.run tr = some m)
    (hp : p.Matches s.currentThread m (s.queue (.cond cond))) :
    ∃ m', Mesa.run (tr ++ es) = some m' ∧
      p'.Matches s.currentThread m' (op.apply s.currentThread (s.queue (.cond cond))) := by
  cases h with
  | stay => exact ⟨m, by rwa [List.append_nil], hp⟩
  | wait held =>
    obtain rfl := hp
    exact ⟨_, (Mesa.run_concat hm).trans (Mesa.next_wait rfl), rfl⟩
  | sleep l => exact ⟨m, by rwa [List.append_nil], hp⟩
  | signal held =>
    obtain rfl := hp
    exact ⟨_, (Mesa.run_concat hm).trans (Mesa.next_signal rfl), rfl⟩
  | signalDequeue =>
    obtain rfl := hp
    exact ⟨_, by rwa [List.append_nil], rfl, rfl, rfl⟩
  | signalNone =>
    obtain ⟨hc, hx, hq⟩ := hp
    exact ⟨_, (Mesa.run_concat hm).trans (Mesa.next_signalled hc hx), by rw [hq]; rfl⟩
  | signalReady x =>
    obtain ⟨hc, hx, hq⟩ := hp
    have hfirst : m.waiting[0]? = some x := by rw [hx, List.head?_eq_getElem?]
    have h₁ := (Mesa.run_concat hm).trans (Mesa.next_readied hc hfirst)
    have h₂ := (Mesa.run_concat h₁).trans (Mesa.next_signalled rfl hx)
    rw [List.append_assoc] at h₂
    exact ⟨_, h₂, by rw [hq]; rfl⟩
  | broadcast held =>
    obtain rfl := hp
    exact ⟨_, (Mesa.run_concat hm).trans (Mesa.next_broadcast rfl), rfl, rfl, Nat.zero_le _⟩
  | bcastDequeue i =>
    obtain ⟨hc, hq, hi⟩ := hp
    refine ⟨m, by rwa [List.append_nil], hc, by rw [hq], ?_, hi⟩
    rw [CondOp.apply, hq, List.tail_drop]
  | bcastNone i =>
    obtain ⟨hc, hx, hq, hi⟩ := hp
    -- nobody is left on the queue, so all of them are ready
    have hlen : i = m.waiting.length := by
      have hnil := List.head?_eq_none_iff.1 hx.symm
      have := List.drop_eq_nil_iff.1 hnil
      omega
    have hall : m.call = some (s.currentThread, m.waiting) := by
      rw [hc, hlen, List.take_length]
    refine ⟨_, (Mesa.run_concat hm).trans (Mesa.next_broadcasted hall hlen), ?_⟩
    rw [CondOp.apply, hq, hlen, List.drop_eq_nil_of_le (Nat.le_succ _)]
    rfl
  | bcastReady i x =>
    obtain ⟨hc, hx, hq, hi⟩ := hp
    have hlt : i < m.waiting.length := by
      by_contra hge
      rw [List.drop_eq_nil_of_le (Nat.le_of_not_lt hge)] at hx
      cases hx
    have hx' : m.waiting[i]? = some x := by rw [hx, List.head?_drop]
    have hnext : m.waiting[(m.waiting.take i).length]? = some x := by
      rwa [List.length_take, Nat.min_eq_left hi]
    refine ⟨_, (Mesa.run_concat hm).trans (Mesa.next_readied hc hnext), ?_, hq, hlt⟩
    rw [List.take_add_one, hx']
    rfl

section Invariant

variable {K : Client C σ ι H} {s s' : State C σ} {tr es : List (Event C)} {cond L : ℕ}

/-- The thread that a lock belongs to keeps it while others run. -/
lemma LockMove.keeps {l : LockId} (h : LockMove s l es s') (hi : LockInv l tr s) {t : Tid}
    (ht : (s.lock l).activeThread = some t)
    (hrel : es = [.released s.currentThread l] → s.mode = .running → t ≠ s.currentThread) :
    (s'.lock l).activeThread = some t := by
  cases h with
  | idle lock => rwa [lock]
  | take mode loc free =>
    rw [hi.free_iff.1 free] at ht
    cases ht
  | wait mode busy lock => rwa [lock]
  | release mode loc held lock queue ready events =>
    rw [held] at ht
    exact absurd (Option.some.inj ht).symm (hrel events mode)
  | releaseNot mode notHeld loc lock => rwa [lock]

/-- Whoever has a lock after a step had it before, or took it. -/
lemma LockMove.owner {l : LockId} (h : LockMove s l es s') {u : Tid}
    (hu : (s'.lock l).activeThread = some u) :
    (s.lock l).activeThread = some u ∨ u = s.currentThread := by
  cases h with
  | idle lock => rw [lock] at hu; exact .inl hu
  | take mode loc free lock =>
    rw [lock] at hu
    exact .inr (Option.some.inj hu).symm
  | wait mode busy lock => rw [lock] at hu; exact .inl hu
  | release mode loc held lock =>
    rw [lock] at hu
    cases hu
  | releaseNot mode notHeld loc lock => rw [lock] at hu; exact .inl hu

/-- While the running thread has the lock or is in the routines of the condition, no other thread
is in them. -/
lemma CondInv.alone (h : CondInv cond L tr s)
    (hc : (s.lock (.lock L)).activeThread = some s.currentThread ∨
      (s.loc s.currentThread).part cond ≠ .outside) {u : Tid} (hu : u ≠ s.currentThread) :
    (s.loc u).part cond = .outside := by
  refine Part.eq_outside_of _ (fun l hl => hu (h.gap u l hl).2.current) ?_
  by_contra hin
  have hlock := h.calls u (by simpa using hin)
  rcases hc with hc | hc
  · rw [hlock] at hc
    exact hu (Option.some.inj hc)
  · refine hc (Part.eq_outside_of _ (fun l hl => ?_) ?_)
    · exact hu ((h.gap _ l hl).2.lock u hlock)
    · by_contra hcin
      have := h.calls _ (by simpa using hcin)
      rw [hlock] at this
      exact hu (Option.some.inj this)

/-- **`queueLock` is never contended**: whoever asks for it finds it free. -/
lemma CondInv.queueLock_free (h : CondInv cond L tr s) (hq : LockInv (.queueLock cond) tr s)
    {old : IntStatus} {k : Kont C}
    (loc : s.loc s.currentThread = .acquire (.queueLock cond) old k ∨
      s.loc s.currentThread = .lockAsleep (.queueLock cond) old k) :
    (s.lock (.queueLock cond)).free = true := by
  have hgood : k.AfterAcquire (.queueLock cond) := by
    have := h.good s.currentThread
    rcases loc with loc | loc <;> rwa [loc] at this
  have hpart : (s.loc s.currentThread).part cond ≠ .outside := by
    rcases loc with loc | loc <;> rw [loc] <;> exact hgood.part_ne_outside
  refine hq.free_iff.2 (Option.eq_none_iff_forall_ne_some.2 fun u hu => ?_)
  have hholds := (h.queueLock u).1 hu
  by_cases hc : u = s.currentThread
  · subst hc
    rcases loc with loc | loc <;> rw [loc] at hholds <;> exact hholds
  · exact (h.good u).part_of_holds hholds (h.alone (.inr hpart) hc)

/-- The running thread, past the give-up of its lock, goes on with interrupts disabled. -/
lemma CondInv.gap_level (h : CondInv cond L tr s) (hp : Placed s)
    (hq : LockInv (.queueLock cond) tr s) (hs : Step K s es s') (hm : s.mode = .running) {n : ℕ}
    (hgap : (s'.loc s.currentThread).part cond = .gap n) :
    s'.mode = .running ∧ s'.currentThread = s.currentThread ∧ s'.level = .intOff ∧
      (s'.loc s.currentThread).oldLevel = .intOff := by
  have hpre : (s.loc s.currentThread).part cond = .gap n →
      s.level = .intOff ∧ (s.loc s.currentThread).oldLevel = .intOff := fun hg =>
    ⟨(h.gap _ _ hg).2.level, (h.gap _ _ hg).2.oldLevel⟩
  cases hs with
  | call mode loc code entry =>
    rw [setLoc_self] at hgap ⊢
    cases entry with
    | wait => exact ⟨mode, rfl, rfl, rfl⟩
    | signal | broadcast =>
      simp only [Loc.part, Kont.part] at hgap
      split at hgap <;> cases hgap
    | _ => cases hgap
  | fork mode loc code unborn =>
    rw [fork_loc, Function.update_self] at hgap
    cases hgap
  | finish mode loc code =>
    rw [finish_loc, Function.update_self] at hgap
    cases hgap
  | take mode loc free =>
    rw [setLoc_self] at hgap ⊢
    rcases loc with loc | loc <;> rw [loc] at hpre <;>
      exact ⟨mode, rfl, (hpre hgap).1, (hpre hgap).2⟩
  | @lockWait l old k mode loc busy level =>
    -- only `queueLock` is asked for in the gap, and it is free
    rw [show State.loc (State.block _ _ _) s.currentThread = _ from
      Function.update_self ..] at hgap
    have hgood : k.AfterAcquire l := by
      have := h.good s.currentThread
      rcases loc with loc | loc <;> rwa [loc] at this
    obtain rfl := hgood.eq_of_gap hgap
    rw [h.queueLock_free hq loc] at busy
    cases busy
  | release mode loc =>
    rw [setLoc_self] at hgap ⊢
    rw [loc] at hpre
    refine ⟨?_, ?_, ?_, (hpre hgap).2⟩
    · simpa [State.setLoc] using mode
    · simp [State.setLoc]
    · simpa [State.setLoc] using (hpre hgap).1
  | down mode loc value => rw [setLoc_self] at hgap; cases hgap
  | semWait mode loc value level =>
    rw [show State.loc (State.block _ _ _) s.currentThread = _ from
      Function.update_self ..] at hgap
    cases hgap
  | up mode loc => rw [setLoc_self] at hgap; cases hgap
  | yieldAlone mode loc ready => rw [setLoc_self] at hgap; cases hgap
  | @yield old c _ _ _ mode loc ready run =>
    have hp := hp.setLoc mode (l := .ret old (.client c) .unit) trivial (.inl rfl)
    rw [yieldTo_loc run hp.doomed (setLoc_self ..)] at hgap
    cases hgap
  | ret mode loc =>
    rw [setLoc_self] at hgap ⊢
    rw [loc] at hpre
    exact ⟨mode, rfl, (hpre hgap).2, rfl⟩
  | waitAcquire mode loc =>
    rw [setLoc_self] at hgap ⊢
    rw [loc] at hpre
    exact ⟨mode, rfl, rfl, (hpre hgap).1⟩
  | waitSleep mode loc level =>
    rw [blockOnCond_loc, Function.update_self] at hgap
    cases hgap
  | waitAwake mode loc | waitReturn mode loc | signalNone mode loc | signalReady mode loc
  | bcastNone mode loc =>
    rw [setLoc_self] at hgap
    cases hgap
  | signalDequeue mode loc | bcastDequeue mode loc | bcastReady mode loc =>
    rw [setLoc_self] at hgap
    simp only [Loc.part, Kont.part] at hgap
    split at hgap <;> cases hgap
  | preempt mode loc level ready run =>
    rw [yieldTo_loc run hp.doomed loc] at hgap
    rw [loc] at hpre
    cases (hpre hgap).2
  | interrupt allowed handler =>
    obtain ⟨-, -, k, r, loc⟩ := inTick_of_running allowed hm
    have := (hpre hgap).2
    rw [loc] at this
    cases this
  | @interruptUp _ shared i allowed handler =>
    obtain ⟨-, -, k, r, loc⟩ := inTick_of_running allowed hm
    rw [show ((s.handled shared).raise i).loc s.currentThread = s.loc s.currentThread from
      congrFun ((s.handled shared).wake_loc (.sem i)) _] at hgap
    have := (hpre hgap).2
    rw [loc] at this
    cases this
  | dispatch mode ready run => exact absurd hm mode

/-- `queueLock` belongs to the thread that is to hold it. -/
lemma CondInv.queueLock_step (h : CondInv cond L tr s) (hp : Placed s)
    (hq : LockInv (.queueLock cond) tr s) (hs : Step K s es s') (t : Tid) :
    (s'.lock (.queueLock cond)).activeThread = some t ↔ (s'.loc t).HoldsQueueLock cond := by
  -- the threads that do not run stay where they are
  have hother : (s.mode = .running → t ≠ s.currentThread) →
      ((s.lock (.queueLock cond)).activeThread = some t ↔ (s'.loc t).HoldsQueueLock cond) :=
    fun ht => by rw [(hs.moved hp ht).holdsQueueLock]; exact h.queueLock t
  have hgoes := hs.goes hp
  cases hs.lockMove (.queueLock cond) with
  | idle lock queue events loc =>
    rw [lock]
    by_cases ht : s.mode = .running ∧ t = s.currentThread
    · obtain ⟨hm, rfl⟩ := ht
      rw [(hgoes hm).holds_of_quiet (h.good _) events]
      exact h.queueLock _
    · exact hother fun hm he => ht ⟨hm, he⟩
  | take mode loc free lock queue events =>
    rw [lock]
    by_cases ht : t = s.currentThread
    · subst ht
      obtain ⟨old, k, loc, loc'⟩ := loc
      have hgood : k.AfterAcquire (.queueLock cond) := by
        have := h.good s.currentThread
        rcases loc with loc | loc <;> rwa [loc] at this
      rw [loc']
      exact iff_of_true rfl hgood.holds_of_taken
    · have := hother fun _ => ht
      rw [hq.free_iff.1 free] at this
      rw [← this]
      exact iff_of_false (fun he => ht (Option.some.inj he).symm) (by simp)
  | wait mode busy lock queue events =>
    rw [lock]
    by_cases ht : t = s.currentThread
    · subst ht
      rw [(hgoes mode).holds_of_quiet (h.good _) (by simp [events])]
      exact h.queueLock _
    · exact hother fun _ => ht
  | release mode loc held lock queue ready events =>
    rw [lock]
    refine iff_of_false (by simp) fun hh => ?_
    by_cases ht : t = s.currentThread
    · subst ht
      have hg := hgoes mode
      rw [events] at hg
      exact (hg.holds_of_released (h.good _)).2 hh
    · have := (hother fun _ => ht).2 hh
      rw [held] at this
      exact ht (Option.some.inj this).symm
  | releaseNot mode notHeld loc lock queue events =>
    -- whoever calls `Release` of `queueLock` has it
    have hg := hgoes mode
    rw [events] at hg
    exact absurd ((h.queueLock _).2 (hg.holds_of_released (h.good _)).1) notHeld

/-- Past the give-up of its lock a thread runs, and nobody else has the lock. -/
lemma CondInv.gap_step (h : CondInv cond L tr s) (hp : Placed s)
    (hq : LockInv (.queueLock cond) tr s) (hs : Step K s es s')
    (hes : ∀ e ∈ es, e.UsesLock cond L) {t : Tid} {n : ℕ}
    (ht : (s'.loc t).part cond = .gap n) : n = L ∧ InGap s' L t := by
  have hrun : s.mode = .running ∧ t = s.currentThread := by
    by_contra hn
    rw [(hs.moved hp fun hm he => hn ⟨hm, he⟩).part cond] at ht
    exact hn ⟨(h.gap t n ht).2.mode, (h.gap t n ht).2.current⟩
  obtain ⟨hm, rfl⟩ := hrun
  obtain ⟨hm', hc', hv', ho'⟩ := h.gap_level hp hq hs hm ht
  have hbefore : n = L ∧
      ∀ u, (s.lock (.lock L)).activeThread = some u → u = s.currentThread := by
    have hpm := (hs.goes hp hm).part hes
    rw [ht] at hpm
    generalize hpe : (s.loc s.currentThread).part cond = p at hpm
    generalize (s.loc s.currentThread).condOp cond = op at hpm
    generalize es.filterMap (Event.mesa cond) = mes at hpm
    cases hpm with
    | stay => exact ⟨(h.gap _ _ hpe).1, (h.gap _ _ hpe).2.lock⟩
    | wait held =>
      refine ⟨rfl, fun u hu => ?_⟩
      rw [(State.isHeldByCurrentThread_iff s).1 held] at hu
      exact (Option.some.inj hu).symm
  refine ⟨hbefore.1, hm', hc'.symm, hv', ho', fun u hu => ?_⟩
  rcases (hs.lockMove (.lock L)).owner hu with hu | hu
  · exact hbefore.2 u hu
  · exact hu

/-- Whoever is in `Signal` or `Broadcast` has the lock. -/
lemma CondInv.calls_step (h : CondInv cond L tr s) (hp : Placed s) (hl : LockInv (.lock L) tr s)
    (hs : Step K s es s') (hes : ∀ e ∈ es, e.UsesLock cond L) {t : Tid}
    (ht : ((s'.loc t).part cond).inCall = true) :
    (s'.lock (.lock L)).activeThread = some t := by
  have hmove := hs.lockMove (.lock L)
  by_cases htc : s.mode = .running ∧ t = s.currentThread
  · obtain ⟨hm, rfl⟩ := htc
    have hheld : (s.lock (.lock L)).activeThread = some s.currentThread := by
      have hpm := (hs.goes hp hm).part hes
      have hcalls := h.calls s.currentThread
      generalize (s.loc s.currentThread).condOp cond = op at hpm
      generalize es.filterMap (Event.mesa cond) = mes at hpm
      generalize (s.loc s.currentThread).part cond = p at hpm hcalls
      generalize (s'.loc s.currentThread).part cond = p' at hpm ht
      cases hpm with
      | stay => exact hcalls ht
      | signal held => exact (State.isHeldByCurrentThread_iff s).1 held
      | broadcast held => exact (State.isHeldByCurrentThread_iff s).1 held
      | signalDequeue | bcastDequeue | bcastReady => exact hcalls rfl
      | wait | sleep | signalNone | signalReady | bcastNone => cases ht
    refine hmove.keeps hl hheld fun he _ => ?_
    have hg := hs.goes hp hm
    rw [he] at hg
    rw [hg.not_inCall_of_released (h.good _)] at ht
    cases ht
  · have hne : s.mode = .running → t ≠ s.currentThread := fun hm he => htc ⟨hm, he⟩
    rw [(hs.moved hp hne).part cond] at ht
    exact hmove.keeps hl (h.calls t ht) fun _ hm => hne hm

/-- The part and the queue operation of a thread that is in no routine of the condition, and has
not the lock to call one. -/
lemma PartMove.outside_of_not_held {op : CondOp} {mes : List (MesaEvent Tid)} {p : Part}
    (h : PartMove s cond L .outside op mes p)
    (hn : (s.lock (.lock L)).activeThread ≠ some s.currentThread) :
    op = .nothing ∧ mes = [] ∧ p = .outside := by
  cases h with
  | stay => exact ⟨rfl, rfl, rfl⟩
  | wait held => exact absurd ((State.isHeldByCurrentThread_iff s).1 held) hn
  | signal held => exact absurd ((State.isHeldByCurrentThread_iff s).1 held) hn
  | broadcast held => exact absurd ((State.isHeldByCurrentThread_iff s).1 held) hn

/-- The trace of the condition goes on as the specification allows. -/
lemma CondInv.spec_step (h : CondInv cond L tr s) (hp : Placed s) (hs : Step K s es s')
    (hes : ∀ e ∈ es, e.UsesLock cond L) :
    ∃ m t, Mesa.run ((tr ++ es).filterMap (Event.mesa cond)) = some m ∧
      (∀ u, u ≠ t → (s'.loc u).part cond = .outside) ∧
      ((s'.loc t).part cond).Matches t m (s'.queue (.cond cond)) := by
  have hother : ∀ {u}, (s.mode = .running → u ≠ s.currentThread) →
      (s'.loc u).part cond = (s.loc u).part cond := fun hu => (hs.moved hp hu).part cond
  obtain ⟨m, t, hm, hout, hmatch⟩ := h.spec
  rw [List.filterMap_append]
  -- a step that is not seen
  have hunseen : es.filterMap (Event.mesa cond) = [] →
      s'.queue (.cond cond) = s.queue (.cond cond) →
      (∀ u, (s'.loc u).part cond = (s.loc u).part cond) →
      ∃ m t, Mesa.run (tr.filterMap (Event.mesa cond) ++ es.filterMap (Event.mesa cond)) = some m ∧
        (∀ u, u ≠ t → (s'.loc u).part cond = .outside) ∧
        ((s'.loc t).part cond).Matches t m (s'.queue (.cond cond)) := by
    intro he hqueue hsame
    refine ⟨m, t, by rwa [he, List.append_nil], fun u hu => by rw [hsame, hout u hu], ?_⟩
    rw [hsame, hqueue]
    exact hmatch
  have hqueue := hs.condQueue cond
  by_cases hrun : s.mode = .running
  · rw [if_pos hrun] at hqueue
    have hpm := (hs.goes hp hrun).part hes
    by_cases hc : (s.lock (.lock L)).activeThread = some s.currentThread ∨
        (s.loc s.currentThread).part cond ≠ .outside
    · -- the running thread is the one in the routines
      have hmatch' : ((s.loc s.currentThread).part cond).Matches s.currentThread m
          (s.queue (.cond cond)) := by
        by_cases htc : t = s.currentThread
        · rwa [htc] at hmatch
        · rw [h.alone hc htc] at hmatch
          rwa [hout _ (Ne.symm htc)]
      obtain ⟨m', hm', hmatch'⟩ := hpm.matches hm hmatch'
      refine ⟨m', s.currentThread, hm', fun u hu => ?_, by rwa [hqueue]⟩
      rw [hother fun _ => hu]
      exact h.alone hc hu
    · -- it is elsewhere, and stays elsewhere
      rw [not_or, not_not] at hc
      rw [hc.2] at hpm
      obtain ⟨hop, he, hpart⟩ := hpm.outside_of_not_held hc.1
      refine hunseen he (by rw [hqueue, hop]; rfl) fun u => ?_
      by_cases hu : u = s.currentThread
      · rw [hu, hpart, hc.2]
      · exact hother fun _ => hu
  · rw [if_neg hrun] at hqueue
    refine hunseen ?_ hqueue fun u => hother fun hm => absurd hm hrun
    rw [hs.events_of_not_running hrun, List.filterMap_nil]

/-- **The rules keep the invariant** while the condition is used with the lock `L`. -/
theorem CondInv.step (h : CondInv cond L tr s) (hp : Placed s) (hl : LockInv (.lock L) tr s)
    (hq : LockInv (.queueLock cond) tr s) (hs : Step K s es s')
    (hes : ∀ e ∈ es, e.UsesLock cond L) : CondInv cond L (tr ++ es) s' where
  good t := by
    by_cases ht : s.mode = .running ∧ t = s.currentThread
    · obtain ⟨hm, rfl⟩ := ht
      exact (hs.goes hp hm).good (h.good _)
    · exact (hs.moved hp fun hm he => ht ⟨hm, he⟩).good (h.good t)
  gap _ _ := h.gap_step hp hq hs hes
  calls _ := h.calls_step hp hl hs hes
  queueLock := h.queueLock_step hp hq hs
  spec := h.spec_step hp hs hes

/-! ### `Wait` returns with the lock -/

/-- A `Wait` that has the lock again keeps it until it has returned. -/
structure WaitInv (s : State C σ) : Prop where
  good : ∀ t, (s.loc t).Good
  reacquired : ∀ t n, (s.loc t).Reacquired n → (s.lock (.lock n)).activeThread = some t

/-- Who releases a lock is not on the way out of `Wait`. -/
lemma Goes.not_reacquired_of_released {l l' : Loc C} {n : ℕ}
    (h : Goes s [.released s.currentThread (.lock n)] l l') : ¬ l.Reacquired n := by
  cases h with
  | release => exact id

lemma WaitInv.step (h : WaitInv s) (hp : Placed s) (hl : ∀ l, LockInv l tr s)
    (hs : Step K s es s') : WaitInv s' where
  good t := by
    by_cases ht : s.mode = .running ∧ t = s.currentThread
    · obtain ⟨hm, rfl⟩ := ht
      exact (hs.goes hp hm).good (h.good _)
    · exact (hs.moved hp fun hm he => ht ⟨hm, he⟩).good (h.good t)
  reacquired t n ht := by
    have hmove := hs.lockMove (.lock n)
    by_cases htc : s.mode = .running ∧ t = s.currentThread
    · obtain ⟨hm, rfl⟩ := htc
      have hg := hs.goes hp hm
      rcases hg.reacquired (h.good _) ht with hr | rfl
      · refine hmove.keeps (hl _) (h.reacquired _ _ hr) fun he _ _ => ?_
        rw [he] at hg
        exact hg.not_reacquired_of_released hr
      · cases hmove with
        | take mode loc free lock => rw [lock]
        | idle lock queue events => exact absurd rfl (events _ List.mem_cons_self)
        | wait mode busy lock queue events => cases events
        | release mode loc held lock queue ready events => cases events
        | releaseNot mode notHeld loc lock queue events => cases events
    · have hne : s.mode = .running → t ≠ s.currentThread := fun hm he => htc ⟨hm, he⟩
      exact hmove.keeps (hl _) (h.reacquired t n ((hs.moved hp hne).reacquired ht))
        fun _ hm => hne hm

/-! ### What the events of a condition stand for -/

/-- The events of a condition in a step: `readied` is a `ReadyToRun` of a thread, and the only one
of a thread that sleeps on the condition; `signalled` and `broadcasted` are the returns of the
calls, with their values. -/
structure Shown (cond : ℕ) (s : State C σ) (es : List (Event C)) (s' : State C σ) : Prop where
  readied : ∀ t x, .readied t cond x ∈ es → s'.readyList = s.readyList ++ [x]
  sleepers : ∀ x, (s.loc x).sleepsOn = some (.cond cond) → x ∈ s'.readyList →
    x ∈ s.readyList ∨ ∃ t c, .readied t c x ∈ es
  signalled : ∀ t x, .signalled t cond x ∈ es → ∃ c, s'.loc t = .run (.client c) (.thread x)
  broadcasted : ∀ t n, .broadcasted t cond n ∈ es → ∃ c, s'.loc t = .run (.client c) (.count n)

/-- A thread that `V` or `Release` wakes slept on another queue. -/
lemma mem_readyList_of_wake (hp : Parked s) {q : QueueId} {x : Tid}
    (hx : (s.loc x).sleepsOn = some (.cond cond)) (hq : q ≠ .cond cond)
    (hw : x ∈ (s.wake q).readyList) : x ∈ s.readyList := by
  rw [State.wake_readyList] at hw
  rcases List.mem_append.1 hw with hw | hw
  · exact hw
  · have hmem : x ∈ s.queue q := by
      cases hqs : s.queue q with
      | nil => rw [hqs] at hw; cases hw
      | cons y ys =>
        rw [hqs] at hw
        rw [show x = y by simpa using hw]
        exact List.mem_cons_self
    have := hp.queued q x hmem
    rw [hx] at this
    exact absurd (Option.some.inj this).symm hq

lemma mem_readyList_of_releaseLock (hp : Placed s) {l : LockId} {x : Tid}
    (hx : (s.loc x).sleepsOn = some (.cond cond)) (hw : x ∈ (s.releaseLock l).readyList) :
    x ∈ s.readyList := by
  unfold State.releaseLock at hw
  split at hw
  · exact mem_readyList_of_wake (hp.setLock l ⟨true, none⟩).toParked hx (by simp) hw
  · exact hw

/-- A thread that gives up the processor does not sleep on a condition. -/
lemma mem_readyList_of_yieldTo {next : Tid} {rest : List Tid} {x : Tid}
    (run : s.yieldTo next rest = .ok s') (ready : s.readyList = next :: rest)
    (hx : x ≠ s.currentThread) (hw : x ∈ s'.readyList) : x ∈ s.readyList := by
  rw [(yieldTo_frame run).2.2.1] at hw
  rw [ready]
  rcases List.mem_append.1 hw with hw | hw
  · exact List.mem_cons_of_mem _ hw
  · exact absurd (List.mem_singleton.1 hw) hx

lemma Step.sleepers (hp : Placed s) (hs : Step K s es s') {x : Tid}
    (hx : (s.loc x).sleepsOn = some (.cond cond)) (hw : x ∈ s'.readyList) :
    x ∈ s.readyList ∨ ∃ t c, .readied t c x ∈ es := by
  cases hs with
  | @fork _ _ _ _ _ _ new mode loc code unborn =>
    rcases List.mem_append.1 hw with hw | hw
    · exact .inl hw
    · rw [List.mem_singleton.1 hw, unborn] at hx
      cases hx
  | @yield old c _ _ _ mode loc ready run =>
    refine .inl (mem_readyList_of_yieldTo (s := s.setLoc s.currentThread _) run ready
      (fun he => ?_) hw)
    rw [show x = s.currentThread from he, loc] at hx
    cases hx
  | preempt mode loc level ready run =>
    refine .inl (mem_readyList_of_yieldTo run ready (fun he => ?_) hw)
    rw [he, loc] at hx
    cases hx
  | dispatch mode ready run =>
    rw [(runThread_frame run).2.2.1] at hw
    rw [ready]
    exact .inl (List.mem_cons_of_mem _ hw)
  | release mode loc => exact .inl (mem_readyList_of_releaseLock hp hx hw)
  | @waitSleep c _ _ _ _ mode loc level =>
    left
    -- `queueLock` wakes a thread that sleeps on it
    have hw' : x ∈ ((s.append (.cond c)).releaseLock (.queueLock c)).readyList := hw
    unfold State.releaseLock at hw'
    split at hw'
    · rw [State.wake_readyList] at hw'
      have hq := append_cond_queue_lock (s := s) c (.queueLock c)
      refine mem_readyList_of_wake hp.toParked hx (q := .lock (.queueLock c)) (by simp) ?_
      rw [State.wake_readyList, ← hq]
      exact hw'
    · exact hw'
  | up mode loc => exact .inl (mem_readyList_of_wake hp.toParked hx (by simp) hw)
  | @interruptUp _ shared i allowed handler =>
    exact .inl (mem_readyList_of_wake (hp.handled shared).toParked hx (q := .sem i) (by simp) hw)
  | signalDequeue mode loc => exact .inl ((dequeue_readyList (s := s) _) ▸ hw)
  | bcastDequeue mode loc => exact .inl ((dequeue_readyList (s := s) _) ▸ hw)
  | signalReady mode loc | bcastReady mode loc =>
    rcases List.mem_append.1 hw with hw | hw
    · exact .inl hw
    · rw [List.mem_singleton.1 hw]
      exact .inr ⟨_, _, List.mem_cons_self⟩
  | _ => exact .inl hw

theorem Step.shown (hp : Placed s) (hs : Step K s es s') (cond : ℕ) : Shown cond s es s' := by
  refine ⟨fun t x he => ?_, fun x hx hw => hs.sleepers hp hx hw, fun t x he => ?_,
    fun t n he => ?_⟩
  · cases hs with
    | call mode loc code entry => cases entry <;> simp at he
    | signalReady mode loc | bcastReady mode loc =>
      simp at he
      obtain ⟨rfl, rfl, rfl⟩ := he
      rfl
    | _ => simp at he
  · cases hs with
    | call mode loc code entry => cases entry <;> simp at he
    | signalNone mode loc | signalReady mode loc =>
      simp at he
      obtain ⟨rfl, rfl, rfl⟩ := he
      exact ⟨_, setLoc_self ..⟩
    | _ => simp at he
  · cases hs with
    | call mode loc code entry => cases entry <;> simp at he
    | bcastNone mode loc =>
      simp at he
      obtain ⟨rfl, rfl, rfl⟩ := he
      exact ⟨_, setLoc_self ..⟩
    | _ => simp at he

/-! ### Mesa semantics -/

section Init

variable {first : C} {value : ℕ → ℤ} {shared : σ}

/-- At the start, no thread is in a routine. -/
lemma init_loc (first : C) (value : ℕ → ℤ) (shared : σ) (t : Tid) :
    (State.init first value shared).loc t = .unborn ∨
      (State.init first value shared).loc t = .run (.client first) .unit := by
  by_cases ht : t = 0
  · subst ht
    exact .inr rfl
  · exact .inl (by simp [State.init, ht])

lemma condInv_init : CondInv cond L [] (State.init first value shared) := by
  have hpart : ∀ t, ((State.init first value shared).loc t).part cond = .outside := by
    intro t
    rcases init_loc first value shared t with h | h <;>
      rw [h] <;> rfl
  refine ⟨fun t => ?_, fun t n ht => ?_, fun t ht => ?_, fun t => ?_,
    Mesa.init, 0, rfl, fun u _ => hpart u, ?_⟩
  · rcases init_loc first value shared t with h | h <;>
      rw [h] <;> trivial
  · rw [hpart] at ht
    cases ht
  · rw [hpart] at ht
    cases ht
  · refine iff_of_false (by simp [State.init]) fun hh => ?_
    rcases init_loc first value shared t with h | h <;>
      rw [h] at hh <;> exact hh
  · rw [hpart]
    rfl

lemma waitInv_init : WaitInv (State.init first value shared) := by
  refine ⟨fun t => ?_, fun t n ht => ?_⟩
  · rcases init_loc first value shared t with h | h <;>
      rw [h] <;> trivial
  · rcases init_loc first value shared t with h | h <;>
      rw [h] at ht <;> cases ht

/-- The invariant holds in every run that uses the condition with the lock `L`. -/
theorem CondInv.of_run (h : KernelRun K (State.init first value shared) tr s)
    (hes : ∀ e ∈ tr, e.UsesLock cond L) : CondInv cond L tr s := by
  revert hes
  refine h.invariant (I := fun tr s => (∀ e ∈ tr, e.UsesLock cond L) → CondInv cond L tr s)
    (fun _ => condInv_init) fun hr hi ⟨_, hc⟩ hes => ?_
  refine (hi fun e he => hes e (List.mem_append_left _ he)).step (.of_run hr) (.of_run hr _)
    (.of_run hr _) (step_rule hc) fun e he => hes e (List.mem_append_right _ he)

theorem WaitInv.of_run (h : KernelRun K (State.init first value shared) tr s) : WaitInv s :=
  h.invariant (I := fun _ s => WaitInv s) waitInv_init fun hr hi ⟨_, hc⟩ =>
    hi.step (.of_run hr) (LockInv.of_run hr) (step_rule hc)

/-- **Mesa semantics**, for every client and every run in which each `Wait`, `Signal` and
`Broadcast` on a condition is made with the lock `L`. -/
theorem condition_mesa (h : KernelRun K (State.init first value shared) tr s)
    (hes : ∀ e ∈ tr, e.UsesLock cond L) :
    -- the specification allows what is seen of the condition: every call sees the threads that
    -- came before it, `Signal` readies the first, `Broadcast` all of them
    (∃ m, Mesa.run (tr.filterMap (Event.mesa cond)) = some m ∧
      -- a thread that gave up the lock has the processor until it is on the queue, and until then
      -- nobody else has the lock
      (∀ t n, (s.loc t).part cond = .gap n →
        InGap s L t ∧ m = ⟨s.queue (.cond cond) ++ [t], none⟩) ∧
      -- outside the routines, the queue is the waiters
      ((∀ t, (s.loc t).part cond = .outside) → m = ⟨s.queue (.cond cond), none⟩)) ∧
    -- `Signal` and `Broadcast` have the lock to their end
    (∀ t, ((s.loc t).part cond).inCall = true → (s.lock (.lock L)).activeThread = some t) ∧
    -- the events are the calls of `ReadyToRun` and the values returned
    (∀ es s', Lib.StepOf (step K) s es s' → Shown cond s es s') ∧
    -- `Wait` returns with the lock held by its caller
    (∀ t c c' n, s.loc t = .run (.client c) (.waited c' n) →
      (s.lock (.lock n)).activeThread = some t ∧ Owns (.lock n) t tr) := by
  have hi := CondInv.of_run h hes
  refine ⟨?_, hi.calls, fun es s' ⟨_, hc⟩ => (step_rule hc).shown (.of_run h) cond,
    fun t c c' n hl => ?_⟩
  · obtain ⟨m, t, hm, hout, hmatch⟩ := hi.spec
    refine ⟨m, hm, fun u n hu => ⟨(hi.gap u n hu).2, ?_⟩, fun hall => ?_⟩
    · have hut : u = t := by
        by_contra hne
        rw [hout u hne] at hu
        cases hu
      rw [← hut, hu] at hmatch
      exact hmatch
    · rw [hall] at hmatch
      exact hmatch
  · have hlock := (WaitInv.of_run h).reacquired t n (by rw [hl]; rfl)
    exact ⟨hlock, ((LockInv.of_run h _).owner t).2 hlock⟩

end Init

end Invariant

/-! ### A client that waits and signals -/

/-- The main thread forks a second one and waits on condition `0`; the second thread signals, and
both release the lock and finish. -/
def waiterAndSignaller : Client ℕ Unit Unit Empty where
  code := fun _ _ c _ _ => .ok ((), match c with
    | 0 => .fork 10 1
    | 1 => .acquire 0 2
    | 2 => .wait 0 0 3
    | 3 => .release 0 4
    | 10 => .acquire 0 11
    | 11 => .signal 0 0 12
    | 12 => .release 0 13
    | _ => .finish)
  handler := fun h => nomatch h

/-- The main thread waits; the second one signals it and finishes; `Wait` returns. -/
def handshake : List (Choice Unit Empty) :=
  List.replicate 12 (.run () 1) ++ [.dispatch] ++ List.replicate 15 (.run () 1) ++ [.dispatch] ++
    List.replicate 5 (.run () 1)

theorem condition_mesa_handshake :
    ∃ tr s, KernelRun waiterAndSignaller (State.init 0 (fun _ => 0) ()) tr s ∧
      .readied 1 0 0 ∈ tr ∧ (∃ m, Mesa.run (tr.filterMap (Event.mesa 0)) = some m) ∧
      s.loc 0 = .run (.client 3) (.waited 0 0) ∧ (s.lock (.lock 0)).activeThread = some 0 := by
  obtain ⟨tr, s, run, hp⟩ := Lib.run_of_passes (step waiterAndSignaller) handshake
    (State.init 0 (fun _ => 0) ()) (fun tr s => .readied 1 0 0 ∈ tr ∧
      (∀ e ∈ tr, e.UsesLock 0 0) ∧ s.loc 0 = .run (.client 3) (.waited 0 0)) (by decide +kernel)
  obtain ⟨readied, uses, returned⟩ := of_decide_eq_true hp
  have mesa := condition_mesa run uses
  exact ⟨tr, s, run, readied, ⟨_, mesa.1.choose_spec.1⟩, returned, (mesa.2.2.2 0 3 0 0 returned).1⟩

end Nachos.Threads
