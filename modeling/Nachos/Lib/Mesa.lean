import Mathlib.Tactic.Common

/-!
# The Mesa condition variable

What a condition variable is for, over any type of threads: the waiters in the order in which they
came, and the `Signal` or `Broadcast` that is in progress, with the threads it has made ready so
far. An event that the specification does not allow has no next state.
-/

namespace Nachos.Lib

variable {T : Type}

/-- What is seen of a condition variable. -/
inductive MesaEvent (T : Type) where
  /-- `t` gives up the lock and waits. -/
  | wait (t : T)
  | signal (t : T)
  | broadcast (t : T)
  /-- The call of `t` makes `x` ready. -/
  | readied (t x : T)
  | signalled (t : T) (x : Option T)
  | broadcasted (t : T) (n : ℕ)

/-- The waiters, oldest first, and the call in progress: its caller and whom it made ready. -/
structure Mesa (T : Type) where
  waiting : List T
  call : Option (T × List T)

namespace Mesa

def init : Mesa T := ⟨[], none⟩

/-- **The specification.** Waiting and calling exclude each other. `Signal` makes the first
waiter ready and returns it, or finds nobody; `Broadcast` makes all waiters ready, in order, and
returns their number. -/
def next [DecidableEq T] (m : Mesa T) : MesaEvent T → Option (Mesa T)
  | .wait t => if m.call = none then some { m with waiting := m.waiting ++ [t] } else none
  | .signal t => if m.call = none then some { m with call := some (t, []) } else none
  | .broadcast t => if m.call = none then some { m with call := some (t, []) } else none
  | .readied t x =>
    match m.call with
    | some (u, xs) =>
      if u = t ∧ m.waiting[xs.length]? = some x then some { m with call := some (u, xs ++ [x]) }
      else none
    | none => none
  | .signalled t x =>
    if m.call = some (t, x.toList) ∧ x = m.waiting.head? then some ⟨m.waiting.tail, none⟩ else none
  | .broadcasted t n =>
    if m.call = some (t, m.waiting) ∧ n = m.waiting.length then some init else none

/-- The state after a sequence of events that the specification allows. -/
def run [DecidableEq T] (es : List (MesaEvent T)) : Option (Mesa T) := es.foldlM next init

variable [DecidableEq T] {m : Mesa T} {es : List (MesaEvent T)}

@[simp] lemma run_nil : run ([] : List (MesaEvent T)) = some init := rfl

/-- A run goes on with one event. -/
lemma run_concat {e : MesaEvent T} (h : run es = some m) : run (es ++ [e]) = m.next e := by
  rw [run, List.foldlM_append]
  show (run es >>= fun m => [e].foldlM next m) = _
  rw [h]
  show (m.next e >>= fun m => some m) = _
  cases m.next e <;> rfl

lemma next_wait {t : T} (h : m.call = none) :
    m.next (.wait t) = some ⟨m.waiting ++ [t], none⟩ := by
  rw [next, if_pos h, h]

lemma next_signal {t : T} (h : m.call = none) :
    m.next (.signal t) = some ⟨m.waiting, some (t, [])⟩ := by
  rw [next, if_pos h]

lemma next_broadcast {t : T} (h : m.call = none) :
    m.next (.broadcast t) = some ⟨m.waiting, some (t, [])⟩ := by
  rw [next, if_pos h]

lemma next_readied {t x : T} {xs : List T} (h : m.call = some (t, xs))
    (hx : m.waiting[xs.length]? = some x) :
    m.next (.readied t x) = some ⟨m.waiting, some (t, xs ++ [x])⟩ := by
  simp [next, h, hx]

lemma next_signalled {t : T} {x : Option T} (h : m.call = some (t, x.toList))
    (hx : x = m.waiting.head?) : m.next (.signalled t x) = some ⟨m.waiting.tail, none⟩ := by
  rw [next, if_pos ⟨h, hx⟩]

lemma next_broadcasted {t : T} {n : ℕ} (h : m.call = some (t, m.waiting))
    (hn : n = m.waiting.length) : m.next (.broadcasted t n) = some init := by
  rw [next, if_pos ⟨h, hn⟩]

end Mesa

end Nachos.Lib
