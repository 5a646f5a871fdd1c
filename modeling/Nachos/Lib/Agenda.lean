import Mathlib.Algebra.Order.Group.Multiset
import Nachos.Lib.Run

/-!
# Agendas

An agenda is a clock and what is yet to happen, each thing with the time from which it is due. The
clock goes forward, things are put down for later, and of what is due the earliest happens first.
In every run, what was put down has happened or is still to come, nothing happens early, and what
happens does so in the order of the times.
-/

namespace Nachos.Lib

/-- A clock and what is yet to happen. -/
structure Agenda (α T : Type) where
  now : T
  pending : Multiset α

namespace Agenda

variable {α T : Type}

/-- Something is put down, or happens. -/
inductive Event (α T : Type) where
  | scheduled (a : α) (now : T)
  | fired (a : α) (now : T)
  deriving DecidableEq

/-- The time of an event. -/
def Event.now : Event α T → T
  | .scheduled _ now => now
  | .fired _ now => now

/-- What was put down, in that order. -/
def scheduled (es : List (Event α T)) : List α :=
  es.filterMap fun e => match e with
    | .scheduled a _ => some a
    | .fired _ _ => none

/-- What happened, in that order. -/
def fired (es : List (Event α T)) : List α :=
  es.filterMap fun e => match e with
    | .scheduled _ _ => none
    | .fired a _ => some a

section Traces

variable {es es' : List (Event α T)} {a : α} {t : T}

@[simp] lemma scheduled_nil : scheduled ([] : List (Event α T)) = [] := rfl
@[simp] lemma fired_nil : fired ([] : List (Event α T)) = [] := rfl

@[simp] lemma scheduled_scheduled : scheduled (.scheduled a t :: es) = a :: scheduled es := rfl
@[simp] lemma scheduled_fired : scheduled (.fired a t :: es) = scheduled es := rfl
@[simp] lemma fired_scheduled : fired (.scheduled a t :: es) = fired es := rfl
@[simp] lemma fired_fired : fired (.fired a t :: es) = a :: fired es := rfl

@[simp] lemma scheduled_append : scheduled (es ++ es') = scheduled es ++ scheduled es' :=
  List.filterMap_append

@[simp] lemma fired_append : fired (es ++ es') = fired es ++ fired es' := List.filterMap_append

end Traces

variable [LinearOrder T] (due : α → T)

/-- One step. -/
inductive Step : Agenda α T → List (Event α T) → Agenda α T → Prop
  | schedule {g : Agenda α T} {a : α} (later : g.now < due a) :
      Step g [.scheduled a g.now] { g with pending := a ::ₘ g.pending }
  | advance {g : Agenda α T} {t : T} (forward : g.now ≤ t) : Step g [] { g with now := t }
  | fire {now : T} {a : α} {rest : Multiset α} (isDue : due a ≤ now)
      (earliest : ∀ b ∈ rest, due a ≤ due b) :
      Step ⟨now, a ::ₘ rest⟩ [.fired a now] ⟨now, rest⟩

/-- What holds after the events. -/
structure Kept (es : List (Event α T)) (g : Agenda α T) : Prop where
  conserved : (scheduled es : Multiset α) = fired es + g.pending
  notEarly : ∀ {a t}, Event.fired a t ∈ es → due a ≤ t
  inOrder : (fired es).Pairwise fun a b => due a ≤ due b
  past : ∀ a ∈ fired es, due a ≤ g.now ∧ ∀ b ∈ g.pending, due a ≤ due b
  clock : (es.map Event.now).Pairwise (· ≤ ·)
  clockLe : ∀ e ∈ es, e.now ≤ g.now

variable {due} {g g' : Agenda α T} {es tr : List (Event α T)}

lemma Step.now_le (h : Step due g es g') : g.now ≤ g'.now := by
  cases h with
  | schedule => exact le_rfl
  | advance forward => exact forward
  | fire => exact le_rfl

/-- The clock goes forward. -/
theorem now_le_of_run (h : Run (Step due) g es g') : g.now ≤ g'.now :=
  h.invariant_state (I := fun s => g.now ≤ s.now) le_rfl fun hi hs => hi.trans hs.now_le

/-- One more event, at the time of the clock. -/
lemma clock_snoc {e : Event α T} (hc : (tr.map Event.now).Pairwise (· ≤ ·))
    (hle : ∀ e ∈ tr, e.now ≤ g.now) (he : e.now = g.now) :
    ((tr ++ [e]).map Event.now).Pairwise (· ≤ ·) ∧ ∀ e' ∈ tr ++ [e], e'.now ≤ g.now := by
  constructor
  · rw [List.map_append, List.pairwise_append]
    refine ⟨hc, List.pairwise_singleton _ _, fun t ht u hu => ?_⟩
    obtain ⟨e', he', rfl⟩ := List.mem_map.mp ht
    obtain rfl : u = e.now := by simpa using hu
    rw [he]
    exact hle e' he'
  · intro e' he'
    rcases List.mem_append.mp he' with h | h
    · exact hle e' h
    · rw [List.mem_singleton.mp h, he]

/-- A step keeps it. -/
lemma Kept.step (hk : Kept due tr g) (h : Step due g es g') : Kept due (tr ++ es) g' := by
  obtain ⟨conserved, notEarly, inOrder, past, clock, clockLe⟩ := hk
  cases h with
  | @schedule _ a later =>
    obtain ⟨hc, hcl⟩ := clock_snoc (e := .scheduled a g.now) clock clockLe rfl
    refine ⟨?_, ?_, by simpa using inOrder, ?_, hc, hcl⟩
    · rw [scheduled_append, ← Multiset.coe_add, conserved]
      simp only [scheduled_scheduled, scheduled_nil, fired_append, fired_scheduled, fired_nil,
        List.append_nil, Multiset.coe_singleton]
      rw [← Multiset.singleton_add, add_assoc, add_comm g.pending]
    · intro b t hb
      exact notEarly (by simpa using hb)
    · intro b hb
      obtain ⟨hnow, hpend⟩ := past b (by simpa using hb)
      refine ⟨hnow, fun c hc => ?_⟩
      rcases Multiset.mem_cons.mp hc with rfl | hc
      · exact hnow.trans later.le
      · exact hpend c hc
  | advance forward =>
    rw [List.append_nil]
    exact ⟨conserved, notEarly, inOrder, fun a ha => ⟨(past a ha).1.trans forward, (past a ha).2⟩,
      clock, fun e he => (clockLe e he).trans forward⟩
  | @fire now a rest isDue earliest =>
    obtain ⟨hc, hcl⟩ := clock_snoc (e := .fired a now) clock clockLe rfl
    refine ⟨?_, ?_, ?_, ?_, hc, hcl⟩
    · rw [scheduled_append, fired_append, ← Multiset.coe_add, ← Multiset.coe_add, conserved]
      simp [add_assoc, ← Multiset.singleton_add]
    · intro b t hb
      rcases List.mem_append.mp hb with hb | hb
      · exact notEarly hb
      · cases List.mem_singleton.mp hb
        exact isDue
    · rw [fired_append, List.pairwise_append]
      refine ⟨inOrder, List.pairwise_singleton _ _, fun b hb c hc => ?_⟩
      obtain rfl : c = a := by simpa using hc
      exact (past b hb).2 _ (Multiset.mem_cons_self _ _)
    · intro b hb
      rw [fired_append, List.mem_append] at hb
      rcases hb with hb | hb
      · exact ⟨(past b hb).1, fun c hc => (past b hb).2 c (Multiset.mem_cons_of_mem hc)⟩
      · obtain rfl : b = a := by simpa using hb
        exact ⟨isDue, earliest⟩

/-- **Every run**: nothing is lost or happens twice, nothing happens early, and what happens does
so in the order of the times. -/
theorem kept_of_run (start : g.pending = 0) (h : Run (Step due) g tr g') : Kept due tr g' := by
  refine h.invariant (I := fun tr g => Kept due tr g) ?_ fun _ hi hs => hi.step hs
  exact ⟨by simp [start], by simp, by simp, by simp, by simp, by simp⟩

end Agenda

end Nachos.Lib
