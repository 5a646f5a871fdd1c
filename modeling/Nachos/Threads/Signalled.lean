import Nachos.Threads.Client

/-!
# Threads that have been signalled

A thread that called `Wait` is on the queue of the condition, or on its way there, until a `Signal`
or `Broadcast` takes it off. It is signalled then, until its own code runs again after `Wait`.
-/

namespace Nachos.Threads

variable {C σ ι H : Type}

def Kont.awaits : Kont C → Bool
  | .waitAcquire _ _ _ _ => true
  | .waitSleep _ _ _ _ => true
  | .waitReturn _ _ _ _ => true
  | _ => false

/-- In `Wait`, or back from it before the code after the call has run. -/
def Loc.awaits : Loc C → Bool
  | .run (.client _) (.waited _ _) => true
  | .ret _ (.client _) (.waited _ _) => true
  | .run k _ => k.awaits
  | .acquire _ _ k => k.awaits
  | .lockAsleep _ _ k => k.awaits
  | .release _ _ k => k.awaits
  | .ret _ k _ => k.awaits
  | .condAsleep _ _ _ _ => true
  | _ => false

/-- Taken off the queue, and not past `Wait` yet. -/
def Signalled (s : State C σ) (t : Tid) : Prop := (s.loc t).awaits = true ∧ ¬ Waiting s t

/-- The locks that the calls on a condition are made with. -/
def Call.UsesLock (cond L : ℕ) : Call C → Prop
  | .wait c l _ => c = cond → l = L
  | .signal c l _ => c = cond → l = L
  | .broadcast c l _ => c = cond → l = L
  | _ => True

section Steps

variable {K : Client C σ ι H} {s s' : State C σ} {es : List (Event C)} {l l' : Loc C}
  {cond L : ℕ} {t : Tid}

lemma Goes.awaits (h : Goes s es l l') (hk : ∀ e ∈ es, ¬ e.IsRan) : l'.awaits = l.awaits := by
  cases h with
  | call | fork | finish => exact absurd trivial (hk _ List.mem_cons_self)
  | @take _ _ k | @takeAwake _ _ k | @release _ _ k => cases k <;> rfl
  | @ret _ k r => cases k <;> cases r <;> rfl
  | _ => rfl

lemma Moved.awaits (h : Moved l l') : l'.awaits = l.awaits := by
  cases h <;> rfl

lemma After.awaits {call : Call C} (h : After s call l) : l.awaits = call.isWait := by
  cases h with
  | entry h => cases h <;> rfl
  | fork | finish => rfl

/-- Who is on the queue of a condition is in `Wait`. -/
lemma Placed.awaits_of_queue (hp : Placed s) (h : t ∈ s.queue (.cond cond)) :
    (s.loc t).awaits = true := by
  have hs := hp.queued _ t h
  cases hl : s.loc t <;> rw [hl] at hs <;> cases hs
  rfl

/-- A client at its code runs it. -/
lemma Step.ran_of_client (hp : Placed s) (hs : Step K s es s') (mode : s.mode = .running) {c : C}
    {r : Ret} (loc : s.loc s.currentThread = .run (.client c) r) : ∃ e ∈ es, e.IsRan := by
  have h := hs.goes hp mode
  rw [loc] at h
  generalize s'.loc s.currentThread = l' at h
  cases h with
  | call | fork | finish => exact ⟨_, List.mem_cons_self, trivial⟩

/-- In a step of the kernel, a thread that is taken off a queue is signalled. -/
theorem Step.signalled (hp : Placed s) (hs : Step K s es s') (hk : ∀ e ∈ es, ¬ e.IsRan) (t : Tid) :
    Signalled s' t ↔ Signalled s t ∨ ∃ cond, Taken s cond t := by
  have hawaits : (s'.loc t).awaits = (s.loc t).awaits := by
    by_cases ht : s.mode = .running ∧ t = s.currentThread
    · obtain ⟨hm, rfl⟩ := ht
      exact (hs.goes hp hm).awaits hk
    · exact (hs.moved hp fun hm he => ht ⟨hm, he⟩).awaits
  rw [Signalled, Signalled, hawaits, hs.waiting hp hk]
  constructor
  · rintro ⟨ha, hw⟩
    by_cases h : ∃ cond, Taken s cond t
    · exact .inr h
    · exact .inl ⟨ha, fun hwait => hw ⟨hwait, fun cond hc => h ⟨cond, hc⟩⟩⟩
  · rintro (⟨ha, hw⟩ | ⟨cond, hc⟩)
    · exact ⟨ha, fun h => hw h.1⟩
    · exact ⟨hp.awaits_of_queue (List.mem_of_head? hc.2.2), fun h => h.2 cond hc⟩

/-- In a step of the client, the running thread is past `Wait`. -/
theorem ClientStep.waiting (hp : Placed s) {input : ι} {new : Tid} {c : C} {r : Ret}
    {call : Call C} (hc : ClientStep K s s' input new c r call) (t : Tid) :
    Waiting s' t ↔ if t = s.currentThread then call.isWait = true else Waiting s t := by
  have hnot : ∀ cond, s.currentThread ∉ s.queue (.cond cond) := fun cond =>
    (hp.running hc.mode).2.2.queue _
  by_cases ht : t = s.currentThread
  · subst ht
    simp [Waiting, hc.queue, hnot, hc.place.joining]
  · have hj : (s'.loc t).joining = (s.loc t).joining := by
      rcases hc.other t ht with he | ⟨-, first, c', -, hu, he⟩
      · rw [he]
      · rw [he, hu]
        rfl
    simp [Waiting, hc.queue, hj, ht]

theorem ClientStep.signalled (hp : Placed s) {input : ι} {new : Tid} {c : C} {r : Ret}
    {call : Call C} (hc : ClientStep K s s' input new c r call) (t : Tid) :
    Signalled s' t ↔ Signalled s t ∧ t ≠ s.currentThread := by
  rw [Signalled, Signalled, hc.waiting hp]
  by_cases ht : t = s.currentThread
  · subst ht
    rw [if_pos rfl, hc.place.awaits]
    simp
  · have ha : (s'.loc t).awaits = (s.loc t).awaits := by
      rcases hc.other t ht with he | ⟨-, first, c', -, hu, he⟩
      · rw [he]
      · rw [he, hu]
        rfl
    rw [if_neg ht, ha]
    simp [ht]

/-- In a client whose calls on the condition are made with the lock, the events say so. -/
lemma Step.usesLock (hK : ∀ call, K.Makes call → call.UsesLock cond L) (hs : Step K s es s') :
    ∀ e ∈ es, e.UsesLock cond L := by
  cases hs with
  | @call input c r shared call es lv l mode loc code entry =>
    have huses := hK call ⟨_, _, _, _, _, _, code⟩
    rintro e he
    rcases List.mem_cons.1 he with rfl | he
    · trivial
    · cases entry with
      | wait | signal | broadcast =>
        obtain rfl := List.mem_singleton.1 he
        exact huses
      | _ => cases he
  | _ => simp [Event.UsesLock]

theorem usesLock_of_run (hK : ∀ call, K.Makes call → call.UsesLock cond L) {s₀ : State C σ}
    {tr : List (Event C)} (h : KernelRun K s₀ tr s) : ∀ e ∈ tr, e.UsesLock cond L := by
  refine h.rules.invariant (I := fun tr _ => ∀ e ∈ tr, e.UsesLock cond L) (by simp)
    fun _ hi hs e he => ?_
  rcases List.mem_append.1 he with he | he
  · exact hi e he
  · exact hs.usesLock hK e he

end Steps

end Nachos.Threads
