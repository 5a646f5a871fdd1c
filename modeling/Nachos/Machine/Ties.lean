import Nachos.Machine.Queue

/-!
# Interrupts for the same time

`CheckIfDue` takes the first interrupt off the list before it looks at the clock. One that is not
due is put back with `SortedInsert`, and that is behind the others for the same time: every tick
turns the interrupts that tie for the first place. As long as they do not tie, the list stays as it
is, and interrupts for the same time fire in the order in which they were scheduled.
-/

namespace Nachos.Machine

open Lib

variable {H W : Type} {handlers : Handlers H W} {m m' : Hardware H W} {es es' : List (Event H)}

/-- No interrupt is pending for the same time as the first one, except for others like it. -/
def Hardware.Untied (m : Hardware H W) : Prop :=
  ∀ e rest, m.pending = e :: rest → ∀ e' ∈ rest, e'.key = e.key → e' = e

/-- **A check that finds nothing due leaves the machine as it was.** -/
def KeepsQueue (handlers : Handlers H W) (m : Hardware H W) : Prop :=
  checkIfDue handlers false m = .ok (false, [], m)

/-- **Interrupts for the same time fire in the order in which they were scheduled.** -/
def FiresInOrder (es : List (Event H)) : Prop :=
  ∀ t, (Agenda.fired es).filter (·.time = t) <+: (Agenda.scheduled es).filter (·.time = t)

/-- Does a step check what is due? -/
def Choice.checks (c : Choice H W) (m : Hardware H W) : Bool :=
  match c with
  | .setLevel _ now => now = .intOn ∧ m.level = .intOff
  | .oneTick _ => true
  | .idle _ => true
  | _ => false

/-- A step, after which the first interrupt is not tied with another one if there was a check. -/
def UntiedStep (handlers : Handlers H W) (m : Hardware H W) (es : List (Event H))
    (m' : Hardware H W) : Prop :=
  ∃ c, step handlers c m = .ok (es, m') ∧ (c.checks m = true → m'.Untied)

/-! ### The list -/

section List

variable {α : Type} {e : ListElement α} {rest l : List (ListElement α)}

/-- What is put back stays in front, when all that tie with it are like it. -/
lemma sortedInsert_head (h : Sorted (e :: rest)) :
    sortedInsert e.item e.key rest = e :: rest ↔ ∀ e' ∈ rest, e'.key = e.key → e' = e := by
  induction rest with
  | nil => simp [sortedInsert]
  | cons x rest ih =>
    obtain ⟨hle, hsorted⟩ := List.pairwise_cons.mp h
    have hx : e.key ≤ x.key := hle x (.head _)
    rw [sortedInsert]
    by_cases hlt : e.key < x.key
    · -- everything behind is later
      rw [if_pos hlt]
      refine iff_of_true rfl fun e' he' hkey => ?_
      have hx' : x.key ≤ e'.key := by
        rcases List.mem_cons.mp he' with rfl | he'
        · exact le_rfl
        · exact (List.pairwise_cons.mp hsorted).1 e' he'
      omega
    · have hkey : x.key = e.key := by omega
      have hrest : Sorted (e :: rest) :=
        List.pairwise_cons.mpr ⟨fun e' he' => hle e' (.tail _ he'), (List.pairwise_cons.mp hsorted).2⟩
      rw [if_neg hlt, List.cons.injEq, List.forall_mem_cons]
      constructor
      · rintro ⟨rfl, htail⟩
        exact ⟨fun _ => rfl, (ih hrest).mp htail⟩
      · rintro ⟨hhead, htail⟩
        obtain rfl := hhead hkey
        exact ⟨rfl, (ih hrest).mpr htail⟩

/-- What is put back is turned, and ties as before. -/
lemma untied_of_sortedInsert (h : Sorted (e :: rest))
    (hu : ∀ x xs, sortedInsert e.item e.key rest = x :: xs → ∀ e' ∈ xs, e'.key = x.key → e' = x) :
    ∀ e' ∈ rest, e'.key = e.key → e' = e := by
  obtain ⟨hle, -⟩ := List.pairwise_cons.mp h
  have hmem : ∀ {y}, y ∈ sortedInsert e.item e.key rest ↔ y = e ∨ y ∈ rest := mem_sortedInsert
  cases hs : sortedInsert e.item e.key rest with
  | nil =>
    have he := hmem.mpr (.inl rfl)
    rw [hs] at he
    cases he
  | cons x xs =>
    have hsort : Sorted (x :: xs) := hs ▸ Sorted.sortedInsert (List.pairwise_cons.mp h).2
    -- the first one has the key of the one that was put back
    have hxe : x.key = e.key := by
      have hx : e.key ≤ x.key := by
        rcases hmem.mp (hs ▸ List.mem_cons_self : x ∈ sortedInsert e.item e.key rest) with rfl | hx
        · exact le_rfl
        · exact hle x hx
      have he : x.key ≤ e.key := by
        have he := hmem.mpr (.inl rfl)
        rw [hs] at he
        rcases List.mem_cons.mp he with rfl | he
        · exact le_rfl
        · exact (List.pairwise_cons.mp hsort).1 e he
      omega
    have like : ∀ y, (y = e ∨ y ∈ rest) → y.key = e.key → y = x := by
      intro y hy hkey
      have hy' := hmem.mpr hy
      rw [hs] at hy'
      rcases List.mem_cons.mp hy' with rfl | hy'
      · rfl
      · exact hu x xs hs y hy' (hkey.trans hxe.symm)
    intro e' he' hkey
    rw [like e' (.inr he') hkey, like e (.inl rfl) rfl]

/-- What is inserted comes behind all that have its key. -/
lemma filter_sortedInsert_key {item : α} {key : ℤ} (h : Sorted l) :
    (sortedInsert item key l).filter (·.key = key) = l.filter (·.key = key) ++ [⟨item, key⟩] := by
  induction l with
  | nil => simp [sortedInsert]
  | cons x l ih =>
    obtain ⟨hle, hl⟩ := List.pairwise_cons.mp h
    rw [sortedInsert]
    split
    next hlt =>
      have hnone : (x :: l).filter (·.key = key) = [] := by
        refine List.filter_eq_nil_iff.mpr fun y hy => ?_
        have hy' : x.key ≤ y.key := by
          rcases List.mem_cons.mp hy with rfl | hy
          · exact le_rfl
          · exact hle y hy
        simp only [decide_eq_true_eq]
        omega
      rw [List.filter_cons_of_pos (by simp), hnone]
      rfl
    next =>
      rw [List.filter_cons, List.filter_cons, ih hl]
      split <;> rfl

end List

/-! ### One check -/

/-- What is not due is put back. -/
lemma checkIfDue_later {e : ListElement (PendingInterrupt H)}
    {rest : List (ListElement (PendingInterrupt H))} (hlevel : m.level = .intOff)
    (hp : m.pending = e :: rest) (later : m.totalTicks < e.key) : checkIfDue handlers false m =
      .ok (false, [], { m with pending := sortedInsert e.item e.key rest }) := by
  unfold checkIfDue
  rw [if_neg (not_not.mpr hlevel), hp]
  exact if_pos ⟨rfl, later⟩

/-- **When a check leaves the list alone**: exactly when the first interrupt is not tied. -/
lemma keepsQueue_iff (hok : m.Ok) (hlevel : m.level = .intOff)
    (later : ∀ e ∈ m.pending, m.totalTicks < e.key) : KeepsQueue handlers m ↔ m.Untied := by
  unfold KeepsQueue
  cases hp : m.pending with
  | nil =>
    refine iff_of_true ?_ fun e rest hcons => ?_
    · unfold checkIfDue
      rw [if_neg (not_not.mpr hlevel), hp]
      rfl
    · rw [hp] at hcons
      cases hcons
  | cons e rest =>
    have hsorted := hok.sorted
    rw [hp] at hsorted later
    rw [checkIfDue_later hlevel hp (later e (.head _))]
    constructor
    · intro h e₁ rest₁ hcons
      have hm : ({ m with pending := sortedInsert e.item e.key rest } : Hardware H W) = m :=
        congrArg (fun r : Bool × List (Event H) × Hardware H W => r.2.2) (Except.ok.inj h)
      have hlist : sortedInsert e.item e.key rest = m.pending := congrArg Hardware.pending hm
      rw [hp] at hcons hlist
      cases hcons
      exact (sortedInsert_head hsorted).mp hlist
    · intro hu
      rw [(sortedInsert_head hsorted).mpr (hu e rest hp), ← hp]

/-! ### Runs -/

/-- The interrupts for a time that were scheduled have fired, in the same order, or wait in it. -/
def Ordered (es : List (Event H)) (m : Hardware H W) : Prop :=
  ∀ t, (Agenda.scheduled es).filter (·.time = t) =
    (Agenda.fired es).filter (·.time = t) ++ m.interrupts.filter (·.time = t)

lemma Ordered.congr (h : Ordered es m) (hp : m'.pending = m.pending) : Ordered es m' := by
  unfold Ordered Hardware.interrupts at *
  rwa [hp]

lemma Ordered.firesInOrder (h : Ordered es m) : FiresInOrder es := fun t =>
  ⟨_, (h t).symm⟩

/-- A new interrupt comes behind those for the same time. -/
lemma Ordered.schedule {r : Request H} (h : Ordered es m) (hok : m.Ok)
    (hs : schedule r m = .ok (es', m')) : Ordered (es ++ es') m' := by
  obtain ⟨p, -, rfl, rfl⟩ := schedule_eq_ok hs
  intro t
  have hitems : ∀ l : List (ListElement (PendingInterrupt H)), (∀ e ∈ l, e.key = e.item.time) →
      (l.map ListElement.item).filter (·.time = t) = (l.filter (·.key = t)).map ListElement.item := by
    intro l keys
    rw [List.filter_map]
    refine congrArg _ (List.filter_congr fun e he => ?_)
    simp only [Function.comp, keys e he]
  have hkeys : ∀ e ∈ sortedInsert p p.time m.pending, e.key = e.item.time := by
    intro e he
    rcases mem_sortedInsert.mp he with rfl | he
    · rfl
    · exact hok.keys e he
  have hpend : ((sortedInsert p p.time m.pending).map ListElement.item).filter (·.time = t) =
      m.interrupts.filter (·.time = t) ++ [p].filter (·.time = t) := by
    rw [hitems _ hkeys, Hardware.interrupts, hitems _ hok.keys]
    by_cases ht : p.time = t
    · subst ht
      rw [filter_sortedInsert_key hok.sorted, List.map_append]
      simp
    · rw [filter_sortedInsert (by simpa using ht)]
      simp [ht]
  have hold := h t
  simp only [Agenda.scheduled_append, Agenda.fired_append, Agenda.scheduled_scheduled,
    Agenda.fired_scheduled, Agenda.scheduled_nil, Agenda.fired_nil, List.append_nil,
    List.filter_append, Hardware.interrupts] at hold ⊢
  rw [hold, hpend, List.append_assoc]
  rfl

/-- A handler. -/
lemma Ordered.invoke {p : PendingInterrupt H} (h : Ordered es m) (hok : m.Ok)
    (hi : invoke handlers p m = .ok (es', m')) : Ordered (es ++ es') m' := by
  have hr := run_of_exec hi
  refine (hr.invariant (I := fun es' m' => Ordered (es ++ es') m' ∧ m'.Ok) ?_ ?_).1
  · rw [List.append_nil]
    exact ⟨h, hok.sorted, hok.keys⟩
  · rintro tr s es₁ s' - ⟨hs, hok'⟩ ⟨c, hc⟩
    refine ⟨?_, (handled_of_handlerCall hok' hc).ok⟩
    rw [← List.append_assoc]
    cases c with
    | schedule r => exact hs.schedule hok' hc
    | yieldOnReturn =>
      simp only [handlerCall] at hc
      split at hc
      next =>
        cases hc
        rw [List.append_nil]
        exact hs
      next => cases hc

variable {adv b : Bool}

/-- A check fires the first interrupt, or puts it back where it was. -/
lemma Ordered.checked (h : Ordered es m) (hok : m.Ok) (hc : Checked handlers adv m b es' m')
    (hu : b = false → m'.Untied) : Ordered (es ++ es') m' := by
  cases hc with
  | empty =>
    rw [List.append_nil]
    exact h
  | @early e rest pending _ _ =>
    rw [List.append_nil]
    have hsorted := hok.sorted
    rw [pending] at hsorted
    have hlike := untied_of_sortedInsert hsorted (hu rfl)
    exact h.congr (((sortedInsert_head hsorted).mpr hlike).trans pending.symm)
  | alone pending =>
    rw [List.append_nil]
    exact h.congr pending.symm
  | @fire e rest es' m' pending _ hi =>
    obtain ⟨-, sorted, keys, -⟩ := hok.rest pending
    have hfired : Ordered (es ++ [.fired e.item (max m.totalTicks e.key)]) { m with
        totalTicks := max m.totalTicks e.key, pending := rest, inHandler := true,
        status := .systemMode } := by
      intro t
      have hold := h t
      simp only [Hardware.interrupts, pending, List.map_cons] at hold
      simp only [Agenda.scheduled_append, Agenda.fired_append, Agenda.scheduled_fired,
        Agenda.fired_fired, Agenda.scheduled_nil, Agenda.fired_nil, List.append_nil,
        List.filter_append, Hardware.interrupts]
      rw [hold, List.append_assoc]
      exact congrArg _ (List.filter_append [e.item] (rest.map ListElement.item))
    have hend := hfired.invoke ⟨sorted, keys⟩ hi
    rw [List.append_assoc, List.singleton_append] at hend
    exact hend.congr rfl

/-- The loop of checks. -/
lemma Ordered.checkAll {fuel : ℕ} (h : Ordered es m) (hok : m.Ok)
    (hc : checkAll handlers fuel m = .ok (es', m')) (hu : m'.Untied) : Ordered (es ++ es') m' := by
  induction fuel generalizing m es es' with
  | zero => cases hc
  | succ fuel ih =>
    rw [Machine.checkAll] at hc
    split at hc
    next => cases hc
    next hcheck =>
      cases hc
      exact h.checked hok (checked_of_checkIfDue hcheck) fun _ => hu
    next es₁ m₁ hcheck =>
      have hchecked := checked_of_checkIfDue hcheck
      have hnext := h.checked hok hchecked fun hb => by cases hb
      split at hc
      next => cases hc
      next es₂ m₂ hrest =>
        cases hc
        rw [← List.append_assoc]
        exact ih hnext (hchecked.kept hok).ok hrest

lemma Ordered.oneTick {fuel : ℕ} (h : Ordered es m) (hok : m.Ok)
    (ht : oneTick handlers fuel m = .ok (es', m')) (hu : m'.Untied) : Ordered (es ++ es') m' := by
  obtain ⟨m₁, hc, -, hp, -, -⟩ := oneTick_eq_ok ht
  have hu₁ : m₁.Untied := by
    unfold Hardware.Untied
    rwa [← hp]
  have hticked : Ordered es m.ticked := h.congr rfl
  exact (hticked.checkAll hok.ticked hc hu₁).congr hp

lemma Ordered.idle {fuel : ℕ} (h : Ordered es m) (hok : m.Ok)
    (hi : idle handlers fuel m = .ok (es', m')) (hu : m'.Untied) : Ordered (es ++ es') m' := by
  have hok₀ : ({ m with status := .idleMode } : Hardware H W).Ok := ⟨hok.sorted, hok.keys⟩
  have h₀ : Ordered es ({ m with status := .idleMode } : Hardware H W) := h.congr rfl
  obtain ⟨m₁, hc, rfl⟩ | ⟨es₁, es₂, m₁, m₂, hc, ha, rfl, rfl⟩ := idle_eq_ok hi
  · exact (h₀.checked hok₀ hc fun _ => hu).congr rfl
  · have h₁ := h₀.checked hok₀ hc fun hb => by cases hb
    rw [← List.append_assoc]
    exact (h₁.checkAll (hc.kept hok₀).ok ha hu).congr rfl

/-- **Every step keeps the order**, if it leaves no tie for the first place. -/
lemma Ordered.step (h : Ordered es m) (hok : m.Ok) (hs : UntiedStep handlers m es' m') :
    Ordered (es ++ es') m' := by
  obtain ⟨c, hc, hu⟩ := hs
  unfold Machine.step at hc
  split at hc
  next => cases hc
  next =>
    cases c with
    | schedule r => exact h.schedule hok hc
    | setLevel fuel now =>
      simp only [setLevel] at hc
      split at hc
      next =>
        split at hc
        next hon =>
          have hlevel : Ordered es ({ m with level := now } : Hardware H W) := h.congr rfl
          exact hlevel.oneTick ⟨hok.sorted, hok.keys⟩ hc (hu (by simpa [Choice.checks] using hon))
        next =>
          cases hc
          rw [List.append_nil]
          exact h.congr rfl
      next => cases hc
    | oneTick fuel => exact h.oneTick hok hc (hu rfl)
    | idle fuel => exact h.idle hok hc (hu rfl)
    | setStatus user =>
      cases hc
      rw [List.append_nil]
      exact h.congr rfl
    | kernel k =>
      cases hc
      rw [List.append_nil]
      exact h.congr rfl

/-- **Ticks and ties**: a check that finds nothing due leaves the list alone exactly when no other
interrupt is pending for the time of the first one; and in every run in which that is so after
every check, interrupts for the same time fire in the order in which they were scheduled. -/
theorem ticks_untied (handlers : Handlers H W) :
    (∀ m : Hardware H W, m.Ok → m.level = .intOff → (∀ e ∈ m.pending, m.totalTicks < e.key) →
      (KeepsQueue handlers m ↔ m.Untied)) ∧
    ∀ kernel es m, Run (UntiedStep handlers) (.init kernel) es m → FiresInOrder es := by
  refine ⟨fun m hok hlevel later => keepsQueue_iff hok hlevel later, fun kernel es m hr => ?_⟩
  have hinv : m.Between ∧ Ordered es m := by
    refine hr.invariant (I := fun es m => m.Between ∧ Ordered es m) ?_ ?_
    · exact ⟨⟨⟨List.Pairwise.nil, by simp [Hardware.init]⟩, fun _ h => by cases h⟩, fun t => rfl⟩
    · rintro tr s es s' - ⟨hb, ho⟩ hs
      refine ⟨?_, ho.step hb.ok hs⟩
      obtain ⟨c, hc, -⟩ := hs
      exact (stepped_of_step hb ⟨c, hc⟩).between
  exact hinv.2.firesInOrder

/-- Two requests for the same time. -/
def twoRequests : List (Choice Bool Unit) :=
  [.schedule ⟨true, 0, 15, .diskInt⟩, .schedule ⟨false, 0, 15, .diskInt⟩]

/-- Interrupts are enabled: one tick, with at most three interrupts due. -/
def enable : List (Choice Bool Unit) := [.setLevel 3 .intOff, .setLevel 3 .intOn]

/-- Handlers that do nothing. -/
def noCalls : Handlers Bool Unit := fun _ _ _ => ([], ())

/-- After one tick the second request is in front, and it fires first. -/
theorem not_ticks_untied :
    (¬ ∀ m : Hardware Bool Unit, m.Ok → m.level = .intOff →
      (∀ e ∈ m.pending, m.totalTicks < e.key) → KeepsQueue noCalls m) ∧
    ¬ ∀ es m, Run (Step noCalls) (.init ()) es m → FiresInOrder es := by
  refine ⟨fun h => ?_, fun h => ?_⟩
  · obtain ⟨es, m, hr, hp⟩ := run_of_passes (step noCalls) twoRequests (.init ())
      (fun _ m => m.pending = [⟨⟨true, 0, 15, .diskInt⟩, 15⟩, ⟨⟨false, 0, 15, .diskInt⟩, 15⟩] ∧
        m.level = .intOff ∧ m.totalTicks = 0) (by decide +kernel)
    obtain ⟨hpend, hlevel, htime⟩ := of_decide_eq_true hp
    have hok := (between_of_run hr).1.ok
    have later : ∀ e ∈ m.pending, m.totalTicks < e.key := by simp [hpend, htime]
    have hu := (keepsQueue_iff hok hlevel later).mp (h m hok hlevel later)
    cases hu _ _ hpend _ (.head _) rfl
  · obtain ⟨es, m, hr, hp⟩ := run_of_passes (step noCalls)
      (twoRequests ++ enable ++ enable) (.init ())
      (fun es _ => (Agenda.fired es).map (·.handler) = [false, true] ∧
        (Agenda.scheduled es).map (·.handler) = [true, false] ∧
        (Agenda.scheduled es).all (·.time = 15) ∧ (Agenda.fired es).all (·.time = 15))
      (by decide +kernel)
    obtain ⟨hfired, hsched, hall, hall'⟩ := of_decide_eq_true hp
    have hprefix := h es m hr 15
    rw [List.filter_eq_self.mpr (List.all_eq_true.mp hall),
      List.filter_eq_self.mpr (List.all_eq_true.mp hall')] at hprefix
    have hmap := hprefix.map PendingInterrupt.handler
    rw [hfired, hsched] at hmap
    exact absurd hmap (by decide)

/-- Both requests are due at the first tick, and fire in their order. -/
theorem ticks_untied_disks : ∃ es m, Run (UntiedStep noCalls) (.init ()) es m ∧
    (Agenda.fired es).map (·.handler) = [true, false] ∧ FiresInOrder es := by
  have hr : Run (UntiedStep noCalls) (.init ()) _ _ := ((Run.start.snoc
    ⟨.schedule ⟨true, 0, 5, .diskInt⟩, rfl, nofun⟩).snoc
    ⟨.schedule ⟨false, 0, 5, .diskInt⟩, rfl, nofun⟩).snoc
    ⟨.setLevel 3 .intOn, rfl, fun _ e rest hp => by cases hp⟩
  exact ⟨_, _, hr, rfl, (ticks_untied noCalls).2 _ _ _ hr⟩

end Nachos.Machine
