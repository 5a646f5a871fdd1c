import Nachos.Machine.Queue

/-!
# The clock as a 32-bit counter

`totalTicks`, `when` and `fromNow` are `int`s, and the steps of the machine stop where a sum does
not fit. Here the sums wrap around, as they do on the machines that the simulation runs on: the
functions are the same, with the addition as a parameter, and they agree with the others as long as
every sum fits. A sum that does not fit turns the clock back, or puts an interrupt in the past.
-/

namespace Nachos.Machine

open Lib

/-! ### The machine with another addition -/

section With

variable {H W : Type} (add : ℤ → ℤ → Except Fault ℤ) (handlers : Handlers H W)

/-- `Interrupt::Schedule`. -/
def scheduleWith (r : Request H) (m : Hardware H W) :
    Except Fault (List (Event H) × Hardware H W) :=
  match add m.totalTicks r.fromNow with
  | .error f => .error f
  | .ok time =>
    let toOccur : PendingInterrupt H :=
      { handler := r.handler, arg := r.arg, time, type := r.type }
    if r.fromNow > 0 then
      .ok ([.scheduled toOccur m.totalTicks],
        { m with pending := sortedInsert toOccur time m.pending })
    else .error .fromNow

/-- A call of a handler. -/
def handlerCallWith (c : HandlerCall H) (m : Hardware H W) :
    Except Fault (List (Event H) × Hardware H W) :=
  match c with
  | .schedule r => scheduleWith add r m
  | .yieldOnReturn =>
    if m.inHandler then .ok ([], { m with yieldOnReturn := true }) else .error .notInHandler

/-- `(*(toOccur->handler))(toOccur->arg)`. -/
def invokeWith (toOccur : PendingInterrupt H) (m : Hardware H W) :
    Except Fault (List (Event H) × Hardware H W) :=
  let (calls, kernel) := handlers toOccur.handler toOccur.arg m
  exec (handlerCallWith add) calls { m with kernel }

/-- `Interrupt::CheckIfDue`, with the value that it returns. -/
def checkIfDueWith (advanceClock : Bool) (m : Hardware H W) :
    Except Fault (Bool × List (Event H) × Hardware H W) :=
  let old := m.status
  if m.level ≠ .intOff then .error .level
  else match sortedRemove m.pending with
  | none => .ok (false, [], m)
  | some (toOccur, time, rest) =>
    if advanceClock = false ∧ time > m.totalTicks then
      -- not time yet, put it back
      .ok (false, [], { m with pending := sortedInsert toOccur time rest })
    else
      let totalTicks := if time > m.totalTicks then time else m.totalTicks
      if m.status = .idleMode ∧ toOccur.type = .timerInt ∧ rest.isEmpty then
        -- the time-slice daemon alone: nothing more to do
        .ok (false, [], { m with totalTicks, pending := sortedInsert toOccur time rest })
      else
        match invokeWith add handlers toOccur
            { m with totalTicks, pending := rest, inHandler := true, status := .systemMode } with
        | .error f => .error f
        | .ok (es, m') =>
          .ok (true, .fired toOccur totalTicks :: es, { m' with status := old, inHandler := false })

/-- `while (CheckIfDue(FALSE));`, for so many rounds at most. -/
def checkAllWith : ℕ → Hardware H W → Except Fault (List (Event H) × Hardware H W)
  | 0, _ => .error .fuel
  | fuel + 1, m =>
    match checkIfDueWith add handlers false m with
    | .error f => .error f
    | .ok (false, es, m') => .ok (es, m')
    | .ok (true, es, m') =>
      match checkAllWith fuel m' with
      | .error f => .error f
      | .ok (es', m'') => .ok (es ++ es', m'')

/-- `Interrupt::OneTick`, up to the `Yield` if there is one. -/
def oneTickWith (fuel : ℕ) (m : Hardware H W) : Except Fault (List (Event H) × Hardware H W) :=
  match add m.totalTicks (if m.status = .systemMode then systemTick else userTick) with
  | .error f => .error f
  | .ok totalTicks =>
    match checkAllWith add handlers fuel { m with totalTicks, level := .intOff } with
    | .error f => .error f
    | .ok (es, m') =>
      if m'.yieldOnReturn then
        .ok (es, { m' with level := .intOn, yieldOnReturn := false, status := .systemMode })
      else .ok (es, { m' with level := .intOn })

/-- `Interrupt::SetLevel`. -/
def setLevelWith (fuel : ℕ) (now : IntStatus) (m : Hardware H W) :
    Except Fault (List (Event H) × Hardware H W) :=
  if now = .intOff ∨ m.inHandler = false then
    if now = .intOn ∧ m.level = .intOff then oneTickWith add handlers fuel { m with level := now }
    else .ok ([], { m with level := now })
  else .error .enabled

/-- `Interrupt::Idle`. -/
def idleWith (fuel : ℕ) (m : Hardware H W) : Except Fault (List (Event H) × Hardware H W) :=
  match checkIfDueWith add handlers true { m with status := .idleMode } with
  | .error f => .error f
  | .ok (false, es, m') => .ok (es, { m' with halted := true })
  | .ok (true, es, m') =>
    match checkAllWith add handlers fuel m' with
    | .error f => .error f
    | .ok (es', m'') =>
      .ok (es ++ es', { m'' with yieldOnReturn := false, status := .systemMode })

/-- One step, as long as `Halt` has not been called. -/
def stepWith (c : Choice H W) (m : Hardware H W) : Except Fault (List (Event H) × Hardware H W) :=
  if m.halted then .error .halted
  else match c with
  | .schedule r => scheduleWith add r m
  | .setLevel fuel now => setLevelWith add handlers fuel now m
  | .oneTick fuel => oneTickWith add handlers fuel m
  | .idle fuel => idleWith add handlers fuel m
  | .setStatus user => .ok ([], { m with status := if user then .userMode else .systemMode })
  | .kernel k => .ok ([], { m with kernel := k })

end With

/-! ### Sums that wrap around -/

/-- The value is an `int`. -/
def IsInt (x : ℤ) : Prop := -2147483648 ≤ x ∧ x ≤ 2147483647

/-- `a + b`, as an `int` that wraps around. -/
def wrapInt (a b : ℤ) : Except Fault ℤ := .ok ((a + b).bmod (2 ^ 32))

lemma isInt_zero : IsInt 0 := ⟨by decide, by decide⟩

lemma isInt_bmod (x : ℤ) : IsInt (x.bmod (2 ^ 32)) := by
  have hle : -(((2 ^ 32 : ℕ) : ℤ) / 2) ≤ x.bmod (2 ^ 32) := Int.le_bmod (by decide)
  have hlt : x.bmod (2 ^ 32) < (((2 ^ 32 : ℕ) : ℤ) + 1) / 2 := Int.bmod_lt (by decide)
  exact ⟨by omega, by omega⟩

lemma bmod_of_isInt {x : ℤ} (h : IsInt x) : x.bmod (2 ^ 32) = x := by
  obtain ⟨hle, hlt⟩ := h
  rw [Int.bmod_eq_of_le] <;> omega

/-- A sum that is too large turns back. -/
lemma bmod_add_lt {a b : ℤ} (ha : IsInt a) (hb : IsInt b) (hlarge : 2147483647 < a + b) :
    (a + b).bmod (2 ^ 32) < a := by
  have hback : IsInt (a + b - ((2 ^ 32 : ℕ) : ℤ)) := by
    obtain ⟨ha, ha'⟩ := ha
    obtain ⟨hb, hb'⟩ := hb
    exact ⟨by omega, by omega⟩
  rw [← Int.sub_bmod_right, bmod_of_isInt hback]
  obtain ⟨-, hb⟩ := hb
  omega

variable {H W : Type} {handlers : Handlers H W} {m m' : Hardware H W} {es es₁ es₂ : List (Event H)}

/-- The machine whose sums wrap around. -/
def stepInt (handlers : Handlers H W) (c : Choice H W) (m : Hardware H W) :
    Except Fault (List (Event H) × Hardware H W) :=
  stepWith wrapInt handlers c m

/-- The handlers call `Schedule` with `int`s. -/
def IntHandlers (handlers : Handlers H W) : Prop :=
  ∀ h arg m r, .schedule r ∈ (handlers h arg m).1 → IsInt r.fromNow

/-- `Schedule` is called with an `int`. -/
def Choice.Ints (c : Choice H W) : Prop := ∀ r, c = .schedule r → IsInt r.fromNow

/-- A step of the machine whose sums wrap around. -/
def IntStep (handlers : Handlers H W) (m : Hardware H W) (es : List (Event H))
    (m' : Hardware H W) : Prop :=
  ∃ c : Choice H W, c.Ints ∧ stepInt handlers c m = .ok (es, m')

/-- What is scheduled is scheduled for later. -/
def Later (es : List (Event H)) : Prop := ∀ p now, .scheduled p now ∈ es → now < p.time

/-- **Time does not run backwards** in a step. -/
def Forward (m : Hardware H W) (es : List (Event H)) (m' : Hardware H W) : Prop :=
  m.totalTicks ≤ m'.totalTicks ∧ Later es

/-- The clock and the keys of the list are `int`s. -/
structure Hardware.InInt (m : Hardware H W) : Prop where
  totalTicks : IsInt m.totalTicks
  pending : ∀ e ∈ m.pending, IsInt e.key

lemma later_nil : Later ([] : List (Event H)) := nofun

lemma later_append : Later (es₁ ++ es₂) ↔ Later es₁ ∧ Later es₂ := by
  refine ⟨fun h => ⟨fun p now hp => ?_, fun p now hp => ?_⟩, fun h p now hp => ?_⟩
  · exact h p now (List.mem_append_left _ hp)
  · exact h p now (List.mem_append_right _ hp)
  · exact (List.mem_append.mp hp).elim (h.1 p now) (h.2 p now)

/-- The other machine does the same and all is well, or a sum does not fit and it shows. -/
def Agrees {α : Type} (good : Prop) (x : α) (y : Except Fault α) : Prop :=
  y = .ok x ∧ good ∨ y = .error .overflow ∧ ¬ good

/-- What a call of a handler does. -/
structure Called (m : Hardware H W) (es : List (Event H)) (m' : Hardware H W)
    (y : Except Fault (List (Event H) × Hardware H W)) : Prop where
  ints : m'.InInt
  clock : m'.totalTicks = m.totalTicks
  agrees : Agrees (Later es) (es, m') y

lemma called_of_schedule {r : Request H} (hm : m.InInt) (hr : IsInt r.fromNow)
    (h : scheduleWith wrapInt r m = .ok (es, m')) : Called m es m' (schedule r m) := by
  unfold scheduleWith wrapInt at h
  dsimp only at h
  split at h
  next hpos =>
    cases h
    refine ⟨⟨hm.totalTicks, fun e he => ?_⟩, rfl, ?_⟩
    · rcases mem_sortedInsert.mp he with rfl | he
      · exact isInt_bmod _
      · exact hm.pending e he
    · unfold schedule addInt
      have hle := hm.totalTicks.1
      by_cases hfits : IsInt (m.totalTicks + r.fromNow)
      · refine .inl ⟨?_, fun p now hp => ?_⟩
        · rw [if_pos (show _ ∧ _ from hfits), bmod_of_isInt hfits]
          exact if_pos hpos
        · cases List.mem_singleton.mp hp
          show m.totalTicks < (m.totalTicks + r.fromNow).bmod (2 ^ 32)
          rw [bmod_of_isInt hfits]
          omega
      · refine .inr ⟨?_, fun hlater => ?_⟩
        · rw [if_neg (show ¬ (_ ∧ _) from hfits)]
        · have hlt := hlater _ _ (.head _)
          have hback := bmod_add_lt hm.totalTicks hr (by
            unfold IsInt at hfits
            omega)
          exact lt_asymm hlt hback
  next => cases h

/-- Two things one after the other. -/
lemma Agrees.append {α β γ : Type} {x : α} {x' : β} {x'' : γ} {y : Except Fault α}
    {y' : Except Fault β} {z : Except Fault γ} (h : Agrees (Later es₁) x y)
    (h' : Agrees (Later es₂) x' y') (both : y = .ok x → y' = .ok x' → z = .ok x'')
    (first : y = .error .overflow → z = .error .overflow)
    (second : y = .ok x → y' = .error .overflow → z = .error .overflow) :
    Agrees (Later (es₁ ++ es₂)) x'' z := by
  unfold Agrees
  rw [later_append]
  obtain ⟨hy, hl⟩ | ⟨hy, hl⟩ := h
  · obtain ⟨hy', hl'⟩ | ⟨hy', hl'⟩ := h'
    · exact .inl ⟨both hy hy', hl, hl'⟩
    · exact .inr ⟨second hy hy', fun h => hl' h.2⟩
  · exact .inr ⟨first hy, fun h => hl h.1⟩

lemma called_of_handlerCall {c : HandlerCall H} (hm : m.InInt)
    (hc : ∀ r, c = .schedule r → IsInt r.fromNow)
    (h : handlerCallWith wrapInt c m = .ok (es, m')) : Called m es m' (handlerCall c m) := by
  cases c with
  | schedule r => exact called_of_schedule hm (hc r rfl) h
  | yieldOnReturn =>
    simp only [handlerCallWith] at h
    split at h
    next hin =>
      cases h
      exact ⟨⟨hm.totalTicks, hm.pending⟩, rfl, .inl ⟨if_pos hin, later_nil⟩⟩
    next => cases h

/-- The calls of a handler. -/
lemma called_of_exec {calls : List (HandlerCall H)} (hm : m.InInt)
    (hcalls : ∀ r, .schedule r ∈ calls → IsInt r.fromNow)
    (h : exec (handlerCallWith wrapInt) calls m = .ok (es, m')) :
    Called m es m' (exec handlerCall calls m) := by
  induction calls generalizing m es with
  | nil =>
    cases h
    exact ⟨hm, rfl, .inl ⟨rfl, later_nil⟩⟩
  | cons c calls ih =>
    rw [exec] at h
    split at h
    next => cases h
    next es₁ m₁ hc =>
      split at h
      next => cases h
      next es₂ m₂ hrest =>
        cases h
        have h₁ := called_of_handlerCall hm (fun r hr => hcalls r (hr ▸ .head _)) hc
        have h₂ := ih h₁.ints (fun r hr => hcalls r (.tail _ hr)) hrest
        refine ⟨h₂.ints, h₂.clock.trans h₁.clock, h₁.agrees.append h₂.agrees ?_ ?_ ?_⟩
        · intro hy hy'
          simp only [exec, hy, hy']
        · intro hy
          simp only [exec, hy]
        · intro hy hy'
          simp only [exec, hy, hy']

lemma called_of_invoke {p : PendingInterrupt H} (hm : m.InInt) (ints : IntHandlers handlers)
    (h : invokeWith wrapInt handlers p m = .ok (es, m')) : Called m es m' (invoke handlers p m) := by
  have hstart : ({ m with kernel := (handlers p.handler p.arg m).2 } : Hardware H W).InInt :=
    ⟨hm.totalTicks, hm.pending⟩
  have hc := called_of_exec hstart (ints p.handler p.arg m) h
  exact ⟨hc.ints, hc.clock, hc.agrees⟩

variable {adv b : Bool}

/-- What a check does: the clock goes forward, and without `advanceClock` it stands still. -/
lemma checked_of_checkIfDueWith (hm : m.InInt) (ints : IntHandlers handlers)
    (h : checkIfDueWith wrapInt handlers adv m = .ok (b, es, m')) :
    m'.InInt ∧ m.totalTicks ≤ m'.totalTicks ∧ (adv = false → m'.totalTicks = m.totalTicks) ∧
      Agrees (Later es) (b, es, m') (checkIfDue handlers adv m) := by
  unfold checkIfDueWith at h
  dsimp only at h
  split at h
  next => cases h
  next hlevel =>
    unfold checkIfDue
    dsimp only
    rw [if_neg hlevel]
    cases hp : m.pending with
    | nil =>
      rw [hp] at h
      cases h
      exact ⟨hm, le_rfl, fun _ => rfl, .inl ⟨rfl, later_nil⟩⟩
    | cons e rest =>
      have hpend := hm.pending
      rw [hp, List.forall_mem_cons] at hpend
      have hput : ∀ e' ∈ sortedInsert e.item e.key rest, IsInt e'.key := fun e' he' =>
        (mem_sortedInsert.mp he').elim (fun heq => heq ▸ hpend.1) (hpend.2 e')
      rw [hp] at h
      simp only [sortedRemove] at h ⊢
      split at h
      next hearly =>
        cases h
        exact ⟨⟨hm.totalTicks, hput⟩, le_rfl, fun _ => rfl, .inl ⟨if_pos hearly, later_nil⟩⟩
      next hdue =>
        rw [if_neg hdue]
        have hclock : IsInt (if e.key > m.totalTicks then e.key else m.totalTicks) ∧
            m.totalTicks ≤ (if e.key > m.totalTicks then e.key else m.totalTicks) ∧
            (adv = false → (if e.key > m.totalTicks then e.key else m.totalTicks) =
              m.totalTicks) := by
          split
          next hlater => exact ⟨hpend.1, le_of_lt hlater, fun hadv => absurd ⟨hadv, hlater⟩ hdue⟩
          next => exact ⟨hm.totalTicks, le_rfl, fun _ => rfl⟩
        obtain ⟨hint, hle, hstay⟩ := hclock
        split at h
        next halone =>
          cases h
          exact ⟨⟨hint, hput⟩, hle, hstay, .inl ⟨if_pos halone, later_nil⟩⟩
        next halone =>
          rw [if_neg halone]
          split at h
          next => cases h
          next es₁ m₁ hi =>
            cases h
            have hc := called_of_invoke ⟨hint, hpend.2⟩ ints hi
            have htime : m₁.totalTicks = if e.key > m.totalTicks then e.key else m.totalTicks :=
              hc.clock
            refine ⟨⟨hc.ints.totalTicks, hc.ints.pending⟩, ?_, fun hadv => ?_, ?_⟩
            · show _ ≤ m₁.totalTicks
              rw [htime]
              exact hle
            · show m₁.totalTicks = _
              rw [htime]
              exact hstay hadv
            · obtain ⟨hy, hl⟩ | ⟨hy, hl⟩ := hc.agrees
              · refine .inl ⟨by rw [hy], fun p now hp => ?_⟩
                exact hl p now ((List.mem_cons.mp hp).resolve_left fun he => by cases he)
              · exact .inr ⟨by rw [hy], fun hlater => hl fun p now hp => hlater p now (.tail _ hp)⟩

/-- The loop of checks. -/
lemma called_of_checkAll {fuel : ℕ} (hm : m.InInt) (ints : IntHandlers handlers)
    (h : checkAllWith wrapInt handlers fuel m = .ok (es, m')) :
    Called m es m' (checkAll handlers fuel m) := by
  induction fuel generalizing m es with
  | zero => cases h
  | succ fuel ih =>
    rw [checkAllWith] at h
    split at h
    next => cases h
    next hc =>
      cases h
      obtain ⟨hints, -, hstay, hagrees⟩ := checked_of_checkIfDueWith hm ints hc
      refine ⟨hints, hstay rfl, ?_⟩
      obtain ⟨hy, hl⟩ | ⟨hy, hl⟩ := hagrees
      · exact .inl ⟨by simp only [checkAll, hy], hl⟩
      · exact .inr ⟨by simp only [checkAll, hy], hl⟩
    next es₁ m₁ hc =>
      obtain ⟨hints, -, hstay, hagrees⟩ := checked_of_checkIfDueWith hm ints hc
      split at h
      next => cases h
      next es₂ m₂ hrest =>
        cases h
        have h₂ := ih hints hrest
        refine ⟨h₂.ints, h₂.clock.trans (hstay rfl), hagrees.append h₂.agrees ?_ ?_ ?_⟩
        · intro hy hy'
          simp only [checkAll, hy, hy']
        · intro hy
          simp only [checkAll, hy]
        · intro hy hy'
          simp only [checkAll, hy, hy']

/-- What a step does. -/
structure Moved (m : Hardware H W) (es : List (Event H)) (m' : Hardware H W)
    (y : Except Fault (List (Event H) × Hardware H W)) : Prop where
  ints : m'.InInt
  agrees : Agrees (Forward m es m') (es, m') y

lemma Called.moved {y : Except Fault (List (Event H) × Hardware H W)} (h : Called m es m' y) :
    Moved m es m' y := by
  refine ⟨h.ints, ?_⟩
  have hforward : Forward m es m' ↔ Later es := and_iff_right h.clock.ge
  unfold Agrees
  rw [hforward]
  exact h.agrees

lemma isInt_tick : IsInt m.tick := by
  unfold Hardware.tick
  split <;> exact ⟨by decide, by decide⟩

lemma moved_of_oneTick {fuel : ℕ} (hm : m.InInt) (ints : IntHandlers handlers)
    (h : oneTickWith wrapInt handlers fuel m = .ok (es, m')) :
    Moved m es m' (oneTick handlers fuel m) := by
  unfold oneTickWith at h
  have hsum : wrapInt m.totalTicks (if m.status = .systemMode then systemTick else userTick) =
      .ok ((m.totalTicks + m.tick).bmod (2 ^ 32)) := rfl
  rw [hsum] at h
  dsimp only at h
  split at h
  next => cases h
  next es₁ m₁ hc =>
    have hcalled := called_of_checkAll (m := { m with
      totalTicks := (m.totalTicks + m.tick).bmod (2 ^ 32), level := .intOff })
      ⟨isInt_bmod _, hm.pending⟩ ints hc
    have htime : m₁.totalTicks = (m.totalTicks + m.tick).bmod (2 ^ 32) := hcalled.clock
    -- what is left of the step changes neither the clock nor the list
    have hend : es = es₁ ∧ m'.totalTicks = m₁.totalTicks ∧ m'.pending = m₁.pending := by
      split at h <;> cases h <;> exact ⟨rfl, rfl, rfl⟩
    obtain ⟨rfl, hclock, hpending⟩ := hend
    refine ⟨⟨hclock ▸ hcalled.ints.totalTicks, hpending ▸ hcalled.ints.pending⟩, ?_⟩
    by_cases hfits : IsInt (m.totalTicks + m.tick)
    · have hadd : addInt m.totalTicks (if m.status = .systemMode then systemTick else userTick) =
          .ok ((m.totalTicks + m.tick).bmod (2 ^ 32)) := by
        rw [bmod_of_isInt hfits]
        exact if_pos hfits
      have hforward : Forward m es m' ↔ Later es := by
        refine and_iff_right ?_
        rw [hclock, htime, bmod_of_isInt hfits]
        have hpos := m.tick_nonneg
        omega
      unfold Agrees
      rw [hforward]
      obtain ⟨hy, hl⟩ | ⟨hy, hl⟩ := hcalled.agrees
      · refine .inl ⟨?_, hl⟩
        simp only [oneTick, hadd, hy]
        exact h
      · exact .inr ⟨by simp only [oneTick, hadd, hy], hl⟩
    · have hlarge : 2147483647 < m.totalTicks + m.tick := by
        have hle := hm.totalTicks.1
        have hpos := m.tick_nonneg
        unfold IsInt at hfits
        omega
      refine .inr ⟨?_, fun hforward => ?_⟩
      · have hadd : addInt m.totalTicks (if m.status = .systemMode then systemTick else userTick) =
            .error .overflow := if_neg hfits
        simp only [oneTick, hadd]
      · have hback := bmod_add_lt hm.totalTicks isInt_tick hlarge
        have hle := hforward.1
        rw [hclock, htime] at hle
        exact absurd hle (not_le_of_gt hback)

lemma moved_of_idle {fuel : ℕ} (hm : m.InInt) (ints : IntHandlers handlers)
    (h : idleWith wrapInt handlers fuel m = .ok (es, m')) : Moved m es m' (idle handlers fuel m) := by
  unfold idleWith at h
  have hm₀ : ({ m with status := .idleMode } : Hardware H W).InInt := ⟨hm.totalTicks, hm.pending⟩
  split at h
  next => cases h
  next es₁ m₁ hc =>
    cases h
    obtain ⟨hints, hle, -, hagrees⟩ := checked_of_checkIfDueWith hm₀ ints hc
    refine ⟨⟨hints.totalTicks, hints.pending⟩, ?_⟩
    have hforward : Forward m es { m₁ with halted := true } ↔ Later es := and_iff_right hle
    unfold Agrees
    rw [hforward]
    obtain ⟨hy, hl⟩ | ⟨hy, hl⟩ := hagrees
    · exact .inl ⟨by simp only [idle, hy], hl⟩
    · exact .inr ⟨by simp only [idle, hy], hl⟩
  next es₁ m₁ hc =>
    obtain ⟨hints, hle, -, hagrees⟩ := checked_of_checkIfDueWith hm₀ ints hc
    split at h
    next => cases h
    next es₂ m₂ ha =>
      cases h
      have hcalled := called_of_checkAll hints ints ha
      refine ⟨⟨hcalled.ints.totalTicks, hcalled.ints.pending⟩, ?_⟩
      have hforward : Forward m (es₁ ++ es₂)
          { m₂ with yieldOnReturn := false, status := .systemMode } ↔ Later (es₁ ++ es₂) := by
        refine and_iff_right ?_
        show m.totalTicks ≤ m₂.totalTicks
        rw [hcalled.clock]
        exact hle
      unfold Agrees
      rw [hforward]
      refine hagrees.append hcalled.agrees ?_ ?_ ?_
      · intro hy hy'
        simp only [idle, hy, hy']
      · intro hy
        simp only [idle, hy]
      · intro hy hy'
        simp only [idle, hy, hy']

lemma moved_of_quiet (pending : m'.pending = m.pending) (totalTicks : m'.totalTicks = m.totalTicks)
    (hm : m.InInt) : Moved m [] m' (.ok ([], m')) :=
  ⟨⟨totalTicks ▸ hm.totalTicks, pending ▸ hm.pending⟩, .inl ⟨rfl, totalTicks.ge, later_nil⟩⟩

/-- **Every step** does what the machine does that stops where a sum does not fit; and where that
one stops for this reason, time runs backwards. -/
lemma moved_of_stepInt {c : Choice H W} (hm : m.InInt) (ints : IntHandlers handlers) (hc : c.Ints)
    (h : stepInt handlers c m = .ok (es, m')) : Moved m es m' (step handlers c m) := by
  unfold stepInt stepWith at h
  split at h
  next => cases h
  next running =>
    unfold step
    rw [if_neg running]
    cases c with
    | schedule r => exact (called_of_schedule hm (hc r rfl) h).moved
    | setLevel fuel now =>
      simp only [setLevelWith] at h
      simp only [setLevel]
      split at h
      next hallowed =>
        rw [if_pos hallowed]
        split at h
        next hon =>
          rw [if_pos hon]
          have hm' : ({ m with level := now } : Hardware H W).InInt := ⟨hm.totalTicks, hm.pending⟩
          have ht := moved_of_oneTick hm' ints h
          exact ⟨ht.ints, ht.agrees⟩
        next hoff =>
          cases h
          rw [if_neg hoff]
          exact moved_of_quiet rfl rfl hm
      next => cases h
    | oneTick fuel => exact moved_of_oneTick hm ints h
    | idle fuel => exact moved_of_idle hm ints h
    | setStatus user =>
      cases h
      exact moved_of_quiet rfl rfl hm
    | kernel k =>
      cases h
      exact moved_of_quiet rfl rfl hm

/-! ### Runs -/

lemma inInt_of_run {kernel : W} (ints : IntHandlers handlers)
    (hr : Run (IntStep handlers) (.init kernel) es m) : m.InInt := by
  refine hr.invariant_state (I := Hardware.InInt) ?_ fun hm ⟨c, hc, hs⟩ => ?_
  · exact ⟨isInt_zero, fun e he => by cases he⟩
  · exact (moved_of_stepInt hm ints hc hs).ints

/-- **When time runs forward**: in every run, a step turns the clock back or schedules an interrupt
for a time that has passed exactly when a sum of the clock and a tick, or of the clock and
`fromNow`, does not fit in an `int`. -/
theorem forward_iff {kernel : W} (ints : IntHandlers handlers)
    (hr : Run (IntStep handlers) (.init kernel) es m) {c : Choice H W} (hc : c.Ints)
    {es' : List (Event H)} (hs : stepInt handlers c m = .ok (es', m')) :
    Forward m es' m' ↔ step handlers c m ≠ .error .overflow := by
  obtain ⟨hy, hforward⟩ | ⟨hy, hback⟩ := (moved_of_stepInt (inInt_of_run ints hr) ints hc hs).agrees
  · refine iff_of_true hforward ?_
    rw [hy]
    exact nofun
  · exact iff_of_false hback fun h => h hy

/-! ### A long run -/

/-- Handlers that do nothing. -/
def noHandlers : Handlers Unit Unit := fun _ _ _ => ([], ())

/-- The machine at a time, with nothing pending. -/
def clockAt (time : ℤ) (level : IntStatus) : Hardware Unit Unit :=
  { Hardware.init () with totalTicks := time, level }

/-- Interrupts are enabled: a tick. -/
lemma enable_step (time : ℤ) :
    IntStep noHandlers (clockAt time .intOff) [] (clockAt ((time + 10).bmod (2 ^ 32)) .intOn) :=
  ⟨.setLevel 1 .intOn, nofun, rfl⟩

/-- Interrupts are disabled. -/
lemma disable_step (time : ℤ) :
    IntStep noHandlers (clockAt time .intOn) [] (clockAt time .intOff) :=
  ⟨.setLevel 1 .intOff, nofun, rfl⟩

/-- Interrupts have been enabled and disabled `n` times. -/
lemma ticks_run (n : ℕ) (hn : n ≤ 214748364) :
    ∃ es, Run (IntStep noHandlers) (clockAt 0 .intOff) es (clockAt (10 * n) .intOff) := by
  induction n with
  | zero => exact ⟨[], .start⟩
  | succ n ih =>
    obtain ⟨es, hr⟩ := ih (by omega)
    have htick := enable_step (10 * n)
    rw [bmod_of_isInt ⟨by omega, by omega⟩,
      show (10 * (n : ℤ) + 10) = 10 * ((n + 1 : ℕ) : ℤ) by omega] at htick
    exact ⟨_, (hr.snoc htick).snoc (disable_step _)⟩

/-- One tick more, and the clock has turned back. -/
theorem not_forward : ¬ ∀ (es : List (Event Unit)) (m : Hardware Unit Unit),
    Run (IntStep noHandlers) (.init ()) es m →
      ∀ es' m', IntStep noHandlers m es' m' → Forward m es' m' := by
  intro h
  obtain ⟨es, hr⟩ := ticks_run 214748364 le_rfl
  have hforward := (h es _ hr _ _ (enable_step _)).1
  exact absurd hforward (by decide)

/-- The first tick. -/
theorem forward_iff_tick : Forward (clockAt 0 .intOff) [] (clockAt 10 .intOn) ↔
    step noHandlers (.setLevel 1 .intOn) (clockAt 0 .intOff) ≠ .error .overflow :=
  forward_iff (fun _ _ _ _ hr => by cases hr) .start (c := .setLevel 1 .intOn)
    (fun _ hr => by cases hr) rfl

end Nachos.Machine
