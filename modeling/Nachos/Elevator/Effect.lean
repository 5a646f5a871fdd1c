import Nachos.Elevator.Act

/-!
# What a step of the machine does to the elevator program

A step runs the code at a label, or it moves a thread inside a routine; of the latter, those count
that take a person off the queue of a condition.
-/

namespace Nachos.Elevator

open Threads

variable {cfg : Config} {s s' : State Label Shared} {es tr : List (Event Label)}

/-- **What a step can do.** -/
inductive Effect (cfg : Config) (s s' : State Label Shared) : Prop
  /-- The code at the label of the running thread runs. -/
  | code {new r c call} (mode : s.mode = .running) (loc : s.loc s.currentThread = .run (.client c) r)
      (act : Act cfg s.shared r c s'.shared call) (place : After s call (s'.loc s.currentThread))
      (waiting : ∀ t, Waiting s' t ↔ if t = s.currentThread then call.isWait = true else Waiting s t)
      (other : ∀ t, t ≠ s.currentThread → s'.loc t = s.loc t ∨ (t = new ∧
        ∃ first c', call = .fork first c' ∧ s.loc t = .unborn ∧ s'.loc t = .fresh first))
  /-- The kernel goes on. -/
  | kernel (shared : s'.shared = s.shared) (label : ∀ t, (s'.loc t).label = (s.loc t).label)
      (waiting : ∀ t, Waiting s' t ↔ Waiting s t) (took : ∀ t, (s'.loc t).took = (s.loc t).took)
  /-- `Signal` takes a person off a queue. -/
  | signal {x floor o dst} (shared : s'.shared = s.shared)
      (label : ∀ t, (s'.loc t).label = (s.loc t).label)
      (caller : (s.loc s.currentThread).label = some (.signalled floor o dst))
      (room : o < maxOccupancy) (person : stage s x = .entering floor) (was : Waiting s x)
      (waiting : ∀ t, Waiting s' t ↔ Waiting s t ∧ t ≠ x)
      (before : (s.loc s.currentThread).took = none)
      (after : (s'.loc s.currentThread).took = some x)
      (took : ∀ t, t ≠ s.currentThread → (s'.loc t).took = (s.loc t).took)
  /-- `Broadcast` does. -/
  | broadcast {x floor frm} (shared : s'.shared = s.shared)
      (label : ∀ t, (s'.loc t).label = (s.loc t).label)
      (caller : (s.loc s.currentThread).label = some (.alighted floor frm))
      (person : stage s x = .riding floor) (was : Waiting s x)
      (waiting : ∀ t, Waiting s' t ↔ Waiting s t ∧ t ≠ x)
      (took : ∀ t, (s'.loc t).took = (s.loc t).took)

/-- Who is on the queue of a condition is a person in its stage. -/
lemma stage_of_queue (hp : Placed s) (hf : ∀ t, (s.loc t).From (client cfg).Makes) {cond : ℕ}
    {x : Tid} (hx : x ∈ s.queue (.cond cond)) : (stage s x).cond = some cond := by
  have hs := hp.queued _ x hx
  have hfrom := hf x
  unfold stage
  cases hl : s.loc x <;> rw [hl] at hs hfrom <;> cases hs
  obtain ⟨sh, r, c, sh', hact⟩ := makes_act hfrom
  exact hact.wait_stage

/-- What the running thread takes off a queue, and what it was called for. -/
lemma caller_of_taken (hf : ∀ t, (s.loc t).From (client cfg).Makes) {cond : ℕ} {x : Tid}
    (h : Taken s cond x) :
    (∃ floor o dst r, s.loc s.currentThread =
        .run (.signalDequeue cond (.signalled floor o dst)) r ∧
        cond = entering floor ∧ o < maxOccupancy) ∨
      ∃ floor frm i r, s.loc s.currentThread = .run (.bcastDequeue cond i (.alighted floor frm)) r ∧
        cond = leaving floor := by
  obtain ⟨-, hop, -⟩ := h
  have hfrom := hf s.currentThread
  cases hl : s.loc s.currentThread with
  | run k r =>
    rw [hl] at hop hfrom
    cases k with
    | signalDequeue cond' c =>
      simp only [Loc.condOp] at hop
      split at hop
      next hc =>
        subst hc
        obtain ⟨l, hm⟩ := hfrom
        obtain ⟨sh, r', c', sh', hact⟩ := makes_act hm
        obtain ⟨floor, o, dst, rfl, hfl, room⟩ := hact.signal_label
        exact .inl ⟨floor, o, dst, r, rfl, hfl, room⟩
      next => cases hop
    | bcastDequeue cond' i c =>
      simp only [Loc.condOp] at hop
      split at hop
      next hc =>
        subst hc
        obtain ⟨l, hm⟩ := hfrom
        obtain ⟨sh, r', c', sh', hact⟩ := makes_act hm
        obtain ⟨floor, frm, rfl, hfl⟩ := hact.broadcast_label
        exact .inr ⟨floor, frm, i, r, rfl, hfl⟩
      next => cases hop
    | waitSleep cond' =>
      simp only [Loc.condOp] at hop
      split at hop <;> cases hop
    | _ => cases hop
  | _ =>
    rw [hl] at hop
    cases hop

lemma effect_of_code (hp : Placed s) {input : Input} {new : Tid} {c : Label} {r : Ret}
    {call : Call Label} (hc : ClientStep (client cfg) s s' input new c r call) : Effect cfg s s' := by
  refine .code hc.mode hc.loc (code_act hc.code) hc.place (fun t => ?_) hc.other
  have hnot : ∀ cond, s.currentThread ∉ s.queue (.cond cond) := fun cond =>
    (hp.running hc.mode).2.2.queue _
  by_cases ht : t = s.currentThread
  · subst ht
    simp [Waiting, hc.queue, hnot, hc.place.joining]
  · have hj : (s'.loc t).joining = (s.loc t).joining := by
      rcases hc.other t ht with he | ⟨-, first, c', -, hu, he⟩
      · rw [he]
      · rw [he, hu]
        rfl
    simp [Waiting, hc.queue, hj, ht]

/-- **Every step is one of these.** -/
theorem effect (hp : Placed s) (hf : ∀ t, (s.loc t).From (client cfg).Makes)
    (hs : Step (client cfg) s es s') : Effect cfg s s' := by
  rcases hs.client_or_kernel with ⟨input, new, c, r, call, hc⟩ | hk
  · exact effect_of_code hp hc
  have hshared : s'.shared = s.shared := by
    rcases hs.shared hk with h | ⟨h, -⟩
    · exact h
    · exact h.elim
  have hother : ∀ t, (s.mode = .running → t ≠ s.currentThread) →
      (s'.loc t).took = (s.loc t).took := fun t ht => (hs.moved hp ht).took
  have hlabel : ∀ t, (s'.loc t).label = (s.loc t).label := by
    intro t
    by_cases ht : s.mode = .running ∧ t = s.currentThread
    · obtain ⟨hm, rfl⟩ := ht
      exact (hs.goes hp hm).label hk
    · exact hs.label_other hp hk fun hm he => ht ⟨hm, he⟩
  have hwait := hs.waiting hp hk
  by_cases htaken : ∃ cond x, Taken s cond x
  · obtain ⟨cond, x, hx⟩ := htaken
    have hmem := List.mem_of_head? hx.2.2
    have hstage := stage_of_queue hp hf hmem
    have hwait' : ∀ t, Waiting s' t ↔ Waiting s t ∧ t ≠ x := by
      intro t
      rw [hwait]
      refine and_congr_right fun _ => ⟨?_, fun hne cond' h' => hne ?_⟩
      · rintro h rfl
        exact h cond hx
      · obtain rfl := Loc.condOp_unique hx.2.1 h'.2.1
        exact Option.some.inj (h'.2.2.symm.trans hx.2.2)
    have hgoes := hs.goes hp hx.1
    rcases caller_of_taken hf hx with ⟨floor, o, dst, r, hl, rfl, room⟩ | ⟨floor, frm, i, r, hl, rfl⟩
    · have hcaller : (s.loc s.currentThread).label = some (.signalled floor o dst) := by
        rw [hl]
        rfl
      refine .signal hshared hlabel hcaller room (Stage.eq_entering hstage) (.inr ⟨_, hmem⟩) hwait'
        (by rw [hl]; rfl) ?_ fun t ht => hother t fun _ => ht
      rw [hl] at hgoes
      generalize s'.loc s.currentThread = l' at hgoes
      cases hgoes with
      | signalDequeue => exact (dequeue_fst _).trans hx.2.2
    · have hcaller : (s.loc s.currentThread).label = some (.alighted floor frm) := by
        rw [hl]
        rfl
      refine .broadcast hshared hlabel hcaller (Stage.eq_riding hstage) (.inr ⟨_, hmem⟩) hwait'
        fun t => ?_
      by_cases ht : t = s.currentThread
      · subst ht
        rw [hl] at hgoes ⊢
        generalize s'.loc s.currentThread = l' at hgoes
        cases hgoes with
        | bcastDequeue => rfl
      · exact hother t fun _ => ht
  · refine .kernel hshared hlabel (fun t => ?_) fun t => ?_
    · rw [hwait]
      exact and_iff_left fun cond h => htaken ⟨cond, t, h⟩
    · by_cases ht : s.mode = .running ∧ t = s.currentThread
      · obtain ⟨hm, rfl⟩ := ht
        rcases (hs.goes hp hm).took hk with he | ⟨cond, c, r, hl, he⟩
        · exact he
        · -- nobody was on the queue
          have hnone : (s.queue (.cond cond)).head? = none := by
            refine Option.eq_none_iff_forall_ne_some.2 fun x hx => htaken ⟨cond, x, hm, ?_, hx⟩
            rw [hl]
            exact if_pos rfl
          rw [he, hnone, hl]
          rfl
      · exact hother t fun hm he => ht ⟨hm, he⟩

/-! ### Labels after the code -/

/-- The label of a thread after the code of the running thread. -/
inductive LabelAfter (s s' : State Label Shared) (new : Tid) (call : Call Label) (t : Tid) : Prop
  | self (current : t = s.currentThread) (label : (s'.loc t).label = call.label)
  | other (other : t ≠ s.currentThread) (loc : s'.loc t = s.loc t)
  | forked {first c'} (other : t ≠ s.currentThread) (new : t = new) (call : call = .fork first c')
      (unborn : s.loc t = .unborn) (fresh : s'.loc t = .fresh first)

lemma label_after {new : Tid} {call : Call Label} (place : After s call (s'.loc s.currentThread))
    (other : ∀ t, t ≠ s.currentThread → s'.loc t = s.loc t ∨ (t = new ∧
      ∃ first c', call = .fork first c' ∧ s.loc t = .unborn ∧ s'.loc t = .fresh first)) (t : Tid) :
    LabelAfter s s' new call t := by
  by_cases ht : t = s.currentThread
  · subst ht
    exact .self rfl place.label
  · rcases other t ht with he | ⟨hn, first, c', hcall, hu, he⟩
    · exact .other ht he
    · exact .forked ht hn hcall hu he

/-! ### The elevator is made once -/

/-- The labels that a thread can be at before there is an `ELEVATOR`. -/
def Label.early : Label → Bool
  | .main | .arrivals | .arriving .. | .numbering .. | .numbered .. | .forked ..
  | .elevatorThread | .personThread .. | .hail .. | .hailed .. => true
  | _ => false

/-- One thread makes the `ELEVATOR`, and before that nobody uses it. -/
structure Created (s : State Label Shared) : Prop where
  early : s.shared.e = none → ∀ t c, (s.loc t).label = some c → c.early = true
  maker : ∀ t, (s.loc t).label = some .elevatorThread →
    s.shared.e = none ∧ ∀ u, (s.loc u).label = some .elevatorThread → u = t
  main : ∀ t, (s.loc t).label = some .main → s.shared.e = none ∧
    (∀ u, (s.loc u).label ≠ some .elevatorThread) ∧ ∀ u, (s.loc u).label = some .main → u = t

section Acts

variable {sh sh' : Shared} {r : Ret} {c : Label} {call : Call Label}

lemma view_eq_none_iff : sh.view = none ↔ sh.e = none := by
  simp [Shared.view]

lemma Act.e_eq_none_iff (h : Act cfg sh r c sh' call) (hc : c ≠ .elevatorThread) :
    sh'.e = none ↔ sh.e = none := by
  cases h with
  | quiet _ view => rw [← view_eq_none_iff, view, view_eq_none_iff]
  | hailed exists_e view => rw [← view_eq_none_iff, view, view_eq_none_iff]
  | create => exact absurd rfl hc
  | choose he view | seated he view | gotOff he view =>
    rw [← view_eq_none_iff, view, he]
    simp
  | _ => rfl

lemma Act.not_first (h : Act cfg sh r c sh' call) :
    call.label ≠ some .elevatorThread ∧ call.label ≠ some .main := by
  cases h with
  | quiet h => cases h <;> simp [Call.label]
  | @choose e _ frm dst => cases (e.move frm dst).2 <;> simp [Call.label, Label.atStop]
  | _ => simp [Call.label]

/-- Before there is an `ELEVATOR`, the code stays at early labels. -/
lemma Act.early (h : Act cfg sh r c sh' call) (he : sh.e = none) (he' : sh'.e = none)
    (hc : c.early = true) {c' : Label} (hc' : call.label = some c') : c'.early = true := by
  cases h with
  | quiet h => cases h <;> first | (cases hc; done) | (cases hc' <;> rfl)
  | main => cases hc'; rfl
  | create view =>
    rw [← view_eq_none_iff, view] at he'
    cases he'
  | hailed exists_e => exact absurd he exists_e
  | choose he₀ | board he₀ | alight he₀ | seated he₀ | gotOff he₀ =>
    rw [he₀] at he
    cases he
  | waits => cases hc

lemma Act.fork_cases {first c' : Label} (h : Act cfg sh r c sh' (.fork first c')) :
    (c = .main ∧ sh' = sh ∧ first = .elevatorThread) ∨ (∃ p, first = .personThread p) ∨
      (c = .elevatorThread ∧ first = .haltTest ∧ sh'.e ≠ none) := by
  cases h with
  | quiet h => cases h; exact .inr (.inl ⟨_, rfl⟩)
  | main => exact .inl ⟨rfl, rfl, rfl⟩
  | create view =>
    refine .inr (.inr ⟨rfl, rfl, fun he => ?_⟩)
    rw [← view_eq_none_iff, view] at he
    cases he

end Acts

lemma Created.congr (h : Created s) (hshared : s'.shared = s.shared)
    (hlabel : ∀ t, (s'.loc t).label = (s.loc t).label) : Created s' := by
  refine ⟨?_, ?_, ?_⟩
  · rw [hshared]
    intro he t c
    rw [hlabel]
    exact h.early he t c
  · simp only [hshared, hlabel]
    exact h.maker
  · simp only [hshared, hlabel]
    exact h.main

lemma Created.step (h : Created s) (he : Effect cfg s s') : Created s' := by
  cases he with
  | kernel shared label => exact h.congr shared label
  | signal shared label => exact h.congr shared label
  | broadcast shared label => exact h.congr shared label
  | @code new r c call mode loc act place waiting other =>
    have hself : (s.loc s.currentThread).label = some c := by rw [loc]; rfl
    have hafter := label_after place other
    refine ⟨fun he' t c' hc' => ?_, fun t ht => ?_, fun t ht => ?_⟩
    · have he : s.shared.e = none := by
        by_cases hc : c = .elevatorThread
        · subst hc
          exact (h.maker _ hself).1
        · exact (act.e_eq_none_iff hc).1 he'
      cases hafter t with
      | self current label =>
        rw [label] at hc'
        exact act.early he he' (h.early he _ _ hself) hc'
      | other other loc =>
        rw [loc] at hc'
        exact h.early he _ _ hc'
      | forked other new hcall unborn fresh =>
        subst hcall
        rw [fresh] at hc'
        cases hc'
        rcases act.fork_cases with ⟨-, -, rfl⟩ | ⟨p, rfl⟩ | ⟨-, -, hne⟩
        · rfl
        · rfl
        · exact absurd he' hne
    · cases hafter t with
      | self current label => exact absurd (label.symm.trans ht) act.not_first.1
      | other other' hloc =>
        rw [hloc] at ht
        obtain ⟨he, huniq⟩ := h.maker t ht
        have hc : c ≠ .elevatorThread := fun hc => other' (huniq _ (hc ▸ hself)).symm
        refine ⟨(act.e_eq_none_iff hc).2 he, fun u hu => ?_⟩
        cases hafter u with
        | self current label => exact absurd (label.symm.trans hu) act.not_first.1
        | other _ hloc =>
          rw [hloc] at hu
          exact huniq u hu
        | forked _ _ hcall unborn fresh =>
          subst hcall
          rw [fresh] at hu
          cases hu
          rcases act.fork_cases with ⟨rfl, -, -⟩ | ⟨p, hp⟩ | ⟨-, hp, -⟩
          · exact absurd ht ((h.main _ hself).2.1 t)
          · cases hp
          · cases hp
      | forked other' hnew hcall unborn fresh =>
        subst hcall
        rw [fresh] at ht
        cases ht
        rcases act.fork_cases with ⟨rfl, hsame, -⟩ | ⟨p, hp⟩ | ⟨-, hp, -⟩
        · obtain ⟨he, hnone, -⟩ := h.main _ hself
          refine ⟨by rw [hsame]; exact he, fun u hu => ?_⟩
          cases hafter u with
          | self current label => exact absurd (label.symm.trans hu) act.not_first.1
          | other _ hloc =>
            rw [hloc] at hu
            exact absurd hu (hnone u)
          | forked _ hnew' => rw [hnew', hnew]
        · cases hp
        · cases hp
    · -- nobody comes to the first label
      have hbefore : ∀ u, (s'.loc u).label = some .main →
          u ≠ s.currentThread ∧ (s.loc u).label = some .main := by
        intro u hu
        cases hafter u with
        | self current label => exact absurd (label.symm.trans hu) act.not_first.2
        | other other' hloc => exact ⟨other', by rwa [hloc] at hu⟩
        | forked _ _ hcall unborn fresh =>
          subst hcall
          rw [fresh] at hu
          cases hu
          rcases act.fork_cases with ⟨-, -, hp⟩ | ⟨p, hp⟩ | ⟨-, hp, -⟩ <;> cases hp
      obtain ⟨hne, hmain⟩ := hbefore t ht
      obtain ⟨he, hnone, huniq⟩ := h.main t hmain
      have hc : c ≠ .elevatorThread := fun hc => hnone _ (hc ▸ hself)
      have hc' : c ≠ .main := fun hc => hne (huniq _ (hc ▸ hself)).symm
      refine ⟨(act.e_eq_none_iff hc).2 he, fun u hu => ?_, fun u hu => huniq u (hbefore u hu).2⟩
      cases hafter u with
      | self current label => exact absurd (label.symm.trans hu) act.not_first.1
      | other _ hloc =>
        rw [hloc] at hu
        exact hnone u hu
      | forked _ _ hcall unborn fresh =>
        subst hcall
        rw [fresh] at hu
        cases hu
        rcases act.fork_cases with ⟨hp, -, -⟩ | ⟨p, hp⟩ | ⟨-, hp, -⟩
        · exact hc' hp
        · cases hp
        · cases hp

/-! ### What holds in every run -/

section Runs

/-- The runs of the elevator program. -/
abbrev ElevatorRun (cfg : Config) : List (Event Label) → State Label Shared → Prop :=
  KernelRun (client cfg) start

lemma ElevatorRun.effect (h : ElevatorRun cfg tr s) (hs : Lib.StepOf (step (client cfg)) s es s') :
    Effect cfg s s' := by
  obtain ⟨_, hc⟩ := hs
  exact Elevator.effect (.of_run h) (Loc.From.of_run h) (step_rule hc)

/-- At the start there is the main thread. -/
lemma start_label (t : Tid) :
    (start.loc t).label = none ∨ (start.loc t).label = some .main := by
  rcases init_loc Label.main _ _ t with h | h <;> rw [start, h]
  · exact .inl rfl
  · exact .inr rfl

theorem ElevatorRun.created (h : ElevatorRun cfg tr s) : Created s := by
  refine h.invariant (I := fun _ s => Created s) ?_ fun hr hi hs =>
    hi.step (ElevatorRun.effect hr hs)
  have hstart : ∀ t c, (start.loc t).label = some c → t = 0 ∧ c = .main := by
    intro t c hc
    by_cases ht : t = 0
    · subst ht
      exact ⟨rfl, (Option.some.inj hc).symm⟩
    · simp [start, State.init, ht, Loc.label] at hc
  refine ⟨fun _ t c hc => ?_, fun t ht => ?_, fun t ht => ⟨rfl, fun u hu => ?_, fun u hu => ?_⟩⟩
  · rw [(hstart t c hc).2]
    rfl
  · cases (hstart t _ ht).2
  · cases (hstart u _ hu).2
  · rw [(hstart t _ ht).1, (hstart u _ hu).1]

/-- Two threads do not both have `elevatorLock`. -/
lemma ElevatorRun.exclusive (h : ElevatorRun cfg tr s) {t u : Tid}
    (ht : (s.loc t).holds elevatorLock Label.locked = true)
    (hu : (s.loc u).holds elevatorLock Label.locked = true) : t = u :=
  Client.Locks.exclusive (@locks cfg) rfl h ht hu

/-- Only `start` and `enlisted` ask for `elevatorLock`, and only persons wait. -/
lemma makes_acquire {c : Label} (h : (client cfg).Makes (.acquire elevatorLock c)) :
    (∃ frm dst, c = .awake frm dst) ∨ ∃ ρ, c = .waits ρ := by
  obtain ⟨sh, r, c', sh', hact⟩ := makes_act h
  cases hact with
  | quiet h =>
    cases h with
    | start => exact .inl ⟨_, _, rfl⟩
    | enlisted => exact .inr ⟨_, rfl⟩

lemma makes_wait {c : Label} {cond n : ℕ} (h : (client cfg).Makes (.wait cond n c)) :
    (∃ ρ, c = .boarded ρ) ∨ ∃ ρ, c = .arrived ρ := by
  obtain ⟨sh, r, c', sh', hact⟩ := makes_act h
  cases hact with
  | quiet h => cases h
  | waits => exact .inl ⟨_, rfl⟩
  | seated => exact .inr ⟨_, rfl⟩

/-- Who waits goes on at `boarded` or at `arrived`. -/
lemma ElevatorRun.label_of_waiting (h : ElevatorRun cfg tr s) {t : Tid} (hw : Waiting s t) :
    ∃ ρ, (s.loc t).label = some (.boarded ρ) ∨ (s.loc t).label = some (.arrived ρ) := by
  obtain ⟨cond, n, c, hl, hm⟩ := hw.from (.of_run h) (Loc.From.of_run h t)
  rcases makes_wait hm with ⟨ρ, rfl⟩ | ⟨ρ, rfl⟩
  · exact ⟨ρ, .inl hl⟩
  · exact ⟨ρ, .inr hl⟩

/-- A thread of the elevator, past the `Acquire`, has `elevatorLock`. -/
lemma ElevatorRun.holds (h : ElevatorRun cfg tr s) {t : Tid} {c : Label}
    (hl : (s.loc t).label = some c) (hc : c.locked = true) (hst : c.stage = .off)
    (ha : ∀ frm dst, c ≠ .awake frm dst) (hw : ∀ ρ, c ≠ .waits ρ) :
    (s.loc t).holds elevatorLock Label.locked = true := by
  refine holds_of_label (Loc.From.of_run h t) ((WaitInv.of_run h).good t) hl hc (fun hm => ?_)
    fun cond n hm => ?_
  · rcases makes_acquire hm with ⟨frm, dst, he⟩ | ⟨ρ, he⟩
    · exact ha frm dst he
    · exact hw ρ he
  · rcases makes_wait hm with ⟨ρ, rfl⟩ | ⟨ρ, rfl⟩ <;> cases hst

/-- The running thread at a locked label has `elevatorLock`. -/
lemma holds_of_run {t : Tid} {c : Label} {r : Ret} (hl : s.loc t = .run (.client c) r)
    (hc : c.locked = true) : (s.loc t).holds elevatorLock Label.locked = true := by
  rw [hl]
  exact hc

/-- A thread that runs the client's code does not wait. -/
lemma not_waiting_of_run (hp : Placed s) {c : Label} {r : Ret} (hm : s.mode = .running)
    (hl : s.loc s.currentThread = .run (.client c) r) : ¬ Waiting s s.currentThread := by
  rintro (hj | ⟨cond, hq⟩)
  · rw [hl] at hj
    cases hj
  · exact (hp.running hm).2.2.queue _ hq

/-- The stages after the code of the running thread. -/
lemma stage_after {new : Tid} {sh sh' : Shared} {r : Ret} {c : Label} {call : Call Label}
    (act : Act cfg sh r c sh' call) (place : After s call (s'.loc s.currentThread))
    (other : ∀ t, t ≠ s.currentThread → s'.loc t = s.loc t ∨ (t = new ∧
      ∃ first c', call = .fork first c' ∧ s.loc t = .unborn ∧ s'.loc t = .fresh first)) (t : Tid) :
    stage s' t = if t = s.currentThread then stageOf call.label else stage s t := by
  cases label_after place other t with
  | self current label => rw [if_pos current, stage, label]
  | other ht loc => rw [if_neg ht, stage, loc, stage]
  | forked ht new hcall unborn fresh =>
    subst hcall
    rw [if_neg ht, stage, fresh, stage, unborn]
    exact act.fork_stage

end Runs

end Nachos.Elevator
