import Mathlib.Data.Set.Basic
import Nachos.Lib.I386

/-!
# `SWITCH`

`SWITCH` (`switch.s`, for `HOST_i386`) saves the registers in the object of the old thread and
restores those of the next one. The registers are in a thread's object, at its stack pointer and in
`machineState`; the return address stays on the stack too, and it is from there that `ret` takes it.
-/

namespace Nachos.Host

open Lib.I386

/-! ### The code -/

/-- The offsets of the registers from the beginning of the thread object. -/
abbrev _ESP : Word := 0
abbrev _EAX : Word := 4
abbrev _EBX : Word := 8
abbrev _ECX : Word := 12
abbrev _EDX : Word := 16
abbrev _EBP : Word := 20
abbrev _ESI : Word := 24
abbrev _EDI : Word := 28
abbrev _PC : Word := 32

def offset : Reg → Word
  | .esp => _ESP
  | .eax => _EAX
  | .ebx => _EBX
  | .ecx => _ECX
  | .edx => _EDX
  | .ebp => _EBP
  | .esi => _ESI
  | .edi => _EDI

/-- The first half of `SWITCH`, which saves the state of the old thread. -/
def saves (_eax_save : Word) : List Instr := [
  .store .eax (.sym _eax_save),
  .load (.disp 4 .esp) .eax,
  .store .ebx (.disp _EBX .eax),
  .store .ecx (.disp _ECX .eax),
  .store .edx (.disp _EDX .eax),
  .store .esi (.disp _ESI .eax),
  .store .edi (.disp _EDI .eax),
  .store .ebp (.disp _EBP .eax),
  .store .esp (.disp _ESP .eax),
  .load (.sym _eax_save) .ebx,
  .store .ebx (.disp _EAX .eax),
  .load (.disp 0 .esp) .ebx,
  .store .ebx (.disp _PC .eax)]

/-- The second half, up to the return. -/
def restores (_eax_save : Word) : List Instr := [
  .load (.disp 8 .esp) .eax,
  .load (.disp _EAX .eax) .ebx,
  .store .ebx (.sym _eax_save),
  .load (.disp _EBX .eax) .ebx,
  .load (.disp _ECX .eax) .ecx,
  .load (.disp _EDX .eax) .edx,
  .load (.disp _ESI .eax) .esi,
  .load (.disp _EDI .eax) .edi,
  .load (.disp _EBP .eax) .ebp,
  .load (.disp _ESP .eax) .esp,
  .load (.disp _PC .eax) .eax,
  .store .eax (.disp 4 .esp),
  .load (.sym _eax_save) .eax]

/-- `SWITCH`. -/
def SWITCH (_eax_save : Word) : List Instr := saves _eax_save ++ restores _eax_save ++ [.ret]

/-! ### What it does -/

/-- Where the registers of a thread are saved. -/
def fields (t : Word) : Set Word := {a | (∃ r, a = t + offset r) ∨ a = t + _PC}

lemma offset_mem (t : Word) (r : Reg) : t + offset r ∈ fields t := .inl ⟨r, rfl⟩

lemma pc_mem (t : Word) : t + _PC ∈ fields t := .inr rfl

lemma aligned_offset {t : Word} (h : Aligned t) (r : Reg) : Aligned (t + offset r) :=
  h.add (by cases r <;> decide)

lemma offset_injective : Function.Injective offset := by
  intro r r' h
  cases r <;> cases r' <;> first | rfl | exact absurd h (by decide)

lemma offset_ne_pc (r : Reg) : offset r ≠ _PC := by cases r <;> decide

section Halves

variable {s t u : Word} {d : Data}

/-- The registers that `SWITCH` stores before it uses them. -/
abbrev stored : List Reg := [.ebx, .ecx, .edx, .esi, .edi, .ebp, .esp]

lemma mem_stored {r : Reg} (h : r ≠ .eax) : r ∈ stored := by cases r <;> simp at h ⊢

/-- **The old thread is saved**: its object holds its registers and its return address. -/
theorem effects_saves (hs : Aligned s) (ht : Aligned t) (hesp : Aligned (d.regs .esp))
    (harg : d.mem (d.regs .esp + 4) = t) (hargs : d.regs .esp + 4 ≠ s)
    (hret : d.regs .esp ∉ fields t) (hrets : d.regs .esp ≠ s) (hst : s ∉ fields t) :
    ∃ d', effects (saves s) d = some d' ∧ d'.regs .esp = d.regs .esp ∧
      (∀ r, d'.mem (t + offset r) = d.regs r) ∧ d'.mem (t + _PC) = d.mem (d.regs .esp) ∧
      ∀ a, a ∉ fields t → a ≠ s → d'.mem a = d.mem a := by
  have hsplit : saves s = .store .eax (.sym s) :: .load (.disp 4 .esp) .eax ::
    (stores offset .eax stored ++ [.load (.sym s) .ebx, .store .ebx (.disp _EAX .eax),
      .load (.disp 0 .esp) .ebx, .store .ebx (.disp _PC .eax)]) := rfl
  have hout : ∀ a, a ∉ fields t → ∀ r ∈ stored, a ≠ t + offset r :=
    fun a ha r _ he => ha (he ▸ offset_mem t r)
  -- memory after each of the stores
  let m₁ := Function.update d.mem s (d.regs .eax)
  let m₂ := storeAll offset t (Function.update d.regs .eax t) stored m₁
  let m₃ := Function.update m₂ (t + _EAX) (d.regs .eax)
  have harg₁ : m₁ (d.regs .esp + 4) = t := (Function.update_of_ne hargs _ _).trans harg
  have heax : m₂ s = d.regs .eax :=
    (storeAll_of_notMem (hout s hst)).trans (Function.update_self _ _ _)
  have hkeep : ∀ a, a ∉ fields t → a ≠ s → m₃ a = d.mem a := by
    intro a ha has
    have hne : a ≠ t + _EAX := fun he => ha (he ▸ offset_mem t .eax)
    exact (Function.update_of_ne hne _ _).trans
      ((storeAll_of_notMem (hout a ha)).trans (Function.update_of_ne has _ _))
  have hzero : d.regs .esp + 0 = d.regs .esp := BitVec.add_zero _
  refine ⟨⟨Function.update (Function.update (Function.update d.regs .eax t) .ebx (d.regs .eax)) .ebx
    (d.mem (d.regs .esp)), Function.update m₃ (t + _PC) (d.mem (d.regs .esp))⟩, ?_, ?_, ?_, ?_, ?_⟩
  · rw [hsplit]
    refine Eq.trans (effects_store rfl hs rfl) ?_
    refine Eq.trans (effects_load rfl (hesp.add (by decide)) harg₁) ?_
    refine Eq.trans (effects_stores fun r _ => aligned_offset ht r) ?_
    refine Eq.trans (effects_load rfl hs heax) ?_
    refine Eq.trans (effects_store rfl (aligned_offset ht .eax) rfl) ?_
    refine Eq.trans (effects_load hzero hesp (hkeep _ hret hrets)) ?_
    exact effects_store rfl (ht.add (by decide)) rfl
  · simp [Function.update_of_ne]
  · intro r
    have hne : t + offset r ≠ t + _PC := fun he => offset_ne_pc r ((BitVec.add_right_inj t).1 he)
    refine (Function.update_of_ne hne _ _).trans ?_
    by_cases hr : r = .eax
    · subst hr
      exact Function.update_self _ _ _
    · have hne : t + offset r ≠ t + _EAX := fun he =>
        hr (offset_injective ((BitVec.add_right_inj t).1 he))
      refine (Function.update_of_ne hne _ _).trans ?_
      exact (storeAll_of_mem offset_injective (mem_stored hr)).trans (Function.update_of_ne hr _ _)
  · exact Function.update_self _ _ _
  · intro a ha has
    have hne : a ≠ t + _PC := fun he => ha (he ▸ pc_mem t)
    exact (Function.update_of_ne hne _ _).trans (hkeep a ha has)

/-- Memory when `SWITCH` has restored the thread `u` from `m`: the second half uses `_eax_save`, and
it writes the return address into the argument `t1` of the call. -/
def restored (s u : Word) (m : Word → Word) : Word → Word :=
  Function.update (Function.update m s (m (u + _EAX))) (m (u + _ESP) + 4) (m (u + _PC))

/-- **The next thread is restored**: the registers are those in its object. -/
theorem effects_restores (hs : Aligned s) (hu : Aligned u) (hesp : Aligned (d.regs .esp))
    (harg : d.mem (d.regs .esp + 8) = u) (hsu : s ∉ fields u)
    (hsp : Aligned (d.mem (u + _ESP))) (hslot : d.mem (u + _ESP) + 4 ≠ s) :
    effects (restores s) d = some ⟨fun r => d.mem (u + offset r), restored s u d.mem⟩ := by
  have hsplit : restores s = .load (.disp 8 .esp) .eax :: .load (.disp _EAX .eax) .ebx ::
    .store .ebx (.sym s) :: (loads offset .eax stored ++ [.load (.disp _PC .eax) .eax,
      .store .eax (.disp 4 .esp), .load (.sym s) .eax]) := rfl
  let m := Function.update d.mem s (d.mem (u + _EAX))
  have hfield : ∀ a ∈ fields u, m a = d.mem a := by
    intro a ha
    refine Function.update_of_ne ?_ _ _
    rintro rfl
    exact hsu ha
  have hesp' : m (u + offset .esp) = d.mem (u + _ESP) := hfield _ (offset_mem u .esp)
  have heax : restored s u d.mem s = d.mem (u + _EAX) :=
    (Function.update_of_ne hslot.symm _ _).trans (Function.update_self _ _ _)
  rw [hsplit]
  refine Eq.trans (effects_load rfl (hesp.add (by decide)) harg) ?_
  refine Eq.trans (effects_load rfl (aligned_offset hu .eax) rfl) ?_
  refine Eq.trans (effects_store rfl hs rfl) ?_
  refine Eq.trans (effects_loads (by decide) fun r _ => aligned_offset hu r) ?_
  refine Eq.trans (effects_load rfl (hu.add (by decide)) (hfield _ (pc_mem u))) ?_
  refine Eq.trans (effects_store (a := d.mem (u + _ESP) + 4) ?_ (hsp.add (by decide)) rfl) ?_
  · exact congrArg (· + 4) hesp'
  refine Eq.trans (effects_load rfl hs heax) ?_
  have hregs : ∀ (regs : Reg → Word) v, Function.update (Function.update (fun r => if r ∈ stored then
      m (u + offset r) else regs r) .eax v) .eax (d.mem (u + _EAX)) =
      fun r => d.mem (u + offset r) := by
    intro regs v
    funext r
    by_cases hr : r = .eax
    · subst hr
      exact Function.update_self _ _ _
    · rw [Function.update_of_ne hr, Function.update_of_ne hr, if_pos (mem_stored hr)]
      exact hfield _ (offset_mem u r)
  exact congrArg (fun regs => some (⟨regs, restored s u d.mem⟩ : Data)) (hregs _ _)

end Halves

section Switch

variable {text : Text} {s t u sw b : Word} {d : Data} {m : Word → Word}

/-- Memory when `SWITCH` has saved the thread `t` in its object. -/
structure Saved (s t : Word) (d : Data) (m : Word → Word) : Prop where
  regs : ∀ r, m (t + offset r) = d.regs r
  pc : m (t + _PC) = d.mem (d.regs .esp)
  other : ∀ a, a ∉ fields t → a ≠ s → m a = d.mem a

/-- **`SWITCH`**: it saves the thread `t` and returns as the thread `u`. -/
theorem run_SWITCH (placed : Placed text sw (SWITCH s) b) (hs : Aligned s) (ht : Aligned t)
    (hu : Aligned u) (hesp : Aligned (d.regs .esp)) (harg : d.mem (d.regs .esp + 4) = t)
    (harg' : d.mem (d.regs .esp + 8) = u) (hst : s ∉ fields t) (hsu : s ∉ fields u)
    (hret : d.regs .esp ∉ fields t) (hrets : d.regs .esp ≠ s) (hargs : d.regs .esp + 4 ≠ s)
    (hargt : d.regs .esp + 8 ∉ fields t) (hargs' : d.regs .esp + 8 ≠ s)
    (hsp : ∀ m, Saved s t d m →
      Aligned (m (u + _ESP)) ∧ m (u + _ESP) ≠ s ∧ m (u + _ESP) + 4 ≠ s) :
    ∃ m, Saved s t d m ∧ run text (SWITCH s).length ⟨d, sw⟩ = some
      { regs := Function.update (fun r => m (u + offset r)) .esp (m (u + _ESP) + 4)
        eip := m (m (u + _ESP))
        mem := restored s u m } := by
  obtain ⟨d₁, hd₁, hesp₁, hregs, hpc, hother⟩ :=
    effects_saves hs ht hesp harg hargs hret hrets hst
  have hsaved : Saved s t d d₁.mem := ⟨hregs, hpc, hother⟩
  obtain ⟨haligned, hne, hslot⟩ := hsp _ hsaved
  have harg₁ : d₁.mem (d₁.regs .esp + 8) = u := by
    rw [hesp₁, hother _ hargt hargs', harg']
  have hrestores := effects_restores hs hu (hesp₁ ▸ hesp) harg₁ hsu haligned hslot
  have hblock : effects (saves s ++ restores s) d = _ := (effects_append hd₁).trans hrestores
  obtain ⟨c, hplaced, next, htext, -⟩ := placed_append.1 placed
  refine ⟨d₁.mem, hsaved, ?_⟩
  have hlength : (SWITCH s).length = (saves s ++ restores s).length + 1 := List.length_append
  rw [hlength, run_add (run_block hplaced hblock)]
  have hret' : restored s u d₁.mem (d₁.mem (u + _ESP)) = d₁.mem (d₁.mem (u + _ESP)) := by
    refine (Function.update_of_ne ?_ _ _).trans (Function.update_of_ne hne _ _)
    intro he
    have h40 : (0 : Word) = 4 := (BitVec.add_right_inj (d₁.mem (u + _ESP))).1
      ((BitVec.add_zero _).trans he)
    exact absurd h40 (by decide)
  exact run_one htext (exec_ret rfl haligned hret')

end Switch

end Nachos.Host
