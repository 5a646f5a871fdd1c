import Mathlib.Logic.Function.Basic
import Mathlib.Tactic.Common

/-!
# A fragment of the i386

Moves of words, the stack, calls through registers and returns. Memory is read and written in
aligned words; an access that is not aligned has no meaning here. A text says which instruction is
at an address, and where the next one is.
-/

namespace Nachos.Lib.I386

abbrev Word := BitVec 32

inductive Reg where
  | eax | ebx | ecx | edx | esi | edi | ebp | esp
  deriving DecidableEq

/-- The operands in memory, `sym` and `d(%r)`. -/
inductive Operand where
  | sym (a : Word)
  | disp (d : Word) (r : Reg)

/-- The instructions; the source stands before the destination. -/
inductive Instr where
  | movl (src dst : Reg)
  | load (src : Operand) (dst : Reg)
  | store (src : Reg) (dst : Operand)
  | pushl (src : Reg)
  | popl (dst : Reg)
  | call (r : Reg)
  | ret

/-- The registers and memory. -/
structure Data where
  regs : Reg → Word
  mem : Word → Word

/-- The machine, with its program counter. -/
structure State extends Data where
  eip : Word

/-- The instruction at an address, and the address of the next one. -/
abbrev Text := Word → Option (Instr × Word)

/-- The addresses of words. -/
def Aligned (a : Word) : Prop := a.toNat % 4 = 0

instance (a : Word) : Decidable (Aligned a) := inferInstanceAs (Decidable (a.toNat % 4 = 0))

lemma Aligned.add {a d : Word} (ha : Aligned a) (hd : Aligned d) : Aligned (a + d) := by
  unfold Aligned at *
  rw [BitVec.toNat_add]
  omega

lemma Aligned.sub {a d : Word} (ha : Aligned a) (hd : Aligned d) : Aligned (a - d) := by
  unfold Aligned at *
  rw [BitVec.toNat_sub]
  omega

namespace Data

variable (s : Data)

def read (a : Word) : Option Word := if Aligned a then some (s.mem a) else none

def write (a v : Word) : Option Data :=
  if Aligned a then some { s with mem := Function.update s.mem a v } else none

def setReg (r : Reg) (v : Word) : Data := { s with regs := Function.update s.regs r v }

/-- The address of an operand. -/
def address : Operand → Word
  | .sym a => a
  | .disp d r => s.regs r + d

def push (v : Word) : Option Data := do
  let s' ← s.write (s.regs .esp - 4) v
  return s'.setReg .esp (s.regs .esp - 4)

def pop : Option (Word × Data) := do
  let v ← s.read (s.regs .esp)
  return (v, s.setReg .esp (s.regs .esp + 4))

@[simp] lemma setReg_regs (r : Reg) (v : Word) :
    (s.setReg r v).regs = Function.update s.regs r v := rfl

@[simp] lemma setReg_mem (r : Reg) (v : Word) : (s.setReg r v).mem = s.mem := rfl

lemma read_aligned {a : Word} (h : Aligned a) : s.read a = some (s.mem a) := if_pos h

lemma write_aligned {a : Word} (h : Aligned a) (v : Word) :
    s.write a v = some { s with mem := Function.update s.mem a v } := if_pos h

end Data

/-- What an instruction does with the registers and memory, if it neither calls nor returns. -/
def Instr.effect : Instr → Data → Option Data
  | .movl src dst, s => some (s.setReg dst (s.regs src))
  | .load src dst, s => do
    let v ← s.read (s.address src)
    return s.setReg dst v
  | .store src dst, s => s.write (s.address dst) (s.regs src)
  | .pushl src, s => s.push (s.regs src)
  | .popl dst, s => do
    let (v, s) ← s.pop
    return s.setReg dst v
  | .call _, _ | .ret, _ => none

/-- One instruction, when the next one is at `next`. -/
def Instr.exec (next : Word) : Instr → Data → Option State
  | .call r, s => do
    let s' ← s.push next
    return ⟨s', s.regs r⟩
  | .ret, s => do
    let (a, s) ← s.pop
    return ⟨s, a⟩
  | i, s => do
    let s ← i.effect s
    return ⟨s, next⟩

/-- A step of the machine. -/
def step (text : Text) (s : State) : Option State := do
  let (i, next) ← text s.eip
  i.exec next s.toData

/-- `n` steps. -/
def run (text : Text) : ℕ → State → Option State
  | 0, s => some s
  | n + 1, s => do
    let s ← step text s
    run text n s

section Blocks

variable {text : Text} {s s' : State} {d d' : Data} {a b c next : Word} {i : Instr}
  {is js : List Instr} {n m : ℕ}

lemma run_add (h : run text n s = some s') : run text (n + m) s = run text m s' := by
  induction n generalizing s with
  | zero =>
    cases h
    rw [Nat.zero_add]
  | succ n ih =>
    rw [Nat.succ_add]
    simp only [run] at h ⊢
    cases hs : step text s with
    | none => simp [hs] at h
    | some s₁ =>
      rw [hs] at h
      exact ih h

lemma run_one (htext : text s.eip = some (i, next)) (h : i.exec next s.toData = some s') :
    run text 1 s = some s' := by
  simp [run, step, htext, h]

/-- The instructions `is` are in the text, from `a` up to `b`. -/
def Placed (text : Text) : Word → List Instr → Word → Prop
  | a, [], b => a = b
  | a, i :: is, b => ∃ next, text a = some (i, next) ∧ Placed text next is b

lemma placed_append : Placed text a (is ++ js) c ↔ ∃ b, Placed text a is b ∧ Placed text b js c := by
  induction is generalizing a with
  | nil => simp [Placed]
  | cons i is ih =>
    simp only [List.cons_append, Placed, ih]
    constructor
    · rintro ⟨next, hi, b, his, hjs⟩
      exact ⟨b, ⟨next, hi, his⟩, hjs⟩
    · rintro ⟨b, ⟨next, hi, his⟩, hjs⟩
      exact ⟨next, hi, b, his, hjs⟩

/-- The effects of instructions, one after the other. -/
def effects : List Instr → Data → Option Data
  | [], s => some s
  | i :: is, s => do
    let s ← i.effect s
    effects is s

lemma effects_cons (h : i.effect d = some d') : effects (i :: is) d = effects is d' := by
  simp [effects, h]

lemma effects_append (h : effects is d = some d') : effects (is ++ js) d = effects js d' := by
  induction is generalizing d with
  | nil =>
    cases h
    rfl
  | cons i is ih =>
    simp only [List.cons_append, effects] at h ⊢
    cases hi : i.effect d with
    | none => simp [hi] at h
    | some d₁ =>
      rw [hi] at h
      exact ih h

lemma exec_of_effect (h : i.effect d = some d') : i.exec next d = some ⟨d', next⟩ := by
  cases i with
  | call r => cases h
  | ret => cases h
  | _ =>
    simp only [Instr.exec, h]
    rfl

lemma exec_ret (ha : d.regs .esp = a) (h : Aligned a) (hv : d.mem a = b) :
    Instr.ret.exec next d = some ⟨d.setReg .esp (a + 4), b⟩ := by
  subst ha hv
  simp [Instr.exec, Data.pop, Data.read_aligned _ h]

lemma exec_call {r : Reg} (ha : d.regs .esp - 4 = a) (h : Aligned a) :
    (Instr.call r).exec next d = some ⟨{ regs := Function.update d.regs .esp a
                                         mem := Function.update d.mem a next }, d.regs r⟩ := by
  subst ha
  simp only [Instr.exec, Data.push]
  rw [Data.write_aligned _ h]
  rfl

/-- **Straight-line code** runs to its end. -/
theorem run_block (hplaced : Placed text a is b) (h : effects is d = some d') :
    run text is.length ⟨d, a⟩ = some ⟨d', b⟩ := by
  induction is generalizing a d with
  | nil =>
    cases h
    cases hplaced
    rfl
  | cons i is ih =>
    obtain ⟨next, htext, hplaced⟩ := hplaced
    simp only [effects] at h
    cases hi : i.effect d with
    | none => simp [hi] at h
    | some d₁ =>
      rw [hi] at h
      have hone : run text 1 ⟨d, a⟩ = some ⟨d₁, next⟩ := run_one htext (exec_of_effect hi)
      rw [List.length_cons, Nat.add_comm, run_add hone]
      exact ih hplaced h

end Blocks

/-! ### Saving and restoring registers -/

section Registers

variable {d : Data} {is : List Instr} {base r : Reg} {rs : List Reg} {off : Reg → Word}
  {a v : Word}

lemma effects_load {o : Operand} (ha : d.address o = a) (h : Aligned a) (hv : d.mem a = v) :
    effects (.load o r :: is) d = effects is (d.setReg r v) := by
  subst ha hv
  exact effects_cons (by simp [Instr.effect, Data.read_aligned _ h])

lemma effects_store {o : Operand} (ha : d.address o = a) (h : Aligned a) (hv : d.regs r = v) :
    effects (.store r o :: is) d = effects is { d with mem := Function.update d.mem a v } := by
  subst ha hv
  exact effects_cons (Data.write_aligned _ h _)

/-- The registers `rs` are stored, each at its offset from `base`. -/
def stores (off : Reg → Word) (base : Reg) (rs : List Reg) : List Instr :=
  rs.map fun r => .store r (.disp (off r) base)

/-- Memory with the values of registers stored from the address `a` on. -/
def storeAll (off : Reg → Word) (a : Word) (regs : Reg → Word) (rs : List Reg)
    (mem : Word → Word) : Word → Word :=
  rs.foldl (fun mem r => Function.update mem (a + off r) (regs r)) mem

lemma effects_stores (h : ∀ r ∈ rs, Aligned (d.regs base + off r)) :
    effects (stores off base rs ++ is) d =
      effects is { d with mem := storeAll off (d.regs base) d.regs rs d.mem } := by
  induction rs generalizing d with
  | nil => rfl
  | cons r rs ih =>
    have hr : Aligned (d.address (.disp (off r) base)) := h r List.mem_cons_self
    simp only [stores, List.map_cons, List.cons_append]
    rw [effects_store rfl hr rfl]
    exact ih fun r' hr' => h r' (List.mem_cons_of_mem _ hr')

/-- What is not at an offset stays. -/
lemma storeAll_of_notMem {regs : Reg → Word} {mem : Word → Word} {x : Word}
    (h : ∀ r ∈ rs, x ≠ a + off r) : storeAll off a regs rs mem x = mem x := by
  induction rs generalizing mem with
  | nil => rfl
  | cons r rs ih =>
    have hx : x ≠ a + off r := h r List.mem_cons_self
    refine (ih fun r' hr' => h r' (List.mem_cons_of_mem _ hr')).trans ?_
    exact Function.update_of_ne hx _ _

/-- Each register is at its offset. -/
lemma storeAll_of_mem {regs : Reg → Word} {mem : Word → Word} (hoff : Function.Injective off)
    (h : r ∈ rs) : storeAll off a regs rs mem (a + off r) = regs r := by
  induction rs generalizing mem with
  | nil => cases h
  | cons r' rs ih =>
    by_cases hr : r ∈ rs
    · exact ih hr
    · obtain rfl : r = r' := (List.mem_cons.1 h).resolve_right hr
      have hrest : storeAll off a regs rs (Function.update mem (a + off r) (regs r)) (a + off r) =
          Function.update mem (a + off r) (regs r) (a + off r) := by
        refine storeAll_of_notMem fun r' hr' he => hr ?_
        obtain rfl : r = r' := hoff ((BitVec.add_right_inj a).1 he)
        exact hr'
      exact hrest.trans (Function.update_self _ _ _)

/-- The registers `rs` are loaded, each from its offset from `base`. -/
def loads (off : Reg → Word) (base : Reg) (rs : List Reg) : List Instr :=
  rs.map fun r => .load (.disp (off r) base) r

lemma effects_loads (hbase : base ∉ rs) (h : ∀ r ∈ rs, Aligned (d.regs base + off r)) :
    effects (loads off base rs ++ is) d =
      effects is { d with regs := fun r =>
        if r ∈ rs then d.mem (d.regs base + off r) else d.regs r } := by
  induction rs generalizing d with
  | nil => rfl
  | cons r rs ih =>
    have hne : base ≠ r := fun he => hbase (he ▸ List.mem_cons_self)
    have hr : Aligned (d.address (.disp (off r) base)) := h r List.mem_cons_self
    simp only [loads, List.map_cons, List.cons_append]
    rw [effects_load rfl hr rfl]
    refine (ih (fun hm => hbase (List.mem_cons_of_mem _ hm)) fun r' hr' => ?_).trans ?_
    · rw [Data.setReg_regs, Function.update_of_ne hne]
      exact h r' (List.mem_cons_of_mem _ hr')
    · congr 1
      simp only [Data.setReg, Data.address, Function.update_of_ne hne, List.mem_cons]
      congr 1
      funext x
      by_cases hx : x ∈ rs
      · simp [hx]
      · by_cases hxr : x = r
        · simp [hxr]
        · simp [hx, hxr]

end Registers

end Nachos.Lib.I386
