import Nachos.Lib.Signed
import Nachos.Mips.Precise

/-!
# Loads and stores, and the load delay

A load leaves its value in `LoadValueReg`, with the number of its destination in `LoadReg`, and the
end of the next instruction moves it there. The next instruction can itself leave a load; the four
forms for unaligned words are the only instructions that look at the pending value.
-/

namespace Nachos.Mips

open OpCode Lib

/-! ### What a load reads and a store writes -/

namespace Instruction

/-- The number of bytes that a load reads, the forms for unaligned words apart. -/
def loadSize (i : Instruction) : Option ℕ :=
  match i.opCode with
  | opLb | opLbu => some 1
  | opLh | opLhu => some 2
  | opLw => some 4
  | _ => none

/-- The number of bytes that a store writes, the forms for unaligned words apart. -/
def storeSize (i : Instruction) : Option ℕ :=
  match i.opCode with
  | opSb => some 1
  | opSh => some 2
  | opSw => some 4
  | _ => none

/-- The loads and stores of a part of a word. -/
def Merges (i : Instruction) : Prop :=
  i.opCode = opLwl ∨ i.opCode = opLwr ∨ i.opCode = opSwl ∨ i.opCode = opSwr

/-- The value of a load, from its bytes in little-endian order. -/
def loaded (i : Instruction) (b : ℕ → Byte) : Word :=
  match i.opCode with
  | opLb => (b 0).signExtend 32
  | opLbu => (b 0).setWidth 32
  | opLh => (b 1 ++ b 0).signExtend 32
  | opLhu => (b 1 ++ b 0).setWidth 32
  | _ => b 3 ++ b 2 ++ b 1 ++ b 0

end Instruction

namespace Machine

/-- The place in main memory of the byte at a virtual address. -/
def physical (m : Machine) (addr : Word) : Option ℕ :=
  match m.pageTable with
  | none => none
  | some table => (resolve table addr 1 false).toOption

/-- The `size` bytes at the virtual address are those from `p` on in main memory. -/
def BytesAt (m : Machine) (addr : Word) (size p : ℕ) : Prop :=
  ∀ j < size, m.physical (addr + BitVec.ofNat 32 j) = some (p + j)

/-- The address of a load or a store. -/
def target (m : Machine) (i : Instruction) : Word := m.registers.gpr i.rs + i.extra

/-- Another value for the pending load. -/
def withPending (m : Machine) (v : Word) : Machine := m.withRegs { m.registers with loadValue := v }

/-- `m` executes `i` and becomes `m'`. -/
def Executes (m : Machine) (i : Instruction) (m' : Machine) : Prop :=
  (∃ w m₁, m.readMem m.registers.pc 4 = .ok (w, m₁) ∧ i = .decode w) ∧ m.oneInstruction = .ok m'

end Machine

/-! ### The values of the loads -/

section Values

/-- The mask of `OP_LB` and `OP_LH`: the sign goes into the upper bits. -/
lemma signExtend_byte (b : Byte) :
    (if b.signExtend 32 &&& 0x80 ≠ 0 then b.signExtend 32 ||| 0xffffff00
      else b.signExtend 32 &&& 0xff) = (b.signExtend 32 : Word) := by
  revert b
  decide +kernel

lemma zeroExtend_byte (b : Byte) : (b.signExtend 32 : Word) &&& 0xff = b.setWidth 32 := by
  revert b
  decide +kernel

/-- A short in the low half of a word. -/
lemma low_half (h : BitVec 16) : (h.setWidth 32 : Word) = 0#16 ++ h :=
  BitVec.setWidth_eq_append (by decide)

lemma short_sign (h : BitVec 16) : (h.setWidth 32 : Word) &&& 0x8000 = 0 ↔ h.msb = false := by
  have hmask : (0x8000 : Word) = 0#16 ++ BitVec.intMin 16 := by decide
  rw [low_half, hmask, BitVec.and_append, ← and_intMin_eq_zero (by decide : 0 < 16) h]
  rw [show (0 : Word) = (0#16 &&& 0#16) ++ 0#16 by decide]
  exact BitVec.append_right_inj _

lemma zeroExtend_short (h : BitVec 16) : (h.setWidth 32 : Word) &&& 0xffff = h.setWidth 32 := by
  have hlow : (0xffff : Word) = 0#16 ++ BitVec.allOnes 16 := by decide
  rw [low_half, hlow, BitVec.and_append, BitVec.and_allOnes, BitVec.zero_and]

lemma signExtend_short (h : BitVec 16) :
    (if h.setWidth 32 &&& 0x8000 ≠ 0 then h.setWidth 32 ||| 0xffff0000
      else h.setWidth 32 &&& 0xffff) = (h.signExtend 32 : Word) := by
  cases hm : h.msb with
  | false =>
    rw [if_neg (not_not.2 ((short_sign h).2 hm)), zeroExtend_short,
      BitVec.signExtend_eq_setWidth_of_msb_false hm]
  | true =>
    have hhigh : (0xffff0000 : Word) = BitVec.allOnes 16 ++ 0#16 := by decide
    have hne : ¬ (h.setWidth 32 : Word) &&& 0x8000 = 0 := by
      rw [short_sign, hm]
      decide
    rw [if_pos hne, low_half, hhigh, BitVec.or_append,
      BitVec.signExtend_eq_append_of_le (by decide), hm]
    simp

end Values

namespace Machine

section Access

variable {m m' : Machine} {addr v : Word} {size : ℕ}

/-- The bytes of an access that `Translate` lets through. -/
lemma bytesAt_of_hit {table : List TranslationEntry} {e : TranslationEntry}
    (ht : m.pageTable = some table) (hs : IsSize size) (he : Hit table addr size e) :
    m.BytesAt addr size (e.frame * pageSize + offsetOf addr) := by
  intro j hj
  have hle := offset_add_le hs he.aligned
  have haddr := addr.isLt
  have hsum : (addr + BitVec.ofNat 32 j).toNat = addr.toNat + j := by
    rw [BitVec.toNat_add, BitVec.toNat_ofNat]
    simp only [offsetOf, pageSize] at hle
    omega
  have hpage : pageOf (addr + BitVec.ofNat 32 j) = pageOf addr := by
    simp only [pageOf, offsetOf, pageSize, hsum] at hle ⊢
    omega
  have hoff : offsetOf (addr + BitVec.ofNat 32 j) = offsetOf addr + j := by
    simp only [offsetOf, pageSize, hsum] at hle ⊢
    omega
  have hit : Hit table (addr + BitVec.ofNat 32 j) 1 e :=
    ⟨hpage ▸ he.entry, Nat.mod_one _, he.valid, he.frame⟩
  simp only [physical, ht]
  rw [hit.resolve (Bool.and_false _), hoff, ← Nat.add_assoc]
  rfl

lemma physical_congr (h : m'.mappings = m.mappings) : m'.physical addr = m.physical addr := by
  unfold Machine.mappings at h
  unfold physical
  cases ht : m.pageTable with
  | none =>
    rw [ht, Option.map_none, Option.map_eq_none_iff] at h
    rw [h]
  | some table =>
    rw [ht, Option.map_some, Option.map_eq_some_iff] at h
    obtain ⟨table', ht', hmap⟩ := h
    rw [ht']
    simp only [resolve_congr hmap]

lemma Undisturbed.bytesAt {p : ℕ} (h : m.Undisturbed m') (hp : m'.BytesAt addr size p) :
    m.BytesAt addr size p :=
  fun j hj => (physical_congr h.mappings).symm.trans (hp j hj)

/-- What a read has read. -/
lemma readMem_bytes (hs : IsSize size) (h : m.readMem addr size = .ok (v, m')) :
    m.Undisturbed m' ∧ ∃ p, m.BytesAt addr size p ∧ v = Mips.load m.mainMemory p size := by
  refine ⟨readMem_undisturbed h, ?_⟩
  obtain ⟨table, ht⟩ := readMem_table h
  obtain ⟨e, he, -, hv, -⟩ := readMem_eq_ok ht hs h
  exact ⟨_, bytesAt_of_hit ht hs he, hv⟩

/-- What a write has written. -/
lemma writeMem_bytes (hs : IsSize size) (h : m.writeMem addr size v = .ok m') :
    m'.registers = m.registers ∧ ∃ p, m.BytesAt addr size p ∧
      m'.mainMemory = storeBytes m.mainMemory p size v := by
  obtain ⟨table, ht⟩ := writeMem_table h
  obtain ⟨e, he, -, rfl⟩ := writeMem_eq_ok ht hs h
  exact ⟨rfl, _, bytesAt_of_hit ht hs he, rfl⟩

lemma writeMem_registers (h : m.writeMem addr size v = .ok m') : m'.registers = m.registers := by
  unfold writeMem at h
  obtain ht | ⟨which, ht⟩ | ⟨physAddr, table, ht, -⟩ := m.translate_cases addr size true
  · rw [ht] at h
    cases h
  · rw [ht] at h
    cases h
  · rw [ht, ok_bind] at h
    obtain ⟨-, -, h⟩ := bind_eq_ok h
    cases h
    rfl

/-- An access that succeeds does so with any value pending. -/
lemma readMem_withPending {w : Word} (h : m.readMem addr size = .ok (w, m')) (v : Word) :
    (m.withPending v).readMem addr size = .ok (w, m'.withPending v) := by
  have htranslate : (m.withPending v).translate addr size false = m.translate addr size false := rfl
  unfold readMem at h ⊢
  rw [htranslate]
  obtain ht | ⟨which, ht⟩ | ⟨physAddr, table, ht, -⟩ := m.translate_cases addr size false
  · rw [ht] at h
    cases h
  · rw [ht] at h
    cases h
  · rw [ht, ok_bind] at h ⊢
    dsimp only at h ⊢
    split at h <;> cases h
    all_goals rfl

lemma writeMem_withPending {w : Word} (h : m.writeMem addr size w = .ok m') (v : Word) :
    (m.withPending v).writeMem addr size w = .ok (m'.withPending v) := by
  have htranslate : (m.withPending v).translate addr size true = m.translate addr size true := rfl
  unfold writeMem at h ⊢
  rw [htranslate]
  obtain ht | ⟨which, ht⟩ | ⟨physAddr, table, ht, -⟩ := m.translate_cases addr size true
  · rw [ht] at h
    cases h
  · rw [ht] at h
    cases h
  · rw [ht, ok_bind] at h ⊢
    obtain ⟨a, ha, h⟩ := bind_eq_ok h
    cases h
    show (assert _ >>= _) = _
    rw [ha]
    rfl

end Access

lemma withPending_gpr (m : Machine) (v : Word) :
    (m.withPending v).registers.gpr = m.registers.gpr := rfl

/-! ### The `switch` -/

section Switch

variable {m : Machine} {i : Instruction} {o : Outcome}

/-- **A load** leaves the value of its bytes for its destination. -/
lemma execute_load {size : ℕ} (hi : i.loadSize = some size) (h : execute m i = .ok o) :
    ∃ m₁ p, m.Undisturbed m₁ ∧ m.BytesAt (m.target i) size p ∧
      o = m₁.load i.rt (i.loaded fun j => m.mainMemory (p + j)) := by
  cases hop : i.opCode <;>
    simp only [Instruction.loadSize, hop, reduceCtorEq, Option.some.injEq] at hi <;>
    simp only [execute, hop] at h <;> subst hi
  case opLb =>
    obtain ⟨⟨v, m₁⟩, hread, h⟩ := bind_eq_ok h
    cases h
    obtain ⟨hm, p, hp, rfl⟩ := readMem_bytes (.inl rfl) hread
    refine ⟨m₁, p, hm, hp, congrArg (m₁.load i.rt) ?_⟩
    simp only [Instruction.loaded, hop]
    exact signExtend_byte _
  case opLbu =>
    obtain ⟨⟨v, m₁⟩, hread, h⟩ := bind_eq_ok h
    cases h
    obtain ⟨hm, p, hp, rfl⟩ := readMem_bytes (.inl rfl) hread
    refine ⟨m₁, p, hm, hp, congrArg (m₁.load i.rt) ?_⟩
    simp only [Instruction.loaded, hop]
    exact zeroExtend_byte _
  case opLh =>
    split at h
    · cases h
    obtain ⟨⟨v, m₁⟩, hread, h⟩ := bind_eq_ok h
    cases h
    obtain ⟨hm, p, hp, rfl⟩ := readMem_bytes (.inr (.inl rfl)) hread
    refine ⟨m₁, p, hm, hp, congrArg (m₁.load i.rt) ?_⟩
    simp only [Instruction.loaded, hop]
    exact signExtend_short _
  case opLhu =>
    split at h
    · cases h
    obtain ⟨⟨v, m₁⟩, hread, h⟩ := bind_eq_ok h
    cases h
    obtain ⟨hm, p, hp, rfl⟩ := readMem_bytes (.inr (.inl rfl)) hread
    refine ⟨m₁, p, hm, hp, congrArg (m₁.load i.rt) ?_⟩
    simp only [Instruction.loaded, hop]
    exact zeroExtend_short _
  case opLw =>
    split at h
    · cases h
    obtain ⟨⟨v, m₁⟩, hread, h⟩ := bind_eq_ok h
    cases h
    obtain ⟨hm, p, hp, rfl⟩ := readMem_bytes (.inr (.inr rfl)) hread
    refine ⟨m₁, p, hm, hp, congrArg (m₁.load i.rt) ?_⟩
    simp only [Instruction.loaded, hop]
    rfl

/-- **A store** writes the low bytes of its register. -/
lemma execute_store {size : ℕ} (hi : i.storeSize = some size) (h : execute m i = .ok o) :
    ∃ p, m.BytesAt (m.target i) size p ∧
      o.m.mainMemory = storeBytes m.mainMemory p size (m.registers.gpr i.rt) := by
  have hsize : IsSize size := by
    unfold Instruction.storeSize at hi
    split at hi <;> cases hi
    exacts [.inl rfl, .inr (.inl rfl), .inr (.inr rfl)]
  have hwrite : ∃ m₁, m.writeMem (m.target i) size (m.registers.gpr i.rt) = .ok m₁ ∧
      o = m₁.done m₁.registers := by
    cases hop : i.opCode <;>
      simp only [Instruction.storeSize, hop, reduceCtorEq, Option.some.injEq] at hi <;>
      simp only [execute, hop] at h <;> subst hi
    all_goals
      obtain ⟨m₁, hm₁, h⟩ := bind_eq_ok h
      cases h
      exact ⟨m₁, hm₁, rfl⟩
  obtain ⟨m₁, hm₁, rfl⟩ := hwrite
  exact (writeMem_bytes hsize hm₁).2

/-- The other instructions leave the memory. -/
lemma execute_mainMemory (hi : i.storeSize = none) (hmerge : ¬ i.Merges) (h : execute m i = .ok o) :
    o.m.mainMemory = m.mainMemory := by
  cases hop : i.opCode <;>
    simp only [Instruction.storeSize, Instruction.Merges, hop, reduceCtorEq, or_false, false_or,
      not_true_eq_false] at hi hmerge <;>
    simp only [execute, hop] at h
  case opLb | opLbu =>
    obtain ⟨⟨v, m₁⟩, hread, h⟩ := bind_eq_ok h
    cases h
    exact (readMem_undisturbed hread).mainMemory
  case opLh | opLhu | opLw =>
    split at h
    · cases h
    obtain ⟨⟨v, m₁⟩, hread, h⟩ := bind_eq_ok h
    cases h
    exact (readMem_undisturbed hread).mainMemory
  case opAdd | opAddi | opSub | opDiv | opDivu =>
    split at h <;> cases h
    all_goals rfl
  all_goals
    cases h
    try rfl

/-- No case touches `LoadReg` and `LoadValueReg`. -/
lemma execute_pending (h : execute m i = .ok o) :
    o.m.registers.loadReg = m.registers.loadReg ∧
      o.m.registers.loadValue = m.registers.loadValue := by
  have hregs : ∀ r : Registers, o.m.registers = r →
      r.loadReg = m.registers.loadReg → r.loadValue = m.registers.loadValue →
      o.m.registers.loadReg = m.registers.loadReg ∧
        o.m.registers.loadValue = m.registers.loadValue := by
    rintro _ rfl hreg hvalue
    exact ⟨hreg, hvalue⟩
  cases hop : i.opCode <;> simp only [execute, hop] at h
  case opLb | opLbu =>
    obtain ⟨⟨v, m₁⟩, hread, h⟩ := bind_eq_ok h
    cases h
    exact hregs _ (readMem_registers hread) rfl rfl
  case opLh | opLhu | opLw =>
    split at h
    · cases h
    obtain ⟨⟨v, m₁⟩, hread, h⟩ := bind_eq_ok h
    cases h
    exact hregs _ (readMem_registers hread) rfl rfl
  case opLwl | opLwr =>
    obtain ⟨-, -, h⟩ := bind_eq_ok h
    obtain ⟨⟨v, m₁⟩, hread, h⟩ := bind_eq_ok h
    cases h
    exact hregs _ (readMem_registers hread) rfl rfl
  case opSb | opSh | opSw =>
    obtain ⟨m₁, hwrite, h⟩ := bind_eq_ok h
    cases h
    exact hregs _ (writeMem_registers hwrite) rfl rfl
  case opSwl | opSwr =>
    obtain ⟨-, -, h⟩ := bind_eq_ok h
    obtain ⟨⟨v, m₁⟩, hread, h⟩ := bind_eq_ok h
    obtain ⟨m₂, hwrite, h⟩ := bind_eq_ok h
    cases h
    exact hregs _ ((writeMem_registers hwrite).trans (readMem_registers hread)) rfl rfl
  case opAdd | opAddi | opSub | opDiv | opDivu =>
    split at h <;> cases h
    all_goals exact ⟨rfl, rfl⟩
  all_goals
    cases h
    try exact ⟨rfl, rfl⟩

/-- Only the forms for unaligned words see the pending value. -/
lemma execute_withPending (hmerge : ¬ i.Merges) (h : execute m i = .ok o) (v : Word) :
    execute (m.withPending v) i = .ok { o with m := o.m.withPending v } := by
  cases hop : i.opCode <;>
    simp only [Instruction.Merges, hop, reduceCtorEq, or_false, false_or,
      not_true_eq_false] at hmerge <;>
    simp only [execute, hop] at h ⊢
  case opLb | opLbu =>
    obtain ⟨⟨w, m₁⟩, hread, h⟩ := bind_eq_ok h
    cases h
    rw [withPending_gpr, readMem_withPending hread]
    rfl
  case opLh | opLhu | opLw =>
    split at h
    · cases h
    next haligned =>
    obtain ⟨⟨w, m₁⟩, hread, h⟩ := bind_eq_ok h
    cases h
    rw [withPending_gpr, if_neg haligned, readMem_withPending hread]
    rfl
  case opSb | opSh | opSw =>
    obtain ⟨m₁, hwrite, h⟩ := bind_eq_ok h
    cases h
    rw [withPending_gpr, writeMem_withPending hwrite]
    rfl
  case opAdd | opAddi | opSub =>
    split at h
    · cases h
    next hfits =>
    cases h
    rw [withPending_gpr, if_neg hfits]
    rfl
  case opDiv | opDivu =>
    split at h
    next hzero =>
      cases h
      rw [withPending_gpr, if_pos hzero]
      rfl
    next hzero =>
      cases h
      rw [withPending_gpr, if_neg hzero]
      rfl
  all_goals
    cases h
    try rfl

end Switch

/-! ### One instruction -/

section Instruction

variable {m m' m'' : Machine} {i j : Instruction}

/-- An instruction that is executed leaves the `switch`. -/
lemma Executes.switch (h : m.Executes i m') :
    ∃ m₁ o, m.Undisturbed m₁ ∧ execute m₁ i = .ok o ∧ m' = finish o := by
  obtain ⟨⟨w, m₁, hfetch, rfl⟩, h⟩ := h
  rw [oneInstruction_of_fetch hfetch] at h
  cases ho : execute m₁ (.decode w) with
  | error e =>
    rw [ho] at h
    cases h
  | ok o =>
    rw [ho] at h
    cases h
    exact ⟨m₁, o, readMem_undisturbed hfetch, ho, rfl⟩

lemma Executes.zero (h : m.Executes i m') : m'.registers.gpr 0 = 0 := by
  obtain ⟨m₁, o, -, -, rfl⟩ := h.switch
  exact o.m.registers.delayedLoad_zero o.nextLoadReg o.nextLoadValue

/-- After a load its value is pending, and the registers are as the load before left them. -/
lemma Executes.load {size : ℕ} (h : m.Executes i m') (hi : i.loadSize = some size) :
    ∃ p, m.BytesAt (m.target i) size p ∧ m'.registers.gpr = m.registers.flush.gpr ∧
      m'.registers.loadReg = i.rt ∧
      m'.registers.loadValue = i.loaded fun j => m.mainMemory (p + j) := by
  obtain ⟨m₁, o, hm, ho, rfl⟩ := h.switch
  obtain ⟨m₂, p, hm₂, hp, rfl⟩ := execute_load hi ho
  have hregs : m₂.registers = m.registers := hm₂.registers.trans hm.registers
  have htarget : m₁.target i = m.target i := by rw [target, target, hm.registers]
  rw [htarget] at hp
  refine ⟨p, hm.bytesAt hp, ?_, rfl, ?_⟩
  · rw [← hregs]
    rfl
  · rw [← hm.mainMemory]
    rfl

/-- The end of the next instruction moves a pending value to its destination. -/
lemma Executes.landed (h : m.Executes i m') :
    m'.registers.gpr m.registers.loadReg =
      if m.registers.loadReg = 0 then 0 else m.registers.loadValue := by
  obtain ⟨m₁, o, hm, ho, rfl⟩ := h.switch
  obtain ⟨hreg, hvalue⟩ := execute_pending ho
  rw [hm.registers] at hreg hvalue
  have hgpr : (finish o).registers.gpr = o.m.registers.flush.gpr := rfl
  rw [hgpr, Registers.flush_gpr_apply, hreg, hvalue, if_pos rfl]

/-- With another value pending the instruction does the same, up to the destination. -/
lemma Executes.unseen (h : m.Executes i m') (hmerge : ¬ i.Merges) (v : Word) :
    (m.withPending v).oneInstruction = .ok (m'.withRegs
      (m'.registers.write m.registers.loadReg (if m.registers.loadReg = 0 then 0 else v))) := by
  obtain ⟨⟨w, m₁, hfetch, rfl⟩, h⟩ := h
  have hfetch' : (m.withPending v).readMem (m.withPending v).registers.pc 4 =
      .ok (w, m₁.withPending v) := readMem_withPending hfetch v
  rw [oneInstruction_of_fetch hfetch] at h
  cases ho : execute m₁ (.decode w) with
  | error e =>
    rw [ho] at h
    cases h
  | ok o =>
    rw [ho] at h
    cases h
    rw [oneInstruction_of_fetch hfetch', execute_withPending hmerge ho v]
    have hreg : o.m.registers.loadReg = m.registers.loadReg :=
      (execute_pending ho).1.trans (congrArg Registers.loadReg (readMem_registers hfetch))
    have hgpr : (finish { o with m := o.m.withPending v }).registers.gpr =
        Function.update (finish o).registers.gpr m.registers.loadReg
          (if m.registers.loadReg = 0 then 0 else v) := by
      funext d
      have hpending : (o.m.withPending v).registers.flush.gpr d =
          if d = 0 then 0 else if d = o.m.registers.loadReg then v else o.m.registers.gpr d :=
        Registers.flush_gpr_apply _ _
      show (o.m.withPending v).registers.flush.gpr d =
        Function.update o.m.registers.flush.gpr m.registers.loadReg _ d
      rw [hpending, Function.update_apply, Registers.flush_gpr_apply, hreg]
      grind
    exact congrArg (fun g => Except.ok ((finish o).withRegs { (finish o).registers with gpr := g }))
      hgpr

/-- A store changes its bytes. -/
lemma Executes.store {size : ℕ} (h : m.Executes i m') (hi : i.storeSize = some size) :
    ∃ p, m.BytesAt (m.target i) size p ∧
      m'.mainMemory = storeBytes m.mainMemory p size (m.registers.gpr i.rt) := by
  obtain ⟨m₁, o, hm, ho, rfl⟩ := h.switch
  obtain ⟨p, hp, hmem⟩ := execute_store hi ho
  have htarget : m₁.target i = m.target i := by rw [target, target, hm.registers]
  rw [htarget] at hp
  rw [hm.mainMemory, hm.registers] at hmem
  exact ⟨p, hm.bytesAt hp, hmem⟩

lemma Executes.mainMemory (h : m.Executes i m') (hi : i.storeSize = none) (hmerge : ¬ i.Merges) :
    m'.mainMemory = m.mainMemory := by
  obtain ⟨m₁, o, hm, ho, rfl⟩ := h.switch
  exact (execute_mainMemory hi hmerge ho).trans hm.mainMemory

end Instruction

/-! ### A sequence of instructions -/

/-- The machines before and after `n` consecutive instructions. -/
def Sequence (n : ℕ) (m : ℕ → Machine) (i : ℕ → Instruction) : Prop :=
  ∀ k < n, (m k).Executes (i k) (m (k + 1))

/-- What the load at `k` does with its value. -/
structure Delivered (n : ℕ) (m : ℕ → Machine) (i : ℕ → Instruction) (k : ℕ) (value : Word) :
    Prop where
  /-- The next instruction finds what the load before has left. -/
  hidden : (m (k + 1)).registers.gpr = (m k).registers.flush.gpr
  /-- It does the same whatever the value is, up to the destination. -/
  unseen : k + 1 < n → ∀ v, ((m (k + 1)).withPending v).oneInstruction = .ok ((m (k + 2)).withRegs
    ((m (k + 2)).registers.write (i k).rt (if (i k).rt = 0 then 0 else v)))
  /-- The second next instruction finds the value in the destination. -/
  landed : k + 1 < n → (m (k + 2)).registers.gpr (i k).rt = if (i k).rt = 0 then 0 else value

/-- **The loads and stores of a sequence**, and its register `r0`. -/
structure LoadsAndStores (n : ℕ) (m : ℕ → Machine) (i : ℕ → Instruction) : Prop where
  load : ∀ k < n, ∀ size, (i k).loadSize = some size →
    ∃ p, (m k).BytesAt ((m k).target (i k)) size p ∧
      Delivered n m i k ((i k).loaded fun j => (m k).mainMemory (p + j))
  store : ∀ k < n, ∀ size, (i k).storeSize = some size →
    ∃ p, (m k).BytesAt ((m k).target (i k)) size p ∧
      ∀ x, (m (k + 1)).mainMemory x =
        if p ≤ x ∧ x < p + size then ((m k).registers.gpr (i k).rt).extractLsb' (8 * (x - p)) 8
        else (m k).mainMemory x
  others : ∀ k < n, (i k).storeSize = none → (m (k + 1)).mainMemory = (m k).mainMemory
  zero : ∀ k ≤ n, (m k).registers.gpr 0 = 0

/-- **Loads are delayed by one instruction**, in every sequence without the forms for unaligned
words: back-to-back loads, to one register or to several, are not an exception. -/
theorem loadsAndStores {n : ℕ} {m : ℕ → Machine} {i : ℕ → Instruction} (h : Sequence n m i)
    (h0 : (m 0).registers.gpr 0 = 0) (hmerge : ∀ k < n, ¬ (i k).Merges) :
    LoadsAndStores n m i where
  load k hk size hi := by
    obtain ⟨p, hp, hgpr, hreg, hvalue⟩ := (h k hk).load hi
    refine ⟨p, hp, hgpr, fun hk' v => ?_, fun hk' => ?_⟩
    · have hunseen := (h (k + 1) hk').unseen (hmerge _ hk') v
      rwa [hreg] at hunseen
    · have hlanded := (h (k + 1) hk').landed
      rwa [hreg, hvalue] at hlanded
  store k hk size hi := by
    obtain ⟨p, hp, hmem⟩ := (h k hk).store hi
    exact ⟨p, hp, fun x => congrFun hmem x⟩
  others k hk hi := (h k hk).mainMemory hi (hmerge k hk)
  zero k hk := by
    cases k with
    | zero => exact h0
    | succ k => exact (h k hk).zero

/-- `lw $2,0($0)` and `addiu $3,$0,5`. -/
theorem loadsAndStores_lw : ∃ m : ℕ → Machine, m 0 = loadThenAdd ∧
    LoadsAndStores 2 m fun k => .decode (if k = 0 then 0x8c020000 else 0x24030005) := by
  obtain ⟨m₁, m₂, h₁, h₂⟩ : ∃ m₁ m₂, loadThenAdd.Executes (.decode 0x8c020000) m₁ ∧
      m₁.Executes (.decode 0x24030005) m₂ :=
    ⟨_, _, ⟨⟨_, _, rfl, rfl⟩, rfl⟩, ⟨⟨_, _, rfl, rfl⟩, rfl⟩⟩
  refine ⟨fun k => if k = 0 then loadThenAdd else if k = 1 then m₁ else m₂, rfl,
    loadsAndStores ?_ rfl ?_⟩
  · intro k hk
    obtain rfl | rfl : k = 0 ∨ k = 1 := by omega
    · exact h₁
    · exact h₂
  · intro k _
    by_cases hk : k = 0
    · subst hk
      unfold Instruction.Merges
      decide
    · simp only [if_neg hk]
      unfold Instruction.Merges
      decide

end Machine

end Nachos.Mips
