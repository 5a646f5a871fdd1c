import Nachos.Mips.Invisible
import Nachos.Mips.Memory

/-!
# Precise exceptions

Every case of the `switch` traps before its first assignment, so `ExceptionHandler` finds the
machine that the instruction found. What differs is that `RaiseException` has applied the pending
load and set `BadVAddrReg`, and that `Translate` may have set bits in the page table.
-/

namespace Nachos.Mips

open OpCode Lib

/-! ### What a trap leaves alone -/

/-- The entry without the bits that `Translate` sets. -/
def TranslationEntry.mapping (e : TranslationEntry) : TranslationEntry :=
  { e with use := false, dirty := false }

namespace Machine

/-- The page table without the bits that `Translate` sets. -/
def mappings (m : Machine) : Option (List TranslationEntry) :=
  m.pageTable.map (List.map TranslationEntry.mapping)

/-- Only bits in the page table have changed. -/
structure Undisturbed (m m' : Machine) : Prop where
  registers : m'.registers = m.registers
  mainMemory : m'.mainMemory = m.mainMemory
  mappings : m'.mappings = m.mappings

/-- The machine on which `RaiseException` calls `ExceptionHandler`. -/
def trapped (m : Machine) (badVAddr : Word) : Machine :=
  m.withRegs ({ m.registers with badVAddr := badVAddr }.delayedLoad 0 0)

lemma Undisturbed.refl (m : Machine) : m.Undisturbed m := ⟨rfl, rfl, rfl⟩

lemma Undisturbed.trans {m m' m'' : Machine} (h : m.Undisturbed m') (h' : m'.Undisturbed m'') :
    m.Undisturbed m'' :=
  ⟨h'.registers.trans h.registers, h'.mainMemory.trans h.mainMemory, h'.mappings.trans h.mappings⟩

/-- `x` traps, if it does, on a machine that `m` has not been changed into. -/
def TrapsOn {α : Type} (m : Machine) (x : Except Stop α) : Prop :=
  ∀ which m', x = .error (.exception which m') →
    ∃ m₁ badVAddr, m.Undisturbed m₁ ∧ m' = m₁.trapped badVAddr

section Traps

variable {m m₁ : Machine} {α β : Type}

lemma trapsOn_raise (which : ExceptionType) (badVAddr : Word) :
    m.TrapsOn (m.raiseException (α := α) which badVAddr) := by
  rintro _ _ h
  cases h
  exact ⟨m, badVAddr, .refl m, rfl⟩

lemma trapsOn_ok (a : α) : m.TrapsOn (pure a) := by
  rintro _ _ h
  cases h

lemma TrapsOn.bind {x : Except Stop α} {f : α → Except Stop β} (hx : m.TrapsOn x)
    (hf : ∀ a, x = .ok a → m.TrapsOn (f a)) : m.TrapsOn (x >>= f) := by
  intro which m' h
  cases x with
  | error e =>
    cases h
    exact hx which m' rfl
  | ok a => exact hf a rfl which m' h

lemma TrapsOn.mono {x : Except Stop α} (h : m.Undisturbed m₁) (hx : m₁.TrapsOn x) :
    m.TrapsOn x := by
  intro which m' e
  obtain ⟨m₂, badVAddr, h₂, rfl⟩ := hx which m' e
  exact ⟨m₂, badVAddr, h.trans h₂, rfl⟩

lemma trapsOn_assert (c : Bool) : m.TrapsOn (assert c) := by
  rintro _ _ h
  cases c <;> cases h

/-- What `Translate` can do: a table that it has set bits in maps as before. -/
lemma translate_cases (m : Machine) (addr : Word) (size : ℕ) (writing : Bool) :
    m.translate addr size writing = .error .assertion ∨
    (∃ which, m.translate addr size writing = .ok (.fault which)) ∨
    ∃ physAddr table, m.translate addr size writing = .ok (.ok physAddr table) ∧
      some (table.map TranslationEntry.mapping) = m.mappings := by
  unfold translate mappings
  split
  · exact .inr (.inl ⟨_, rfl⟩)
  cases m.pageTable with
  | none => exact .inl rfl
  | some table =>
    dsimp only
    split
    next => exact .inr (.inl ⟨_, rfl⟩)
    next entry hentry =>
      split
      · exact .inr (.inl ⟨_, rfl⟩)
      split
      · exact .inr (.inl ⟨_, rfl⟩)
      split
      · exact .inr (.inl ⟨_, rfl⟩)
      by_cases hc : entry.physicalPage.toNat * pageSize + addr.toNat % pageSize + size ≤ memorySize
      · refine .inr (.inr ⟨_, _, by rw [assert, decide_eq_true hc]; rfl, ?_⟩)
        obtain ⟨hlt, rfl⟩ := List.getElem?_eq_some_iff.1 hentry
        refine congrArg some ?_
        rw [List.map_set]
        exact (congrArg _ (List.getElem_map TranslationEntry.mapping).symm).trans
          (List.set_getElem_self (by rwa [List.length_map]))
      · exact .inl (by rw [assert, decide_eq_false hc]; rfl)

lemma trapsOn_readMem (addr : Word) (size : ℕ) : m.TrapsOn (m.readMem addr size) := by
  unfold readMem
  obtain ht | ⟨which, ht⟩ | ⟨physAddr, table, ht, -⟩ := m.translate_cases addr size false
  · rw [ht]
    rintro _ _ h
    cases h
  · rw [ht]
    exact trapsOn_raise which addr
  · rw [ht]
    simp only [bind, Except.bind]
    rintro _ _ h
    split at h <;> cases h

lemma trapsOn_writeMem (addr : Word) (size : ℕ) (v : Word) :
    m.TrapsOn (m.writeMem addr size v) := by
  unfold writeMem
  obtain ht | ⟨which, ht⟩ | ⟨physAddr, table, ht, -⟩ := m.translate_cases addr size true
  · rw [ht]
    rintro _ _ h
    cases h
  · rw [ht]
    exact trapsOn_raise which addr
  · rw [ht]
    exact (trapsOn_assert _).bind fun _ _ => trapsOn_ok _

lemma readMem_undisturbed {addr v : Word} {size : ℕ} (h : m.readMem addr size = .ok (v, m₁)) :
    m.Undisturbed m₁ := by
  unfold readMem at h
  obtain ht | ⟨which, ht⟩ | ⟨physAddr, table, ht, hmap⟩ := m.translate_cases addr size false
  · rw [ht] at h
    cases h
  · rw [ht] at h
    cases h
  · rw [ht] at h
    simp only [bind, Except.bind] at h
    split at h <;> cases h
    all_goals exact ⟨rfl, rfl, hmap⟩

/-- An access that succeeds has gone through a page table. -/
lemma readMem_table {addr v : Word} {size : ℕ} (h : m.readMem addr size = .ok (v, m₁)) :
    ∃ table, m.pageTable = some table := by
  unfold readMem at h
  obtain ht | ⟨which, ht⟩ | ⟨physAddr, table, ht, hmap⟩ := m.translate_cases addr size false
  · rw [ht] at h
    cases h
  · rw [ht] at h
    cases h
  · obtain ⟨t, ht', -⟩ := Option.map_eq_some_iff.1 hmap.symm
    exact ⟨t, ht'⟩

lemma writeMem_table {addr v : Word} {size : ℕ} (h : m.writeMem addr size v = .ok m₁) :
    ∃ table, m.pageTable = some table := by
  unfold writeMem at h
  obtain ht | ⟨which, ht⟩ | ⟨physAddr, table, ht, hmap⟩ := m.translate_cases addr size true
  · rw [ht] at h
    cases h
  · rw [ht] at h
    cases h
  · obtain ⟨t, ht', -⟩ := Option.map_eq_some_iff.1 hmap.symm
    exact ⟨t, ht'⟩

end Traps

/-- **Every case of the `switch` traps before it changes anything.** -/
theorem trapsOn_execute (m : Machine) (i : Instruction) : m.TrapsOn (execute m i) := by
  have hload : ∀ {addr : Word} {size : ℕ} (f : Word × Machine → Outcome),
      m.TrapsOn (m.readMem addr size >>= fun p => pure (f p)) := fun f =>
    (trapsOn_readMem _ _).bind fun _ _ => trapsOn_ok _
  have hstore : ∀ {addr v : Word} {size : ℕ} (m : Machine),
      m.TrapsOn (m.writeMem addr size v >>= fun m => pure (m.done m.registers)) := fun _ =>
    (trapsOn_writeMem _ _ _).bind fun _ _ => trapsOn_ok _
  cases hop : i.opCode <;> simp only [execute, hop]
  case opAdd | opAddi | opSub | opLh | opLhu | opLw =>
    split
    · exact trapsOn_raise _ _
    · first
      | exact trapsOn_ok _
      | exact hload _
  case opDiv | opDivu => split <;> exact trapsOn_ok _
  case opLb | opLbu => exact hload _
  case opLwl | opLwr => exact (trapsOn_assert _).bind fun _ _ => hload _
  case opSb | opSh | opSw => exact hstore m
  -- the word is read before it is written
  case opSwl | opSwr =>
    exact (trapsOn_assert _).bind fun _ _ => (trapsOn_readMem _ _).bind fun p hp =>
      (hstore p.2).mono (readMem_undisturbed hp)
  case opSyscall | opRes | opUnimp => exact trapsOn_raise _ _
  case opRfe | special | bcond =>
    rintro _ _ h
    cases h
  all_goals exact trapsOn_ok _

/-! ### The restart -/

/-- A translation does not look at the bits that `Translate` sets. -/
lemma resolve_congr {table table' : List TranslationEntry}
    (h : table'.map TranslationEntry.mapping = table.map TranslationEntry.mapping) (addr : Word)
    (size : ℕ) (writing : Bool) :
    resolve table' addr size writing = resolve table addr size writing := by
  have hmapping : ∀ t : List TranslationEntry,
      resolve (t.map TranslationEntry.mapping) addr size writing = resolve t addr size writing := by
    intro t
    unfold resolve
    rw [List.getElem?_map]
    cases t[pageOf addr]? <;> rfl
  rw [← hmapping table', h, hmapping]

/-- The word at `PCReg` is the same one. -/
lemma refetch {m m' m₁ : Machine} {addr w : Word} (hmem : m'.mainMemory = m.mainMemory)
    (hmap : m'.mappings = m.mappings) (h : m.readMem addr 4 = .ok (w, m₁)) :
    ∃ m₂, m'.readMem addr 4 = .ok (w, m₂) := by
  have hsize : IsSize 4 := .inr (.inr rfl)
  obtain ⟨table, ht⟩ := readMem_table h
  rw [mappings, mappings, ht] at hmap
  obtain ⟨table', ht', hmap⟩ := Option.map_eq_some_iff.1 hmap
  have hresolve := resolve_congr hmap addr 4 false
  obtain ⟨e, -, hr, rfl, -⟩ := readMem_eq_ok ht hsize h
  rw [← hmem]
  exact ⟨_, readMem_of_resolve ht' hsize (hresolve.trans hr)⟩

/-- A trap leaves nothing to do for another one. -/
lemma trapped_trapped (m : Machine) (badVAddr : Word) :
    (m.trapped badVAddr).trapped badVAddr = m.trapped badVAddr :=
  congrArg m.withRegs ({ m.registers with badVAddr := badVAddr } : Registers).flush_flush

/-- A fetch that has trapped traps again. -/
lemma refault {m m' : Machine} {addr : Word} {size : ℕ} {which : ExceptionType}
    (h : m.readMem addr size = .error (.exception which m')) :
    m'.readMem addr size = .error (.exception which m') := by
  unfold readMem at h
  obtain ht | ⟨which, ht⟩ | ⟨physAddr, table, ht, -⟩ := m.translate_cases addr size false
  · rw [ht] at h
    cases h
  · rw [ht] at h
    cases h
    have ht' : (m.trapped addr).translate addr size false = .ok (.fault which) := ht
    have hagain : (m.trapped addr).readMem addr size =
        .error (.exception which ((m.trapped addr).trapped addr)) := by
      rw [readMem, ht']
      rfl
    rwa [trapped_trapped] at hagain
  · rw [ht] at h
    simp only [bind, Except.bind] at h
    split at h <;> cases h

/-- **What `ExceptionHandler` finds**, when the instruction that was started on `m` has trapped. -/
structure Precise (m m' : Machine) (which : ExceptionType) : Prop where
  /-- The pending load has been completed. -/
  gpr : ∀ n, m'.registers.gpr n =
    if n ≠ 0 ∧ n = m.registers.loadReg then m.registers.loadValue else m.registers.gpr n
  loadReg : m'.registers.loadReg = 0
  hi : m'.registers.hi = m.registers.hi
  lo : m'.registers.lo = m.registers.lo
  pc : m'.registers.pc = m.registers.pc
  nextPC : m'.registers.nextPC = m.registers.nextPC
  prevPC : m'.registers.prevPC = m.registers.prevPC
  mainMemory : m'.mainMemory = m.mainMemory
  mappings : m'.mappings = m.mappings
  /-- The same instruction is executed again, on this machine. -/
  restart : ∀ w m₁, m.readMem m.registers.pc 4 = .ok (w, m₁) →
    ∃ m₂, m'.readMem m'.registers.pc 4 = .ok (w, m₂) ∧
      m'.oneInstruction = (execute m₂ (.decode w)).map finish
  /-- When the fetch has trapped it does so again. -/
  refault : ∀ e, m.readMem m.registers.pc 4 = .error e →
    m'.oneInstruction = .error (.exception which m')

/-- **Exceptions are precise.** -/
theorem precise {m m' : Machine} {which : ExceptionType} (h0 : m.registers.gpr 0 = 0)
    (h : m.oneInstruction = .error (.exception which m')) : m.Precise m' which := by
  have htraps : m.TrapsOn m.oneInstruction :=
    (trapsOn_readMem _ _).bind fun p hp =>
      ((trapsOn_execute p.2 _).mono (readMem_undisturbed hp)).bind fun _ _ => trapsOn_ok _
  obtain ⟨m₁, badVAddr, hm, rfl⟩ := htraps which m' h
  have hpc : (m₁.trapped badVAddr).registers.pc = m.registers.pc :=
    (congrArg Registers.pc hm.registers :)
  exact
    { gpr := by
        intro n
        have hgpr : (m₁.trapped badVAddr).registers.gpr n = m₁.registers.flush.gpr n := rfl
        rw [hgpr, Registers.flush_gpr_apply, hm.registers]
        by_cases hn : n = 0
        · rw [if_pos hn, if_neg fun h => h.1 hn, hn, h0]
        · rw [if_neg hn]
          simp only [ne_eq, hn, not_false_eq_true, true_and]
      loadReg := rfl
      hi := (congrArg Registers.hi hm.registers :)
      lo := (congrArg Registers.lo hm.registers :)
      pc := hpc
      nextPC := (congrArg Registers.nextPC hm.registers :)
      prevPC := (congrArg Registers.prevPC hm.registers :)
      mainMemory := hm.mainMemory
      mappings := hm.mappings
      restart := by
        intro w m₂ hw
        obtain ⟨m₃, hfetch⟩ := @refetch m (m₁.trapped badVAddr) _ _ _
          hm.mainMemory hm.mappings hw
        rw [← hpc] at hfetch
        exact ⟨m₃, hfetch, oneInstruction_of_fetch hfetch⟩
      refault := by
        intro e he
        have he' : e = .exception which (m₁.trapped badVAddr) := by
          rw [oneInstruction, he] at h
          cases h
          rfl
        subst he'
        have := Machine.refault he
        rw [oneInstruction, hpc, this]
        rfl }

/-- `syscall`, with a load of `$2` pending. -/
def syscallAfterLoad : Machine :=
  let m := boot (fun _ => 0) 0x0000000c
  m.withRegs { m.registers with loadReg := 2, loadValue := 7 }

theorem precise_syscall : ∃ m',
    syscallAfterLoad.oneInstruction = .error (.exception .syscallException m') ∧
    syscallAfterLoad.Precise m' .syscallException := by
  obtain ⟨m', hm'⟩ : ∃ m', syscallAfterLoad.oneInstruction =
    .error (.exception .syscallException m') := ⟨_, rfl⟩
  exact ⟨m', hm', precise rfl hm'⟩

end Machine

end Nachos.Mips
