import Nachos.Mips.LoadDelay

/-!
# The loads and stores of a part of a word

`LWL`, `LWR`, `SWL` and `SWR` are there for words at any address, in pairs: one for the upper part
of the word and one for the lower part. The simulator has a case for each alignment, and an
`ASSERT` before them that lets only the aligned one through. The two instructions of a pair are
never both aligned.
-/

namespace Nachos.Mips

open OpCode Lib

/-! ### What is merged at an aligned address -/

section Merge

variable {tmp : Word} (h : tmp &&& 3 = 0) (old value rt : Word)

include h

lemma mergeLwl_aligned : mergeLwl tmp old value = value := by
  rw [mergeLwl, h]
  rfl

/-- `OP_LWR` puts the upper byte of the word into the lower byte of the register. -/
lemma mergeLwr_aligned :
    mergeLwr tmp old value = old.extractLsb' 8 24 ++ value.extractLsb' 24 8 := by
  have hmerge : mergeLwr tmp old value =
      (old &&& 0xffffff00) ||| (value.sshiftRight 24 &&& 0xff) := by
    rw [mergeLwr, h]
    rfl
  rw [hmerge]
  refine BitVec.eq_of_getLsbD_eq fun i hi => ?_
  have hhigh : (0xffffff00 : Word) = BitVec.allOnes 24 ++ 0#8 := by decide
  have hlow : (0xff : Word) = 0#24 ++ BitVec.allOnes 8 := by decide
  rw [hhigh, hlow]
  simp only [BitVec.getLsbD_or, BitVec.getLsbD_and, BitVec.getLsbD_append,
    BitVec.getLsbD_extractLsb', BitVec.getLsbD_sshiftRight, BitVec.getLsbD_allOnes]
  by_cases hi' : i < 8
  · simp [hi', show 24 + i < 32 by omega, show ¬ 32 ≤ i by omega]
  · simp [hi', show i - 8 < 24 by omega, show 8 + (i - 8) = i by omega]

lemma mergeSwl_aligned : mergeSwl tmp rt value = rt := by
  rw [mergeSwl, h]
  rfl

/-- `OP_SWR` puts the lower byte of the register into the upper byte of the word. -/
lemma mergeSwr_aligned :
    mergeSwr tmp rt value = rt.extractLsb' 0 8 ++ value.extractLsb' 0 24 := by
  have hmerge : mergeSwr tmp rt value = (value &&& (0xffffff : Word)) ||| (rt <<< 24) := by
    rw [mergeSwr, h]
    rfl
  rw [hmerge]
  refine BitVec.eq_of_getLsbD_eq fun i hi => ?_
  have hlow : (0xffffff : Word) = 0#8 ++ BitVec.allOnes 24 := by decide
  rw [hlow]
  simp only [BitVec.getLsbD_or, BitVec.getLsbD_and, BitVec.getLsbD_append,
    BitVec.getLsbD_extractLsb', BitVec.getLsbD_shiftLeft, BitVec.getLsbD_allOnes]
  by_cases hi' : i < 24
  · simp [hi']
  · simp [hi', hi, show i - 24 < 8 by omega]

end Merge

namespace Machine

/-- Of the word that `OP_SWR` writes back, the last byte is new. -/
lemma storeBytes_swr (mem : ℕ → Byte) (p : ℕ) (rt : Word) :
    storeBytes mem p 4 (rt.extractLsb' 0 8 ++ (readLong mem p).extractLsb' 0 24) =
      Function.update mem (p + 3) (rt.extractLsb' 0 8) := by
  funext x
  by_cases hx : p ≤ x ∧ x < p + 4
  · obtain ⟨k, hk, rfl⟩ : ∃ k < 4, x = p + k := ⟨x - p, by omega, by omega⟩
    rw [storeBytes_apply_add hk]
    obtain rfl | hlt : k = 3 ∨ k < 3 := by omega
    · rw [Function.update_self]
      refine BitVec.eq_of_getLsbD_eq fun i hi => ?_
      simp only [BitVec.getLsbD_extractLsb', hi, decide_true, Bool.true_and, BitVec.getLsbD_append,
        show ¬ 8 * 3 + i < 24 by omega, if_false, Nat.zero_add]
      simp [hi]
    · rw [Function.update_of_ne (by omega)]
      refine BitVec.eq_of_getLsbD_eq fun i hi => ?_
      have hbyte : 8 * k + i < 24 := by omega
      simp only [BitVec.getLsbD_append, BitVec.getLsbD_extractLsb', readLong, hi, hbyte,
        Nat.zero_add, decide_true, Bool.true_and, if_true]
      obtain rfl | rfl | rfl : k = 0 ∨ k = 1 ∨ k = 2 := by omega
      · simp [hi]
      · simp [hi, show ¬ 8 + i < 8 by omega]
      · simp [show ¬ 16 + i < 8 by omega, show ¬ 16 + i - 8 < 8 by omega,
          show 16 + i - 8 - 8 = i by omega, hi]
  · rw [storeBytes_of_notMem hx, Function.update_of_ne (by omega)]

/-- The upper byte of a word in memory is its last one. -/
lemma readLong_high (mem : ℕ → Byte) (p : ℕ) :
    (readLong mem p).extractLsb' 24 8 = mem (p + 3) := by
  refine BitVec.eq_of_getLsbD_eq fun i hi => ?_
  simp only [readLong, BitVec.getLsbD_extractLsb', hi, decide_true, Bool.true_and,
    BitVec.getLsbD_append, show ¬ 24 + i < 8 by omega, show ¬ 24 + i - 8 < 8 by omega,
    show ¬ 24 + i - 8 - 8 < 8 by omega, if_false]
  exact congrArg _ (by omega)

/-! ### One of the four instructions -/

/-- The instruction that the machine is about to execute. -/
def Fetches (m : Machine) (i : Instruction) : Prop :=
  ∃ w m₁, m.readMem m.registers.pc 4 = .ok (w, m₁) ∧ i = .decode w

/-- **What the forms for unaligned words do**: they take aligned addresses only. -/
structure AlignedOnly (m : Machine) (i : Instruction) : Prop where
  /-- The `ASSERT` fails at the other addresses, and no assertion fails at these. -/
  stops : m.oneInstruction = .error .assertion ↔ (m.target i).toNat % 4 ≠ 0
  lwl : i.opCode = opLwl → ∀ m', m.oneInstruction = .ok m' → ∃ p, m.BytesAt (m.target i) 4 p ∧
    m'.registers.loadReg = i.rt ∧ m'.registers.loadValue = readLong m.mainMemory p ∧
    m'.mainMemory = m.mainMemory
  lwr : i.opCode = opLwr → ∀ m', m.oneInstruction = .ok m' → ∃ p, m.BytesAt (m.target i) 4 p ∧
    m'.registers.loadReg = i.rt ∧
    m'.registers.loadValue = (m.loadBase i.rt).extractLsb' 8 24 ++ m.mainMemory (p + 3) ∧
    m'.mainMemory = m.mainMemory
  swl : i.opCode = opSwl → ∀ m', m.oneInstruction = .ok m' → ∃ p, m.BytesAt (m.target i) 4 p ∧
    m'.mainMemory = storeBytes m.mainMemory p 4 (m.registers.gpr i.rt)
  swr : i.opCode = opSwr → ∀ m', m.oneInstruction = .ok m' → ∃ p, m.BytesAt (m.target i) 4 p ∧
    m'.mainMemory =
      Function.update m.mainMemory (p + 3) ((m.registers.gpr i.rt).extractLsb' 0 8)
  /-- Of the two instructions for one word the second one stops, if the first has not. -/
  pair : ∀ a, i.opCode = opLwl ∨ i.opCode = opSwl → m.target i = a + 3 →
    ∀ m', m.oneInstruction = .ok m' → ∀ j, m'.Fetches j → j.opCode = opLwr ∨ j.opCode = opSwr →
      m'.target j = a → m'.oneInstruction = .error .assertion

section Switch

variable {m m₁ : Machine} {i : Instruction} {o : Outcome}

lemma assert_aligned {tmp : Word} (h : tmp.toNat % 4 = 0) :
    assert (tmp &&& 3 == 0) = .ok () := by
  rw [(and_three tmp).2 h]
  rfl

lemma assert_unaligned {tmp : Word} (h : tmp.toNat % 4 ≠ 0) :
    assert (tmp &&& 3 == 0) = .error .assertion := by
  have hne : (tmp &&& 3 == 0) = false := by
    rw [beq_eq_false_iff_ne]
    exact fun heq => h ((and_three tmp).1 heq)
  rw [hne]
  rfl

/-- The `ASSERT` comes before everything else. -/
lemma execute_unaligned (hi : i.Merges) (h : (m.target i).toNat % 4 ≠ 0) :
    execute m i = .error .assertion := by
  have hassert := assert_unaligned h
  unfold target at hassert
  rcases hi with hop | hop | hop | hop <;> simp only [execute, hop, hassert] <;> rfl

/-- The mask that leads to the word of a byte. -/
lemma aligned_mask {tmp : Word} (h : tmp.toNat % 4 = 0) : tmp &&& ~~~3 = tmp := by
  refine BitVec.eq_of_getLsbD_eq fun i hi => ?_
  have hbit := congrArg (fun w : Word => w.getLsbD i) ((and_three tmp).2 h)
  simp only [BitVec.getLsbD_and, BitVec.getLsbD_not, hi, decide_true, Bool.true_and] at hbit ⊢
  cases htmp : tmp.getLsbD i with
  | false => rfl
  | true =>
    rw [htmp] at hbit
    simpa using hbit

/-- No assertion fails in an access of a word. -/
lemma readMem_ne_assertion {table : List TranslationEntry} (ht : m.pageTable = some table)
    (addr : Word) : m.readMem addr 4 ≠ .error .assertion := by
  rw [readMem_eq ht (.inr (.inr rfl))]
  cases resolve table addr 4 false <;> nofun

lemma writeMem_ne_assertion {table : List TranslationEntry} (ht : m.pageTable = some table)
    (addr v : Word) : m.writeMem addr 4 v ≠ .error .assertion := by
  rw [writeMem_eq ht (.inr (.inr rfl))]
  cases resolve table addr 4 true <;> nofun

/-- **At an aligned address**: a load reads the word there and leaves `merge` of it pending, a store
writes `merge` of it back. -/
lemma execute_aligned (h : (m.target i).toNat % 4 = 0) :
    (i.opCode = opLwl → execute m i = (do
      let (value, m) ← m.readMem (m.target i) 4
      pure (m.load i.rt value))) ∧
    (i.opCode = opLwr → execute m i = (do
      let (value, m) ← m.readMem (m.target i) 4
      pure (m.load i.rt ((m.loadBase i.rt).extractLsb' 8 24 ++ value.extractLsb' 24 8)))) ∧
    (i.opCode = opSwl → execute m i = (do
      let (_, m₁) ← m.readMem (m.target i) 4
      let m₂ ← m₁.writeMem (m.target i) 4 (m.registers.gpr i.rt)
      pure (m₂.done m₂.registers))) ∧
    (i.opCode = opSwr → execute m i = (do
      let (value, m₁) ← m.readMem (m.target i) 4
      let m₂ ← m₁.writeMem (m.target i) 4
        ((m.registers.gpr i.rt).extractLsb' 0 8 ++ value.extractLsb' 0 24)
      pure (m₂.done m₂.registers))) := by
  have hassert := assert_aligned h
  have hthree := (and_three _).2 h
  have hmask := aligned_mask h
  unfold target at hassert hthree hmask ⊢
  refine ⟨fun hop => ?_, fun hop => ?_, fun hop => ?_, fun hop => ?_⟩
  · simp only [execute, hop, hassert, mergeLwl_aligned hthree]
    rfl
  · simp only [execute, hop, hassert, mergeLwr_aligned hthree]
    rfl
  · simp only [execute, hop, hassert, hmask, mergeSwl_aligned hthree]
    rfl
  · simp only [execute, hop, hassert, hmask, mergeSwr_aligned hthree]
    rfl

/-- An aligned access of a word fails with an exception only. -/
lemma execute_ne_assertion {table : List TranslationEntry} (ht : m.pageTable = some table)
    (hi : i.Merges) (h : (m.target i).toNat % 4 = 0) : execute m i ≠ .error .assertion := by
  have hread := readMem_ne_assertion ht (m.target i)
  have hwrite : ∀ v m₁ w, m.readMem (m.target i) 4 = .ok (v, m₁) →
      m₁.writeMem (m.target i) 4 w ≠ .error .assertion := by
    intro v m₁ w hr
    rw [readMem_eq ht (.inr (.inr rfl))] at hr
    split at hr <;> cases hr
    exact writeMem_ne_assertion rfl _ w
  obtain ⟨hlwl, hlwr, hswl, hswr⟩ := execute_aligned h
  rcases hi with hop | hop | hop | hop
  · rw [hlwl hop]
    exact bind_ne_error hread fun _ _ => nofun
  · rw [hlwr hop]
    exact bind_ne_error hread fun _ _ => nofun
  · rw [hswl hop]
    exact bind_ne_error hread fun r hr => bind_ne_error (hwrite r.1 r.2 _ hr) fun _ _ => nofun
  · rw [hswr hop]
    exact bind_ne_error hread fun r hr => bind_ne_error (hwrite r.1 r.2 _ hr) fun _ _ => nofun

end Switch

/-- An instruction that is fetched is executed on a machine that has only set bits. -/
lemma Fetches.switch {m : Machine} {i : Instruction} (h : m.Fetches i) :
    ∃ m₁ table, m.Undisturbed m₁ ∧ m₁.pageTable = some table ∧
      m.oneInstruction = (execute m₁ i).map finish := by
  obtain ⟨w, m₁, hfetch, rfl⟩ := h
  obtain ⟨table, ht⟩ := readMem_table hfetch
  refine ⟨m₁, marked table m.registers.pc false, readMem_undisturbed hfetch, ?_,
    oneInstruction_of_fetch hfetch⟩
  rw [readMem_eq ht (.inr (.inr rfl))] at hfetch
  split at hfetch <;> cases hfetch
  rfl

section Forms

variable {m m' : Machine} {i : Instruction}

lemma map_eq_error {x : Except Stop Outcome} {e : Stop} :
    x.map finish = .error e ↔ x = .error e := by
  cases x with
  | error e' => exact ⟨fun h => congrArg Except.error (Except.error.inj h), fun h => by rw [h]; rfl⟩
  | ok o => exact iff_of_false nofun nofun

/-- **The gate**: the `ASSERT` fails exactly when the address is not aligned. -/
lemma stops_iff (h : m.Fetches i) (hi : i.Merges) :
    m.oneInstruction = .error .assertion ↔ (m.target i).toNat % 4 ≠ 0 := by
  obtain ⟨m₁, table, hm, ht, hone⟩ := h.switch
  have htarget : m₁.target i = m.target i := by rw [target, target, hm.registers]
  rw [hone, map_eq_error, ← htarget]
  by_cases ha : (m₁.target i).toNat % 4 = 0
  · exact iff_of_false (execute_ne_assertion ht hi ha) (not_not.2 ha)
  · exact iff_of_true (execute_unaligned hi ha) ha

lemma aligned_of_ok (h : m.Fetches i) (hi : i.Merges) (hone : m.oneInstruction = .ok m') :
    (m.target i).toNat % 4 = 0 := by
  by_contra ha
  rw [(stops_iff h hi).2 ha] at hone
  cases hone

/-- One of them that completes has left the `switch`, at an aligned address. -/
lemma completed (h : m.Fetches i) (hi : i.Merges) (hone : m.oneInstruction = .ok m') :
    ∃ m₁ o, m.Undisturbed m₁ ∧ (m₁.target i).toNat % 4 = 0 ∧ m₁.target i = m.target i ∧
      execute m₁ i = .ok o ∧ m' = finish o := by
  have ha := aligned_of_ok h hi hone
  obtain ⟨m₁, -, hm, -, heq⟩ := h.switch
  have htarget : m₁.target i = m.target i := by rw [target, target, hm.registers]
  rw [heq] at hone
  cases hx : execute m₁ i with
  | error e =>
    rw [hx] at hone
    cases hone
  | ok o =>
    rw [hx] at hone
    cases hone
    exact ⟨m₁, o, hm, htarget ▸ ha, htarget, hx, rfl⟩

lemma lwl_loads (h : m.Fetches i) (hop : i.opCode = opLwl) (hone : m.oneInstruction = .ok m') :
    ∃ p, m.BytesAt (m.target i) 4 p ∧ m'.registers.loadReg = i.rt ∧
      m'.registers.loadValue = readLong m.mainMemory p ∧ m'.mainMemory = m.mainMemory := by
  obtain ⟨m₁, o, hm, ha, htarget, ho, rfl⟩ := completed h (.inl hop) hone
  rw [(execute_aligned ha).1 hop] at ho
  obtain ⟨⟨v, m₂⟩, hread, ho⟩ := bind_eq_ok ho
  cases ho
  obtain ⟨hm₂, p, hp, rfl⟩ := readMem_bytes (.inr (.inr rfl)) hread
  rw [htarget] at hp
  refine ⟨p, hm.bytesAt hp, rfl, ?_, hm₂.mainMemory.trans hm.mainMemory⟩
  rw [← hm.mainMemory]
  rfl

lemma lwr_loads (h : m.Fetches i) (hop : i.opCode = opLwr) (hone : m.oneInstruction = .ok m') :
    ∃ p, m.BytesAt (m.target i) 4 p ∧ m'.registers.loadReg = i.rt ∧
      m'.registers.loadValue = (m.loadBase i.rt).extractLsb' 8 24 ++ m.mainMemory (p + 3) ∧
      m'.mainMemory = m.mainMemory := by
  obtain ⟨m₁, o, hm, ha, htarget, ho, rfl⟩ := completed h (.inr (.inl hop)) hone
  rw [(execute_aligned ha).2.1 hop] at ho
  obtain ⟨⟨v, m₂⟩, hread, ho⟩ := bind_eq_ok ho
  cases ho
  obtain ⟨hm₂, p, hp, rfl⟩ := readMem_bytes (.inr (.inr rfl)) hread
  rw [htarget] at hp
  refine ⟨p, hm.bytesAt hp, rfl, ?_, hm₂.mainMemory.trans hm.mainMemory⟩
  have hbase : m₂.loadBase i.rt = m.loadBase i.rt := by
    rw [loadBase, loadBase, hm₂.registers, hm.registers]
  rw [← hbase, ← hm.mainMemory]
  exact congrArg (_ ++ ·) (readLong_high m₁.mainMemory p)

lemma swl_stores (h : m.Fetches i) (hop : i.opCode = opSwl) (hone : m.oneInstruction = .ok m') :
    ∃ p, m.BytesAt (m.target i) 4 p ∧
      m'.mainMemory = storeBytes m.mainMemory p 4 (m.registers.gpr i.rt) := by
  obtain ⟨m₁, o, hm, ha, htarget, ho, rfl⟩ := completed h (.inr (.inr (.inl hop))) hone
  rw [(execute_aligned ha).2.2.1 hop] at ho
  obtain ⟨⟨v, m₂⟩, hread, ho⟩ := bind_eq_ok ho
  obtain ⟨m₃, hwrite, ho⟩ := bind_eq_ok ho
  cases ho
  have hm₂ := readMem_undisturbed hread
  obtain ⟨-, p, hp, hmem⟩ := writeMem_bytes (.inr (.inr rfl)) hwrite
  rw [htarget] at hp
  rw [hm₂.mainMemory, hm.mainMemory, hm.registers] at hmem
  exact ⟨p, hm.bytesAt (hm₂.bytesAt hp), hmem⟩

lemma swr_stores (h : m.Fetches i) (hop : i.opCode = opSwr) (hone : m.oneInstruction = .ok m') :
    ∃ p, m.BytesAt (m.target i) 4 p ∧ m'.mainMemory =
      Function.update m.mainMemory (p + 3) ((m.registers.gpr i.rt).extractLsb' 0 8) := by
  obtain ⟨m₁, o, hm, ha, htarget, ho, rfl⟩ := completed h (.inr (.inr (.inr hop))) hone
  rw [(execute_aligned ha).2.2.2 hop] at ho
  obtain ⟨⟨v, m₂⟩, hread, ho⟩ := bind_eq_ok ho
  obtain ⟨m₃, hwrite, ho⟩ := bind_eq_ok ho
  cases ho
  obtain ⟨hm₂, q, hq, rfl⟩ := readMem_bytes (.inr (.inr rfl)) hread
  obtain ⟨-, p, hp, hmem⟩ := writeMem_bytes (.inr (.inr rfl)) hwrite
  -- the word is written where it was read
  have heq : p = q := by
    have hfirst := (physical_congr hm₂.mappings).symm.trans (hp 0 (by decide))
    exact Nat.add_right_cancel (Option.some.inj (hfirst.symm.trans (hq 0 (by decide))))
  subst heq
  rw [htarget] at hp
  refine ⟨p, hm.bytesAt (hm₂.bytesAt hp), hmem.trans ?_⟩
  rw [hm₂.mainMemory, hm.mainMemory, hm.registers]
  exact storeBytes_swr m.mainMemory p (m.registers.gpr i.rt)

/-- **The forms for unaligned words take aligned addresses only**, so that the two instructions
for one word never both complete. -/
theorem alignedOnly (h : m.Fetches i) (hi : i.Merges) : AlignedOnly m i where
  stops := stops_iff h hi
  lwl hop _ hone := lwl_loads h hop hone
  lwr hop _ hone := lwr_loads h hop hone
  swl hop _ hone := swl_stores h hop hone
  swr hop _ hone := swr_stores h hop hone
  pair a hop htarget m' hone j hj hjop htarget' := by
    have hfirst := aligned_of_ok h hi hone
    have hj' : j.Merges := hjop.elim (fun h => .inr (.inl h)) fun h => .inr (.inr (.inr h))
    refine (stops_iff hj hj').2 ?_
    rw [htarget, BitVec.toNat_add] at hfirst
    rw [htarget']
    have hthree : (3 : Word).toNat = 3 := rfl
    omega

/-- `lwl $2,3($0)` on a machine whose first page is mapped. -/
theorem alignedOnly_lwl : AlignedOnly (boot (fun _ => 0) 0x88020003) (.decode 0x88020003) :=
  alignedOnly ⟨_, _, rfl, rfl⟩ (.inl rfl)

/-- The bytes from 0 to 3 are mapped, and the first instruction for them stops the machine. -/
theorem not_unaligned : ¬ ∀ (m : Machine) (i : Instruction) (a : Word), m.Fetches i →
    i.opCode = opLwl → m.target i = a + 3 →
    (∀ k < 4, (m.physical (a + BitVec.ofNat 32 k)).isSome) → ∃ m', m.oneInstruction = .ok m' := by
  intro h
  obtain ⟨m', hone⟩ := h (boot (fun _ => 0) 0x88020003) (.decode 0x88020003) 0 ⟨_, _, rfl, rfl⟩
    rfl rfl (by decide +kernel)
  have hstop : (boot (fun _ => 0) 0x88020003).oneInstruction = .error .assertion := rfl
  rw [hstop] at hone
  cases hone

end Forms

end Machine

end Nachos.Mips
