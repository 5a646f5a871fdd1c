import Mathlib.Data.List.Nodup
import Nachos.Mips.Defs

/-!
# User memory behaves as memory

`resolve` is `Translate` as a function of the page table alone: an exception, or a physical
address. With it `ReadMem` is a load and `WriteMem` a store at that address. An aligned access
does not leave its page, and the pages of a table with distinct frames do not overlap.
-/

namespace Nachos.Mips

/-! ### Translation -/

/-- The sizes of an access. -/
def IsSize (size : ℕ) : Prop := size = 1 ∨ size = 2 ∨ size = 4

/-- The page of a virtual address, and the offset in it. -/
def pageOf (addr : Word) : ℕ := addr.toNat / pageSize
def offsetOf (addr : Word) : ℕ := addr.toNat % pageSize

/-- The frame of an entry. -/
def TranslationEntry.frame (e : TranslationEntry) : ℕ := e.physicalPage.toNat

/-- **What `Translate` computes**: the exception, or the physical address. -/
def resolve (table : List TranslationEntry) (addr : Word) (size : ℕ) (writing : Bool) :
    Except ExceptionType ℕ :=
  if addr.toNat % size ≠ 0 then .error .addressErrorException
  else match table[pageOf addr]? with
  | none => .error .addressErrorException
  | some e =>
    if e.valid = false then .error .pageFaultException
    else if (e.readOnly && writing) = true then .error .readOnlyException
    else if e.frame < numPhysPages then .ok (e.frame * pageSize + offsetOf addr)
    else .error .busErrorException

/-- The table with the bits that `Translate` sets. -/
def marked (table : List TranslationEntry) (addr : Word) (writing : Bool) : List TranslationEntry :=
  table.modify (pageOf addr) fun e => { e with use := true, dirty := e.dirty || writing }

/-- `Translate` has found an entry for the access. -/
structure Hit (table : List TranslationEntry) (addr : Word) (size : ℕ) (e : TranslationEntry) :
    Prop where
  entry : table[pageOf addr]? = some e
  aligned : addr.toNat % size = 0
  valid : e.valid = true
  frame : e.frame < numPhysPages

section Translate

variable {m : Machine} {table : List TranslationEntry} {addr : Word} {size : ℕ} {writing : Bool}

lemma and_three (w : Word) : w &&& 3 = 0 ↔ w.toNat % 4 = 0 := by
  rw [← BitVec.toNat_inj, BitVec.toNat_and]
  exact Iff.of_eq (congrArg (· = 0) (Nat.and_two_pow_sub_one_eq_mod w.toNat 2))

lemma and_one (w : Word) : w &&& 1 = 0 ↔ w.toNat % 2 = 0 := by
  rw [← BitVec.toNat_inj, BitVec.toNat_and]
  exact Iff.of_eq (congrArg (· = 0) (Nat.and_two_pow_sub_one_eq_mod w.toNat 1))

/-- The test for alignment. -/
lemma misaligned_iff (hs : IsSize size) :
    (size = 4 ∧ addr &&& 3 ≠ 0 ∨ size = 2 ∧ addr &&& 1 ≠ 0) ↔ addr.toNat % size ≠ 0 := by
  rw [ne_eq, ne_eq, and_three, and_one]
  rcases hs with rfl | rfl | rfl <;> simp [Nat.mod_one]

/-- An aligned access does not leave its page. -/
lemma offset_add_le (hs : IsSize size) (ha : addr.toNat % size = 0) :
    offsetOf addr + size ≤ pageSize := by
  unfold offsetOf
  rcases hs with rfl | rfl | rfl <;> simp only [pageSize] <;> omega

lemma set_eq_modify {i : ℕ} {e : TranslationEntry} (f : TranslationEntry → TranslationEntry)
    (h : table[i]? = some e) : table.set i (f e) = table.modify i f := by
  refine List.ext_getElem? fun j => ?_
  rw [List.getElem?_set, List.getElem?_modify]
  by_cases hij : i = j
  · subst hij
    obtain ⟨hi, he⟩ := List.getElem?_eq_some_iff.1 h
    simp [hi, he]
  · simp [hij]

/-- **`Translate` resolves the address**, and its last assertion holds. -/
theorem translate_eq (ht : m.pageTable = some table) (hs : IsSize size) :
    m.translate addr size writing = .ok (match resolve table addr size writing with
      | .error which => .fault which
      | .ok physAddr => .ok physAddr (marked table addr writing)) := by
  unfold Machine.translate resolve
  by_cases ha : addr.toNat % size = 0
  · rw [if_neg fun h => (misaligned_iff hs).1 h ha, if_neg (not_not.2 ha), ht]
    have hpage : table[addr.toNat / pageSize]? = table[pageOf addr]? := rfl
    simp only [hpage]
    cases he : table[pageOf addr]? with
    | none => rfl
    | some e =>
      by_cases hv : e.valid = false
      · simp [hv]
        rfl
      · by_cases hw : (e.readOnly && writing) = true
        · simp [hv, hw]
          rfl
        · by_cases hf : e.frame < numPhysPages
          · have hle := offset_add_le hs ha
            have hfit : e.physicalPage.toNat * pageSize + addr.toNat % pageSize + size ≤
                memorySize := by
              simp only [TranslationEntry.frame, offsetOf, memorySize, pageSize, numPhysPages]
                at hf hle ⊢
              omega
            have hge : ¬ e.physicalPage.toNat ≥ numPhysPages := Nat.not_le.2 hf
            rw [marked, ← set_eq_modify _ he]
            simp only [hv, hw, hge, hf, hfit, assert, decide_true, if_true, if_false]
            rfl
          · have hge : e.physicalPage.toNat ≥ numPhysPages := Nat.not_lt.1 hf
            simp [hv, hw, hf, hge]
            rfl
  · rw [if_pos ((misaligned_iff hs).2 ha), if_pos ha]
    rfl

lemma resolve_eq_ok {physAddr : ℕ} (h : resolve table addr size writing = .ok physAddr) :
    ∃ e, Hit table addr size e ∧ (e.readOnly && writing) = false ∧
      physAddr = e.frame * pageSize + offsetOf addr := by
  unfold resolve at h
  split at h
  next => cases h
  next ha =>
    split at h
    next => cases h
    next e he =>
      split at h
      next => cases h
      next hv =>
        split at h
        next => cases h
        next hw =>
          split at h
          next hf =>
            cases h
            exact ⟨e, ⟨he, not_not.1 ha, by simpa using hv, hf⟩, by simpa using hw, rfl⟩
          next => cases h

lemma Hit.resolve {e : TranslationEntry} (h : Hit table addr size e)
    (hw : (e.readOnly && writing) = false) :
    resolve table addr size writing = .ok (e.frame * pageSize + offsetOf addr) := by
  unfold Mips.resolve
  rw [if_neg (not_not.2 h.aligned), h.entry]
  simp [h.valid, hw, h.frame]

/-- The bits that `Translate` sets change no translation. -/
lemma resolve_marked {a : Word} {n : ℕ} {w : Bool} :
    resolve (marked table addr writing) a n w = resolve table a n w := by
  unfold resolve marked
  rw [List.getElem?_modify]
  split
  next => rfl
  next =>
    cases table[pageOf a]? with
    | none => rfl
    | some e =>
      by_cases h : pageOf addr = pageOf a
      · simp only [h, if_true]
        rfl
      · simp only [h, if_false]
        rfl

end Translate

/-! ### Loads and stores -/

/-- The value of `size` bytes of memory. -/
def load (mem : ℕ → Byte) (a size : ℕ) : Word :=
  if size = 1 then (mem a).signExtend 32
  else if size = 2 then (Machine.readShort mem a).setWidth 32
  else Machine.readLong mem a

/-- What a read of `size` bytes gives of a value that was written. -/
def truncated (size : ℕ) (value : Word) : Word :=
  if size = 1 then (value.setWidth 8).signExtend 32
  else if size = 2 then (value.setWidth 16).setWidth 32
  else value

section Access

variable {m m' : Machine} {table : List TranslationEntry} {addr : Word} {size : ℕ}

theorem readMem_eq (ht : m.pageTable = some table) (hs : IsSize size) :
    m.readMem addr size = match resolve table addr size false with
      | .error which => m.raiseException which addr
      | .ok a => .ok (load m.mainMemory a size, { m with pageTable := some (marked table addr false) }) := by
  unfold Machine.readMem
  rw [translate_eq ht hs]
  cases resolve table addr size false with
  | error which => rfl
  | ok a => rcases hs with rfl | rfl | rfl <;> rfl

theorem writeMem_eq (ht : m.pageTable = some table) (hs : IsSize size) (value : Word) :
    m.writeMem addr size value = match resolve table addr size true with
      | .error which => m.raiseException which addr
      | .ok a => .ok { m with
          pageTable := some (marked table addr true)
          mainMemory := Machine.storeBytes m.mainMemory a size value } := by
  unfold Machine.writeMem
  rw [translate_eq ht hs]
  cases resolve table addr size true with
  | error which => rfl
  | ok a => rcases hs with rfl | rfl | rfl <;> rfl

/-- A load depends on its bytes. -/
lemma load_congr {mem mem' : ℕ → Byte} {a : ℕ} (hs : IsSize size)
    (h : ∀ i, a ≤ i → i < a + size → mem i = mem' i) : load mem a size = load mem' a size := by
  rcases hs with rfl | rfl | rfl
  · simp [load, h a (by omega) (by omega)]
  · simp [load, Machine.readShort, h a (by omega) (by omega), h (a + 1) (by omega) (by omega)]
  · simp [load, Machine.readLong, h a (by omega) (by omega), h (a + 1) (by omega) (by omega),
      h (a + 2) (by omega) (by omega), h (a + 3) (by omega) (by omega)]

lemma storeBytes_apply_add {mem : ℕ → Byte} {a k : ℕ} {value : Word} (hk : k < size) :
    Machine.storeBytes mem a size value (a + k) = value.extractLsb' (8 * k) 8 := by
  simp [Machine.storeBytes, hk]

lemma storeBytes_of_notMem {mem : ℕ → Byte} {a i : ℕ} {value : Word}
    (hi : ¬ (a ≤ i ∧ i < a + size)) : Machine.storeBytes mem a size value i = mem i :=
  if_neg hi

/-- **A load gives what was stored.** -/
theorem load_storeBytes {mem : ℕ → Byte} {a : ℕ} {value : Word} (hs : IsSize size) :
    load (Machine.storeBytes mem a size value) a size = truncated size value := by
  have h : ∀ k < size, Machine.storeBytes mem a size value (a + k) = value.extractLsb' (8 * k) 8 :=
    fun k hk => storeBytes_apply_add hk
  rcases hs with rfl | rfl | rfl
  · have h0 : Machine.storeBytes mem a 1 value a = value.extractLsb' 0 8 := h 0 (by decide)
    rw [load, truncated, if_pos rfl, if_pos rfl, h0, BitVec.setWidth_eq_extractLsb' (by decide)]
  · have h0 : Machine.storeBytes mem a 2 value a = value.extractLsb' 0 8 := h 0 (by decide)
    have h1 : Machine.storeBytes mem a 2 value (a + 1) = value.extractLsb' 8 8 := h 1 (by decide)
    have hb : value.extractLsb' 8 8 ++ value.extractLsb' 0 8 = value.setWidth 16 := by
      rw [BitVec.extractLsb'_append_extractLsb'_eq_extractLsb' (by rfl),
        BitVec.setWidth_eq_extractLsb' (by decide)]
    show (Machine.storeBytes mem a 2 value (a + 1) ++ Machine.storeBytes mem a 2 value a).setWidth 32
      = (value.setWidth 16).setWidth 32
    rw [h0, h1, hb]
  · have h0 : Machine.storeBytes mem a 4 value a = value.extractLsb' 0 8 := h 0 (by decide)
    have h1 : Machine.storeBytes mem a 4 value (a + 1) = value.extractLsb' 8 8 := h 1 (by decide)
    have h2 : Machine.storeBytes mem a 4 value (a + 2) = value.extractLsb' 16 8 := h 2 (by decide)
    have h3 : Machine.storeBytes mem a 4 value (a + 3) = value.extractLsb' 24 8 := h 3 (by decide)
    show Machine.storeBytes mem a 4 value (a + 3) ++ Machine.storeBytes mem a 4 value (a + 2) ++
      Machine.storeBytes mem a 4 value (a + 1) ++ Machine.storeBytes mem a 4 value a = value
    rw [h0, h1, h2, h3, BitVec.extractLsb'_append_extractLsb'_eq_extractLsb' (by rfl),
      BitVec.extractLsb'_append_extractLsb'_eq_extractLsb' (by rfl),
      BitVec.extractLsb'_append_extractLsb'_eq_extractLsb' (by rfl)]
    exact BitVec.extractLsb'_eq_self

end Access

/-! ### Isolation -/

/-- The entries map to distinct frames below `NumPhysPages`. -/
structure DistinctFrames (table : List TranslationEntry) : Prop where
  nodup : (table.map TranslationEntry.frame).Nodup
  lt : ∀ e ∈ table, e.frame < numPhysPages

/-- Two tables have no frame in common. -/
def DisjointFrames (table table' : List TranslationEntry) : Prop :=
  ∀ e ∈ table, ∀ e' ∈ table', e.frame ≠ e'.frame

namespace Machine

/-- The machine with the page table of another address space. -/
def withTable (m : Machine) (table : List TranslationEntry) : Machine :=
  { m with pageTable := some table }

/-- The value of a byte, when it can be read. -/
def byteAt (m : Machine) (addr : Word) : Option Word :=
  match m.readMem addr 1 with
  | .ok (value, _) => some value
  | .error _ => none

end Machine

/-- **An access of user memory** is one to the frame of its page, a read gives what was written,
and nothing else changes. -/
structure Isolated (m : Machine) (table : List TranslationEntry) (addr : Word) (size : ℕ)
    (value : Word) : Prop where
  readMem_ne_assertion : m.readMem addr size ≠ .error .assertion
  writeMem_ne_assertion : m.writeMem addr size value ≠ .error .assertion
  /-- A read takes its value from the frame, and leaves the memory. -/
  read : ∀ v m', m.readMem addr size = .ok (v, m') → m'.mainMemory = m.mainMemory ∧
    ∃ e, table[pageOf addr]? = some e ∧
      ∀ mem : ℕ → Byte, (∀ i, i / pageSize = e.frame → mem i = m.mainMemory i) →
        ∃ m'', { m with mainMemory := mem }.readMem addr size = .ok (v, m'')
  /-- A write changes bytes of the frame only. -/
  write : ∀ m', m.writeMem addr size value = .ok m' → ∃ e, table[pageOf addr]? = some e ∧
    ∀ i, i / pageSize ≠ e.frame → m'.mainMemory i = m.mainMemory i
  /-- A read after a write gives the value. -/
  readBack : ∀ m', m.writeMem addr size value = .ok m' →
    ∃ m'', m'.readMem addr size = .ok (truncated size value, m'')
  /-- The other bytes of the address space read as before. -/
  others : ∀ m', m.writeMem addr size value = .ok m' →
    ∀ a, (∀ k < size, a ≠ addr + BitVec.ofNat 32 k) → m'.byteAt a = m.byteAt a
  /-- The bytes of other address spaces do. -/
  elsewhere : ∀ m', m.writeMem addr size value = .ok m' →
    ∀ table', DisjointFrames table table' → ∀ a,
      (m'.withTable table').byteAt a = (m.withTable table').byteAt a
  /-- A failing access changes no memory. -/
  readFails : ∀ which m', m.readMem addr size = .error (.exception which m') →
    m'.mainMemory = m.mainMemory
  writeFails : ∀ which m', m.writeMem addr size value = .error (.exception which m') →
    m'.mainMemory = m.mainMemory

section Isolation

variable {m m' : Machine} {table table' : List TranslationEntry} {addr a : Word} {size : ℕ}

/-- Two pages of a table with distinct frames are one when their frames are. -/
lemma DistinctFrames.page_eq (hf : DistinctFrames table) {i j : ℕ} {e e' : TranslationEntry}
    (hi : table[i]? = some e) (hj : table[j]? = some e') (he : e.frame = e'.frame) : i = j := by
  have hlt : i < (table.map TranslationEntry.frame).length := by
    rw [List.length_map]
    exact (List.getElem?_eq_some_iff.1 hi).1
  refine (List.getElem?_inj hlt hf.nodup).1 ?_
  rw [List.getElem?_map, List.getElem?_map, hi, hj, Option.map_some, Option.map_some, he]

/-- The bytes of an access are in the frame of its page. -/
lemma Hit.div_eq {e : TranslationEntry} (h : Hit table addr size e) (hs : IsSize size) {i : ℕ}
    (hi : e.frame * pageSize + offsetOf addr ≤ i) (hi' : i < e.frame * pageSize + offsetOf addr + size) :
    i / pageSize = e.frame := by
  have := offset_add_le hs h.aligned
  simp only [pageSize] at *
  omega

/-- A byte that resolves into the bytes of an access is one of them. -/
lemma Hit.same_byte {e : TranslationEntry} (h : Hit table addr size e) (hs : IsSize size)
    (hpage : pageOf a = pageOf addr)
    (hi : e.frame * pageSize + offsetOf addr ≤ e.frame * pageSize + offsetOf a)
    (hi' : e.frame * pageSize + offsetOf a < e.frame * pageSize + offsetOf addr + size) :
    ∃ k < size, a = addr + BitVec.ofNat 32 k := by
  have hle := offset_add_le hs h.aligned
  have ha := a.isLt
  unfold pageOf offsetOf at *
  refine ⟨a.toNat - addr.toNat, ?_, BitVec.eq_of_toNat_eq ?_⟩
  · simp only [pageSize] at *
    omega
  · rw [BitVec.toNat_add, BitVec.toNat_ofNat]
    simp only [pageSize] at *
    omega

lemma readMem_of_resolve {i : ℕ} (ht : m.pageTable = some table) (hs : IsSize size)
    (hr : resolve table addr size false = .ok i) :
    m.readMem addr size = .ok (load m.mainMemory i size, m.withTable (marked table addr false)) := by
  rw [readMem_eq ht hs, hr]
  rfl

lemma readMem_eq_ok {v : Word} (ht : m.pageTable = some table) (hs : IsSize size)
    (h : m.readMem addr size = .ok (v, m')) : ∃ e, Hit table addr size e ∧
      resolve table addr size false = .ok (e.frame * pageSize + offsetOf addr) ∧
      v = load m.mainMemory (e.frame * pageSize + offsetOf addr) size ∧
      m'.mainMemory = m.mainMemory := by
  rw [readMem_eq ht hs] at h
  split at h
  next => cases h
  next physAddr hr =>
    obtain ⟨e, he, -, rfl⟩ := resolve_eq_ok hr
    cases h
    exact ⟨e, he, hr, rfl, rfl⟩

lemma writeMem_eq_ok {value : Word} (ht : m.pageTable = some table) (hs : IsSize size)
    (h : m.writeMem addr size value = .ok m') : ∃ e, Hit table addr size e ∧
      resolve table addr size true = .ok (e.frame * pageSize + offsetOf addr) ∧
      m' = { m with
        pageTable := some (marked table addr true)
        mainMemory := Machine.storeBytes m.mainMemory (e.frame * pageSize + offsetOf addr) size
          value } := by
  rw [writeMem_eq ht hs] at h
  split at h
  next => cases h
  next physAddr hr =>
    obtain ⟨e, he, -, rfl⟩ := resolve_eq_ok hr
    cases h
    exact ⟨e, he, hr, rfl⟩

lemma byteAt_eq (ht : m.pageTable = some table) :
    m.byteAt a = match resolve table a 1 false with
      | .error _ => none
      | .ok i => some (load m.mainMemory i 1) := by
  unfold Machine.byteAt
  rw [readMem_eq ht (.inl rfl)]
  cases resolve table a 1 false <;> rfl

/-- Two machines with one translation read one byte when their memories have it. -/
lemma byteAt_congr (ht : m.pageTable = some table) (ht' : m'.pageTable = some table')
    (hr : resolve table' a 1 false = resolve table a 1 false)
    (h : ∀ e, Hit table a 1 e → m'.mainMemory (e.frame * pageSize + offsetOf a) =
      m.mainMemory (e.frame * pageSize + offsetOf a)) : m'.byteAt a = m.byteAt a := by
  rw [byteAt_eq ht, byteAt_eq ht', hr]
  split
  next => rfl
  next i hi =>
    obtain ⟨e, he, -, rfl⟩ := resolve_eq_ok hi
    refine congrArg some (load_congr (.inl rfl) fun j hj hj' => ?_)
    rw [show j = e.frame * pageSize + offsetOf a by omega]
    exact h e he

/-- A store does not reach another page of the table. -/
lemma byteAt_of_write {value : Word} (ht : m.pageTable = some table) (hf : DistinctFrames table)
    (hs : IsSize size) (h : m.writeMem addr size value = .ok m')
    (ha : ∀ k < size, a ≠ addr + BitVec.ofNat 32 k) : m'.byteAt a = m.byteAt a := by
  obtain ⟨e, he, -, rfl⟩ := writeMem_eq_ok ht hs h
  refine byteAt_congr ht rfl resolve_marked fun e' he' => storeBytes_of_notMem fun ⟨hi, hi'⟩ => ?_
  have hframe : e'.frame = e.frame := by
    rw [← he'.div_eq (.inl rfl) (Nat.le_refl _) (by omega), he.div_eq hs hi hi']
  have hpage := hf.page_eq he'.entry he.entry hframe
  rw [hframe] at hi hi'
  obtain ⟨k, hk, hak⟩ := he.same_byte hs hpage hi hi'
  exact ha k hk hak

/-- A store does not reach a frame of another table. -/
lemma byteAt_of_disjoint {value : Word} (ht : m.pageTable = some table) (hs : IsSize size)
    (h : m.writeMem addr size value = .ok m') (hd : DisjointFrames table table') :
    (m'.withTable table').byteAt a = (m.withTable table').byteAt a := by
  obtain ⟨e, he, -, rfl⟩ := writeMem_eq_ok ht hs h
  refine byteAt_congr rfl rfl rfl fun e' he' =>
    storeBytes_of_notMem fun ⟨hi, hi'⟩ => ?_
  refine hd e (List.mem_of_getElem? he.entry) e' (List.mem_of_getElem? he'.entry) ?_
  rw [← he'.div_eq (.inl rfl) (Nat.le_refl _) (by omega), he.div_eq hs hi hi']

/-- An entry that can be written through can be read through. -/
lemma resolve_read_of_write {e : TranslationEntry} (he : Hit table addr size e) :
    resolve table addr size false = .ok (e.frame * pageSize + offsetOf addr) :=
  he.resolve (Bool.and_false _)

/-- **User memory is isolated and behaves as memory.** -/
theorem isolated (ht : m.pageTable = some table) (hf : DistinctFrames table) (hs : IsSize size)
    (value : Word) : Isolated m table addr size value where
  readMem_ne_assertion := by
    rw [readMem_eq ht hs]
    cases resolve table addr size false <;> nofun
  writeMem_ne_assertion := by
    rw [writeMem_eq ht hs]
    cases resolve table addr size true <;> nofun
  read v m' h := by
    obtain ⟨e, he, hr, rfl, hmem⟩ := readMem_eq_ok ht hs h
    refine ⟨hmem, e, he.entry, fun mem hm => ?_⟩
    have hload : load mem (e.frame * pageSize + offsetOf addr) size =
        load m.mainMemory (e.frame * pageSize + offsetOf addr) size :=
      load_congr hs fun i hi hi' => hm i (he.div_eq hs hi hi')
    rw [← hload]
    exact ⟨_, readMem_of_resolve ht hs hr⟩
  write m' h := by
    obtain ⟨e, he, -, rfl⟩ := writeMem_eq_ok ht hs h
    refine ⟨e, he.entry, fun i hi => storeBytes_of_notMem fun hm => hi ?_⟩
    exact he.div_eq hs hm.1 hm.2
  readBack m' h := by
    obtain ⟨e, he, -, rfl⟩ := writeMem_eq_ok ht hs h
    rw [← load_storeBytes hs]
    exact ⟨_, readMem_of_resolve rfl hs (resolve_marked.trans (resolve_read_of_write he))⟩
  others m' h a ha := byteAt_of_write ht hf hs h ha
  elsewhere m' h table' hd a := byteAt_of_disjoint ht hs h hd
  readFails which m' h := by
    rw [readMem_eq ht hs] at h
    split at h
    next => cases h; rfl
    next => cases h
  writeFails which m' h := by
    rw [writeMem_eq ht hs] at h
    split at h
    next => cases h; rfl
    next => cases h

/-- The machine after a reset, with a table of two pages. -/
def twoPages (mem : ℕ → Byte) : Machine where
  registers := ⟨fun _ => 0, 0, 0, 0, 0, 0, 0, 0, 0⟩
  mainMemory := mem
  pageTable := some [⟨0, 5, true, false, false, false⟩, ⟨1, 3, true, false, false, false⟩]

/-- A word on the second page. -/
theorem isolated_word :
    Isolated (twoPages fun _ => 0) [⟨0, 5, true, false, false, false⟩, ⟨1, 3, true, false, false, false⟩]
      0x84 4 0x80000001 :=
  isolated rfl ⟨by decide, by decide⟩ (.inr (.inr rfl)) _

end Isolation

end Nachos.Mips
