import Nachos.Mips.Memory

/-!
# The kernel reads a string of a user process

`readString` (`exception.cc`) fetches the bytes of a string that a system call passes in `r4`. It
translates each address with `AddrSpace::Translate`, which indexes the page table and checks
nothing, where a load of the process itself goes through `Machine::Translate`. Every address on
which the hardware faults is read all the same, so the two agree on the strings that end inside
the mapped part of the address space, and only on these.
-/

namespace Nachos.Userprog

open Nachos.Mips

/-- `AddrSpace::Translate`. An index past the table reads the memory `beyond` it. -/
def AddrSpace.translate (pageTable : List TranslationEntry) (beyond : ℕ → Word)
    (virtualAddr : Word) : Word :=
  let pageNumber := virtualAddr.toNat / pageSize
  let pageOffset := virtualAddr.toNat % pageSize
  let frameNumber := match pageTable[pageNumber]? with
    | some entry => entry.physicalPage
    | none => beyond pageNumber
  frameNumber * BitVec.ofNat 32 pageSize + BitVec.ofNat 32 pageOffset

/-- An access of `mainMemory` by the kernel on behalf of a process. -/
structure Access where
  virtualAddr : Word
  physicalAddr : Word

/-- The loop of `readString` with `n` more turns allowed: the bytes of `str` it fills in, and the
accesses it makes. -/
def readLoop (mem : ℕ → Byte) (translate : Word → Word) :
    ℕ → Word → List Byte × List Access
  | n, virtualAddr =>
    let physicalAddr := translate virtualAddr
    let byte := mem physicalAddr.toNat
    match n with
    | 0 => ([byte], [⟨virtualAddr, physicalAddr⟩])
    | n + 1 =>
      if byte ≠ 0 then
        let rest := readLoop mem translate n (virtualAddr + 1)
        (byte :: rest.1, ⟨virtualAddr, physicalAddr⟩ :: rest.2)
      else ([byte], [⟨virtualAddr, physicalAddr⟩])

/-- The length of the buffer `str`. -/
def stringSize : ℕ := 256

/-- `readString`: the buffer up to the byte it stops at, and the accesses made. -/
def readString (mem : ℕ → Byte) (translate : Word → Word) (virtualAddr : Word) :
    List Byte × List Access :=
  let read := readLoop mem translate (stringSize - 1) virtualAddr
  if read.1.length = stringSize ∧ read.1[stringSize - 1]? ≠ some 0 then
    (read.1.set (stringSize - 1) 0, read.2)
  else read

/-! ### One address -/

section Translate

variable {m : Machine} {table : List TranslationEntry} {beyond : ℕ → Word} {va : Word}

/-- The hardware reads a byte at `va` from `pa`. -/
def ReadsAt (m : Machine) (va : Word) (pa : ℕ) : Prop :=
  ∃ table', m.translate va 1 false = .ok (.ok pa table')

lemma readsAt_iff (ht : m.pageTable = some table) {pa : ℕ} :
    ReadsAt m va pa ↔ resolve table va 1 false = .ok pa := by
  unfold ReadsAt
  rw [translate_eq ht (.inl rfl)]
  cases resolve table va 1 false with
  | error which => simp
  | ok pa' => simp

/-- **Where the hardware translates, so does the kernel**: the frame of an entry that passes the
checks is small enough for the 32-bit product. -/
theorem translate_of_readsAt (ht : m.pageTable = some table) {pa : ℕ} (h : ReadsAt m va pa) :
    (AddrSpace.translate table beyond va).toNat = pa := by
  obtain ⟨e, he, -, rfl⟩ := resolve_eq_ok ((readsAt_iff ht).1 h)
  have hpage : table[va.toNat / pageSize]? = some e := he.entry
  have hlt : e.physicalPage.toNat < numPhysPages := he.frame
  have hoff : va.toNat % pageSize < pageSize := Nat.mod_lt _ (by decide)
  unfold AddrSpace.translate TranslationEntry.frame offsetOf
  simp only [hpage, BitVec.toNat_add, BitVec.toNat_mul, BitVec.toNat_ofNat]
  simp only [pageSize, numPhysPages] at hlt hoff ⊢
  omega

/-- A byte that a process can load is one that the hardware translates. -/
lemma isSome_byteAt_iff (ht : m.pageTable = some table) :
    (m.byteAt va).isSome ↔ ∃ pa, ReadsAt m va pa := by
  simp only [readsAt_iff ht, byteAt_eq ht]
  cases resolve table va 1 false with
  | error which => simp
  | ok pa => simp

/-- The hardware reports an exception for an address that it does not translate. -/
lemma readsAt_or_fault (ht : m.pageTable = some table) (va : Word) :
    (∃ pa, ReadsAt m va pa) ∨ ∃ which, m.translate va 1 false = .ok (.fault which) := by
  simp only [readsAt_iff ht, translate_eq ht (.inl rfl)]
  cases resolve table va 1 false with
  | error which => exact .inr ⟨which, rfl⟩
  | ok pa => exact .inl ⟨pa, rfl⟩

lemma signExtend_ne_zero_iff (b : Byte) : b.signExtend 32 ≠ 0 ↔ b ≠ 0 := by
  revert b
  decide

/-- The kernel reads the byte that the process would. -/
lemma byteAt_of_readsAt (beyond : ℕ → Word) (ht : m.pageTable = some table) {pa : ℕ}
    (h : ReadsAt m va pa) :
    m.byteAt va =
      some ((m.mainMemory (AddrSpace.translate table beyond va).toNat).signExtend 32) := by
  rw [translate_of_readsAt ht h, byteAt_eq ht, (readsAt_iff ht).1 h]
  rfl

end Translate

/-! ### The string -/

/-- The accesses of `readString` for a pointer of the process that runs on `m`. -/
def accesses (m : Machine) (table : List TranslationEntry) (beyond : ℕ → Word) (va : Word) :
    List Access :=
  (readString m.mainMemory (AddrSpace.translate table beyond) va).2

/-- **The two translations agree** on an access: the kernel makes it where the hardware would
read, and makes none where the hardware would report an exception. -/
structure Agrees (m : Machine) (a : Access) : Prop where
  same : ∀ pa, ReadsAt m a.virtualAddr pa → a.physicalAddr.toNat = pa
  noFault : ∀ which, m.translate a.virtualAddr 1 false ≠ .ok (.fault which)

/-- **The string at `va` is mapped**: the process itself can load each byte of it, up to a `NUL` or
to the end of the buffer. -/
def StringMapped (m : Machine) (va : Word) : Prop :=
  ∀ k < stringSize, (∀ j < k, ∃ c, m.byteAt (va + BitVec.ofNat 32 j) = some c ∧ c ≠ 0) →
    (m.byteAt (va + BitVec.ofNat 32 k)).isSome

section ReadString

variable {m : Machine} {table : List TranslationEntry} {beyond : ℕ → Word} {va : Word}

lemma accesses_eq : accesses m table beyond va =
    (readLoop m.mainMemory (AddrSpace.translate table beyond) (stringSize - 1) va).2 := by
  unfold accesses readString
  dsimp only
  split
  next => rfl
  next => rfl

lemma agrees_iff (beyond : ℕ → Word) (ht : m.pageTable = some table) :
    Agrees m ⟨va, AddrSpace.translate table beyond va⟩ ↔ (m.byteAt va).isSome := by
  rw [isSome_byteAt_iff ht]
  constructor
  · intro h
    rcases readsAt_or_fault ht va with hr | ⟨which, hf⟩
    · exact hr
    · exact absurd hf (h.noFault which)
  · rintro ⟨pa, table', hpa⟩
    refine ⟨fun pa' h => translate_of_readsAt ht h, fun which hf => ?_⟩
    rw [hpa] at hf
    cases hf

/-- The bytes from `va` on are mapped, with `n` more turns of the loop allowed. -/
def MappedFrom (m : Machine) (va : Word) (n : ℕ) : Prop :=
  ∀ k ≤ n, (∀ j < k, ∃ c, m.byteAt (va + BitVec.ofNat 32 j) = some c ∧ c ≠ 0) →
    (m.byteAt (va + BitVec.ofNat 32 k)).isSome

lemma add_ofNat_succ (k : ℕ) :
    va + BitVec.ofNat 32 (k + 1) = va + 1 + BitVec.ofNat 32 k := by
  rw [BitVec.add_assoc, Nat.add_comm k 1, BitVec.ofNat_add]
  rfl

lemma mappedFrom_zero : MappedFrom m va 0 ↔ (m.byteAt va).isSome := by
  constructor
  · intro h
    simpa using h 0 (Nat.le_refl 0) (fun j hj => absurd hj (Nat.not_lt_zero j))
  · intro h k hk _
    obtain rfl : k = 0 := Nat.le_zero.1 hk
    simpa using h

/-- One turn of the loop. -/
lemma mappedFrom_succ (n : ℕ) : MappedFrom m va (n + 1) ↔ (m.byteAt va).isSome ∧
    ((∃ c, m.byteAt va = some c ∧ c ≠ 0) → MappedFrom m (va + 1) n) := by
  constructor
  · intro h
    refine ⟨by simpa using h 0 (Nat.zero_le _) (fun j hj => absurd hj (Nat.not_lt_zero j)),
      fun hva k hk hj => ?_⟩
    rw [← add_ofNat_succ]
    refine h (k + 1) (Nat.succ_le_succ hk) fun j hjk => ?_
    cases j with
    | zero => simpa using hva
    | succ j =>
      rw [add_ofNat_succ]
      exact hj j (Nat.lt_of_succ_lt_succ hjk)
  · rintro ⟨hva, hrest⟩ k hk hj
    cases k with
    | zero => simpa using hva
    | succ k =>
      rw [add_ofNat_succ]
      refine hrest (by simpa using hj 0 (Nat.succ_pos k)) k (Nat.le_of_succ_le_succ hk)
        fun j hjk => ?_
      rw [← add_ofNat_succ]
      exact hj (j + 1) (Nat.succ_lt_succ hjk)

lemma readLoop_succ (mem : ℕ → Byte) (tr : Word → Word) (n : ℕ) :
    readLoop mem tr (n + 1) va = if mem (tr va).toNat ≠ 0 then
      (mem (tr va).toNat :: (readLoop mem tr n (va + 1)).1,
        ⟨va, tr va⟩ :: (readLoop mem tr n (va + 1)).2)
    else ([mem (tr va).toNat], [⟨va, tr va⟩]) := rfl

/-- What the loop reads, by induction on the turns left: the accesses agree as long as the bytes
are mapped, and then the loop goes on exactly when the process sees a byte other than `NUL`. -/
lemma agrees_readLoop_iff (ht : m.pageTable = some table) (n : ℕ) (va : Word) :
    (∀ a ∈ (readLoop m.mainMemory (AddrSpace.translate table beyond) n va).2, Agrees m a) ↔
      MappedFrom m va n := by
  induction n generalizing va with
  | zero =>
    rw [mappedFrom_zero, ← agrees_iff beyond ht]
    simp [readLoop]
  | succ n ih =>
    rw [mappedFrom_succ, ← ih, ← agrees_iff beyond ht]
    rw [readLoop_succ]
    by_cases hb : m.mainMemory (AddrSpace.translate table beyond va).toNat = 0
    · simp only [hb, ne_eq, not_true, if_false, List.forall_mem_singleton]
      refine ⟨fun h => ⟨h, ?_⟩, And.left⟩
      rintro ⟨c, hc, hne⟩
      obtain ⟨pa, hpa⟩ := (isSome_byteAt_iff ht).1 (Option.isSome_of_eq_some hc)
      rw [byteAt_of_readsAt beyond ht hpa, hb] at hc
      exact absurd (Option.some_inj.1 hc).symm hne
    · simp only [hb, ne_eq, not_false_iff, if_true, List.forall_mem_cons]
      refine and_congr_right fun h => ⟨fun hrest _ => hrest, fun hrest => hrest ?_⟩
      obtain ⟨pa, hpa⟩ := (isSome_byteAt_iff ht).1 ((agrees_iff beyond ht).1 h)
      exact ⟨_, byteAt_of_readsAt beyond ht hpa, (signExtend_ne_zero_iff _).2 hb⟩

/-- **The kernel translates a string as the hardware does if and only if the string is mapped.** -/
theorem agrees_iff_stringMapped (ht : m.pageTable = some table) :
    (∀ a ∈ accesses m table beyond va, Agrees m a) ↔ StringMapped m va := by
  rw [accesses_eq, agrees_readLoop_iff ht]
  have hlt : ∀ k : ℕ, k ≤ stringSize - 1 ↔ k < stringSize := fun k => by
    unfold stringSize
    omega
  unfold MappedFrom StringMapped
  simp only [hlt]

/-- A pointer to a page of the table. -/
theorem agrees_iff_stringMapped_empty :
    (∀ a ∈ accesses (twoPages fun _ => 0)
      [⟨0, 5, true, false, false, false⟩, ⟨1, 3, true, false, false, false⟩] (fun _ => 0) 0x80,
        Agrees (twoPages fun _ => 0) a) ↔ StringMapped (twoPages fun _ => 0) 0x80 :=
  agrees_iff_stringMapped rfl

/-- A pointer past the table: the hardware reports an address error, and the kernel reads the
frame that the memory after the table happens to name. -/
theorem not_agrees_beyond :
    ¬ ∀ a ∈ accesses (twoPages fun _ => 0)
      [⟨0, 5, true, false, false, false⟩, ⟨1, 3, true, false, false, false⟩] (fun _ => 0) 0x100,
        Agrees (twoPages fun _ => 0) a := by
  intro h
  have hmem : (⟨0x100, 0⟩ : Access) ∈ accesses (twoPages fun _ => 0)
      [⟨0, 5, true, false, false, false⟩, ⟨1, 3, true, false, false, false⟩] (fun _ => 0) 0x100 := by
    rw [accesses_eq]
    exact List.mem_singleton.2 rfl
  exact (h _ hmem).noFault .addressErrorException rfl

end ReadString

/-! ### The bytes of the string -/

/-- The byte that the process sees at an address. -/
def userByte (m : Machine) (va : Word) : Option Byte := (m.byteAt va).map (BitVec.setWidth 8)

/-- **The string that the process has at `va`**, cut off so that it fits the buffer with its
`NUL`. -/
structure IsUserString (m : Machine) (va : Word) (str : List Byte) : Prop where
  byte : ∀ k b, str[k]? = some b → userByte m (va + BitVec.ofNat 32 k) = some b
  ne_nul : ∀ b ∈ str, b ≠ 0
  length_le : str.length ≤ stringSize - 1
  nul : str.length < stringSize - 1 → userByte m (va + BitVec.ofNat 32 str.length) = some 0

/-- The addresses of the string at `va` and of the byte behind it, in order. -/
def stringAddrs (va : Word) (str : List Byte) : List Word :=
  (List.range (str.length + 1)).map fun k => va + BitVec.ofNat 32 k

/-- What the loop reads, with `n` more turns allowed: `str`, and the byte it stops at. -/
structure ReadTo (m : Machine) (va : Word) (n : ℕ) (str : List Byte) (last : Byte) : Prop where
  byte : ∀ k b, (str ++ [last])[k]? = some b → userByte m (va + BitVec.ofNat 32 k) = some b
  ne_nul : ∀ b ∈ str, b ≠ 0
  length_le : str.length ≤ n
  stops : str.length < n → last = 0

section Bytes

variable {m : Machine} {table : List TranslationEntry} {beyond : ℕ → Word} {va : Word}

lemma setWidth_signExtend (b : Byte) : (b.signExtend 32).setWidth 8 = b := by
  revert b
  decide

/-- The kernel reads what the process sees. -/
lemma userByte_of_isSome (beyond : ℕ → Word) (ht : m.pageTable = some table)
    (h : (m.byteAt va).isSome) :
    userByte m va = some (m.mainMemory (AddrSpace.translate table beyond va).toNat) := by
  obtain ⟨pa, hpa⟩ := (isSome_byteAt_iff ht).1 h
  rw [userByte, byteAt_of_readsAt beyond ht hpa, Option.map_some, setWidth_signExtend]

/-- The loop stops at the first byte. -/
lemma readTo_nil {n : ℕ} {last : Byte} (hbyte : userByte m va = some last)
    (hstops : 0 < n → last = 0) : ReadTo m va n [] last where
  byte k b hk := by
    cases k with
    | zero =>
      cases hk
      simpa using hbyte
    | succ k => cases hk
  ne_nul := by simp
  length_le := Nat.zero_le n
  stops := hstops

/-- One turn of the loop. -/
lemma ReadTo.cons {n : ℕ} {b last : Byte} {str : List Byte} (h : ReadTo m (va + 1) n str last)
    (hbyte : userByte m va = some b) (hb : b ≠ 0) : ReadTo m va (n + 1) (b :: str) last where
  byte k c hk := by
    cases k with
    | zero =>
      cases hk
      simpa using hbyte
    | succ k =>
      rw [add_ofNat_succ]
      exact h.byte k c hk
  ne_nul := List.forall_mem_cons.2 ⟨hb, h.ne_nul⟩
  length_le := Nat.succ_le_succ h.length_le
  stops hlt := h.stops (Nat.lt_of_succ_lt_succ hlt)

lemma stringAddrs_cons (b : Byte) (str : List Byte) :
    stringAddrs va (b :: str) = va :: stringAddrs (va + 1) str := by
  unfold stringAddrs
  rw [List.length_cons, List.range_succ_eq_map, List.map_cons, List.map_map]
  congr 1
  · simp
  · exact List.map_congr_left fun k _ => add_ofNat_succ k

/-- By induction on the turns left. -/
lemma readLoop_readTo (beyond : ℕ → Word) (ht : m.pageTable = some table) (n : ℕ) (va : Word)
    (h : MappedFrom m va n) :
    ∃ str last, ReadTo m va n str last ∧
      (readLoop m.mainMemory (AddrSpace.translate table beyond) n va).1 = str ++ [last] ∧
      (readLoop m.mainMemory (AddrSpace.translate table beyond) n va).2.map Access.virtualAddr =
        stringAddrs va str := by
  induction n generalizing va with
  | zero =>
    have hbyte := userByte_of_isSome beyond ht (mappedFrom_zero.1 h)
    exact ⟨[], _, readTo_nil hbyte fun h0 => absurd h0 (Nat.lt_irrefl 0), rfl,
      by simp [readLoop, stringAddrs]⟩
  | succ n ih =>
    obtain ⟨hva, hrest⟩ := (mappedFrom_succ n).1 h
    have hbyte := userByte_of_isSome beyond ht hva
    rw [readLoop_succ]
    by_cases hb : m.mainMemory (AddrSpace.translate table beyond va).toNat = 0
    · rw [hb] at hbyte
      simp only [hb, ne_eq, not_true, if_false]
      exact ⟨[], 0, readTo_nil hbyte fun _ => rfl, rfl, by simp [stringAddrs]⟩
    · obtain ⟨pa, hpa⟩ := (isSome_byteAt_iff ht).1 hva
      obtain ⟨str, last, hto, hstr, haddrs⟩ :=
        ih (va + 1) (hrest ⟨_, byteAt_of_readsAt beyond ht hpa, (signExtend_ne_zero_iff _).2 hb⟩)
      simp only [hb, ne_eq, not_false_iff, if_true]
      refine ⟨_ :: str, last, hto.cons hbyte hb, by rw [hstr]; rfl, ?_⟩
      rw [List.map_cons, haddrs, stringAddrs_cons]

/-- **`readString` gives the string of the process**, and reads its bytes up to the `NUL`, or up to
the length of the buffer, and no others. -/
theorem readString_of_stringMapped (ht : m.pageTable = some table) (h : StringMapped m va) :
    ∃ str, IsUserString m va str ∧
      (readString m.mainMemory (AddrSpace.translate table beyond) va).1 = str ++ [0] ∧
      (accesses m table beyond va).map Access.virtualAddr = stringAddrs va str := by
  have hmapped : MappedFrom m va (stringSize - 1) := fun k hk =>
    h k (Nat.lt_of_le_of_lt hk (by decide))
  obtain ⟨str, last, hto, hstr, haddrs⟩ := readLoop_readTo beyond ht _ va hmapped
  have hbyte : ∀ k b, str[k]? = some b → userByte m (va + BitVec.ofNat 32 k) = some b := by
    intro k b hk
    refine hto.byte k b ?_
    rw [List.getElem?_append_left (List.getElem?_eq_some_iff.1 hk).1, hk]
  have hlast : (str ++ [last])[str.length]? = some last := by simp
  refine ⟨str, ⟨hbyte, hto.ne_nul, hto.length_le, fun hlt => ?_⟩, ?_, by rw [accesses_eq, haddrs]⟩
  · have := hto.byte _ _ hlast
    rwa [hto.stops hlt] at this
  · have hle := hto.length_le
    unfold readString
    simp only [hstr, List.length_append, List.length_singleton]
    split
    next hfull =>
      have hlen : stringSize - 1 = str.length := by omega
      simp [hlen]
    next hshort =>
      -- the loop stopped at a `NUL`, be it the last byte of the buffer
      have hnul : last = 0 := by
        by_cases hlt : str.length < stringSize - 1
        · exact hto.stops hlt
        · have hlen : stringSize - 1 = str.length := by omega
          have hsize : str.length + 1 = stringSize := by
            rw [← hlen]
            rfl
          rw [hlen, hlast] at hshort
          simpa [hsize] using hshort
      rw [hstr, hnul]

/-- A string over the boundary of two pages whose frames are not in order. -/
theorem readString_of_stringMapped_twoPages :
    ∃ str, IsUserString (twoPages fun i => if i = 391 then 0 else 65) 0x7e str ∧
      (readString (fun i => if i = 391 then 0 else 65)
        (AddrSpace.translate [⟨0, 5, true, false, false, false⟩, ⟨1, 3, true, false, false, false⟩]
          fun _ => 0) 0x7e).1 = str ++ [0] ∧
      (accesses (twoPages fun i => if i = 391 then 0 else 65)
        [⟨0, 5, true, false, false, false⟩, ⟨1, 3, true, false, false, false⟩] (fun _ => 0)
        0x7e).map Access.virtualAddr = stringAddrs 0x7e str := by
  have hten : ∀ k < 10, ((twoPages fun i => if i = 391 then 0 else 65).byteAt
      (0x7e + BitVec.ofNat 32 k)).isSome := by decide
  refine readString_of_stringMapped rfl fun k _ hbefore => ?_
  by_cases hk : k < 10
  · exact hten k hk
  · obtain ⟨c, hc, hne⟩ := hbefore 9 (by omega)
    cases hc
    exact absurd rfl hne

end Bytes

end Nachos.Userprog
