import Nachos.Userprog.MemoryManager
import Nachos.Userprog.ReadString

/-!
# Loading an executable

The two constructors of `AddrSpace` from a NOFF file (`addrspace.cc`). The sizes and addresses of
the header come from the file as signed numbers. Their sum is taken in 32 bits, and the virtual
addresses are not compared with the length of the page table, so that the image is confined to
its address space only for the headers that `Loadable` describes.

The file is one of the host (`FILESYS_STUB`): a read past its end stores nothing, and `Lseek`
aborts on a negative position.
-/

namespace Nachos.Userprog

open Threads Mips

/-- `struct segment`. -/
structure Segment where
  virtualAddr : Word
  inFileAddr : Word
  size : Word

/-- `struct noffHeader`. -/
structure NoffHeader where
  noffMagic : Word
  code : Segment
  initData : Segment
  uninitData : Segment

def NOFFMAGIC : Word := 0xbadfad

def userStackSize : ℕ := 1024

/-- `divRoundUp`. -/
def divRoundUp (n s : ℕ) : ℕ := n / s + if n % s > 0 then 1 else 0

/-- The contents of an open file. -/
abbrev OpenFile := List Byte

/-- `OpenFile::ReadAt` of one byte. -/
def OpenFile.readAt (file : OpenFile) (position : Word) : Except Fault (Option Byte) :=
  if position.toInt < 0 then .error .assertion else .ok file[position.toNat]?

/-- `executable->ReadAt((char *)&noffH, sizeof(noffH), 0)`. What the file is too short for stays as
it was on the `stack`. The host is little-endian, and `WordToHost` changes nothing. -/
def readHeader (file : OpenFile) (stack : ℕ → Byte) : NoffHeader :=
  let noffH := fun i => (file[i]?).getD (stack i)
  let segment := fun i => Segment.mk (Machine.readLong noffH i) (Machine.readLong noffH (i + 4))
    (Machine.readLong noffH (i + 8))
  ⟨Machine.readLong noffH 0, segment 4, segment 16, segment 28⟩

/-- The loop of `AddrSpace::ReadFile`, with `n` bytes left: the memory, and the accesses that
stored a byte. -/
def readFile (file : OpenFile) (translate : Word → Word) (offset virtualAddr : Word) :
    ℕ → ℕ → (ℕ → Byte) → Except Fault ((ℕ → Byte) × List Access)
  | _, 0, mem => .ok (mem, [])
  | counter, n + 1, mem => do
    let va := virtualAddr + BitVec.ofNat 32 counter
    match ← file.readAt (offset + BitVec.ofNat 32 counter) with
    | some byte =>
      let rest ← readFile file translate offset virtualAddr (counter + 1) n
        (Function.update mem (translate va).toNat byte)
      .ok (rest.1, ⟨va, translate va⟩ :: rest.2)
    | none => readFile file translate offset virtualAddr (counter + 1) n mem

/-- The copy of a segment: `ReadFile` when its size is positive. -/
def readSegment (file : OpenFile) (translate : Word → Word) (segment : Segment)
    (mem : ℕ → Byte) : Except Fault ((ℕ → Byte) × List Access) :=
  if segment.size.toInt > 0 then
    readFile file translate segment.inFileAddr segment.virtualAddr 0 segment.size.toInt.toNat mem
  else .ok (mem, [])

/-- `size` of a constructor: the sum of the sizes, in 32 bits. -/
def NoffHeader.size (noffH : NoffHeader) : Word :=
  noffH.code.size + noffH.initData.size + noffH.uninitData.size + BitVec.ofNat 32 userStackSize

def NoffHeader.numPages (noffH : NoffHeader) : ℕ := divRoundUp noffH.size.toNat pageSize

/-- An `AddrSpace` with `valid = true`, the memory after its construction, and the accesses that
stored a byte of the file. -/
structure Image where
  pcb : ℕ
  numPages : ℕ
  pageTable : List TranslationEntry
  mm : MemoryManager
  mainMemory : ℕ → Byte
  stores : List Access

/-- What a constructor finds: the memory manager, the memory, what lies on the stack, and the
memory that comes after the array it makes for the page table. -/
structure Environment where
  mm : MemoryManager
  mainMemory : ℕ → Byte
  stack : ℕ → Byte
  beyond : ℕ → Word

/-- The body of the two constructors, which differ in where the PCB comes from. `none` is an object
with `valid = false`. -/
def construct (getPCB : Except Fault ℕ) (executable : OpenFile) (env : Environment) :
    Except Fault (Option Image) := do
  let noffH := readHeader executable env.stack
  if noffH.noffMagic ≠ NOFFMAGIC then .ok none
  else if noffH.numPages > env.mm.getFreePageCount then .ok none
  else do
    let pcb ← getPCB
    let filled := fillTable 0 noffH.numPages env.mm env.mainMemory
    let translate := AddrSpace.translate filled.1 env.beyond
    let code ← readSegment executable translate noffH.code filled.2.2
    let initData ← readSegment executable translate noffH.initData code.1
    .ok (some ⟨pcb, noffH.numPages, filled.1, filled.2.1, initData.1, code.2 ++ initData.2⟩)

/-- The constructors of `AddrSpace` that take an executable. -/
inductive Constructor where
  /-- `AddrSpace(OpenFile *)`, with what its `AllocatePCB` gives. -/
  | ofExecutable (allocatePCB : Except Fault ℕ)
  /-- `AddrSpace(OpenFile *, PCB *)`. -/
  | withPCB (pcb : ℕ)

def Constructor.run : Constructor → OpenFile → Environment → Except Fault (Option Image)
  | .ofExecutable allocatePCB => construct allocatePCB
  | .withPCB pcb => construct (.ok pcb)

/-! ### Confinement -/

/-- The sum of the sizes and the stack, as integers. -/
def NoffHeader.total (noffH : NoffHeader) : ℤ :=
  noffH.code.size.toInt + noffH.initData.size.toInt + noffH.uninitData.size.toInt + userStackSize

/-- **The image is confined**: it has room for what the header announces, and each byte of the file
went to a page of the table, that is to a frame that was free before and is in use now. -/
structure Confined (env : Environment) (noffH : NoffHeader) (image : Image) : Prop where
  room : noffH.total ≤ image.numPages * pageSize
  inTable : ∀ a ∈ image.stores, pageOf a.virtualAddr < image.numPages
  owned : ∀ a ∈ image.stores, ∃ e ∈ image.pageTable, a.physicalAddr.toNat / pageSize = e.frame ∧
    ¬ env.mm.InUse e.frame ∧ image.mm.InUse e.frame

/-- The bytes of an address space that is made for a sum of sizes: whole pages, for the sum as the
32-bit arithmetic has it. -/
def NoffHeader.extent (noffH : NoffHeader) : ℤ :=
  (noffH.total % 2 ^ 32 + (pageSize - 1)) / pageSize * pageSize

/-- The part of a segment that the file has lies below `extent`. -/
def Segment.Fits (segment : Segment) (file : OpenFile) (extent : ℤ) : Prop :=
  let n := min segment.size.toInt (file.length - segment.inFileAddr.toInt)
  0 < n → segment.virtualAddr.toNat + n ≤ extent

/-- **The headers that are loaded inside their address space.** -/
structure Loadable (file : OpenFile) (noffH : NoffHeader) : Prop where
  total_lt : noffH.total < 2 ^ 32
  code : noffH.code.Fits file noffH.extent
  initData : noffH.initData.Fits file noffH.extent

/-! ### Sizes -/

section Sizes

variable {noffH : NoffHeader} {n : ℕ}

lemma toNat_size (noffH : NoffHeader) : (noffH.size.toNat : ℤ) = noffH.total % 2 ^ 32 := by
  have h : noffH.size = BitVec.ofInt 32 noffH.total := by
    unfold NoffHeader.size NoffHeader.total
    simp only [BitVec.ofInt_add, BitVec.ofInt_toInt, BitVec.ofInt_natCast]
  rw [h, BitVec.toNat_ofInt]
  exact Int.toNat_of_nonneg (Int.emod_nonneg _ (by decide))

lemma divRoundUp_eq : divRoundUp n pageSize = (n + (pageSize - 1)) / pageSize := by
  unfold divRoundUp
  simp only [pageSize]
  split <;> omega

lemma extent_eq : noffH.extent = (noffH.numPages * pageSize : ℕ) := by
  unfold NoffHeader.extent NoffHeader.numPages
  rw [← toNat_size, divRoundUp_eq]
  simp only [pageSize]
  omega

lemma MemoryManager.getFreePageCount_le (mm : MemoryManager) :
    mm.getFreePageCount ≤ numPhysPages := by
  have h : mm.bitmap.numClear ≤ (List.range mm.bitmap.numBits).length := List.countP_le_length
  rwa [List.length_range, mm.numBits_eq] at h

/-- **A space has room for the total exactly when the sum has no carry.** -/
lemma total_le_iff :
    noffH.total ≤ (noffH.numPages * pageSize : ℕ) ↔ noffH.total < 2 ^ 32 := by
  have hs := toNat_size noffH
  unfold NoffHeader.numPages
  rw [divRoundUp_eq]
  simp only [pageSize]
  omega

end Sizes

/-! ### The copy -/

section Copy

variable {file : OpenFile} {translate : Word → Word} {offset va position : Word} {n counter : ℕ}
  {mem : ℕ → Byte} {result : (ℕ → Byte) × List Access}

lemma readAt_eq_ok {byte : Option Byte} (h : file.readAt position = .ok byte) :
    0 ≤ position.toInt ∧ byte = file[position.toNat]? := by
  unfold OpenFile.readAt at h
  split at h
  next => cases h
  next hp =>
    cases h
    exact ⟨Int.not_lt.1 hp, rfl⟩

/-- One turn of the loop. -/
lemma readFile_succ (h : readFile file translate offset va counter (n + 1) mem = .ok result) :
    0 ≤ (offset + BitVec.ofNat 32 counter).toInt ∧
    ∃ mem' stores, readFile file translate offset va (counter + 1) n mem' = .ok (result.1, stores) ∧
      result.2 = (if (offset + BitVec.ofNat 32 counter).toNat < file.length then
        [⟨va + BitVec.ofNat 32 counter, translate (va + BitVec.ofNat 32 counter)⟩] else []) ++ stores := by
  rw [readFile] at h
  cases hr : file.readAt (offset + BitVec.ofNat 32 counter) with
  | error => rw [hr] at h; cases h
  | ok byte =>
    obtain ⟨hp, rfl⟩ := readAt_eq_ok hr
    rw [hr] at h
    refine ⟨hp, ?_⟩
    by_cases hlt : (offset + BitVec.ofNat 32 counter).toNat < file.length
    · rw [List.getElem?_eq_getElem hlt] at h
      rw [if_pos hlt]
      dsimp only [bind, Except.bind] at h
      split at h
      next => cases h
      next rest hrest =>
        cases h
        exact ⟨_, rest.2, hrest, rfl⟩
    · rw [List.getElem?_eq_none (Nat.not_lt.1 hlt)] at h
      rw [if_neg hlt]
      exact ⟨mem, result.2, h, rfl⟩

/-- The accesses of the loop that store a byte, by induction on the bytes left. -/
lemma mem_stores_iff (h : readFile file translate offset va counter n mem = .ok result)
    (a : Access) : a ∈ result.2 ↔ ∃ c, counter ≤ c ∧ c < counter + n ∧
      (offset + BitVec.ofNat 32 c).toNat < file.length ∧
      a = ⟨va + BitVec.ofNat 32 c, translate (va + BitVec.ofNat 32 c)⟩ := by
  induction n generalizing counter mem result with
  | zero =>
    cases h
    refine iff_of_false List.not_mem_nil ?_
    rintro ⟨c, hle, hlt, -⟩
    omega
  | succ n ih =>
    obtain ⟨-, mem', stores, hrest, he⟩ := readFile_succ h
    have hih := ih hrest
    rw [he, List.mem_append, hih]
    constructor
    · rintro (hnow | ⟨c, hle, hlt, hf, ha⟩)
      · split at hnow
        next hf => exact ⟨counter, Nat.le_refl _, by omega, hf, List.mem_singleton.1 hnow⟩
        next => cases hnow
      · exact ⟨c, by omega, by omega, hf, ha⟩
    · rintro ⟨c, hle, hlt, hf, ha⟩
      by_cases hc : c = counter
      · subst hc
        rw [if_pos hf]
        exact .inl (List.mem_singleton.2 ha)
      · exact .inr ⟨c, by omega, by omega, hf, ha⟩

/-- A loop that ends has read at positions that are not negative. -/
lemma position_nonneg (h : readFile file translate offset va counter n mem = .ok result) {c : ℕ}
    (hle : counter ≤ c) (hlt : c < counter + n) : 0 ≤ (offset + BitVec.ofNat 32 c).toInt := by
  induction n generalizing counter mem result with
  | zero => omega
  | succ n ih =>
    obtain ⟨hp, mem', stores, hrest, -⟩ := readFile_succ h
    by_cases hc : c = counter
    · rwa [hc]
    · exact ih hrest (by omega) (by omega)

end Copy

/-! ### The image -/

section Image

variable {file : OpenFile} {table : List TranslationEntry} {segment : Segment}
  {mem : ℕ → Byte} {result : (ℕ → Byte) × List Access} {translate : Word → Word} {numPages : ℕ}

lemma toInt_nonneg_iff (w : Word) : 0 ≤ w.toInt ↔ w.toNat < 2 ^ 31 := by
  rw [BitVec.toInt_eq_toNat_cond]
  split <;> omega

/-- The accesses of a segment. -/
lemma mem_readSegment_iff (h : readSegment file translate segment mem = .ok result) (a : Access) :
    a ∈ result.2 ↔ ∃ c : ℕ, (c : ℤ) < segment.size.toInt ∧
      c + segment.inFileAddr.toInt < file.length ∧
      a = ⟨segment.virtualAddr + BitVec.ofNat 32 c,
        translate (segment.virtualAddr + BitVec.ofNat 32 c)⟩ := by
  unfold readSegment at h
  split at h
  next hpos =>
    have hlt := BitVec.toInt_lt (x := segment.size)
    have hoff : 0 ≤ segment.inFileAddr.toInt := by
      have h0 := position_nonneg h (Nat.le_refl 0) (by omega)
      simpa using h0
    have hsmall := (toInt_nonneg_iff _).1 hoff
    have hnat : segment.inFileAddr.toInt = segment.inFileAddr.toNat :=
      BitVec.toInt_eq_toNat_of_lt (by omega)
    have hsum : ∀ c : ℕ, (c : ℤ) < segment.size.toInt →
        (segment.inFileAddr + BitVec.ofNat 32 c).toNat = segment.inFileAddr.toNat + c := by
      intro c hc
      rw [BitVec.toNat_add, BitVec.toNat_ofNat]
      omega
    rw [mem_stores_iff h]
    constructor
    · rintro ⟨c, -, hc, hf, rfl⟩
      have hc' : (c : ℤ) < segment.size.toInt := by omega
      rw [hsum c hc'] at hf
      exact ⟨c, hc', by omega, rfl⟩
    · rintro ⟨c, hc, hf, rfl⟩
      refine ⟨c, Nat.zero_le c, by omega, ?_, rfl⟩
      rw [hsum c hc]
      omega
  next hneg =>
    cases h
    refine iff_of_false List.not_mem_nil ?_
    rintro ⟨c, hc, -⟩
    omega

/-- **A segment stays in the table exactly when it fits**: its first and its last byte decide,
because a range that wraps around the address space leaves every table. -/
lemma inTable_iff_fits (h : readSegment file translate segment mem = .ok result)
    (hp : numPages ≤ numPhysPages) :
    (∀ a ∈ result.2, pageOf a.virtualAddr < numPages) ↔
      segment.Fits file (numPages * pageSize : ℕ) := by
  have hva := segment.virtualAddr.isLt
  have hsize := BitVec.toInt_lt (x := segment.size)
  have hpage : ∀ c : ℕ, pageOf (segment.virtualAddr + BitVec.ofNat 32 c) < numPages ↔
      (segment.virtualAddr.toNat + c) % 2 ^ 32 < numPages * pageSize := by
    intro c
    unfold pageOf
    rw [BitVec.toNat_add, BitVec.toNat_ofNat, Nat.div_lt_iff_lt_mul (by decide), Nat.add_mod_mod]
  simp only [pageSize, numPhysPages] at hp hpage ⊢
  unfold Segment.Fits
  dsimp only
  constructor
  · intro hall hn
    obtain ⟨n, hn'⟩ := Int.eq_ofNat_of_zero_le (Int.le_of_lt hn)
    have hin : ∀ c < n, (segment.virtualAddr.toNat + c) % 2 ^ 32 < numPages * 128 := fun c hc =>
      (hpage c).1 (hall _ ((mem_readSegment_iff h _).2 ⟨c, by omega, by omega, rfl⟩))
    have hfirst := hin 0 (by omega)
    have hlast := hin (n - 1) (by omega)
    rw [hn']
    omega
  · intro hfits a ha
    obtain ⟨c, hc, hf, rfl⟩ := (mem_readSegment_iff h a).1 ha
    have hle := hfits (by omega)
    refine (hpage c).2 ?_
    omega

/-- Inside the table the kernel stores into the frame of an entry. -/
lemma translate_div (beyond : ℕ → Word) (hf : DistinctFrames table) {va : Word}
    (hva : pageOf va < table.length) :
    ∃ e ∈ table, (AddrSpace.translate table beyond va).toNat / pageSize = e.frame := by
  have he : table[va.toNat / pageSize]? = some table[pageOf va] := List.getElem?_eq_getElem hva
  have hmem : table[pageOf va] ∈ table := List.getElem_mem hva
  have hlt : table[pageOf va].physicalPage.toNat < numPhysPages := hf.lt _ hmem
  refine ⟨_, hmem, ?_⟩
  unfold AddrSpace.translate TranslationEntry.frame
  simp only [he, BitVec.toNat_add, BitVec.toNat_mul, BitVec.toNat_ofNat]
  have hoff : va.toNat % pageSize < pageSize := Nat.mod_lt _ (by decide)
  simp only [pageSize, numPhysPages] at hlt hoff ⊢
  omega

/-- The fields of an image. -/
lemma construct_eq_ok {getPCB : Except Fault ℕ} {env : Environment} {image : Image}
    (h : construct getPCB file env = .ok (some image)) :
    (readHeader file env.stack).numPages ≤ env.mm.getFreePageCount ∧
    image.numPages = (readHeader file env.stack).numPages ∧
    image.pageTable = (fillTable 0 (readHeader file env.stack).numPages env.mm env.mainMemory).1 ∧
    image.mm = (fillTable 0 (readHeader file env.stack).numPages env.mm env.mainMemory).2.1 ∧
    ∃ code initData mem₁ mem₂,
      readSegment file (AddrSpace.translate image.pageTable env.beyond)
        (readHeader file env.stack).code mem₁ = .ok code ∧
      readSegment file (AddrSpace.translate image.pageTable env.beyond)
        (readHeader file env.stack).initData mem₂ = .ok initData ∧
      image.stores = code.2 ++ initData.2 := by
  unfold construct at h
  dsimp only at h
  split at h
  next => cases h
  next =>
    split at h
    next => cases h
    next hfree =>
      cases hpcb : getPCB with
      | error => rw [hpcb] at h; cases h
      | ok pcb =>
        rw [hpcb] at h
        dsimp only [bind, Except.bind] at h
        split at h
        next => cases h
        next code hcode =>
          split at h
          next => cases h
          next initData hinit =>
            cases h
            dsimp only
            exact ⟨Nat.not_lt.1 hfree, rfl, rfl, rfl, code, initData, _, code.1, hcode, hinit, rfl⟩

/-- A constructor that finishes with `valid = true` has the fields of an image. -/
lemma run_eq_ok {k : Constructor} {env : Environment} {image : Image}
    (h : k.run file env = .ok (some image)) :
    ∃ getPCB, construct getPCB file env = .ok (some image) := by
  cases k with
  | ofExecutable allocatePCB => exact ⟨allocatePCB, h⟩
  | withPCB pcb => exact ⟨.ok pcb, h⟩

/-- **A constructor of `AddrSpace` confines the executable if and only if its header is
`Loadable`.** -/
theorem confined_iff_loadable {k : Constructor} {env : Environment} {image : Image}
    (h : k.run file env = .ok (some image)) :
    Confined env (readHeader file env.stack) image ↔ Loadable file (readHeader file env.stack) := by
  obtain ⟨getPCB, hc⟩ := run_eq_ok h
  obtain ⟨hfree, hpages, htable, hmm, code, initData, mem₁, mem₂, hcode, hinit, hstores⟩ :=
    construct_eq_ok hc
  have hle : image.numPages ≤ numPhysPages :=
    hpages ▸ Nat.le_trans hfree env.mm.getFreePageCount_le
  have hroom : (readHeader file env.stack).total ≤ image.numPages * pageSize ↔
      (readHeader file env.stack).total < 2 ^ 32 := by
    rw [← total_le_iff, ← hpages, Nat.cast_mul]
  have hextent : (readHeader file env.stack).extent = (image.numPages * pageSize : ℕ) := by
    rw [extent_eq, hpages]
  constructor
  · intro hconf
    refine ⟨hroom.1 hconf.room, ?_, ?_⟩
    · rw [hextent, ← inTable_iff_fits hcode hle]
      exact fun a ha => hconf.inTable a (hstores ▸ List.mem_append_left _ ha)
    · rw [hextent, ← inTable_iff_fits hinit hle]
      exact fun a ha => hconf.inTable a (hstores ▸ List.mem_append_right _ ha)
  · intro hload
    have hcodeFits := hload.code
    have hinitFits := hload.initData
    rw [hextent, ← inTable_iff_fits hcode hle] at hcodeFits
    rw [hextent, ← inTable_iff_fits hinit hle] at hinitFits
    have hin : ∀ a ∈ image.stores, pageOf a.virtualAddr < image.numPages := by
      intro a ha
      rw [hstores, List.mem_append] at ha
      exact ha.elim (hcodeFits a) (hinitFits a)
    have halloc : Allocated env.mm image.mm image.pageTable := by
      rw [htable, hmm]
      exact allocated_fillTable hfree
    have hlen : image.pageTable.length = image.numPages := by
      rw [htable, length_fillTable, hpages]
    refine ⟨?_, hin, fun a ha => ?_⟩
    · exact hroom.2 hload.total_lt
    have hphys : a.physicalAddr =
        AddrSpace.translate image.pageTable env.beyond a.virtualAddr := by
      rw [hstores, List.mem_append] at ha
      rcases ha with ha | ha
      · obtain ⟨c, -, -, rfl⟩ := (mem_readSegment_iff hcode a).1 ha
        rfl
      · obtain ⟨c, -, -, rfl⟩ := (mem_readSegment_iff hinit a).1 ha
        rfl
    have hlt : pageOf a.virtualAddr < image.pageTable.length := by
      rw [hlen]
      exact hin a ha
    obtain ⟨e, he, hdiv⟩ := translate_div env.beyond halloc.distinct hlt
    rw [← hphys] at hdiv
    have huse : image.mm.InUse e.frame := (halloc.inUse e.frame).2 (.inr ⟨e, he, rfl⟩)
    exact ⟨e, he, hdiv, halloc.free e he, huse⟩

end Image

/-! ### Two executables -/

/-- An executable with four bytes of code at address `256 * high`. -/
def smallFile (high : Byte) : OpenFile :=
  [0xad, 0xdf, 0xba, 0, 0, high, 0, 0, 40, 0, 0, 0, 4, 0, 0, 0,
    0, 0, 0, 0, 0, 0, 0, 0, 0, 0, 0, 0, 0, 0, 0, 0, 0, 0, 0, 0, 0, 0, 0, 0, 1, 2, 3, 4]

/-- Zeroed memory, all of it free. -/
def zeroed : Environment := ⟨.new, fun _ => 0, fun _ => 0, fun _ => 0⟩

/-- The image of a run that makes one. -/
lemma exists_image {x : Except Fault (Option Image)} {p : Image → Bool}
    (h : (x.toOption.join.map p) = some true) : ∃ image, x = .ok (some image) ∧ p image = true := by
  match x, h with
  | .ok (some image), h => exact ⟨image, rfl, Option.some_inj.1 h⟩

/-- Code at address 0. -/
theorem confined_iff_loadable_small : ∃ image,
    (Constructor.withPCB 0).run (smallFile 0) zeroed = .ok (some image) ∧
      (Confined zeroed (readHeader (smallFile 0) zeroed.stack) image ↔
        Loadable (smallFile 0) (readHeader (smallFile 0) zeroed.stack)) := by
  have hrun : ((Constructor.withPCB 0).run (smallFile 0) zeroed).toOption.join.map (fun _ => true) =
      some true := by decide +kernel
  obtain ⟨image, h, -⟩ := exists_image hrun
  exact ⟨image, h, confined_iff_loadable h⟩

/-- Code at address 4096, in an address space of nine pages: it is stored through the memory that
comes after the page table. -/
theorem not_confined_high :
    ¬ ∀ image, (Constructor.withPCB 0).run (smallFile 16) zeroed = .ok (some image) →
      Confined zeroed (readHeader (smallFile 16) zeroed.stack) image := by
  intro hall
  have hrun : ((Constructor.withPCB 0).run (smallFile 16) zeroed).toOption.join.map
      (fun image => image.stores.any fun a => decide (image.numPages ≤ pageOf a.virtualAddr)) =
      some true := by decide +kernel
  obtain ⟨image, h, hany⟩ := exists_image hrun
  obtain ⟨a, ha, hle⟩ := List.any_eq_true.1 hany
  exact absurd ((hall image h).inTable a ha) (Nat.not_lt.2 (of_decide_eq_true hle))

end Nachos.Userprog
