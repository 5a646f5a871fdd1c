import Nachos.Userprog.Copy
import Nachos.Userprog.Loader

/-!
# The image of an executable

What a constructor of `AddrSpace` leaves in memory. The pages are zeroed as their frames are
taken, and then `ReadFile` stores the segments byte by byte through `Translate`. The frames are
distinct, so that two virtual addresses of the space never are one place.
-/

namespace Nachos.Userprog

open Threads Mips

/-! ### What an image is -/

/-- The virtual address of the `i`-th byte of a segment. -/
def Segment.addr (segment : Segment) (i : ℕ) : Word := segment.virtualAddr + BitVec.ofNat 32 i

/-- The segment has a size, lies below `bound`, and the file has all of it. A position in a file is
an `int`. -/
structure Segment.WellPlaced (segment : Segment) (file : OpenFile) (bound : ℕ) : Prop where
  size : 0 ≤ segment.size.toInt
  below : 0 < segment.size.toInt → segment.virtualAddr.toNat + segment.size.toNat ≤ bound
  position : 0 < segment.size.toInt → 0 ≤ segment.inFileAddr.toInt ∧
    segment.inFileAddr.toInt + segment.size.toInt ≤ 2 ^ 31
  inFile : 0 < segment.size.toInt → segment.inFileAddr.toInt + segment.size.toInt ≤ file.length

/-- The headers of the executables that are built. -/
structure Buildable (file : OpenFile) (noffH : NoffHeader) (env : Environment) : Prop where
  magic : noffH.noffMagic = NOFFMAGIC
  code : noffH.code.WellPlaced file (noffH.numPages * pageSize)
  initData : noffH.initData.WellPlaced file (noffH.numPages * pageSize)
  uninitData : 0 ≤ noffH.uninitData.size.toInt
  disjoint : ∀ i < noffH.code.size.toNat, ∀ j < noffH.initData.size.toNat,
    noffH.code.addr i ≠ noffH.initData.addr j
  enough : noffH.numPages ≤ env.mm.getFreePageCount

/-- **The image of an executable**: the segments as the file has them, zeros, and nothing else. -/
structure Built (file : OpenFile) (noffH : NoffHeader) (env : Environment) (image : Image) :
    Prop where
  numPages : image.numPages = noffH.numPages
  length : image.pageTable.length = noffH.numPages
  /-- The frames were free, are distinct, and are in use now. -/
  allocated : Allocated env.mm image.mm image.pageTable
  code : ∀ i < noffH.code.size.toNat, ∃ byte,
    file[noffH.code.inFileAddr.toNat + i]? = some byte ∧
      contents image.pageTable image.mainMemory (noffH.code.addr i) = some byte
  initData : ∀ i < noffH.initData.size.toNat, ∃ byte,
    file[noffH.initData.inFileAddr.toNat + i]? = some byte ∧
      contents image.pageTable image.mainMemory (noffH.initData.addr i) = some byte
  zero : ∀ va, va.toNat < noffH.numPages * pageSize →
    (∀ i < noffH.code.size.toNat, va ≠ noffH.code.addr i) →
    (∀ i < noffH.initData.size.toNat, va ≠ noffH.initData.addr i) →
    contents image.pageTable image.mainMemory va = some 0
  /-- The other frames are as they were. -/
  others : ∀ i, (∀ e ∈ image.pageTable, i / pageSize ≠ e.frame) →
    image.mainMemory i = env.mainMemory i

/-! ### The pages -/

section Pages

variable {mm : MemoryManager} {mem : ℕ → Byte} {i n : ℕ}

lemma valid_fillTable : ∀ e ∈ (fillTable i n mm mem).1, e.valid = true := by
  induction n generalizing i mm mem with
  | zero => exact fun _ h => absurd h List.not_mem_nil
  | succ n ih =>
    intro e he
    obtain rfl | he := List.mem_cons.1 he
    · rfl
    · exact ih e he

/-- **The frames that are taken are zeroed**, and the others are left alone. -/
lemma memory_fillTable (h : n ≤ mm.getFreePageCount) (x : ℕ) :
    (fillTable i n mm mem).2.2 x =
      if ∃ e ∈ (fillTable i n mm mem).1, x / pageSize = e.frame then 0 else mem x := by
  induction n generalizing i mm mem with
  | zero => exact (if_neg fun ⟨_, h, _⟩ => List.not_mem_nil h).symm
  | succ n ih =>
    have hpos : 0 < mm.getFreePageCount := by omega
    obtain ⟨f, hf, -, he, -, hcount⟩ := MemoryManager.allocatePage_of_pos hpos
    have hpage : (BitVec.ofInt 32 mm.allocatePage.1).toNat = f := by
      rw [he, BitVec.ofInt_natCast, BitVec.toNat_ofNat]
      simp only [numPhysPages] at hf
      omega
    have haddr : (BitVec.ofInt 32 mm.allocatePage.1 * BitVec.ofNat 32 pageSize).toNat =
        f * pageSize := by
      rw [toNat_frame_mul (by rwa [hpage]), hpage]
    have hzero : bzero mem (f * pageSize) pageSize x = if x / pageSize = f then 0 else mem x := by
      refine if_congr ?_ rfl rfl
      simp only [pageSize]
      omega
    have hih := @ih mm.allocatePage.2 (bzero mem (f * pageSize) pageSize) (i + 1) (by omega)
    rw [fillTable, haddr]
    generalize fillTable (i + 1) n mm.allocatePage.2 (bzero mem (f * pageSize) pageSize) = rest at hih
    show rest.2.2 x = _
    rw [hih, hzero, ite_eq_iff']
    simp only [List.exists_mem_cons_iff, TranslationEntry.frame, hpage]
    constructor
    · intro hrest
      rw [if_pos (.inr hrest)]
    · intro hrest
      exact if_congr (by simp only [hrest, or_false]) rfl rfl

end Pages

/-! ### The segments -/

section Segments

variable {file : OpenFile} {translate : Word → Word} {offset va : Word} {n counter : ℕ}
  {mem : ℕ → Byte}

/-- What the loop of `ReadFile` leaves, when the file has the bytes and their places are distinct. -/
lemma readFile_eq (hfile : offset.toNat + (counter + n) ≤ file.length)
    (hpos : offset.toNat + (counter + n) ≤ 2 ^ 31)
    (hinj : ∀ c d, c < counter + n → d < counter + n →
      translate (va + BitVec.ofNat 32 c) = translate (va + BitVec.ofNat 32 d) → c = d) :
    ∃ result, readFile file translate offset va counter n mem = .ok result ∧
      (∀ c, counter ≤ c → c < counter + n →
        file[offset.toNat + c]? = some (result.1 (translate (va + BitVec.ofNat 32 c)).toNat)) ∧
      ∀ x, (∀ c, counter ≤ c → c < counter + n → x ≠ (translate (va + BitVec.ofNat 32 c)).toNat) →
        result.1 x = mem x := by
  induction n generalizing counter mem with
  | zero =>
    refine ⟨(mem, []), rfl, fun c hle hlt => ?_, fun _ _ => rfl⟩
    omega
  | succ n ih =>
    have hposition : (offset + BitVec.ofNat 32 counter).toNat = offset.toNat + counter := by
      rw [BitVec.toNat_add, BitVec.toNat_ofNat]
      omega
    have hlt : offset.toNat + counter < file.length := by omega
    have hread : file.readAt (offset + BitVec.ofNat 32 counter) =
        .ok (some file[offset.toNat + counter]) := by
      have hnonneg : ¬ (offset + BitVec.ofNat 32 counter).toInt < 0 := by
        rw [Int.not_lt, toInt_nonneg_iff, hposition]
        omega
      rw [OpenFile.readAt, if_neg hnonneg, hposition, List.getElem?_eq_getElem]
    obtain ⟨result, hres, hbytes, hothers⟩ := @ih (counter + 1)
      (Function.update mem (translate (va + BitVec.ofNat 32 counter)).toNat
        file[offset.toNat + counter])
      (by omega) (by omega) fun c d hc hd => hinj c d (by omega) (by omega)
    refine ⟨(result.1, _), by rw [readFile, hread]; dsimp only [bind, Except.bind]; rw [hres], ?_, ?_⟩
    · intro c hle hlt
      by_cases hc : c = counter
      · -- later bytes go elsewhere
        subst hc
        rw [hothers _ fun d hle' hlt' heq => ?_, Function.update_self, List.getElem?_eq_getElem]
        have := hinj c d (by omega) (by omega) (BitVec.eq_of_toNat_eq heq)
        omega
      · exact hbytes c (by omega) (by omega)
    · intro x hx
      rw [hothers x fun c hle hlt => hx c (by omega) (by omega),
        Function.update_of_ne (hx counter (Nat.le_refl _) (by omega))]

end Segments

section Space

variable {file : OpenFile} {table : List TranslationEntry} {segment : Segment} {mem : ℕ → Byte}

/-- Two virtual addresses of the space are not one place. -/
lemma translate_inj (hf : DistinctFrames table) (beyond : ℕ → Word) {a b : Word}
    (ha : pageOf a < table.length) (hb : pageOf b < table.length)
    (h : AddrSpace.translate table beyond a = AddrSpace.translate table beyond b) : a = b := by
  have hea := List.getElem?_eq_getElem ha
  have heb := List.getElem?_eq_getElem hb
  have hnat := congrArg BitVec.toNat h
  rw [toNat_translate hea (hf.lt _ (List.getElem_mem ha)),
    toNat_translate heb (hf.lt _ (List.getElem_mem hb))] at hnat
  have hoffa : offsetOf a < pageSize := Nat.mod_lt _ (by decide)
  have hoffb : offsetOf b < pageSize := Nat.mod_lt _ (by decide)
  have hframe : table[pageOf a].frame = table[pageOf b].frame := by
    rw [← div_pageSize (f := table[pageOf a].frame) hoffa, hnat, div_pageSize hoffb]
  have hpage := hf.page_eq hea heb hframe
  rw [hframe] at hnat
  refine BitVec.eq_of_toNat_eq ?_
  simp only [pageOf, offsetOf, pageSize] at hpage hnat
  omega

lemma pageOf_lt_iff {va : Word} {n : ℕ} : pageOf va < n ↔ va.toNat < n * pageSize :=
  Nat.div_lt_iff_lt_mul (by decide)

/-- The bytes of a segment that is below the end of the space. -/
lemma Segment.WellPlaced.toNat_addr {bound i : ℕ} (h : segment.WellPlaced file bound)
    (hi : i < segment.size.toNat) (hbound : bound ≤ numPhysPages * pageSize) :
    (segment.addr i).toNat = segment.virtualAddr.toNat + i ∧
      segment.virtualAddr.toNat + i < bound := by
  have hpos : 0 < segment.size.toInt := by
    have := h.size
    have := BitVec.toInt_eq_toNat_cond segment.size
    split at this <;> omega
  have hbelow := h.below hpos
  rw [Segment.addr, BitVec.toNat_add, BitVec.toNat_ofNat]
  simp only [numPhysPages, pageSize] at hbound
  omega

/-- **A segment is stored** at its virtual addresses, and nothing else is changed. -/
lemma readSegment_eq {n : ℕ} (hf : DistinctFrames table) (hlen : table.length = n)
    (hn : n ≤ numPhysPages) (beyond : ℕ → Word) (h : segment.WellPlaced file (n * pageSize)) :
    ∃ result, readSegment file (AddrSpace.translate table beyond) segment mem = .ok result ∧
      (∀ i < segment.size.toNat, file[segment.inFileAddr.toNat + i]? =
        some (result.1 (AddrSpace.translate table beyond (segment.addr i)).toNat)) ∧
      ∀ x, (∀ i < segment.size.toNat,
          x ≠ (AddrSpace.translate table beyond (segment.addr i)).toNat) →
        result.1 x = mem x := by
  have hsize : segment.size.toInt = segment.size.toNat := by
    have := h.size
    have := BitVec.toInt_eq_toNat_cond segment.size
    split at this <;> omega
  by_cases hpos : 0 < segment.size.toInt
  · obtain ⟨hoff, hend⟩ := h.position hpos
    have hfile := h.inFile hpos
    have hoffset : segment.inFileAddr.toInt = segment.inFileAddr.toNat :=
      BitVec.toInt_eq_toNat_of_lt (by have := (toInt_nonneg_iff _).1 hoff; omega)
    have hbound : n * pageSize ≤ numPhysPages * pageSize := Nat.mul_le_mul_right _ hn
    have haddr := fun i hi => h.toNat_addr (i := i) hi hbound
    obtain ⟨result, hres, hbytes, hothers⟩ := @readFile_eq file
      (AddrSpace.translate table beyond) segment.inFileAddr segment.virtualAddr
      segment.size.toNat 0 mem
      (by omega) (by omega) (by
        intro c d hc hd heq
        rw [Nat.zero_add] at hc hd
        have hin : ∀ i < segment.size.toNat, pageOf (segment.addr i) < table.length := by
          intro i hi
          rw [hlen, pageOf_lt_iff, (haddr i hi).1]
          exact (haddr i hi).2
        have heq' := congrArg BitVec.toNat (translate_inj hf beyond (hin c hc) (hin d hd) heq)
        rw [(haddr c hc).1, (haddr d hd).1] at heq'
        omega)
    refine ⟨result, ?_, fun i hi => hbytes i (Nat.zero_le i) (by omega), fun x hx =>
      hothers x fun i _ hi => hx i (by omega)⟩
    rw [readSegment, if_pos hpos, hsize]
    exact hres
  · refine ⟨(mem, []), by rw [readSegment, if_neg hpos], fun i hi => ?_, fun _ _ => rfl⟩
    omega

/-- What a process reads at a virtual address of its space. -/
lemma contents_of_lt (hf : DistinctFrames table) (hv : ∀ e ∈ table, e.valid = true)
    (beyond : ℕ → Word) {va : Word} (hva : pageOf va < table.length) :
    contents table mem va = some (mem (AddrSpace.translate table beyond va).toNat) := by
  have he := List.getElem?_eq_getElem hva
  have hmem : table[pageOf va] ∈ table := List.getElem_mem hva
  rw [contents_eq he (hf.lt _ hmem), if_pos (hv _ hmem), toNat_translate he (hf.lt _ hmem)]

/-- The place of a virtual address of the space is in a frame of the table. -/
lemma exists_frame (hf : DistinctFrames table) (beyond : ℕ → Word) {va : Word}
    (hva : pageOf va < table.length) :
    ∃ e ∈ table, (AddrSpace.translate table beyond va).toNat / pageSize = e.frame := by
  have hmem : table[pageOf va] ∈ table := List.getElem_mem hva
  refine ⟨_, hmem, ?_⟩
  rw [toNat_translate (List.getElem?_eq_getElem hva) (hf.lt _ hmem)]
  exact div_pageSize (Nat.mod_lt _ (by decide))

end Space

/-! ### The image -/

/-- A constructor for which the PCB is `pcb`. -/
def Constructor.HasPCB : Constructor → ℕ → Prop
  | .ofExecutable allocatePCB, pcb => allocatePCB = .ok pcb
  | .withPCB pcb', pcb => pcb' = pcb

/-- **The loader builds the image**, and both constructors build the same one. -/
theorem built_of_buildable {file : OpenFile} {env : Environment}
    (h : Buildable file (readHeader file env.stack) env) :
    ∃ image, Built file (readHeader file env.stack) env image ∧
      ∀ (k : Constructor) (pcb : ℕ), k.HasPCB pcb →
        k.run file env = .ok (some { image with pcb := pcb }) := by
  generalize hh : readHeader file env.stack = noffH at h
  have halloc : Allocated env.mm (fillTable 0 noffH.numPages env.mm env.mainMemory).2.1
      (fillTable 0 noffH.numPages env.mm env.mainMemory).1 := allocated_fillTable h.enough
  have hlen : (fillTable 0 noffH.numPages env.mm env.mainMemory).1.length = noffH.numPages :=
    length_fillTable
  have hvalid : ∀ e ∈ (fillTable 0 noffH.numPages env.mm env.mainMemory).1, e.valid = true :=
    valid_fillTable
  have hmem := @memory_fillTable env.mm env.mainMemory 0 _ h.enough
  generalize hfilled : fillTable 0 noffH.numPages env.mm env.mainMemory = filled at *
  have hpages : noffH.numPages ≤ numPhysPages :=
    Nat.le_trans h.enough env.mm.getFreePageCount_le
  obtain ⟨code, hcode, hcodeBytes, hcodeOthers⟩ := @readSegment_eq file filled.1 _
    filled.2.2 _ halloc.distinct hlen hpages env.beyond h.code
  obtain ⟨initData, hinit, hinitBytes, hinitOthers⟩ := @readSegment_eq file filled.1 _
    code.1 _ halloc.distinct hlen hpages env.beyond h.initData
  have hbound : noffH.numPages * pageSize ≤ numPhysPages * pageSize :=
    Nat.mul_le_mul_right _ hpages
  have hcodeIn : ∀ i < noffH.code.size.toNat, pageOf (noffH.code.addr i) < filled.1.length := by
    intro i hi
    obtain ⟨haddr, hlt⟩ := h.code.toNat_addr hi hbound
    rwa [hlen, pageOf_lt_iff, haddr]
  have hinitIn : ∀ i < noffH.initData.size.toNat,
      pageOf (noffH.initData.addr i) < filled.1.length := by
    intro i hi
    obtain ⟨haddr, hlt⟩ := h.initData.toNat_addr hi hbound
    rwa [hlen, pageOf_lt_iff, haddr]
  -- distinct virtual addresses of the space are distinct places
  have hplace : ∀ {a b : Word}, pageOf a < filled.1.length → pageOf b < filled.1.length → a ≠ b →
      (AddrSpace.translate filled.1 env.beyond a).toNat ≠
        (AddrSpace.translate filled.1 env.beyond b).toNat := fun ha hb hne heq =>
    hne (translate_inj halloc.distinct env.beyond ha hb (BitVec.eq_of_toNat_eq heq))
  have hread : ∀ {va : Word}, pageOf va < filled.1.length → contents filled.1 initData.1 va =
      some (initData.1 (AddrSpace.translate filled.1 env.beyond va).toNat) :=
    contents_of_lt halloc.distinct hvalid env.beyond
  refine ⟨⟨0, noffH.numPages, filled.1, filled.2.1, initData.1, code.2 ++ initData.2⟩,
    ⟨rfl, hlen, halloc, ?_, ?_, ?_, ?_⟩, ?_⟩
  · intro i hi
    refine ⟨_, hcodeBytes i hi, ?_⟩
    rw [hread (hcodeIn i hi), hinitOthers _ fun j hj =>
      hplace (hcodeIn i hi) (hinitIn j hj) (h.disjoint i hi j hj)]
  · intro i hi
    exact ⟨_, hinitBytes i hi, hread (hinitIn i hi)⟩
  · intro va hva hnotCode hnotInit
    have hin : pageOf va < filled.1.length := by rwa [hlen, pageOf_lt_iff]
    rw [hread hin, hinitOthers _ fun j hj => hplace hin (hinitIn j hj) (hnotInit j hj),
      hcodeOthers _ fun j hj => hplace hin (hcodeIn j hj) (hnotCode j hj), hmem,
      if_pos (exists_frame halloc.distinct env.beyond hin)]
  · intro x hx
    have hnot : ∀ {va : Word}, pageOf va < filled.1.length →
        x ≠ (AddrSpace.translate filled.1 env.beyond va).toNat := by
      rintro va hva rfl
      obtain ⟨e, he, hdiv⟩ := exists_frame halloc.distinct env.beyond hva
      exact hx e he hdiv
    show initData.1 x = env.mainMemory x
    rw [hinitOthers x fun j hj => hnot (hinitIn j hj), hcodeOthers x fun j hj => hnot (hcodeIn j hj),
      hmem, if_neg fun ⟨e, he, hdiv⟩ => hx e he hdiv]
  · intro k pcb hk
    have hrun : construct (.ok pcb) file env = .ok (some
        ⟨pcb, noffH.numPages, filled.1, filled.2.1, initData.1, code.2 ++ initData.2⟩) := by
      unfold construct
      simp only [hh, hfilled]
      rw [if_neg (not_not.2 h.magic), if_neg (Nat.not_lt.2 h.enough)]
      dsimp only [bind, Except.bind]
      rw [hcode]
      dsimp only
      rw [hinit]
    cases k with
    | ofExecutable allocatePCB =>
      obtain rfl : allocatePCB = .ok pcb := hk
      exact hrun
    | withPCB pcb' =>
      obtain rfl : pcb' = pcb := hk
      exact hrun

/-- Four bytes of code at address 0, in nine pages. -/
theorem built_of_buildable_small : ∃ image,
    Built (smallFile 0) (readHeader (smallFile 0) zeroed.stack) zeroed image ∧
      ∀ (k : Constructor) (pcb : ℕ), k.HasPCB pcb →
        k.run (smallFile 0) zeroed = .ok (some { image with pcb := pcb }) := by
  refine built_of_buildable ⟨by decide, ⟨by decide, by decide, by decide, by decide⟩,
    ⟨by decide, by decide, by decide, by decide⟩, by decide, ?_, by decide⟩
  intro i _ j hj
  have hempty : (readHeader (smallFile 0) zeroed.stack).initData.size.toNat = 0 := by decide
  omega

end Nachos.Userprog
