import Nachos.Userprog.MemoryManager
import Nachos.Userprog.ReadString

/-!
# Copying an address space

The constructor of `AddrSpace` from another one (`addrspace.cc`), between the two calls on
`mmLock`. It takes a frame for each page and copies the page into it at once. A frame that is in
use is not given out, so that no copy destroys a page of the parent or one copied before.
-/

namespace Nachos.Userprog

open Threads Mips

/-- `bcopy`. -/
def bcopy (mem : ℕ → Byte) (src dst n : ℕ) : ℕ → Byte := fun i =>
  if dst ≤ i ∧ i < dst + n then mem (src + (i - dst)) else mem i

/-- The loop over the entries of the parent's table. -/
def copyTable : List TranslationEntry → MemoryManager → (ℕ → Byte) →
    List TranslationEntry × MemoryManager × (ℕ → Byte)
  | [], mm, mem => ([], mm, mem)
  | entry :: ppt, mm, mem =>
    let physicalPage := BitVec.ofInt 32 mm.allocatePage.1
    let rest := copyTable ppt mm.allocatePage.2
      (bcopy mem (entry.physicalPage * BitVec.ofNat 32 pageSize).toNat
        (physicalPage * BitVec.ofNat 32 pageSize).toNat pageSize)
    ({ entry with physicalPage := physicalPage } :: rest.1, rest.2)

/-- What the constructor leaves, with `valid = true`. -/
structure SpaceCopy where
  pageTable : List TranslationEntry
  mm : MemoryManager
  mainMemory : ℕ → Byte

/-- `AddrSpace::AddrSpace(AddrSpace *)`. `none` is an object with `valid = false`. -/
def copySpace (ppt : List TranslationEntry) (mm : MemoryManager) (mainMemory : ℕ → Byte) :
    Option SpaceCopy :=
  if ppt.length > mm.getFreePageCount then none
  else
    let copied := copyTable ppt mm mainMemory
    some ⟨copied.1, copied.2.1, copied.2.2⟩

/-! ### What is read through a table -/

/-- The byte at a virtual address, when a load of it does not trap. -/
def contents (table : List TranslationEntry) (mem : ℕ → Byte) (va : Word) : Option Byte :=
  match resolve table va 1 false with
  | .ok pa => some (mem pa)
  | .error _ => none

/-- The entry without its frame. -/
def unplaced (e : TranslationEntry) : TranslationEntry := { e with physicalPage := 0 }

/-- The frames of a table are in use. -/
def Placed (mm : MemoryManager) (table : List TranslationEntry) : Prop :=
  ∀ e ∈ table, e.frame < numPhysPages ∧ mm.InUse e.frame

/-- **The child is a copy of the parent.** -/
structure IsCopy (ppt : List TranslationEntry) (mm : MemoryManager) (mainMemory : ℕ → Byte)
    (child : SpaceCopy) : Prop where
  /-- The tables have the same length, virtual pages and flags. -/
  entries : child.pageTable.map unplaced = ppt.map unplaced
  /-- The frames of the child were free, are distinct, and are in use now. -/
  allocated : Allocated mm child.mm child.pageTable
  disjoint : DisjointFrames child.pageTable ppt
  /-- The process and the kernel read the same bytes through both tables. -/
  same : ∀ va, pageOf va < ppt.length →
    contents child.pageTable child.mainMemory va = contents ppt child.mainMemory va
  sameKernel : ∀ beyond va, pageOf va < ppt.length →
    child.mainMemory (AddrSpace.translate child.pageTable beyond va).toNat =
      child.mainMemory (AddrSpace.translate ppt beyond va).toNat
  /-- The other frames are as they were. -/
  others : ∀ i, (∀ e ∈ child.pageTable, i / pageSize ≠ e.frame) →
    child.mainMemory i = mainMemory i
  count : child.mm.getFreePageCount + ppt.length = mm.getFreePageCount

/-! ### The copy of one page -/

section Page

variable {mem : ℕ → Byte} {src dst n i : ℕ}

lemma bcopy_of_notMem (h : ¬ (dst ≤ i ∧ i < dst + n)) : bcopy mem src dst n i = mem i := if_neg h

lemma bcopy_add (h : i < n) : bcopy mem src dst n (dst + i) = mem (src + i) := by
  rw [bcopy, if_pos ⟨Nat.le_add_right .., Nat.add_lt_add_left h dst⟩, Nat.add_sub_cancel_left]

/-- The address of a frame of the machine. -/
lemma toNat_frame_mul {w : Word} (h : w.toNat < numPhysPages) :
    (w * BitVec.ofNat 32 pageSize).toNat = w.toNat * pageSize := by
  rw [BitVec.toNat_mul, BitVec.toNat_ofNat]
  simp only [pageSize, numPhysPages] at h ⊢
  omega

/-- A position of a frame is in no other one. -/
lemma div_pageSize {f off : ℕ} (h : off < pageSize) : (f * pageSize + off) / pageSize = f := by
  rw [Nat.mul_comm, Nat.mul_add_div (by decide), Nat.div_eq_of_lt h, Nat.add_zero]

end Page

/-! ### The loop -/

/-- Two entries whose frames hold the same bytes. -/
def SamePage (mem : ℕ → Byte) (e e' : TranslationEntry) : Prop :=
  unplaced e = unplaced e' ∧
    ∀ off < pageSize, mem (e.frame * pageSize + off) = mem (e'.frame * pageSize + off)

/-- What the loop does, over the entries that are left. -/
structure CopiedTable (ppt : List TranslationEntry) (mm : MemoryManager) (mem : ℕ → Byte)
    (child : List TranslationEntry) (mm' : MemoryManager) (mem' : ℕ → Byte) : Prop where
  allocated : Allocated mm mm' child
  pages : List.Forall₂ (SamePage mem') child ppt
  others : ∀ i, (∀ e ∈ child, i / pageSize ≠ e.frame) → mem' i = mem i
  count : mm'.getFreePageCount + ppt.length = mm.getFreePageCount

lemma Placed.mono {mm mm' : MemoryManager} {table : List TranslationEntry} (h : Placed mm table)
    (hm : ∀ f, mm.InUse f → mm'.InUse f) : Placed mm' table :=
  fun e he => ⟨(h e he).1, hm _ (h e he).2⟩

/-- **The loop copies the table**, by induction on the entries left: later copies go to frames that
were free after the earlier ones. -/
theorem copiedTable {ppt : List TranslationEntry} {mm : MemoryManager} {mem : ℕ → Byte}
    (hp : Placed mm ppt) (h : ppt.length ≤ mm.getFreePageCount) :
    CopiedTable ppt mm mem (copyTable ppt mm mem).1 (copyTable ppt mm mem).2.1
      (copyTable ppt mm mem).2.2 := by
  induction ppt generalizing mm mem with
  | nil => exact ⟨.nil, .nil, fun _ _ => rfl, rfl⟩
  | cons entry ppt ih =>
    rw [List.length_cons] at h
    have hpos : 0 < mm.getFreePageCount := by omega
    obtain ⟨f, hf, hfree, he, huse, hcount⟩ := MemoryManager.allocatePage_of_pos hpos
    have hpage : (BitVec.ofInt 32 mm.allocatePage.1).toNat = f := by
      rw [he, BitVec.ofInt_natCast, BitVec.toNat_ofNat]
      simp only [numPhysPages] at hf
      omega
    obtain ⟨hlt, hentry⟩ := hp entry (List.mem_cons_self ..)
    have hrest : Placed mm.allocatePage.2 ppt :=
      Placed.mono (fun e he => hp e (List.mem_cons_of_mem _ he)) fun g hg => (huse g).2 (.inr hg)
    have hsrc : (entry.physicalPage * BitVec.ofNat 32 pageSize).toNat = entry.frame * pageSize :=
      toNat_frame_mul hlt
    have hdst : (BitVec.ofInt 32 mm.allocatePage.1 * BitVec.ofNat 32 pageSize).toNat =
        f * pageSize := by
      rw [toNat_frame_mul (by rwa [hpage]), hpage]
    rw [copyTable, hsrc, hdst]
    generalize hmem : bcopy mem (entry.frame * pageSize) (f * pageSize) pageSize = mem₁
    have hih : CopiedTable ppt mm.allocatePage.2 mem₁ _ _ _ := ih hrest (by omega)
    generalize copyTable ppt mm.allocatePage.2 mem₁ = rest at hih
    -- what is in use after this page was taken is not copied over
    have hkept : ∀ g, mm.allocatePage.2.InUse g → ∀ off < pageSize,
        rest.2.2 (g * pageSize + off) = mem₁ (g * pageSize + off) := by
      intro g hg off hoff
      refine hih.others _ fun e he heq => hih.allocated.free e he ?_
      rw [div_pageSize hoff] at heq
      rwa [← heq]
    have hne : entry.frame ≠ f := fun heq => hfree (heq ▸ hentry)
    refine ⟨.cons ?_ ?_ ?_ hih.allocated, .cons ⟨rfl, fun off hoff => ?_⟩ hih.pages,
      fun i hi => ?_, ?_⟩
    · rwa [TranslationEntry.frame, hpage]
    · rwa [TranslationEntry.frame, hpage]
    · rwa [TranslationEntry.frame, hpage]
    · have hsource : mem₁ (entry.frame * pageSize + off) = mem (entry.frame * pageSize + off) := by
        rw [← hmem]
        refine bcopy_of_notMem fun hin => hne ?_
        obtain ⟨hle, hlt'⟩ := hin
        simp only [pageSize] at hoff hle hlt'
        omega
      rw [hkept _ ((huse _).2 (.inr hentry)) off hoff, hsource, TranslationEntry.frame, hpage,
        hkept f ((huse f).2 (.inl rfl)) off hoff, ← hmem, bcopy_add hoff]
    · rw [hih.others i fun e he => hi e (List.mem_cons_of_mem _ he), ← hmem]
      refine bcopy_of_notMem fun hin => hi _ (List.mem_cons_self ..) ?_
      obtain ⟨hle, hlt'⟩ := hin
      rw [TranslationEntry.frame, hpage]
      simp only [pageSize] at hle hlt' ⊢
      omega
    · show rest.2.1.getFreePageCount + (ppt.length + 1) = mm.getFreePageCount
      rw [← hcount, ← hih.count, Nat.add_assoc]

/-! ### What is read through the tables -/

section Reads

variable {mem : ℕ → Byte} {child ppt : List TranslationEntry}

/-- A load takes its byte from the frame of the page. -/
lemma contents_eq {table : List TranslationEntry} {va : Word} {e : TranslationEntry}
    (he : table[pageOf va]? = some e) (hlt : e.frame < numPhysPages) :
    contents table mem va =
      if e.valid = true then some (mem (e.frame * pageSize + offsetOf va)) else none := by
  unfold contents
  by_cases hv : e.valid = true
  · have hit : Hit table va 1 e := ⟨he, Nat.mod_one _, hv, hlt⟩
    rw [if_pos hv, hit.resolve (Bool.and_false _)]
  · have hfault : resolve table va 1 false = .error .pageFaultException := by
      unfold resolve
      rw [if_neg (not_not.2 (Nat.mod_one _)), he]
      simp [hv]
    rw [if_neg hv, hfault]

/-- The kernel takes it from there too. -/
lemma toNat_translate {table : List TranslationEntry} {va : Word} {e : TranslationEntry}
    (he : table[pageOf va]? = some e) (hlt : e.frame < numPhysPages) (beyond : ℕ → Word) :
    (AddrSpace.translate table beyond va).toNat = e.frame * pageSize + offsetOf va := by
  have he' : table[va.toNat / pageSize]? = some e := he
  have hoff : va.toNat % pageSize < pageSize := Nat.mod_lt _ (by decide)
  unfold AddrSpace.translate TranslationEntry.frame offsetOf
  unfold TranslationEntry.frame at hlt
  simp only [he', BitVec.toNat_add, BitVec.toNat_mul, BitVec.toNat_ofNat]
  simp only [pageSize, numPhysPages] at hlt hoff ⊢
  omega

/-- The entries of a page in the two tables. -/
lemma samePage_of_lt (h : List.Forall₂ (SamePage mem) child ppt) {va : Word}
    (hva : pageOf va < ppt.length) : ∃ e e', child[pageOf va]? = some e ∧ e ∈ child ∧
      ppt[pageOf va]? = some e' ∧ e' ∈ ppt ∧ SamePage mem e e' := by
  have hlen := h.length_eq
  have hchild : pageOf va < child.length := by omega
  exact ⟨child[pageOf va], ppt[pageOf va], List.getElem?_eq_getElem hchild,
    List.getElem_mem hchild, List.getElem?_eq_getElem hva, List.getElem_mem hva,
    List.Forall₂.get h hchild hva⟩

end Reads

/-- **Fork copies memory exactly**: with enough free frames the constructor gives a copy, whatever
the layout of the frames. -/
theorem copySpace_isCopy {ppt : List TranslationEntry} {mm : MemoryManager} {mem : ℕ → Byte}
    (hp : Placed mm ppt) (h : ppt.length ≤ mm.getFreePageCount) :
    ∃ child, copySpace ppt mm mem = some child ∧ IsCopy ppt mm mem child := by
  have hcopied : CopiedTable ppt mm mem _ _ _ := copiedTable hp h
  refine ⟨_, if_neg (Nat.not_lt.2 h), ?_⟩
  generalize copyTable ppt mm mem = copied at hcopied
  exact
    { entries := by
        rw [← List.forall₂_eq_eq_eq, List.forall₂_map_left_iff, List.forall₂_map_right_iff]
        exact hcopied.pages.imp fun _ _ hs => hs.1
      allocated := hcopied.allocated
      disjoint := fun e he e' he' heq => hcopied.allocated.free e he (heq ▸ (hp e' he').2)
      same := by
        intro va hva
        obtain ⟨e, e', he, hmem, he', hmem', hu, hs⟩ := samePage_of_lt hcopied.pages hva
        have hvalid : e.valid = e'.valid := (congrArg TranslationEntry.valid hu :)
        rw [contents_eq he (hcopied.allocated.distinct.lt e hmem),
          contents_eq he' (hp e' hmem').1, hvalid]
        exact if_congr Iff.rfl (congrArg some (hs _ (Nat.mod_lt _ (by decide)))) rfl
      sameKernel := by
        intro beyond va hva
        obtain ⟨e, e', he, hmem, he', hmem', -, hs⟩ := samePage_of_lt hcopied.pages hva
        rw [toNat_translate he (hcopied.allocated.distinct.lt e hmem),
          toNat_translate he' (hp e' hmem').1]
        exact hs _ (Nat.mod_lt _ (by decide))
      others := hcopied.others
      count := hcopied.count }

/-- A parent with its two pages in frames 5 and 3. -/
theorem copySpace_isCopy_two : ∃ child,
    copySpace [⟨0, 5, true, false, false, false⟩, ⟨1, 3, true, false, true, true⟩]
      ⟨((BitMap.new numPhysPages).setBit 5).setBit 3, rfl⟩ (fun i => BitVec.ofNat 8 i) =
        some child ∧
    IsCopy [⟨0, 5, true, false, false, false⟩, ⟨1, 3, true, false, true, true⟩]
      ⟨((BitMap.new numPhysPages).setBit 5).setBit 3, rfl⟩ (fun i => BitVec.ofNat 8 i) child := by
  refine copySpace_isCopy ?_ (by decide)
  unfold Placed MemoryManager.InUse
  decide

end Nachos.Userprog
