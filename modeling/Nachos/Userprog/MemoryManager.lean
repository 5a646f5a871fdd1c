import Nachos.Mips.Memory
import Nachos.Userprog.BitMap

/-!
# The memory manager

`class MemoryManager` (`memorymanager.cc`) keeps a bitmap of the frames in use, and the constructors
of `AddrSpace` from an executable take the frames of a page table from it one by one.
-/

namespace Nachos.Userprog

open Threads Mips

/-- `class MemoryManager`. Its constructor makes the bitmap for `NumPhysPages` frames. -/
structure MemoryManager where
  bitmap : BitMap
  numBits_eq : bitmap.numBits = numPhysPages

namespace MemoryManager

/-- `MemoryManager::MemoryManager`. -/
def new : MemoryManager := ⟨BitMap.new numPhysPages, rfl⟩

variable (mm : MemoryManager)

/-- `MemoryManager::AllocatePage`. -/
def allocatePage : ℤ × MemoryManager :=
  (mm.bitmap.find.1, ⟨mm.bitmap.find.2, by rw [BitMap.numBits_find, mm.numBits_eq]⟩)

/-- `MemoryManager::GetFreePageCount`. -/
def getFreePageCount : ℕ := mm.bitmap.numClear

/-- The frame is in use. -/
def InUse (frame : ℕ) : Prop := mm.bitmap.bit frame = true

instance (frame : ℕ) : Decidable (mm.InUse frame) := inferInstanceAs (Decidable (_ = _))

variable {mm}

/-- With a free page, `AllocatePage` takes one. -/
lemma allocatePage_of_pos (h : 0 < mm.getFreePageCount) : ∃ f < numPhysPages,
    ¬ mm.InUse f ∧ mm.allocatePage.1 = f ∧
      (∀ g, mm.allocatePage.2.InUse g ↔ g = f ∨ mm.InUse g) ∧
      mm.allocatePage.2.getFreePageCount + 1 = mm.getFreePageCount := by
  rcases BitMap.find_cases mm.bitmap with ⟨f, hf, hb, -, he⟩ | ⟨hall, -⟩
  · have h2 : mm.allocatePage.2.bitmap = mm.bitmap.setBit f := congrArg Prod.snd he
    refine ⟨f, mm.numBits_eq ▸ hf, by simp [InUse, hb], congrArg Prod.fst he, fun g => ?_, ?_⟩
    · simp [InUse, h2, BitMap.bit_setBit]
    · rw [getFreePageCount, h2, BitMap.numClear_setBit hf hb, getFreePageCount]
  · have hzero : mm.getFreePageCount = 0 := BitMap.numClear_eq_zero_iff.2 hall
    omega

end MemoryManager

/-- `bzero`. -/
def bzero (mem : ℕ → Byte) (a n : ℕ) : ℕ → Byte := fun i => if a ≤ i ∧ i < a + n then 0 else mem i

/-- The loop that fills in `n` entries of a page table from entry `i` on. -/
def fillTable : ℕ → ℕ → MemoryManager → (ℕ → Byte) →
    List TranslationEntry × MemoryManager × (ℕ → Byte)
  | _, 0, mm, mem => ([], mm, mem)
  | i, n + 1, mm, mem =>
    let physicalPage := BitVec.ofInt 32 mm.allocatePage.1
    let physicalPageAddress := physicalPage * BitVec.ofNat 32 pageSize
    let rest := fillTable (i + 1) n mm.allocatePage.2 (bzero mem physicalPageAddress.toNat pageSize)
    (⟨BitVec.ofNat 32 i, physicalPage, true, false, false, false⟩ :: rest.1, rest.2)

/-- **The table has frames of its own**: they were free, and now they are in use. -/
structure Allocated (mm mm' : MemoryManager) (table : List TranslationEntry) : Prop where
  distinct : DistinctFrames table
  free : ∀ e ∈ table, ¬ mm.InUse e.frame
  inUse : ∀ f, mm'.InUse f ↔ mm.InUse f ∨ ∃ e ∈ table, e.frame = f

section FillTable

variable {mm : MemoryManager} {mem : ℕ → Byte} {i n : ℕ}

lemma length_fillTable : (fillTable i n mm mem).1.length = n := by
  induction n generalizing i mm mem with
  | zero => rfl
  | succ n ih => exact congrArg (· + 1) ih

lemma Allocated.nil : Allocated mm mm [] where
  distinct := ⟨List.nodup_nil, nofun⟩
  free := nofun
  inUse f := by simp

/-- A frame more: it is distinct from those of the rest, which were free after it was taken. -/
lemma Allocated.cons {mm₁ mm₂ : MemoryManager} {table : List TranslationEntry}
    {e : TranslationEntry} (hlt : e.frame < numPhysPages) (hfree : ¬ mm.InUse e.frame)
    (huse : ∀ g, mm₁.InUse g ↔ g = e.frame ∨ mm.InUse g) (h : Allocated mm₁ mm₂ table) :
    Allocated mm mm₂ (e :: table) where
  distinct := by
    refine ⟨?_, ?_⟩
    · rw [List.map_cons, List.nodup_cons]
      refine ⟨fun hmem => ?_, h.distinct.nodup⟩
      obtain ⟨e', he', heq⟩ := List.mem_map.1 hmem
      exact h.free e' he' ((huse _).2 (.inl heq))
    · rintro e' (_ | ⟨_, he'⟩)
      · exact hlt
      · exact h.distinct.lt e' he'
  free := by
    rintro e' (_ | ⟨_, he'⟩)
    · exact hfree
    · exact fun hu => h.free e' he' ((huse _).2 (.inr hu))
  inUse f := by
    rw [h.inUse, huse]
    simp only [List.mem_cons, exists_eq_or_imp]
    constructor
    · rintro ((rfl | hf) | hf)
      · exact .inr (.inl rfl)
      · exact .inl hf
      · exact .inr (.inr hf)
    · rintro (hf | rfl | hf)
      · exact .inl (.inr hf)
      · exact .inl (.inl rfl)
      · exact .inr hf

/-- **With enough free pages the loop allocates the table**, by induction on the entries left. -/
theorem allocated_fillTable (h : n ≤ mm.getFreePageCount) :
    Allocated mm (fillTable i n mm mem).2.1 (fillTable i n mm mem).1 := by
  induction n generalizing i mm mem with
  | zero => exact .nil
  | succ n ih =>
    have hpos : 0 < mm.getFreePageCount := by omega
    obtain ⟨f, hf, hfree, he, huse, hcount⟩ := MemoryManager.allocatePage_of_pos hpos
    have hframe : TranslationEntry.frame
        ⟨BitVec.ofNat 32 i, BitVec.ofInt 32 mm.allocatePage.1, true, false, false, false⟩ = f := by
      rw [TranslationEntry.frame, he, BitVec.ofInt_natCast, BitVec.toNat_ofNat]
      simp only [numPhysPages] at hf
      omega
    refine .cons ?_ ?_ ?_ (ih (by omega))
    · rwa [hframe]
    · rwa [hframe]
    · rwa [hframe]

end FillTable

end Nachos.Userprog
