import Nachos.Lib.Partition
import Nachos.Process.Destroy
import Nachos.Process.PidTable

/-!
# The frames of the address spaces

The frames that the `MemoryManager` has marked are shared out among the address spaces: the
constructors of `AddrSpace` take frames that are free, and the destructor gives back those of the page
table. It does so without a failing `ASSERT`, as long as the space has a page table.
-/

namespace Nachos.Process

open Lib Threads Mips Userprog

/-! ### Pages -/

/-- The page is a frame in use. -/
def Marked (mm : MemoryManager) (page : ℤ) : Prop := ∃ frame : ℕ, page = frame ∧ mm.InUse frame

/-- A frame in use is one of the memory. -/
def InMemory (mm : MemoryManager) : Prop := ∀ frame, mm.InUse frame → frame < numPhysPages

section Pages

variable {mm mm' : MemoryManager} {n : ℕ} {pages : List ℤ}

lemma marked_natCast {frame : ℕ} : Marked mm frame ↔ mm.InUse frame := by
  constructor
  · rintro ⟨f, hf, hu⟩
    rwa [Int.natCast_inj.mp hf]
  · exact fun hu => ⟨frame, rfl, hu⟩

/-- What `n` calls of `AllocatePage` do. -/
structure Taken (mm mm' : MemoryManager) (pages : List ℤ) : Prop where
  nodup : pages.Nodup
  free : ∀ page ∈ pages, ¬ Marked mm page
  marked : ∀ page, Marked mm' page ↔ Marked mm page ∨ page ∈ pages
  inMemory : InMemory mm → InMemory mm'

lemma Taken.nil : Taken mm mm [] where
  nodup := List.nodup_nil
  free _ h := by cases h
  marked page := by simp
  inMemory := id

lemma Taken.cons {mm₁ : MemoryManager} {frame : ℕ} (hlt : frame < numPhysPages)
    (hfree : ¬ mm.InUse frame) (huse : ∀ g, mm₁.InUse g ↔ g = frame ∨ mm.InUse g)
    (h : Taken mm₁ mm' pages) : Taken mm mm' (frame :: pages) := by
  have hmarked : ∀ page : ℤ, Marked mm₁ page ↔ page = frame ∨ Marked mm page := by
    intro page
    constructor
    · rintro ⟨f, rfl, hu⟩
      obtain rfl | hu := (huse f).mp hu
      · exact .inl rfl
      · exact .inr ⟨f, rfl, hu⟩
    · rintro (rfl | ⟨f, rfl, hu⟩)
      · exact ⟨frame, rfl, (huse frame).mpr (.inl rfl)⟩
      · exact ⟨f, rfl, (huse f).mpr (.inr hu)⟩
  refine ⟨List.nodup_cons.mpr ⟨fun hmem => ?_, h.nodup⟩, fun page hpage => ?_, fun page => ?_,
    fun hin => h.inMemory fun f hu => ?_⟩
  · exact h.free _ hmem ((hmarked _).mpr (.inl rfl))
  · obtain rfl | hpage := List.mem_cons.mp hpage
    · exact fun hu => hfree (marked_natCast.mp hu)
    · exact fun hu => h.free page hpage ((hmarked page).mpr (.inr hu))
  · rw [h.marked, hmarked, List.mem_cons]
    tauto
  · obtain rfl | hu := (huse f).mp hu
    · exact hlt
    · exact hin f hu

/-- **With enough free pages the calls take frames of their own.** -/
theorem taken_allocatePages (h : n ≤ mm.getFreePageCount) :
    Taken mm (allocatePages n mm).2 (allocatePages n mm).1 := by
  induction n generalizing mm with
  | zero => exact .nil
  | succ n ih =>
    have hpos : 0 < mm.getFreePageCount := by omega
    obtain ⟨f, hf, hfree, he, huse, hcount⟩ := MemoryManager.allocatePage_of_pos hpos
    have hrest : Taken mm.allocatePage.2 (allocatePages n mm.allocatePage.2).2
        (allocatePages n mm.allocatePage.2).1 := ih (by omega)
    show Taken mm _ (mm.allocatePage.1 :: _)
    rw [he]
    exact .cons hf hfree huse hrest

/-- `DeallocatePage` clears a frame in use. -/
lemma deallocatePage_of_inUse {frame : ℕ} (hin : InMemory mm) (hu : mm.InUse frame) :
    ∃ mm', mm.deallocatePage frame = .ok (0, mm') ∧
      ∀ g, mm'.InUse g ↔ g ≠ frame ∧ mm.InUse g := by
  have htest : mm.bitmap.test frame = .ok true := by
    unfold BitMap.test
    rw [mm.numBits_eq, if_pos ⟨Int.natCast_nonneg _, Int.ofNat_lt.mpr (hin frame hu)⟩]
    exact congrArg Except.ok hu
  refine ⟨⟨mm.bitmap.clearBit frame, mm.numBits_eq⟩, ?_, fun g => ?_⟩
  · unfold MemoryManager.deallocatePage
    rw [htest]
    rfl
  · show (mm.bitmap.clearBit frame).bit g = true ↔ _
    rw [BitMap.bit_clearBit]
    simp [MemoryManager.InUse]

/-- **The loop of the destructor goes through**, when the pages are frames in use. -/
theorem deallocatePages_of_marked (hin : InMemory mm) (nodup : pages.Nodup)
    (hu : ∀ page ∈ pages, Marked mm page) : ∃ mm', deallocatePages pages mm = .ok mm' ∧
      InMemory mm' ∧ ∀ page, Marked mm' page ↔ Marked mm page ∧ page ∉ pages := by
  induction pages generalizing mm with
  | nil => exact ⟨mm, rfl, hin, fun page => by simp⟩
  | cons page pages ih =>
    obtain ⟨frame, rfl, hframe⟩ := hu page (.head _)
    obtain ⟨hno, hnodup⟩ := List.nodup_cons.mp nodup
    obtain ⟨mm₁, hpage, huse⟩ := deallocatePage_of_inUse hin hframe
    have hmarked : ∀ x : ℤ, Marked mm₁ x ↔ x ≠ frame ∧ Marked mm x := by
      intro x
      constructor
      · rintro ⟨f, rfl, hf⟩
        obtain ⟨hne, hf⟩ := (huse f).mp hf
        exact ⟨fun h => hne (Int.natCast_inj.mp h), f, rfl, hf⟩
      · rintro ⟨hne, f, rfl, hf⟩
        exact ⟨f, rfl, (huse f).mpr ⟨fun h => hne (congrArg Nat.cast h), hf⟩⟩
    obtain ⟨mm', hrest, hin', hmm'⟩ := ih (fun f hf => hin f ((huse f).mp hf).2) hnodup
      fun x hx => (hmarked x).mpr ⟨fun heq => hno (heq ▸ hx), hu x (.tail _ hx)⟩
    refine ⟨mm', ?_, hin', fun x => ?_⟩
    · unfold deallocatePages
      rw [hpage]
      exact hrest
    · rw [hmm', hmarked, List.mem_cons]
      tauto

end Pages

/-! ### Frames and address spaces -/

/-- The frames in the page table of a space. -/
def Objects.framesOf (o : Objects) (a : SpaceId) : List ℤ := ((o.space.get a).pageTable).getD []

/-- The space whose frames a step gives back. -/
def Event.destroyed : Event → Option SpaceId
  | .destroys _ a => some a
  | _ => none

/-- The spaces that have given their frames back, oldest first. -/
def destroyed (tr : List Event) : List SpaceId := tr.filterMap Event.destroyed

/-- **The frames are those of the spaces** that have been made and not been destroyed. -/
structure Shared (tr : List Event) (o : Objects) : Prop where
  shares : Partition (Marked o.mm) o.framesOf
  inMemory : InMemory o.mm
  table : ∀ a, (o.space.get a).pageTable ≠ none ↔ a < o.space.next ∧ a ∉ destroyed tr
  made : ∀ a ∈ destroyed tr, a < o.space.next
  once : (destroyed tr).Nodup

section Shared

variable {tr es : List Event} {o o' : Objects} {s s₁ : State} {st : Stmt} {k k' : List Stmt}
  {a : SpaceId}

lemma framesOf_of_table {f : SpaceId → Option (List ℤ)}
    (h : (fun b => (o.space.get b).pageTable) = f) : o.framesOf = fun b => (f b).getD [] :=
  congrArg (fun f b => (f b).getD []) h

/-- A step that leaves the page tables and the frames alone. -/
lemma Shared.same (h : Shared tr o) (hmm : o'.mm = o.mm)
    (htable : ∀ b, (o'.space.get b).pageTable = (o.space.get b).pageTable)
    (hnext : o'.space.next = o.space.next) (hes : destroyed es = []) : Shared (tr ++ es) o' := by
  have hd : destroyed (tr ++ es) = destroyed tr := by
    rw [destroyed, List.filterMap_append]
    show destroyed tr ++ destroyed es = _
    rw [hes, List.append_nil]
  refine ⟨?_, ?_, fun b => ?_, ?_, ?_⟩
  · rw [hmm, framesOf_of_table (funext htable)]
    exact h.shares
  · rw [hmm]
    exact h.inMemory
  · rw [htable, hnext, hd]
    exact h.table b
  · rw [hd, hnext]
    exact h.made
  · rw [hd]
    exact h.once

/-- **A constructor of `AddrSpace`** takes free frames. -/
lemma Shared.newSpace (h : Shared tr o) {p : Option PCBId} {n : ℕ}
    (room : n ≤ o.mm.getFreePageCount) : Shared tr (o.newSpace p n).2 := by
  have htaken := taken_allocatePages room
  have htable : (fun b => ((o.newSpace p n).2.space.get b).pageTable) =
      Function.update (fun b => (o.space.get b).pageTable) o.space.next
        (some (allocatePages n o.mm).1) :=
    comp_update AddrSpace.pageTable o.space.get o.space.next _
  have hnone : (o.space.get o.space.next).pageTable = none := by
    by_contra hsome
    exact absurd ((h.table _).mp hsome).1 (Nat.lt_irrefl _)
  have hframes : (o.newSpace p n).2.framesOf =
      Function.update o.framesOf o.space.next (allocatePages n o.mm).1 := by
    rw [framesOf_of_table htable]
    exact comp_update (fun t : Option (List ℤ) => t.getD []) _ _ _
  refine ⟨?_, htaken.inMemory h.inMemory, fun b => ?_, fun b hb => ?_, h.once⟩
  · rw [hframes]
    refine h.shares.take ?_ htaken.nodup htaken.free htaken.marked
    rw [Objects.framesOf, hnone]
    rfl
  · have hnew : o.space.next ∉ destroyed tr := fun hb => Nat.lt_irrefl _ (h.made _ hb)
    rw [standing_newSpace, h.table]
    show _ ↔ b < o.space.next + 1 ∧ _
    constructor
    · rintro (⟨hlt, hb⟩ | rfl)
      · exact ⟨Nat.lt_succ_of_lt hlt, hb⟩
      · exact ⟨Nat.lt_succ_self _, hnew⟩
    · rintro ⟨hlt, hb⟩
      obtain hlt | rfl := Nat.lt_succ_iff_lt_or_eq.mp hlt
      · exact .inl ⟨hlt, hb⟩
      · exact .inr rfl
  · exact Nat.lt_succ_of_lt (h.made b hb)

/-- **The destructor** gives the frames of one space back. -/
lemma Shared.freeFrames (h : Shared tr o) (hs : o.freeFrames a = .ok o') {t : Tid} :
    Shared (tr ++ [.destroys t a]) o' := by
  have htable := pageTable_freeFrames hs
  obtain ⟨pages, mm, hpages, hmm, rfl⟩ := freeFrames_eq_ok hs
  have hframes : o.framesOf a = pages := by
    rw [Objects.framesOf, hpages]
    rfl
  have hnodup := h.shares.nodup a
  rw [hframes] at hnodup
  obtain ⟨mm', hmm', hin, hmarked⟩ := deallocatePages_of_marked h.inMemory hnodup fun page hpage =>
    (h.shares.used page).mpr ⟨a, by rwa [hframes]⟩
  cases hmm.symm.trans hmm'
  have hstood : (o.space.get a).pageTable ≠ none := by
    rw [hpages]
    nofun
  obtain ⟨hlt, hfirst⟩ := (h.table a).mp hstood
  have hd : destroyed (tr ++ [.destroys t a]) = destroyed tr ++ [a] := by
    rw [destroyed, List.filterMap_append]
    rfl
  refine ⟨?_, hin, fun b => ?_, fun b hb => ?_, ?_⟩
  · rw [framesOf_of_table htable]
    have hused : ∀ page, Marked mm page ↔ Marked o.mm page ∧ page ∉ o.framesOf a := by
      intro page
      rw [hframes]
      exact hmarked page
    exact (h.shares.give hused).congr (fun _ => Iff.rfl)
      (comp_update (fun t : Option (List ℤ) => t.getD []) _ _ _)
  · have hb := congrFun htable b
    rw [show ((_ : Objects).space.get b).pageTable = _ from hb, Function.update_apply, hd,
      List.mem_append, List.mem_singleton]
    by_cases hba : b = a
    · rw [if_pos hba]
      exact iff_of_false (fun hn => hn rfl) fun hn => hn.2 (.inr hba)
    · rw [if_neg hba, h.table b, or_iff_left hba]
      rfl
  · rw [hd, List.mem_append, List.mem_singleton] at hb
    obtain hb | rfl := hb
    · exact h.made b hb
    · exact hlt
  · rw [hd, List.nodup_append]
    refine ⟨h.once, List.nodup_singleton a, ?_⟩
    rintro b hb c hc rfl
    rw [List.mem_singleton] at hc
    subst hc
    exact hfirst hb

/-- Only the destructor gives frames back. -/
lemma Rule.destroyed_eq (hr : Rule s st k k' es s₁) (hst : ∀ a, st ≠ .freeFrames a) :
    destroyed es = [] := by
  cases hr with
  | freeFrames => exact absurd rfl (hst _)
  | _ => rfl

/-- **Every step keeps the frames shared out.** -/
theorem Rule.shared (hr : Rule s st k k' es s₁) (h : Shared tr s.toObjects) :
    Shared (tr ++ es) s₁.toObjects := by
  have calm : Calm s s₁ → (∀ a, st ≠ .freeFrames a) → Shared (tr ++ es) s₁.toObjects := by
    intro hc hst
    have hspace : s₁.space = s.space := congrArg Prod.fst hc.memory
    refine h.same (congrArg Prod.snd hc.memory) (fun b => ?_) ?_ (hr.destroyed_eq hst)
    · rw [hspace]
    · rw [hspace]
  by_cases hst : st.touches = false
  · refine calm (hr.calm hst) ?_
    rintro a rfl
    cases hst
  have rule := hr
  cases hr with
  | control hc =>
    cases hc with
    | copySpace => exact calm (.of_view rfl rfl rfl) nofun
    | _ => exact absurd rfl hst
  | allocatePCB hs =>
    have hspace := congrArg Prod.fst (memory_allocatePCB hs)
    exact h.same (congrArg Prod.snd (memory_allocatePCB hs))
      (fun b => congrArg (fun sp => (sp.get b).pageTable) hspace) (congrArg Heap.next hspace) rfl
  | unlinkPCB hs =>
    have hspace := congrArg Prod.fst (memory_unlink hs)
    exact h.same (congrArg Prod.snd (memory_unlink hs))
      (fun b => congrArg (fun sp => (sp.get b).pageTable) hspace) (congrArg Heap.next hspace) rfl
  | copySpace _ room =>
    rw [List.append_nil]
    exact h.newSpace room
  | @startChild _ _ _ q => exact h.same rfl (fun b => standing_linkChild (q := q)) rfl rfl
  | loadFail => exact h.same rfl (fun _ => rfl) rfl rfl
  | load room =>
    have hdrop : Shared (tr ++ []) s.dropSpace.toObjects := h.same rfl (fun _ => rfl) rfl rfl
    rw [List.append_nil] at hdrop
    exact (hdrop.newSpace room).same rfl (fun _ => rfl) rfl rfl
  | freeFrames hs => exact h.freeFrames hs
  | freeSpace hs =>
    obtain ⟨-, rfl⟩ := freeSpace_eq_ok hs
    exact h.same rfl (fun _ => rfl) rfl rfl
  | interrupt hi | timeSlice hi =>
    obtain rfl | rfl := hi <;> exact absurd rfl hst
  | _ => exact absurd rfl hst

end Shared

/-! ### The claim of the frames -/

section Runs

variable {s₀ s : State} {e : Executable} {tr : List Event}

end Runs

/-! ### A child that exits while its parent joins -/

end Nachos.Process
