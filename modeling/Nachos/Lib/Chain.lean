import Mathlib.Data.List.Nodup
import Mathlib.Logic.Function.Basic

/-!
# Linked lists in memory

Cells with a pointer to the next one. A chain is what a walk along the pointers sees: the addresses
of the cells, and the values in them. The operations on a chain are described by what they leave in
memory, cell by cell; the order of the assignments does not matter.
-/

namespace Nachos.Lib

/-- A cell: a value, and a pointer to the next cell, which may be `NULL`. -/
structure Cell (α : Type) where
  val : α
  next : Option ℕ
  deriving DecidableEq

/-- The memory; `none` where no cell is allocated. -/
abbrev Cells (α : Type) := ℕ → Option (Cell α)

variable {α : Type} {h h' : Cells α} {p q r : Option ℕ} {xs ys : List (ℕ × α)} {a b : ℕ} {e v : α}

/-- **A walk** from `p` along the pointers passes these cells, and comes to `q`. -/
def Chain (h : Cells α) : Option ℕ → List (ℕ × α) → Option ℕ → Prop
  | p, [], q => p = q
  | p, c :: cs, q => p = some c.1 ∧ ∃ next, h c.1 = some ⟨c.2, next⟩ ∧ Chain h next cs q

/-- The addresses of the cells. -/
abbrev addrs (cs : List (ℕ × α)) : List ℕ := cs.map Prod.fst

lemma addrs_append : addrs (xs ++ ys) = addrs xs ++ addrs ys := List.map_append

/-- A walk is made of a walk and another one from where the first comes to. -/
lemma chain_append : Chain h p (xs ++ ys) r ↔ ∃ q, Chain h p xs q ∧ Chain h q ys r := by
  induction xs generalizing p with
  | nil => simp [Chain]
  | cons c cs ih =>
    simp only [List.cons_append, Chain, ih]
    constructor
    · rintro ⟨hp, next, hc, q, hcs, hys⟩
      exact ⟨q, ⟨hp, next, hc, hcs⟩, hys⟩
    · rintro ⟨q, ⟨hp, next, hc, hcs⟩, hys⟩
      exact ⟨hp, next, hc, q, hcs, hys⟩

/-- A walk sees its own cells only. -/
lemma Chain.congr (hc : Chain h p xs q) (same : ∀ a ∈ addrs xs, h' a = h a) : Chain h' p xs q := by
  induction xs generalizing p with
  | nil => exact hc
  | cons c cs ih =>
    obtain ⟨hp, next, hcell, hcs⟩ := hc
    refine ⟨hp, next, (same _ (.head _)).trans hcell, ih hcs fun a ha => same a (.tail _ ha)⟩

/-- The cell at a place of a walk. -/
lemma Chain.cell (hc : Chain h p (xs ++ (a, e) :: ys) r) :
    ∃ next, h a = some ⟨e, next⟩ ∧ Chain h next ys r := by
  obtain ⟨q, -, -, next, hcell, hys⟩ := chain_append.mp hc
  exact ⟨next, hcell, hys⟩

/-- There is a cell at each address of a walk. -/
lemma Chain.allocated (hc : Chain h p xs q) (ha : a ∈ addrs xs) : h a ≠ none := by
  induction xs generalizing p with
  | nil => cases ha
  | cons c cs ih =>
    obtain ⟨-, next, hcell, hcs⟩ := hc
    obtain rfl | ha := List.mem_cons.mp ha
    · simp [hcell]
    · exact ih hcs ha

/-- The walk from behind a place. -/
lemma Chain.behind (hc : Chain h p (xs ++ (a, e) :: ys) r) {next : Option ℕ}
    (cell : h a = some ⟨e, next⟩) : Chain h next ys r := by
  obtain ⟨next', hcell, hys⟩ := hc.cell
  rw [cell] at hcell
  cases hcell
  exact hys

/-- The pointer to a place of a walk. -/
lemma Chain.before (hc : Chain h p (xs ++ (a, e) :: ys) r) : Chain h p xs (some a) := by
  obtain ⟨q, hxs, rfl, -⟩ := chain_append.mp hc
  exact hxs

/-! ### Lists with a pointer to the last cell -/

/-- **A list**: a walk from `first` that passes each cell once and ends at `NULL`, and `last`, which
points to the last of the cells. -/
structure Linked (h : Cells α) (first last : Option ℕ) (cs : List (ℕ × α)) : Prop where
  chain : Chain h first cs none
  nodup : (addrs cs).Nodup
  last : last = cs.getLast?.map Prod.fst

/-- The memory differs in no other cells. -/
def SameBut (l : List ℕ) (h h' : Cells α) : Prop := ∀ a ∉ l, h' a = h a

section Operations

variable {first last last' : Option ℕ}

lemma Linked.nil : Linked h none none ([] : List (ℕ × α)) := ⟨rfl, List.nodup_nil, rfl⟩

lemma Linked.first_eq (hl : Linked h p last xs) : p = xs.head?.map Prod.fst := by
  cases xs with
  | nil => exact hl.chain
  | cons c cs => exact hl.chain.1

lemma Linked.first_eq_none_iff (hl : Linked h p last xs) : p = none ↔ xs = [] := by
  rw [hl.first_eq, Option.map_eq_none_iff, List.head?_eq_none_iff]

/-- **A cell is put in front.** -/
theorem Linked.pushFront (hl : Linked h p last xs) (new : a ∉ addrs xs)
    (cell : h' a = some ⟨v, p⟩) (same : SameBut [a] h h')
    (hlast : last' = ((a, v) :: xs).getLast?.map Prod.fst) :
    Linked h' (some a) last' ((a, v) :: xs) where
  chain := ⟨rfl, p, cell, hl.chain.congr fun b hb => same b fun hba => new (by
    rwa [List.mem_singleton.mp hba] at hb)⟩
  nodup := List.nodup_cons.mpr ⟨new, hl.nodup⟩
  last := hlast

/-- **The first cell is taken off.** -/
theorem Linked.popFront (hl : Linked h (some a) last ((a, e) :: xs)) {next : Option ℕ}
    (cell : h a = some ⟨e, next⟩) (same : SameBut [a] h h')
    (hlast : last' = xs.getLast?.map Prod.fst) : Linked h' next last' xs where
  chain := by
    have hxs : Chain h next xs none := @Chain.behind _ _ _ _ [] _ _ _ hl.chain _ cell
    refine hxs.congr fun b hb => same b fun hba => ?_
    rw [List.mem_singleton.mp hba] at hb
    exact (List.nodup_cons.mp hl.nodup).1 hb
  nodup := (List.nodup_cons.mp hl.nodup).2
  last := hlast

/-- What is before a place of a list and behind it is neither at its address nor at a new one. -/
lemma Linked.apart (hl : Linked h p last (xs ++ (a, e) :: ys)) :
    (∀ c ∈ addrs xs, c ≠ a) ∧ (∀ c ∈ addrs ys, c ≠ a) := by
  have hnodup := hl.nodup
  rw [addrs_append, List.nodup_append] at hnodup
  obtain ⟨-, hys, hdisjoint⟩ := hnodup
  refine ⟨fun c hc => hdisjoint c hc a (.head _), fun c hc hca => ?_⟩
  exact (List.nodup_cons.mp hys).1 (hca ▸ hc)

/-- **A cell is put behind another one.** -/
theorem Linked.insertAfter (hl : Linked h p last (xs ++ (a, e) :: ys)) {next : Option ℕ}
    (new : b ∉ addrs (xs ++ (a, e) :: ys)) (cell : h a = some ⟨e, next⟩)
    (cell' : h' a = some ⟨e, some b⟩) (cellNew : h' b = some ⟨v, next⟩)
    (same : SameBut [a, b] h h')
    (hlast : last' = (xs ++ (a, e) :: (b, v) :: ys).getLast?.map Prod.fst) :
    Linked h' p last' (xs ++ (a, e) :: (b, v) :: ys) where
  chain := by
    obtain ⟨hxs, hys⟩ := hl.apart
    have hrest := hl.chain.behind cell
    have hne : ∀ c, c ∈ addrs (xs ++ (a, e) :: ys) → c ≠ b := fun c hc hcb => new (hcb ▸ hc)
    refine chain_append.mpr ⟨some a, hl.chain.before.congr fun c hc => same c ?_, rfl, _, cell', rfl,
      _, cellNew, hrest.congr fun c hc => same c ?_⟩
    · have hcb := hne c (addrs_append ▸ List.mem_append_left _ hc)
      simp [hxs c hc, hcb]
    · have hcb := hne c (addrs_append ▸ List.mem_append_right _ (.tail _ hc))
      simp [hys c hc, hcb]
  nodup := by
    have hperm : (addrs (xs ++ (a, e) :: (b, v) :: ys)).Perm
        (b :: addrs (xs ++ (a, e) :: ys)) := by
      simp only [addrs, List.map_append, List.map_cons]
      exact (List.Perm.append_left _ (List.Perm.swap _ _ _)).trans List.perm_middle
    exact hperm.nodup_iff.mpr (List.nodup_cons.mpr ⟨new, hl.nodup⟩)
  last := hlast

/-- **The cell behind another one is taken out.** -/
theorem Linked.removeAfter (hl : Linked h p last (xs ++ (a, e) :: (b, v) :: ys)) {next : Option ℕ}
    (cell : h b = some ⟨v, next⟩) (cell' : h' a = some ⟨e, next⟩) (same : SameBut [a, b] h h')
    (hlast : last' = (xs ++ (a, e) :: ys).getLast?.map Prod.fst) :
    Linked h' p last' (xs ++ (a, e) :: ys) where
  chain := by
    obtain ⟨hxsa, hysa⟩ := hl.apart
    have hassoc : xs ++ (a, e) :: (b, v) :: ys = (xs ++ [(a, e)]) ++ (b, v) :: ys := by simp
    obtain ⟨hxsb, hysb⟩ := Linked.apart (hassoc ▸ hl)
    have hrest := Chain.behind (hassoc ▸ hl.chain) cell
    refine chain_append.mpr ⟨some a, hl.chain.before.congr fun c hc => same c ?_, rfl, _, cell',
      hrest.congr fun c hc => same c ?_⟩
    · have hcb := hxsb c (addrs_append ▸ List.mem_append_left _ hc)
      simp [hxsa c hc, hcb]
    · have hca := hysa c (.tail _ hc)
      simp [hca, hysb c hc]
  nodup := by
    have hsub : (addrs (xs ++ (a, e) :: ys)).Sublist (addrs (xs ++ (a, e) :: (b, v) :: ys)) := by
      simp only [addrs, List.map_append, List.map_cons]
      exact (List.Sublist.refl _).append ((List.sublist_cons_self _ _).cons_cons _)
    exact hl.nodup.sublist hsub
  last := hlast

end Operations

end Nachos.Lib
