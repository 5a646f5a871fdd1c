import Nachos.Lib.Run
import Nachos.Threads.LinkedList

/-!
# A list is a sequence

Each operation on a list of given cells is shown to leave a list of the cells that the operation on
sequences asks for: by what it assigns, in the order in which it does. The other memory stays as it
is, so that several lists can lie in it.
-/

namespace Nachos.Threads

open Lib Machine

variable {α : Type}

/-! ### Elements, when they are there -/

section Elements

variable {h : Cells (ListElement α)} {a addr : ℕ} {c : Cell (ListElement α)} {next : Option ℕ}
  {item : α} {sortKey : ℤ}

lemma load_eq (ha : h a = some c) : load h (some a) = .ok c := by rw [load, ha]

lemma setNext_eq (ha : h a = some c) :
    setNext h (some a) next = .ok (Function.update h a (some { c with next })) := by
  rw [setNext, ha]

lemma newElement_eq (ha : h addr = none) : newElement h addr item sortKey =
    .ok (Function.update h addr (some ⟨⟨item, sortKey⟩, none⟩)) := by
  rw [newElement, if_pos (by rw [ha]; rfl)]

lemma deleteElement_eq (ha : h a = some c) :
    deleteElement h a = .ok (Function.update h a none) := by
  rw [deleteElement, ha]

end Elements

/-! ### What the operations do -/

/-- **The list has the cells `cs`** in order. -/
def LinkedList.Has (s : LinkedList α) (cs : List (ℕ × ListElement α)) : Prop :=
  Linked s.cells s.first s.last cs

/-- **An operation** has made of a list with the cells `cs` one with the cells `cs'`: a new element
is in memory that was free, the elements that are no longer in the list are deleted, and no other
memory is touched. -/
structure Effect (s s' : LinkedList α) (cs cs' : List (ℕ × ListElement α)) : Prop where
  has : s'.Has cs'
  new : ∀ a ∈ addrs cs', a ∈ addrs cs ∨ s.cells a = none
  others : ∀ a ∉ addrs cs, a ∉ addrs cs' → s'.cells a = s.cells a
  freed : ∀ a ∈ addrs cs, a ∉ addrs cs' → s'.cells a = none

section Effects

variable {s s' : LinkedList α} {cs cs' xs ys : List (ℕ × ListElement α)} {a b addr : ℕ}
  {e v : ListElement α} {next : Option ℕ} {h : Cells (ListElement α)}

/-- An operation that adds a cell. -/
lemma Effect.of_added {l : List ℕ} (has : s'.Has cs') (same : SameBut l s.cells s'.cells)
    (hl : ∀ a ∈ l, a ∈ addrs cs') (hcs : ∀ a, a ∈ addrs cs' ↔ a = addr ∨ a ∈ addrs cs)
    (haddr : s.cells addr = none) : Effect s s' cs cs' where
  has := has
  new a ha := by
    obtain rfl | h := (hcs a).mp ha
    · exact .inr haddr
    · exact .inl h
  others a _ ha := same a fun hal => ha (hl a hal)
  freed a ha hna := absurd ((hcs a).mpr (.inr ha)) hna

/-- An operation that deletes the cell at `b`. -/
lemma Effect.of_deleted {l : List ℕ} (has : s'.Has cs') (same : SameBut l s.cells s'.cells)
    (hl : ∀ a ∈ l, a ∈ addrs cs) (hb : s'.cells b = none)
    (hcs : ∀ a, a ∈ addrs cs ↔ a = b ∨ a ∈ addrs cs') : Effect s s' cs cs' where
  has := has
  new a ha := .inl ((hcs a).mpr (.inr ha))
  others a ha _ := same a fun hal => ha (hl a hal)
  freed a ha hna := by
    obtain rfl | ha := (hcs a).mp ha
    · exact hb
    · exact absurd ha hna

lemma Effect.refl (hs : s.Has cs) : Effect s s cs cs :=
  ⟨hs, fun _ ha => .inl ha, fun _ _ _ => rfl, fun _ ha hna => absurd ha hna⟩

lemma LinkedList.Has.fresh (hs : s.Has cs) (ha : s.cells addr = none) : addr ∉ addrs cs :=
  fun hmem => hs.chain.allocated hmem ha

/-- Two assignments. -/
lemma sameBut_update {c c' : Option (Cell (ListElement α))} :
    SameBut [b, a] h (Function.update (Function.update h a c) b c') := by
  intro x hx
  rw [List.mem_cons, not_or, List.mem_singleton] at hx
  rw [Function.update_of_ne hx.1, Function.update_of_ne hx.2]

/-- The only element. -/
lemma effect_only (haddr : s.cells addr = none) :
    Effect s ⟨Function.update s.cells addr (some ⟨v, none⟩), some addr, some addr⟩ [] [(addr, v)] where
  has :=
    { chain := ⟨rfl, none, Function.update_self .., rfl⟩
      nodup := List.nodup_singleton _
      last := rfl }
  new a ha := .inr (List.mem_singleton.mp ha ▸ haddr)
  others a _ ha := Function.update_of_ne (fun haddr => ha (by rw [haddr]; exact .head _)) ..
  freed a ha := by cases ha

/-- A new element is put in front. -/
lemma effect_front (hs : s.Has cs) (hne : cs ≠ []) (haddr : s.cells addr = none)
    (hnew : h addr = some ⟨v, s.first⟩) (same : SameBut [addr] s.cells h) :
    Effect s ⟨h, some addr, s.last⟩ cs ((addr, v) :: cs) := by
  have hlast : s.last = ((addr, v) :: cs).getLast?.map Prod.fst := by
    rw [hs.last, List.getLast?_cons, Option.map_some]
    obtain ⟨c, hc⟩ := Option.ne_none_iff_exists'.mp (mt List.getLast?_eq_none_iff.mp hne)
    rw [hc]
    rfl
  have has : (LinkedList.mk h (some addr) s.last).Has ((addr, v) :: cs) :=
    hs.pushFront (hs.fresh haddr) hnew same hlast
  exact .of_added has same (fun a ha => List.mem_singleton.mp ha ▸ .head _)
    (fun a => List.mem_cons) haddr

/-- A new element is put behind another one. -/
lemma effect_behind {last : Option ℕ} (hs : s.Has (xs ++ (a, e) :: ys)) (haddr : s.cells addr = none)
    (ha : s.cells a = some ⟨e, next⟩) (hcell : h a = some ⟨e, some addr⟩)
    (hnew : h addr = some ⟨v, next⟩) (same : SameBut [a, addr] s.cells h)
    (hlast : last = (xs ++ (a, e) :: (addr, v) :: ys).getLast?.map Prod.fst) :
    Effect s ⟨h, s.first, last⟩ (xs ++ (a, e) :: ys) (xs ++ (a, e) :: (addr, v) :: ys) := by
  have has : (LinkedList.mk h s.first last).Has (xs ++ (a, e) :: (addr, v) :: ys) :=
    hs.insertAfter (hs.fresh haddr) ha hcell hnew same hlast
  refine .of_added has same (fun b hb => ?_) (fun b => ?_) haddr
  · simp only [List.mem_cons, List.not_mem_nil, or_false] at hb
    obtain rfl | rfl := hb <;> simp
  · simp only [addrs, List.map_append, List.map_cons, List.mem_append, List.mem_cons]
    tauto

/-- An element is taken out from behind another one. -/
lemma effect_remove {last : Option ℕ} (hs : s.Has (xs ++ (a, e) :: (b, v) :: ys))
    (hb : s.cells b = some ⟨v, next⟩) (hcell : h a = some ⟨e, next⟩) (hdel : h b = none)
    (same : SameBut [a, b] s.cells h)
    (hlast : last = (xs ++ (a, e) :: ys).getLast?.map Prod.fst) :
    Effect s ⟨h, s.first, last⟩ (xs ++ (a, e) :: (b, v) :: ys) (xs ++ (a, e) :: ys) := by
  have has : (LinkedList.mk h s.first last).Has (xs ++ (a, e) :: ys) :=
    hs.removeAfter hb hcell same hlast
  refine .of_deleted has same (fun c hc => ?_) hdel fun c => ?_
  · simp only [List.mem_cons, List.not_mem_nil, or_false] at hc
    obtain rfl | rfl := hc <;> simp
  · simp only [addrs, List.map_append, List.map_cons, List.mem_append, List.mem_cons]
    tauto

/-- The first element is taken off. -/
lemma effect_pop {last : Option ℕ} (hs : s.Has ((a, e) :: ys)) (ha : s.cells a = some ⟨e, next⟩)
    (hlast : last = ys.getLast?.map Prod.fst) :
    Effect s ⟨Function.update s.cells a none, next, last⟩ ((a, e) :: ys) ys := by
  have hs' : Linked s.cells (some a) s.last ((a, e) :: ys) := by
    have hfirst : s.first = some a := hs.chain.1
    rw [← hfirst]
    exact hs
  have same : SameBut [a] s.cells (Function.update s.cells a none) := fun b hb =>
    Function.update_of_ne (fun hba => hb (List.mem_singleton.mpr hba)) ..
  have has : (LinkedList.mk (Function.update s.cells a none) next last).Has ys :=
    hs'.popFront ha same hlast
  refine .of_deleted has same (fun c hc => ?_) (Function.update_self ..) fun c => List.mem_cons
  rw [List.mem_singleton.mp hc]
  exact .head _

/-- A walk ends at the last element. -/
lemma LinkedList.Has.lastCell (hs : s.Has (xs ++ [(a, e)])) : s.cells a = some ⟨e, none⟩ := by
  obtain ⟨next, hcell, rfl⟩ := hs.chain.cell
  exact hcell

end Effects

/-! ### `Append` and `Prepend` -/

section Ends

variable {s : LinkedList α} {cs xs ys : List (ℕ × ListElement α)} {a addr : ℕ}
  {e : ListElement α} {item : α}

lemma first_eq_none_iff (hs : s.Has cs) : s.first = none ↔ cs = [] := hs.first_eq_none_iff

/-- The element behind the last one. -/
lemma append_behind (item : α) (sortKey : ℤ) {last : Option ℕ} (hs : s.Has cs) (hne : cs ≠ [])
    (haddr : s.cells addr = none) (hlast : last = some addr) :
    ∃ h, setNext (Function.update s.cells addr (some ⟨⟨item, sortKey⟩, none⟩)) s.last (some addr) =
        .ok h ∧
      Effect s ⟨h, s.first, last⟩ cs (cs ++ [(addr, ⟨item, sortKey⟩)]) := by
  obtain ⟨xs, ⟨a, e⟩, rfl⟩ := (List.eq_nil_or_concat' cs).resolve_left hne
  have ha : s.cells a = some ⟨e, none⟩ := hs.lastCell
  have hend : s.last = some a := by
    rw [hs.last, List.getLast?_concat]
    rfl
  have haa : a ≠ addr := by
    rintro rfl
    rw [haddr] at ha
    cases ha
  have hload : Function.update s.cells addr (some ⟨⟨item, sortKey⟩, none⟩) a = some ⟨e, none⟩ :=
    (Function.update_of_ne haa ..).trans ha
  refine ⟨_, by rw [hend]; exact setNext_eq hload, ?_⟩
  rw [List.append_assoc]
  refine effect_behind hs haddr ha (Function.update_self ..) ?_ sameBut_update ?_
  · rw [Function.update_of_ne haa.symm, Function.update_self]
  · simp [hlast]

/-- **`Append`** puts the item behind the others. -/
theorem append_effect (item : α) (hs : s.Has cs) (haddr : s.cells addr = none) :
    ∃ s', s.append addr item = .ok s' ∧ Effect s s' cs (cs ++ [(addr, ⟨item, 0⟩)]) := by
  unfold LinkedList.append
  rw [newElement_eq haddr, ok_bind]
  by_cases hne : cs = []
  · rw [if_pos ((first_eq_none_iff hs).mpr hne)]
    subst hne
    exact ⟨_, rfl, effect_only haddr⟩
  · obtain ⟨h, hset, heffect⟩ := append_behind item 0 hs hne haddr rfl
    rw [if_neg (mt (first_eq_none_iff hs).mp hne), hset]
    exact ⟨_, rfl, heffect⟩

/-- The element in front of the others. -/
lemma prepend_front (item : α) (sortKey : ℤ) (hs : s.Has cs) (hne : cs ≠ [])
    (haddr : s.cells addr = none) :
    ∃ h, setNext (Function.update s.cells addr (some ⟨⟨item, sortKey⟩, none⟩)) (some addr) s.first =
        .ok h ∧
      Effect s ⟨h, some addr, s.last⟩ cs ((addr, ⟨item, sortKey⟩) :: cs) := by
  refine ⟨_, setNext_eq (Function.update_self ..), ?_⟩
  rw [Function.update_idem]
  refine effect_front hs hne haddr (Function.update_self ..) fun b hb => ?_
  exact Function.update_of_ne (fun hba => hb (List.mem_singleton.mpr hba)) ..

/-- **`Prepend`** puts the item in front of the others. -/
theorem prepend_effect (item : α) (hs : s.Has cs) (haddr : s.cells addr = none) :
    ∃ s', s.prepend addr item = .ok s' ∧ Effect s s' cs ((addr, ⟨item, 0⟩) :: cs) := by
  unfold LinkedList.prepend
  rw [newElement_eq haddr, ok_bind]
  by_cases hne : cs = []
  · rw [if_pos ((first_eq_none_iff hs).mpr hne)]
    subst hne
    exact ⟨_, rfl, effect_only haddr⟩
  · obtain ⟨h, hset, heffect⟩ := prepend_front item 0 hs hne haddr
    rw [if_neg (mt (first_eq_none_iff hs).mp hne), hset]
    exact ⟨_, rfl, heffect⟩

/-! ### `SortedRemove` and `Remove` -/

/-- `last` points to an element when there is none behind it. -/
lemma last_eq_iff (hs : s.Has (xs ++ (a, e) :: ys)) : some a = s.last ↔ ys = [] := by
  rw [hs.last]
  obtain rfl | ⟨zs, d, rfl⟩ := List.eq_nil_or_concat' ys
  · simp
  · have hlast : (xs ++ (a, e) :: (zs ++ [d])).getLast? = some d := by
      rw [← List.cons_append, ← List.append_assoc, List.getLast?_concat]
    have hne : d.1 ≠ a := hs.apart.2 d.1 (by simp)
    rw [hlast]
    simp [hne.symm]

/-- `first` points to an element when there is none in front of it. -/
lemma eq_first_iff (hs : s.Has (xs ++ (a, e) :: ys)) : some a = s.first ↔ xs = [] := by
  cases xs with
  | nil => simp [hs.chain.1]
  | cons c xs =>
    have hne : c.1 ≠ a := hs.apart.1 c.1 (by simp)
    rw [hs.chain.1]
    simp [hne.symm]

/-- **`SortedRemove`** takes the first element off. -/
theorem sortedRemove_effect (hs : s.Has cs) :
    ∃ s', s.sortedRemove = .ok (cs.head?.map fun c => (c.2.item, c.2.key), s') ∧
      Effect s s' cs cs.tail := by
  unfold LinkedList.sortedRemove
  cases cs with
  | nil =>
    have hfirst : s.first = none := (first_eq_none_iff hs).mpr rfl
    rw [hfirst]
    exact ⟨s, rfl, .refl hs⟩
  | cons c cs =>
    obtain ⟨a, e⟩ := c
    obtain ⟨hfirst, next, ha, hrest⟩ := hs.chain
    rw [hfirst]
    simp only [load_eq ha, deleteElement_eq ha, ok_bind]
    have hlast : some a = s.last ↔ cs = [] := last_eq_iff (show s.Has ([] ++ (a, e) :: cs) from hs)
    by_cases hone : cs = []
    · rw [if_pos (hlast.mpr hone)]
      subst hone
      obtain rfl : next = none := hrest
      exact ⟨_, rfl, effect_pop hs ha rfl⟩
    · rw [if_neg (mt hlast.mp hone)]
      refine ⟨_, rfl, effect_pop hs ha ?_⟩
      rw [hs.last, List.getLast?_cons_of_ne_nil hone]

/-- **`Remove`**. -/
theorem remove_effect (hs : s.Has cs) :
    ∃ s', s.remove = .ok (cs.head?.map fun c => c.2.item, s') ∧ Effect s s' cs cs.tail := by
  obtain ⟨s', hremove, heffect⟩ := sortedRemove_effect hs
  refine ⟨s', ?_, heffect⟩
  rw [LinkedList.remove, hremove, ok_bind]
  cases cs <;> rfl

end Ends

/-! ### `RemoveItem` -/

section RemoveItem

variable [DecidableEq α] {s : LinkedList α} {cs xs ys : List (ℕ × ListElement α)} {a : ℕ}
  {e : ListElement α} {item : α}

/-- The cells without the first one that has the item. -/
def eraseItem (item : α) (cs : List (ℕ × ListElement α)) : List (ℕ × ListElement α) :=
  cs.eraseP (·.2.item = item)

/-- What `RemoveItem` returns. -/
def removeStatus (item : α) (cs : List (ℕ × ListElement α)) : ℤ :=
  if cs.any (·.2.item = item) then 0 else -1

omit [DecidableEq α] in
/-- An element is unlinked from the one in front of it. -/
lemma unlink_behind {b : ℕ} {v : ListElement α} {next : Option ℕ}
    (hs : s.Has (xs ++ (b, v) :: (a, e) :: ys)) (ha : s.cells a = some ⟨e, next⟩) :
    ∃ h h', setNext s.cells (some b) next = .ok h ∧ deleteElement h a = .ok h' ∧
      ∀ last, last = (xs ++ (b, v) :: ys).getLast?.map Prod.fst →
        Effect s ⟨h', s.first, last⟩ (xs ++ (b, v) :: (a, e) :: ys) (xs ++ (b, v) :: ys) := by
  obtain ⟨n, hb, -⟩ := hs.chain.cell
  have hab : a ≠ b := hs.apart.2 a (.head _)
  have ha' : Function.update s.cells b (some ⟨v, next⟩) a = some ⟨e, next⟩ :=
    (Function.update_of_ne hab ..).trans ha
  refine ⟨_, _, setNext_eq hb, deleteElement_eq ha', fun last hlast => ?_⟩
  refine effect_remove hs ha ?_ (Function.update_self ..) (fun c hc => ?_) hlast
  · rw [Function.update_of_ne hab.symm, Function.update_self]
  · rw [List.mem_cons, not_or, List.mem_singleton] at hc
    rw [Function.update_of_ne hc.2, Function.update_of_ne hc.1]

omit [DecidableEq α] in
/-- **The element is deleted**, be it the last one, the first one or another. -/
theorem unlink_effect {prev next : Option ℕ} (hs : s.Has (xs ++ (a, e) :: ys))
    (ha : s.cells a = some ⟨e, next⟩) (hprev : prev = xs.getLast?.map Prod.fst)
    (hmore : xs ≠ [] ∨ ys ≠ []) :
    ∃ s', s.unlink prev a ⟨e, next⟩ = .ok s' ∧ Effect s s' (xs ++ (a, e) :: ys) (xs ++ ys) := by
  have hlast : some a = s.last ↔ ys = [] := last_eq_iff hs
  have hfirst : some a = s.first ↔ xs = [] := eq_first_iff hs
  unfold LinkedList.unlink
  obtain rfl | ⟨zs, ⟨b, v⟩, rfl⟩ := List.eq_nil_or_concat' xs
  · -- the first one
    have hys : ys ≠ [] := hmore.resolve_left fun h => h rfl
    rw [if_neg (mt hlast.mp hys), if_pos (hfirst.mpr rfl), deleteElement_eq ha]
    refine ⟨_, rfl, effect_pop hs ha ?_⟩
    rw [hs.last, List.nil_append, List.getLast?_cons_of_ne_nil hys]
  · rw [List.append_assoc] at hs ⊢
    obtain rfl : prev = some b := by
      rw [hprev, List.getLast?_concat]
      rfl
    obtain ⟨h, h', hset, hdelete, heffect⟩ := unlink_behind hs ha
    by_cases hys : ys = []
    · -- the last one
      subst hys
      obtain rfl : next = none := by
        have hs' : s.Has ((zs ++ [(b, v)]) ++ [(a, e)]) := by simpa using hs
        have hend := hs'.lastCell
        rw [ha] at hend
        cases hend
        rfl
      rw [if_pos (hlast.mpr rfl), hset, ok_bind, hdelete, List.append_nil]
      exact ⟨_, rfl, heffect _ (by simp)⟩
    · rw [if_neg (mt hlast.mp hys), if_neg (mt hfirst.mp (by simp)), hset, ok_bind, hdelete,
        List.append_assoc]
      refine ⟨_, rfl, heffect _ ?_⟩
      rw [hs.last]
      obtain ⟨us, d, rfl⟩ := (List.eq_nil_or_concat' ys).resolve_left hys
      simp [List.getLast?_append, List.getLast?_cons]

/-- The loop from an element on, by induction on its turns. -/
lemma removeItemLoop_effect {fuel : ℕ} {prev : Option ℕ} (hs : s.Has (xs ++ (a, e) :: ys))
    (hprev : prev = xs.getLast?.map Prod.fst) (hmore : xs ≠ [] ∨ ys ≠ []) :
    (∃ s', s.removeItemLoop item fuel prev a = .ok (removeStatus item ((a, e) :: ys), s') ∧
      Effect s s' (xs ++ (a, e) :: ys) (xs ++ eraseItem item ((a, e) :: ys))) ∨
      (s.removeItemLoop item fuel prev a = .error .fuel ∧ fuel ≤ ys.length) := by
  induction fuel generalizing xs a e ys prev with
  | zero => exact .inr ⟨rfl, Nat.zero_le _⟩
  | succ fuel ih =>
    obtain ⟨next, ha, hrest⟩ := hs.chain.cell
    rw [LinkedList.removeItemLoop, load_eq ha, ok_bind]
    by_cases hitem : e.item = item
    · obtain ⟨s', hunlink, heffect⟩ := unlink_effect hs ha hprev hmore
      have hstatus : removeStatus item ((a, e) :: ys) = 0 := by simp [removeStatus, hitem]
      have herase : eraseItem item ((a, e) :: ys) = ys := by simp [eraseItem, hitem]
      rw [if_pos hitem, hunlink, hstatus, herase]
      exact .inl ⟨s', rfl, heffect⟩
    · have hstatus : removeStatus item ((a, e) :: ys) = removeStatus item ys := by
        rw [removeStatus, removeStatus, List.any_cons, decide_eq_false hitem, Bool.false_or]
      have herase : eraseItem item ((a, e) :: ys) = (a, e) :: eraseItem item ys := by
        simp [eraseItem, hitem]
      rw [if_neg hitem, hstatus, herase]
      cases ys with
      | nil =>
        obtain rfl : next = none := hrest
        exact .inl ⟨s, rfl, .refl hs⟩
      | cons c ys =>
        obtain ⟨b, v⟩ := c
        obtain ⟨rfl, -⟩ := hrest
        have hassoc : xs ++ (a, e) :: (b, v) :: ys = (xs ++ [(a, e)]) ++ (b, v) :: ys := by simp
        have hassoc' : xs ++ (a, e) :: eraseItem item ((b, v) :: ys) =
            (xs ++ [(a, e)]) ++ eraseItem item ((b, v) :: ys) := by simp
        have hprev' : some a = (xs ++ [(a, e)]).getLast?.map Prod.fst := by simp
        rw [hassoc, hassoc']
        obtain hfound | ⟨hloop, hle⟩ := ih (hassoc ▸ hs) hprev' (.inl (by simp))
        · exact .inl hfound
        · exact .inr ⟨hloop, Nat.succ_le_succ hle⟩

/-- **`RemoveItem`** deletes the first element that has the item. -/
theorem removeItem_effect (fuel : ℕ) (item : α) (hs : s.Has cs) :
    (∃ s', s.removeItem fuel item = .ok (removeStatus item cs, s') ∧
      Effect s s' cs (eraseItem item cs)) ∨
      (s.removeItem fuel item = .error .fuel ∧ fuel ≤ cs.length) := by
  unfold LinkedList.removeItem
  cases cs with
  | nil =>
    have hfirst : s.first = none := (first_eq_none_iff hs).mpr rfl
    rw [hfirst]
    exact .inl ⟨s, rfl, .refl hs⟩
  | cons c cs =>
    obtain ⟨a, e⟩ := c
    obtain ⟨hfirst, next, ha, hrest⟩ := hs.chain
    have hs' : s.Has ([] ++ (a, e) :: cs) := hs
    have hlast : some a = s.last ↔ cs = [] := last_eq_iff hs'
    rw [hfirst]
    by_cases hone : cs = []
    · subst hone
      obtain rfl : next = none := hrest
      simp only [if_pos (hlast.mpr rfl), load_eq ha, ok_bind]
      by_cases hitem : e.item = item
      · have hstatus : removeStatus item [(a, e)] = 0 := by simp [removeStatus, hitem]
        have herase : eraseItem item [(a, e)] = [] := by simp [eraseItem, hitem]
        rw [if_pos hitem, deleteElement_eq ha, hstatus, herase]
        exact .inl ⟨_, rfl, effect_pop hs ha rfl⟩
      · have hstatus : removeStatus item [(a, e)] = -1 := by simp [removeStatus, hitem]
        have herase : eraseItem item [(a, e)] = [(a, e)] := by simp [eraseItem, hitem]
        rw [if_neg hitem, hstatus, herase]
        exact .inl ⟨s, rfl, .refl hs⟩
    · simp only [if_neg (mt hlast.mp hone)]
      obtain hfound | ⟨hloop, hle⟩ := removeItemLoop_effect hs' rfl (.inr hone)
      · exact .inl hfound
      · exact .inr ⟨hloop, Nat.le_succ_of_le hle⟩

end RemoveItem

/-! ### `SortedInsert` -/

section SortedInsert

variable {s : LinkedList α} {cs xs ys : List (ℕ × ListElement α)} {a addr fuel : ℕ}
  {e v : ListElement α} {item : α} {sortKey : ℤ}

/-- The cells with one more before the first one that has a greater key. -/
def insertCell (addr : ℕ) (v : ListElement α) :
    List (ℕ × ListElement α) → List (ℕ × ListElement α)
  | [] => [(addr, v)]
  | c :: cs => if v.key < c.2.key then (addr, v) :: c :: cs else c :: insertCell addr v cs

lemma map_insertCell : (insertCell addr ⟨item, sortKey⟩ cs).map Prod.snd =
    sortedInsert item sortKey (cs.map Prod.snd) := by
  induction cs with
  | nil => rfl
  | cons c cs ih =>
    rw [insertCell, List.map_cons, sortedInsert]
    split
    next => rfl
    next => rw [List.map_cons, ih]

/-- The loop from an element on, by induction on its turns: the new element is put before one of
those behind it, or there is none that has a greater key. -/
lemma sortedInsertLoop_effect (hs : s.Has (xs ++ (a, e) :: ys)) (haddr : s.cells addr = none) :
    (∃ h, sortedInsertLoop addr v.key (Function.update s.cells addr (some ⟨v, none⟩)) fuel a =
        .ok (some h) ∧ Effect s ⟨h, s.first, s.last⟩ (xs ++ (a, e) :: ys)
          (xs ++ (a, e) :: insertCell addr v ys)) ∨
      (sortedInsertLoop addr v.key (Function.update s.cells addr (some ⟨v, none⟩)) fuel a =
        .ok none ∧ insertCell addr v ys = ys ++ [(addr, v)]) ∨
      (sortedInsertLoop addr v.key (Function.update s.cells addr (some ⟨v, none⟩)) fuel a =
        .error .fuel ∧ fuel ≤ ys.length) := by
  induction fuel generalizing xs a e ys with
  | zero => exact .inr (.inr ⟨rfl, Nat.zero_le _⟩)
  | succ fuel ih =>
    obtain ⟨next, ha, hrest⟩ := hs.chain.cell
    have hne : ∀ {b c}, s.cells b = some c →
        Function.update s.cells addr (some ⟨v, none⟩) b = some c := by
      intro b c hb
      have hba : b ≠ addr := by
        rintro rfl
        rw [haddr] at hb
        cases hb
      rw [Function.update_of_ne hba, hb]
    simp only [sortedInsertLoop, load_eq (hne ha), ok_bind]
    cases ys with
    | nil =>
      obtain rfl : next = none := hrest
      exact .inr (.inl ⟨rfl, rfl⟩)
    | cons c ys =>
      obtain ⟨b, w⟩ := c
      obtain ⟨rfl, n, hb, -⟩ := hrest
      simp only [load_eq (hne hb), ok_bind]
      rw [insertCell]
      by_cases hkey : v.key < w.key
      · have haa : a ≠ addr := by
          rintro rfl
          rw [haddr] at ha
          cases ha
        have ha' : Function.update (Function.update s.cells addr (some ⟨v, none⟩)) addr
            (some ⟨v, some b⟩) a = some ⟨e, some b⟩ := by
          rw [Function.update_of_ne haa, hne ha]
        rw [if_pos hkey, if_pos hkey, setNext_eq (Function.update_self ..), ok_bind,
          setNext_eq ha', ok_bind]
        refine .inl ⟨_, rfl, ?_⟩
        rw [Function.update_idem]
        refine effect_behind hs haddr ha (Function.update_self ..) ?_ sameBut_update ?_
        · rw [Function.update_of_ne haa.symm, Function.update_self]
        · rw [hs.last]
          simp [List.getLast?_append, List.getLast?_cons]
      · have hassoc : ∀ l, xs ++ (a, e) :: (b, w) :: l = (xs ++ [(a, e)]) ++ (b, w) :: l := by simp
        rw [if_neg hkey, if_neg hkey, hassoc, hassoc]
        obtain ⟨h, hloop, heffect⟩ | ⟨hloop, hcells⟩ | ⟨hloop, hle⟩ := ih (hassoc ys ▸ hs)
        · exact .inl ⟨h, hloop, heffect⟩
        · exact .inr (.inl ⟨hloop, by rw [hcells]; rfl⟩)
        · exact .inr (.inr ⟨hloop, Nat.succ_le_succ hle⟩)

/-- **`SortedInsert`** puts the item before the first one that has a greater key. -/
theorem sortedInsert_effect (fuel : ℕ) (item : α) (sortKey : ℤ) (hs : s.Has cs)
    (haddr : s.cells addr = none) :
    (∃ s', s.sortedInsert fuel addr item sortKey = .ok s' ∧
      Effect s s' cs (insertCell addr ⟨item, sortKey⟩ cs)) ∨
      (s.sortedInsert fuel addr item sortKey = .error .fuel ∧ fuel ≤ cs.length) := by
  unfold LinkedList.sortedInsert
  rw [newElement_eq haddr, ok_bind]
  cases cs with
  | nil =>
    have hfirst : s.first = none := (first_eq_none_iff hs).mpr rfl
    rw [hfirst]
    exact .inl ⟨_, rfl, effect_only haddr⟩
  | cons c cs =>
    obtain ⟨a, e⟩ := c
    obtain ⟨hfirst, next, ha, -⟩ := hs.chain
    have haa : a ≠ addr := by
      rintro rfl
      rw [haddr] at ha
      cases ha
    have hload : Function.update s.cells addr (some ⟨⟨item, sortKey⟩, none⟩) a = some ⟨e, next⟩ :=
      (Function.update_of_ne haa ..).trans ha
    rw [insertCell]
    by_cases hkey : sortKey < e.key
    · obtain ⟨h, hset, heffect⟩ := prepend_front item sortKey hs (by simp) haddr
      rw [hfirst] at hset ⊢
      simp only [load_eq hload, ok_bind, if_pos hkey, hset]
      exact .inl ⟨_, rfl, heffect⟩
    · have hs' : s.Has ([] ++ (a, e) :: cs) := hs
      rw [if_neg hkey, hfirst]
      simp only [load_eq hload, ok_bind, if_neg hkey]
      obtain ⟨h, hloop, heffect⟩ | ⟨hloop, hcells⟩ | ⟨hloop, hle⟩ :=
        @sortedInsertLoop_effect _ _ _ _ _ addr fuel _ ⟨item, sortKey⟩ hs' haddr
      · rw [hloop, ok_bind, ← hfirst]
        exact .inl ⟨_, rfl, heffect⟩
      · obtain ⟨h, hset, heffect⟩ := append_behind item sortKey hs (by simp) haddr rfl
        rw [hloop, ok_bind, hcells]
        simp only [hset, ok_bind, ← hfirst]
        exact .inl ⟨_, rfl, heffect⟩
      · rw [hloop]
        exact .inr ⟨rfl, Nat.le_succ_of_le hle⟩

end SortedInsert

/-! ### Runs -/

section Runs

variable [DecidableEq α] {s s' : LinkedList α} {cs : List (ℕ × ListElement α)} {op : ListOp α}
  {addr fuel : ℕ} {es : List (ListOp α × ListAnswer α)}

omit [DecidableEq α] in
lemma map_tail : cs.tail.map Prod.snd = (cs.map Prod.snd).tail := by cases cs <;> rfl

lemma seqStep_removeItem (item : α) : seqStep (cs.map Prod.snd) (.removeItem item) =
    (.status (removeStatus item cs), (eraseItem item cs).map Prod.snd) := by
  have herase : (eraseItem item cs).map Prod.snd = (cs.map Prod.snd).eraseP (·.item = item) := by
    rw [List.eraseP_map]
    rfl
  have hany : (cs.map Prod.snd).any (·.item = item) = cs.any (·.2.item = item) := List.any_map
  rw [seqStep, herase, removeStatus, hany]
  split
  next => rfl
  next hnone =>
    rw [List.eraseP_of_forall_not]
    intro e he hitem
    rw [← hany] at hnone
    exact hnone (List.any_eq_true.mpr ⟨e, he, hitem⟩)

/-- An operation that goes through has got free memory. -/
lemma free_of_listStep (h : listStep (op, addr, fuel) s = .ok (es, s')) (hop : op.allocates = true) :
    s.cells addr = none := by
  have hnew : ∀ item sortKey h, newElement s.cells addr item sortKey = .ok h →
      s.cells addr = none := by
    intro item sortKey h hnew
    unfold newElement at hnew
    split at hnew
    next hfree => exact Option.isNone_iff_eq_none.mp hfree
    next => cases hnew
  cases op with
  | append item =>
    obtain ⟨s₁, h, -⟩ := bind_eq_ok h
    obtain ⟨h₁, h, -⟩ := bind_eq_ok h
    exact hnew _ _ _ h
  | prepend item =>
    obtain ⟨s₁, h, -⟩ := bind_eq_ok h
    obtain ⟨h₁, h, -⟩ := bind_eq_ok h
    exact hnew _ _ _ h
  | sortedInsert item sortKey =>
    obtain ⟨s₁, h, -⟩ := bind_eq_ok h
    obtain ⟨h₁, h, -⟩ := bind_eq_ok h
    exact hnew _ _ _ h
  | remove | removeItem | sortedRemove => cases hop

/-- **One operation**: it goes through when `new` gives free memory and the loops may turn often
enough, and is the operation on sequences. -/
theorem listStep_effect (fuel : ℕ) (hs : s.Has cs) (op : ListOp α)
    (haddr : op.allocates = true → s.cells addr = none) :
    (∃ s' cs', listStep (op, addr, fuel) s = .ok ([(op, (seqStep (cs.map Prod.snd) op).1)], s') ∧
      cs'.map Prod.snd = (seqStep (cs.map Prod.snd) op).2 ∧ Effect s s' cs cs') ∨
      (listStep (op, addr, fuel) s = .error .fuel ∧ fuel ≤ cs.length) := by
  cases op with
  | append item =>
    obtain ⟨s', happend, heffect⟩ := append_effect item hs (haddr rfl)
    refine .inl ⟨s', _, ?_, ?_, heffect⟩
    · rw [listStep, happend]
      rfl
    · simp [seqStep]
  | prepend item =>
    obtain ⟨s', hprepend, heffect⟩ := prepend_effect item hs (haddr rfl)
    refine .inl ⟨s', _, ?_, ?_, heffect⟩
    · rw [listStep, hprepend]
      rfl
    · simp [seqStep]
  | remove =>
    obtain ⟨s', hremove, heffect⟩ := remove_effect hs
    refine .inl ⟨s', _, ?_, map_tail, heffect⟩
    rw [listStep, hremove]
    cases cs <;> rfl
  | removeItem item =>
    rw [seqStep_removeItem]
    obtain ⟨s', hremove, heffect⟩ | ⟨hremove, hle⟩ :=
      removeItem_effect fuel item hs
    · refine .inl ⟨s', _, ?_, rfl, heffect⟩
      rw [listStep, hremove]
      rfl
    · refine .inr ⟨?_, hle⟩
      rw [listStep, hremove]
      rfl
  | sortedInsert item sortKey =>
    obtain ⟨s', hinsert, heffect⟩ | ⟨hinsert, hle⟩ :=
      sortedInsert_effect fuel item sortKey hs (haddr rfl)
    · refine .inl ⟨s', _, ?_, map_insertCell, heffect⟩
      rw [listStep, hinsert]
      rfl
    · refine .inr ⟨?_, hle⟩
      rw [listStep, hinsert]
      rfl
  | sortedRemove =>
    obtain ⟨s', hremove, heffect⟩ := sortedRemove_effect hs
    refine .inl ⟨s', _, ?_, map_tail, heffect⟩
    rw [listStep, hremove]
    cases cs <;> rfl

omit [DecidableEq α] in
/-- Where an item goes in a sorted sequence: behind all that have an equal or a smaller key. -/
lemma sortedInsert_eq_filter {l : List (ListElement α)} (item : α) (sortKey : ℤ) (hl : Sorted l) :
    sortedInsert item sortKey l =
      l.filter (·.key ≤ sortKey) ++ ⟨item, sortKey⟩ :: l.filter (sortKey < ·.key) := by
  induction l with
  | nil => rfl
  | cons e l ih =>
    obtain ⟨hle, hrest⟩ := List.pairwise_cons.mp hl
    rw [sortedInsert]
    by_cases hkey : sortKey < e.key
    · have hgreater : ∀ e' ∈ e :: l, sortKey < e'.key := by
        intro e' he'
        obtain rfl | he' := List.mem_cons.mp he'
        · exact hkey
        · exact lt_of_lt_of_le hkey (hle e' he')
      have hnone : (e :: l).filter (·.key ≤ sortKey) = [] :=
        List.filter_eq_nil_iff.mpr fun e' he' => by simpa using hgreater e' he'
      have hall : (e :: l).filter (sortKey < ·.key) = e :: l :=
        List.filter_eq_self.mpr fun e' he' => by simpa using hgreater e' he'
      rw [if_pos hkey, hnone, hall]
      rfl
    · rw [if_neg hkey, ih hrest, List.filter_cons_of_pos (by simpa using hkey),
        List.filter_cons_of_neg (by simpa using hkey)]
      rfl

/-- **A list is a sequence** in every run: a chain of different elements from `first` to `last`,
which gives the answers of the sequence of its items. What else is in memory stays there, the
operations return when the loops may turn often enough, and a sorted list stays sorted under
`SortedInsert`. -/
theorem list_of_run {s₀ : LinkedList α} {cs₀ : List (ℕ × ListElement α)}
    {tr : List (ListOp α × ListAnswer α)} (h₀ : s₀.Has cs₀) (h : Run (StepOf listStep) s₀ tr s) :
    ∃ cs, s.Has cs ∧ Run SeqStep (cs₀.map Prod.snd) tr (cs.map Prod.snd) ∧
      (∀ a ∉ addrs cs₀, s₀.cells a ≠ none → s.cells a = s₀.cells a ∧ a ∉ addrs cs) ∧
      (∀ op addr fuel, (op.allocates = true → s.cells addr = none) → cs.length < fuel →
        ∃ r, listStep (op, addr, fuel) s = .ok r) ∧
      (Sorted (cs.map Prod.snd) → ∀ item sortKey,
        Sorted (seqStep (cs.map Prod.snd) (.sortedInsert item sortKey)).2 ∧
        (seqStep (cs.map Prod.snd) (.sortedInsert item sortKey)).2 =
          (cs.map Prod.snd).filter (·.key ≤ sortKey) ++
            ⟨item, sortKey⟩ :: (cs.map Prod.snd).filter (sortKey < ·.key)) := by
  have hseq : ∃ l, Run SeqStep (cs₀.map Prod.snd) tr l ∧ ∃ cs, cs.map Prod.snd = l ∧ s.Has cs ∧
      ∀ a ∉ addrs cs₀, s₀.cells a ≠ none → s.cells a = s₀.cells a ∧ a ∉ addrs cs := by
    refine h.simulation (R := fun s l => ∃ cs, cs.map Prod.snd = l ∧ s.Has cs ∧
      ∀ a ∉ addrs cs₀, s₀.cells a ≠ none → s.cells a = s₀.cells a ∧ a ∉ addrs cs)
      ⟨cs₀, rfl, h₀, fun a ha _ => ⟨rfl, ha⟩⟩ ?_
    rintro s l es s' ⟨cs, rfl, hs, hother⟩ ⟨⟨op, addr, fuel⟩, hstep⟩
    obtain ⟨s'', cs', hok, hcs, heffect⟩ | ⟨hfail, -⟩ :=
      listStep_effect fuel hs op (free_of_listStep hstep)
    · rw [hstep] at hok
      cases hok
      refine ⟨_, ⟨op, rfl, rfl⟩, cs', hcs, heffect.has, fun a ha hlive => ?_⟩
      obtain ⟨hsame, hout⟩ := hother a ha hlive
      have hout' : a ∉ addrs cs' := fun hin => by
        obtain hin | hfree := heffect.new a hin
        · exact hout hin
        · exact hlive (hsame ▸ hfree)
      exact ⟨(heffect.others a hout hout').trans hsame, hout'⟩
    · rw [hstep] at hfail
      cases hfail
  obtain ⟨l, hrun, cs, rfl, hs, hother⟩ := hseq
  refine ⟨cs, hs, hrun, hother, fun op addr fuel haddr hfuel => ?_, fun hsorted item sortKey =>
    ⟨hsorted.sortedInsert, sortedInsert_eq_filter item sortKey hsorted⟩⟩
  obtain ⟨s', cs', hok, -⟩ | ⟨-, hle⟩ := listStep_effect fuel hs op haddr
  · exact ⟨_, hok⟩
  · omega

/-- Items put in front, behind and between, one of them deleted, and one taken off. -/
def mixedOps : List (ListOp ℕ × ℕ × ℕ) :=
  [(.sortedInsert 7 3, 0, 9), (.sortedInsert 8 1, 1, 9), (.sortedInsert 9 3, 2, 9),
    (.removeItem 9, 0, 9), (.append 4, 5, 9), (.prepend 6, 2, 9), (.remove, 0, 9)]

/-- Such a run, on a list that is empty at first. -/
theorem list_of_run_mixed : ∃ (tr : List (ListOp ℕ × ListAnswer ℕ)) (s : LinkedList ℕ)
    (cs : List (ℕ × ListElement ℕ)),
    Run (StepOf listStep) ⟨fun _ => none, none, none⟩ tr s ∧ s.Has cs ∧
      Run SeqStep [] tr (cs.map Prod.snd) ∧
      tr.map Prod.snd = [.void, .void, .void, .status 0, .void, .void, .item (some 6)] := by
  obtain ⟨tr, s, hr, hp⟩ := run_of_passes listStep mixedOps ⟨fun _ => none, none, none⟩
    (fun tr _ =>
      tr.map Prod.snd = [.void, .void, .void, .status 0, .void, .void, .item (some 6)])
    (by decide +kernel)
  have hempty : LinkedList.Has (⟨fun _ => none, none, none⟩ : LinkedList ℕ) [] := Linked.nil
  obtain ⟨cs, hs, hseq, -⟩ := list_of_run hempty hr
  exact ⟨tr, s, cs, hr, hs, hseq, of_decide_eq_true hp⟩

end Runs

end Nachos.Threads
