import Nachos.Lib.Chain
import Nachos.Lib.Except
import Nachos.Machine.Interrupt

/-!
# Lists in memory

`class List` with its elements in memory: a chain of `ListElement`s, and pointers to the first and
the last of them. Here the list operations are as `list.cc` has them, pointer by pointer. What they
do to the sequence of the items is the same as what the operations on sequences do with which the
interrupts are queued.
-/

namespace Nachos.Threads

open Lib Machine

/-- Why an operation on a list does not go through. -/
inductive ListFault where
  /-- An access through `NULL` or to an element that is deleted. -/
  | memory
  /-- `new` does not give this address. -/
  | disabled
  /-- More turns of a loop than were allowed. -/
  | fuel
  deriving DecidableEq

/-- `class List`, and the `ListElement`s in memory. -/
structure LinkedList (α : Type) where
  cells : Cells (ListElement α)
  first : Option ℕ
  last : Option ℕ

variable {α : Type}

/-! ### Elements -/

/-- `*p`. -/
def load (h : Cells (ListElement α)) : Option ℕ → Except ListFault (Cell (ListElement α))
  | none => .error .memory
  | some a =>
    match h a with
    | none => .error .memory
    | some c => .ok c

/-- `p->next = next`. -/
def setNext (h : Cells (ListElement α)) (p next : Option ℕ) :
    Except ListFault (Cells (ListElement α)) :=
  match p with
  | none => .error .memory
  | some a =>
    match h a with
    | none => .error .memory
    | some c => .ok (Function.update h a (some { c with next }))

/-- `new ListElement(item, sortKey)`, at the address `addr`. -/
def newElement (h : Cells (ListElement α)) (addr : ℕ) (item : α) (sortKey : ℤ) :
    Except ListFault (Cells (ListElement α)) :=
  if (h addr).isNone then .ok (Function.update h addr (some ⟨⟨item, sortKey⟩, none⟩))
  else .error .disabled

/-- `delete element`. -/
def deleteElement (h : Cells (ListElement α)) (element : ℕ) :
    Except ListFault (Cells (ListElement α)) :=
  match h element with
  | none => .error .memory
  | some _ => .ok (Function.update h element none)

/-! ### Operations -/

namespace LinkedList

variable (s : LinkedList α)

/-- `List::Append`. -/
def append (addr : ℕ) (item : α) : Except ListFault (LinkedList α) := do
  let h ← newElement s.cells addr item 0
  if s.first = none then return ⟨h, some addr, some addr⟩
  else
    let h ← setNext h s.last (some addr)
    return ⟨h, s.first, some addr⟩

/-- `List::Prepend`. -/
def prepend (addr : ℕ) (item : α) : Except ListFault (LinkedList α) := do
  let h ← newElement s.cells addr item 0
  if s.first = none then return ⟨h, some addr, some addr⟩
  else
    let h ← setNext h (some addr) s.first
    return ⟨h, some addr, s.last⟩

/-- `List::SortedRemove`: the item and `*keyPtr`; `none` is `NULL`. -/
def sortedRemove : Except ListFault (Option (α × ℤ) × LinkedList α) :=
  match s.first with
  | none => .ok (none, s)
  | some element => do
    let e ← load s.cells (some element)
    let (first, last) := if s.first = s.last then (none, none) else (e.next, s.last)
    let h ← deleteElement s.cells element
    return (some (e.val.item, e.val.key), ⟨h, first, last⟩)

/-- `List::Remove`. -/
def remove : Except ListFault (Option α × LinkedList α) := do
  let (thing, s') ← s.sortedRemove
  return (thing.map Prod.fst, s')

/-- The deletion in `List::RemoveItem` of an element `element`, which is `e`, behind `prev`. -/
def unlink (prev : Option ℕ) (element : ℕ) (e : Cell (ListElement α)) :
    Except ListFault (LinkedList α) := do
  if some element = s.last then
    -- deleting last item
    let h ← setNext s.cells prev none
    return ⟨← deleteElement h element, s.first, prev⟩
  else if some element = s.first then
    -- deleting first item
    return ⟨← deleteElement s.cells element, e.next, s.last⟩
  else
    let h ← setNext s.cells prev e.next
    return ⟨← deleteElement h element, s.first, s.last⟩

/-- The loop of `List::RemoveItem`, with so many turns at most. -/
def removeItemLoop [DecidableEq α] (item : α) : ℕ → Option ℕ → ℕ →
    Except ListFault (ℤ × LinkedList α)
  | 0, _, _ => .error .fuel
  | fuel + 1, prev, element => do
    let e ← load s.cells (some element)
    if e.val.item = item then return (0, ← s.unlink prev element e)
    else
      match e.next with
      | none => return (-1, s)
      | some next => removeItemLoop item fuel (some element) next

/-- `List::RemoveItem`. -/
def removeItem [DecidableEq α] (fuel : ℕ) (item : α) : Except ListFault (ℤ × LinkedList α) :=
  match s.first with
  | none => .ok (-1, s)
  | some element =>
    if s.first = s.last then do
      let e ← load s.cells s.first
      if e.val.item = item then return (0, ⟨← deleteElement s.cells element, none, none⟩)
      else return (-1, s)
    else s.removeItemLoop item fuel none element

end LinkedList

/-- The loop of `List::SortedInsert` from `ptr` on, with so many turns at most: the memory when the
element has been put before a greater one, and `none` when there is none. -/
def sortedInsertLoop (element : ℕ) (sortKey : ℤ) (h : Cells (ListElement α)) :
    ℕ → ℕ → Except ListFault (Option (Cells (ListElement α)))
  | 0, _ => .error .fuel
  | fuel + 1, ptr => do
    let p ← load h (some ptr)
    match p.next with
    | none => return none
    | some next =>
      let e ← load h (some next)
      if sortKey < e.val.key then
        let h ← setNext h (some element) (some next)
        let h ← setNext h (some ptr) (some element)
        return some h
      else sortedInsertLoop element sortKey h fuel next

/-- `List::SortedInsert`. -/
def LinkedList.sortedInsert (s : LinkedList α) (fuel addr : ℕ) (item : α) (sortKey : ℤ) :
    Except ListFault (LinkedList α) := do
  let h ← newElement s.cells addr item sortKey
  match s.first with
  | none => return ⟨h, some addr, some addr⟩
  | some first =>
    let e ← load h (some first)
    if sortKey < e.val.key then
      let h ← setNext h (some addr) s.first
      return ⟨h, some addr, s.last⟩
    else
      match ← sortedInsertLoop addr sortKey h fuel first with
      | some h => return ⟨h, s.first, s.last⟩
      | none =>
        let h ← setNext h s.last (some addr)
        return ⟨h, s.first, some addr⟩

/-! ### Sequences -/

/-- An operation on a list. -/
inductive ListOp (α : Type) where
  | append (item : α)
  | prepend (item : α)
  | remove
  | removeItem (item : α)
  | sortedInsert (item : α) (sortKey : ℤ)
  | sortedRemove
  deriving DecidableEq

/-- Does the operation make an element? -/
def ListOp.allocates : ListOp α → Bool
  | .append _ => true
  | .prepend _ => true
  | .sortedInsert _ _ => true
  | _ => false

/-- What an operation returns. -/
inductive ListAnswer (α : Type) where
  | void
  | item (thing : Option α)
  | status (r : ℤ)
  | keyed (thing : Option (α × ℤ))
  deriving DecidableEq

/-- One operation. Where `new` puts an element, and how often a loop turns at most, is chosen with
it. -/
def listStep [DecidableEq α] : ListOp α × ℕ × ℕ → LinkedList α →
    Except ListFault (List (ListOp α × ListAnswer α) × LinkedList α)
  | (.append item, addr, _), s => do return ([(.append item, .void)], ← s.append addr item)
  | (.prepend item, addr, _), s => do return ([(.prepend item, .void)], ← s.prepend addr item)
  | (.remove, _, _), s => do
    let r ← s.remove
    return ([(.remove, .item r.1)], r.2)
  | (.removeItem item, _, fuel), s => do
    let r ← s.removeItem fuel item
    return ([(.removeItem item, .status r.1)], r.2)
  | (.sortedInsert item sortKey, addr, fuel), s => do
    return ([(.sortedInsert item sortKey, .void)], ← s.sortedInsert fuel addr item sortKey)
  | (.sortedRemove, _, _), s => do
    let r ← s.sortedRemove
    return ([(.sortedRemove, .keyed r.1)], r.2)

/-- **What a list is for**: the operations on sequences, with their answers. -/
def seqStep [DecidableEq α] (l : List (ListElement α)) :
    ListOp α → ListAnswer α × List (ListElement α)
  | .append item => (.void, l ++ [⟨item, 0⟩])
  | .prepend item => (.void, ⟨item, 0⟩ :: l)
  | .remove => (.item (l.head?.map ListElement.item), l.tail)
  | .removeItem item =>
    if l.any (·.item = item) then (.status 0, l.eraseP (·.item = item)) else (.status (-1), l)
  | .sortedInsert item sortKey => (.void, sortedInsert item sortKey l)
  | .sortedRemove => (.keyed (l.head?.map fun e => (e.item, e.key)), l.tail)

def SeqStep [DecidableEq α] (l : List (ListElement α)) (es : List (ListOp α × ListAnswer α))
    (l' : List (ListElement α)) : Prop :=
  ∃ op, es = [(op, (seqStep l op).1)] ∧ l' = (seqStep l op).2

end Nachos.Threads
