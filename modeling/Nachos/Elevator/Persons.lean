import Nachos.Threads.Kernel

/-!
# Lists of persons

A list of persons is an array of `tp` pointers that ends at its first `NULL`; a person who is
removed from the middle leaves a tombstone, the pointer `-1`. What is behind the first `NULL` is
whatever the memory held.
-/

namespace Nachos.Elevator

open Threads

/-- `struct Person`. No two persons have one `id`, so that a `Person *` is known by what it points
to. -/
structure Person where
  id : ℕ
  atFloor : ℕ
  toFloor : ℕ
  deriving DecidableEq

/-- A `Person *` in a list: `NULL`, `(Person *)-1`, or a person. -/
inductive Slot where
  | null
  | removed
  | person (p : Person)
  deriving DecidableEq

/-- The length of the arrays. -/
def tp : ℕ := 100

/-- A `Person *[tp]`. -/
abbrev Persons := ℕ → Slot

/-- `ELEVATOR::addToPP`, with `n` iterations left from `i`. -/
def addFrom (pp : Persons) (p : Person) : ℕ → ℕ → Except Fault Persons
  | 0, _ => .ok pp
  | n + 1, i =>
    match pp i with
    | .removed => .ok (Function.update pp i (.person p))
    | .null =>
      if i + 1 < tp then
        .ok (Function.update (Function.update pp i (.person p)) (i + 1) .null)
      else .error .memory
    | .person _ => addFrom pp p n (i + 1)

/-- `ELEVATOR::addToPP`, without its lock. -/
def addToPP (pp : Persons) (p : Person) : Except Fault Persons := addFrom pp p tp 0

/-- `ELEVATOR::removeFromPP`, with `n` iterations left from `i`. -/
def removeFrom (pp : Persons) (p : Person) : ℕ → ℕ → Except Fault Persons
  | 0, _ => .error .assertion
  | n + 1, i =>
    if pp i = .person p then
      if i + 1 < tp then
        .ok (Function.update pp i (if pp (i + 1) = .null then .null else .removed))
      else .error .memory
    else removeFrom pp p n (i + 1)

/-- `ELEVATOR::removeFromPP`, without its lock. -/
def removeFromPP (pp : Persons) (p : Person) : Except Fault Persons := removeFrom pp p tp 0

/-- The first person of a list whom a test picks, with `n` slots left from `i`. The loops over a
list end at its first `NULL` only. -/
def findFrom (pp : Persons) (pick : Person → Bool) : ℕ → ℕ → Except Fault (Option Person)
  | 0, _ => .error .memory
  | n + 1, i =>
    match pp i with
    | .null => .ok none
    | .removed => findFrom pp pick n (i + 1)
    | .person p => if pick p then .ok (some p) else findFrom pp pick n (i + 1)

def find (pp : Persons) (pick : Person → Bool) : Except Fault (Option Person) :=
  findFrom pp pick tp 0

/-- The person whom `ELEVATOR::removeFromPPFirst` removes. -/
def first (pp : Persons) : Except Fault (Option Person) := find pp fun _ => true

/-- `personCount`, with `n` slots left from `i`. -/
def countFrom (pp : Persons) : ℕ → ℕ → Except Fault ℕ
  | 0, _ => .error .memory
  | n + 1, i =>
    match pp i with
    | .null => .ok 0
    | .removed => countFrom pp n (i + 1)
    | .person _ => do
      let c ← countFrom pp n (i + 1)
      .ok (c + 1)

def personCount (pp : Persons) : Except Fault ℕ := countFrom pp tp 0

/-- Is the person in the list, before its first `NULL`? With `n` slots left from `i`. -/
def memberFrom (pp : Persons) (target : Person) : ℕ → ℕ → Bool
  | 0, _ => false
  | n + 1, i =>
    if pp i = .person target then true
    else if pp i = .null then false
    else memberFrom pp target n (i + 1)

end Nachos.Elevator
