import Mathlib.Logic.Function.Basic
import Mathlib.Tactic.Common

/-!
# A heap of objects of one type

`new` gives an address that no object has had; `delete` ends the life of an object. Memory that is
deleted keeps what it held, so that a pointer to it can still be followed.
-/

namespace Nachos.Lib

/-- The objects at their addresses; those from `next` on are still to be given. -/
structure Heap (α : Type) where
  get : ℕ → α
  live : ℕ → Bool
  next : ℕ
  fresh : ∀ p, next ≤ p → live p = false

namespace Heap

variable {α : Type} (h : Heap α)

/-- A heap without objects. -/
def empty (a : α) : Heap α := ⟨fun _ => a, fun _ => false, 0, fun _ _ => rfl⟩

/-- The heap after `new`; the object is at `h.next`. -/
def new (a : α) : Heap α where
  get := Function.update h.get h.next a
  live := Function.update h.live h.next true
  next := h.next + 1
  fresh p hp := by
    rw [Function.update_of_ne (by omega)]
    exact h.fresh p (by omega)

def delete (p : ℕ) : Heap α where
  get := h.get
  live := Function.update h.live p false
  next := h.next
  fresh q hq := by
    by_cases hqp : q = p
    · rw [hqp, Function.update_self]
    · rw [Function.update_of_ne hqp]
      exact h.fresh q hq

/-- An assignment to fields of an object. -/
def modify (p : ℕ) (f : α → α) : Heap α := { h with get := Function.update h.get p (f (h.get p)) }

variable {h} {p q : ℕ} {a : α} {f : α → α}

lemma not_live_next : h.live h.next = false := h.fresh _ (Nat.le_refl _)

lemma ne_next_of_live (hp : h.live p = true) : p ≠ h.next := by
  rintro rfl
  rw [not_live_next] at hp
  cases hp

@[simp] lemma get_new_next : (h.new a).get h.next = a := Function.update_self ..
lemma get_new_of_ne (hp : p ≠ h.next) : (h.new a).get p = h.get p := Function.update_of_ne hp ..

lemma get_new_of_live (hp : h.live p = true) : (h.new a).get p = h.get p :=
  get_new_of_ne (ne_next_of_live hp)

@[simp] lemma get_delete : (h.delete p).get = h.get := rfl

@[simp] lemma live_modify : (h.modify p f).live = h.live := rfl
@[simp] lemma next_modify : (h.modify p f).next = h.next := rfl
@[simp] lemma next_delete : (h.delete p).next = h.next := rfl
@[simp] lemma get_modify_self : (h.modify p f).get p = f (h.get p) := Function.update_self ..

lemma get_modify_of_ne (hq : q ≠ p) : (h.modify p f).get q = h.get q := Function.update_of_ne hq ..

lemma get_modify : (h.modify p f).get q = if q = p then f (h.get q) else h.get q := by
  by_cases hq : q = p
  · subst hq
    simp
  · rw [if_neg hq, get_modify_of_ne hq]

end Heap

end Nachos.Lib
