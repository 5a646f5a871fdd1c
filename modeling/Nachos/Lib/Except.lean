import Mathlib.Tactic.Common

/-!
# Fallible computations

The successful case of a `do` block, taken apart at a call, and two computations side by side that
stop in the same way or go on with related results.
-/

namespace Nachos.Lib

variable {ε α β : Type}

/-- A call that succeeds. -/
lemma ok_bind {a : α} {f : α → Except ε β} : ((.ok a : Except ε α) >>= f) = f a := rfl

lemma bind_eq_ok {x : Except ε α} {f : α → Except ε β} {b : β}
    (h : (x >>= f) = .ok b) : ∃ a, x = .ok a ∧ f a = .ok b := by
  cases x with
  | error e => cases h
  | ok a => exact ⟨a, rfl, h⟩

/-- An error that neither part of a computation makes. -/
lemma bind_ne_error {x : Except ε α} {f : α → Except ε β} {e : ε} (hx : x ≠ .error e)
    (hf : ∀ a, x = .ok a → f a ≠ .error e) : (x >>= f) ≠ .error e := by
  cases x with
  | error e' => exact fun h => hx (congrArg Except.error (Except.error.inj h))
  | ok a => exact hf a rfl

/-- Both stop in the same way, or both go on with related results. -/
inductive Alike (R : α → α → Prop) : Except ε α → Except ε α → Prop
  | ok {a b : α} (h : R a b) : Alike R (.ok a) (.ok b)
  | error (e : ε) : Alike R (.error e) (.error e)

namespace Alike

variable {R : α → α → Prop} {S : β → β → Prop}

/-- After the same call on both sides, whose result `g` translates. -/
lemma bind {x : Except ε β} {g : β → β} {f f' : β → Except ε α}
    (h : ∀ b, Alike R (f' (g b)) (f b)) : Alike R (x.map g >>= f') (x >>= f) := by
  cases x with
  | error e => exact .error e
  | ok b => exact h b

/-- After the same call on both sides, whose result is used as it is. -/
lemma bind_same {x : Except ε β} {f f' : β → Except ε α}
    (h : ∀ b, Alike R (f' b) (f b)) : Alike R (x >>= f') (x >>= f) := by
  cases x with
  | error e => exact .error e
  | ok b => exact h b

lemma map {x y : Except ε α} {f : α → β} (h : Alike R x y)
    (hf : ∀ a b, R a b → S (f a) (f b)) : Alike S (x.map f) (y.map f) := by
  cases h with
  | ok h => exact .ok (hf _ _ h)
  | error e => exact .error e

/-- What the one side reaches, the other one reaches too, up to the relation. -/
lemma of_ok {x y : Except ε α} {a : α} (h : Alike R x y) (hx : x = .ok a) :
    ∃ b, y = .ok b ∧ R a b := by
  subst hx
  obtain ⟨hR⟩ := h
  exact ⟨_, rfl, hR⟩

end Alike

end Nachos.Lib
