import TypeEngine.Error

/-!
# Outcomes

Solving, unification and substitution follow names, and names may lead in circles that no check
rules out beforehand. These functions take an amount of fuel, and an `Outcome` tells the three ways
apart in which they end: with a value, with an error of the domain, or without fuel.

`Outcome` is a lawful monad in which both errors and the lack of fuel stop the computation.
-/

namespace TypeEngine

/-- How a bounded computation ended. -/
inductive Outcome (α : Type) where
  | ok (value : α)
  | error (e : TypeError)
  | outOfFuel
deriving DecidableEq, Inhabited

namespace Outcome

variable {α β : Type}

/-- Go on with the value, if there is one. -/
protected def bind (x : Outcome α) (f : α → Outcome β) : Outcome β :=
  match x with
  | .ok a => f a
  | .error e => .error e
  | .outOfFuel => .outOfFuel

instance : Monad Outcome where
  pure := .ok
  bind := Outcome.bind

@[simp] theorem pure_eq (a : α) : (pure a : Outcome α) = .ok a := rfl

@[simp] theorem ok_bind (a : α) (f : α → Outcome β) : (Outcome.ok a >>= f) = f a := rfl

@[simp] theorem error_bind (e : TypeError) (f : α → Outcome β) :
    (Outcome.error e >>= f) = .error e := rfl

@[simp] theorem outOfFuel_bind (f : α → Outcome β) :
    (Outcome.outOfFuel >>= f) = .outOfFuel := rfl

instance : LawfulMonad Outcome := LawfulMonad.mk' Outcome
  (fun x => by cases x <;> rfl)
  (fun _ _ => rfl)
  (fun x _ _ => by cases x <;> rfl)

/-- A result that needed no fuel. -/
def ofExcept : Except TypeError α → Outcome α
  | .ok a => .ok a
  | .error e => .error e

instance : MonadLift (Except TypeError) Outcome := ⟨ofExcept⟩

/-- Replace the error, whatever it is. -/
def mapError (f : TypeError → TypeError) : Outcome α → Outcome α
  | .ok a => .ok a
  | .error e => .error (f e)
  | .outOfFuel => .outOfFuel

/-- On an error, do something else. -/
def orElse (x : Outcome α) (handler : TypeError → Outcome α) : Outcome α :=
  match x with
  | .ok a => .ok a
  | .error e => handler e
  | .outOfFuel => .outOfFuel

end Outcome

end TypeEngine
