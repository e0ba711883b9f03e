import Mathlib.Logic.Basic

/-!
# Outcomes

What a computation on machine words comes to: it returns a value, it panics, or it is still running
when the rounds that its loops are given are spent.  A statement that a computation returns therefore
says that it terminates and that it does not panic.

Results:
* `Fallible.returns_bind`: when a sequence of steps that may fail returns.
-/

namespace Astria.Lib

inductive Outcome (α : Type) where
  | returns (a : α)
  | panics
  | runs
  deriving DecidableEq

namespace Outcome

variable {α β γ : Type}

def bind (x : Outcome α) (f : α → Outcome β) : Outcome β :=
  match x with
  | returns a => f a
  | panics => panics
  | runs => runs

instance : Monad Outcome where
  pure := returns
  bind := bind

/-- `assert!`. -/
def assert (p : Prop) [Decidable p] : Outcome Unit := if p then returns () else panics

/-- `unwrap`. -/
def ofOption (o : Option α) : Outcome α :=
  match o with
  | some a => returns a
  | none => panics

/-- The computation ends with a value. -/
def Returns (x : Outcome α) : Prop := ∃ a, x = returns a

instance (x : Outcome α) : Decidable x.Returns :=
  match x with
  | returns a => isTrue ⟨a, rfl⟩
  | panics => isFalse nofun
  | runs => isFalse nofun

@[simp] theorem pure_eq (a : α) : (pure a : Outcome α) = returns a := rfl

@[simp] theorem returns_bind (a : α) (f : α → Outcome β) : returns a >>= f = f a := rfl

@[simp] theorem panics_bind (f : α → Outcome β) : panics >>= f = panics := rfl

@[simp] theorem runs_bind (f : α → Outcome β) : runs >>= f = runs := rfl

instance : LawfulMonad Outcome :=
  LawfulMonad.mk' (m := Outcome) (fun x => by cases x <;> rfl) (fun _ _ => rfl)
    (fun x _ _ => by cases x <;> rfl)

theorem assert_of {p : Prop} [Decidable p] (h : p) : assert p = returns () := if_pos h

@[simp] theorem ofOption_some (a : α) : ofOption (some a) = returns a := rfl

@[simp] theorem ofOption_none : ofOption (none : Option α) = panics := rfl

@[simp] theorem ofOption_eq_returns {o : Option α} {a : α} :
    ofOption o = returns a ↔ o = some a := by
  cases o <;> simp [ofOption]

@[simp] theorem returns_returns (a : α) : (returns a).Returns := ⟨a, rfl⟩

@[simp] theorem not_returns_panics : ¬ (panics : Outcome α).Returns :=
  nofun

theorem returns_ofOption {o : Option α} : (ofOption o).Returns ↔ o ≠ none := by
  cases o <;> simp

end Outcome

/-! ## Computations that may also fail -/

/-- A computation that comes to a value or an error, if it returns. -/
abbrev Fallible (ε α : Type) := ExceptT ε Outcome α

namespace Fallible

variable {ε α β : Type}

/-- A result that is there. -/
def lift (x : Except ε α) : Fallible ε α := ExceptT.mk (.returns x)

/-- A step that cannot fail. -/
def step (x : Outcome α) : Fallible ε α := ExceptT.lift x

@[simp] theorem run_lift (x : Except ε α) : (lift x : Fallible ε α).run = .returns x := rfl

@[simp] theorem run_step_eq_ok {x : Outcome α} {a : α} :
    (step x : Fallible ε α).run = .returns (.ok a) ↔ x = .returns a := by
  cases x <;> simp [step, ExceptT.run, ExceptT.lift, ExceptT.mk, Functor.map, Outcome.bind]

theorem returns_step {x : Outcome α} : (step x : Fallible ε α).run.Returns ↔ x.Returns := by
  cases x <;>
    simp [step, ExceptT.run, ExceptT.lift, ExceptT.mk, Functor.map, Outcome.bind, Outcome.Returns]

/-- A sequence comes to a value if its parts do. -/
theorem run_bind_eq_ok {x : Fallible ε α} {f : α → Fallible ε β} {b : β} :
    (x >>= f).run = .returns (.ok b) ↔
      ∃ a, x.run = .returns (.ok a) ∧ (f a).run = .returns (.ok b) := by
  show (x.run >>= ExceptT.bindCont f) = _ ↔ _
  rcases x.run with (e | a) | _ | _ <;> simp [ExceptT.bindCont, ExceptT.run]

/-- A sequence returns if its first part does and, where that is a value, the second. -/
theorem returns_bind {x : Fallible ε α} {f : α → Fallible ε β} :
    (x >>= f).run.Returns ↔
      x.run.Returns ∧ ∀ a, x.run = .returns (.ok a) → (f a).run.Returns := by
  show (x.run >>= ExceptT.bindCont f).Returns ↔ _
  rcases x.run with (e | a) | _ | _ <;> simp [ExceptT.bindCont, ExceptT.run, Outcome.Returns]

end Fallible

end Astria.Lib
