import Mathlib.Data.Bool.Basic

namespace Resister.Base

/-- How a run of the simulator ends early. The texts of `fatal` and `panic` are the format strings
of the source; `undefined` stands for what the language leaves open, a stale iterator for one. -/
inductive Fault where
  | fatal (message : String)
  | panic (message : String)
  | assertion
  | undefined
  deriving DecidableEq, Repr

def panicIf (condition : Bool) (message : String) : Except Fault Unit :=
  if condition then .error (.panic message) else .ok ()

def fatalIf (condition : Bool) (message : String) : Except Fault Unit :=
  if condition then .error (.fatal message) else .ok ()

def check (condition : Bool) : Except Fault Unit :=
  if condition then .ok () else .error .assertion

variable {ε α β : Type}

theorem andThen_ok {x : Except ε α} {f : α → Except ε β} {b : β} :
    (x >>= f) = .ok b ↔ ∃ a, x = .ok a ∧ f a = .ok b := by
  cases x with
  | error failure => simp [bind, Except.bind]
  | ok a => simp [bind, Except.bind]

theorem ok_andThen (a : α) (f : α → Except ε β) : (Except.ok a >>= f) = f a :=
  rfl

@[simp] theorem check_ok {condition : Bool} {u : Unit} : check condition = .ok u ↔ condition = true := by
  cases condition with
  | true => simp [check]
  | false => simp [check]

end Resister.Base
