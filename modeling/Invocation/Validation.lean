/-
  Checks on bound values.

  The validators of the bound arguments are called in the order of
  declaration, up to the first that rejects.

  * `Validation` tells which validators were called, on which values, and what
    they found;
  * `validate` is the run over the arguments of a signature.
-/
import Invocation.Binding
import Invocation.CallError

namespace Invocation

/-- The reason why a validator rejects a value. -/
def Validator.rejection? (v : Validator) (value : Value) : Option String :=
  match v.check value with
  | .ok true => none
  | .ok false => some s!"value {value.text} was rejected"
  | .error reason => some reason

/-- The course of a validation. -/
structure Validation where
  /-- The arguments whose validators were called and the values they were called on, in order. -/
  called : List (String × Value) := []
  /-- The rejection of the last one. -/
  error : Option CallError := none

/-- Calls the validators of bound arguments in order, up to the first that rejects. -/
def validate (command : String) (values : List (String × Value)) : List Argument → Validation
  | [] => {}
  | argument :: rest =>
    match argument.validator, values.lookup argument.name with
    | some validator, some value =>
      match validator.rejection? value with
      | some reason => ⟨[(argument.name, value)], some (.validation command argument.name reason)⟩
      | none =>
        let later := validate command values rest
        ⟨(argument.name, value) :: later.called, later.error⟩
    | _, _ => validate command values rest

end Invocation
