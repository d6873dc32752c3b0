/-
  The result of a call that matched: values by the names of arguments.

  * `Binding` is the result, `Binding.ofMatch` makes it from the values that
    a search has bound.
-/
import Invocation.Signature.Basic

namespace Invocation

/-- The values that a signature of a command has been bound to. -/
structure Binding where
  command : String
  /-- The place of the signature among those of the command. -/
  index : Nat
  /-- The text of the signature. -/
  source : String
  /-- The bound arguments in the order of their names. -/
  values : List (String × Value)

namespace Binding

/-- Values by the names of the arguments of a signature. -/
def named (s : Signature) (values : List (Nat × Value)) : List (String × Value) :=
  keyTable (values.map fun (index, value) => (s.nameAt index, value))

/-- The value of an argument. -/
def get? (b : Binding) (name : String) : Option Value := b.values.lookup name

/-- The data tree of a binding. -/
def toData (b : Binding) : Data :=
  .object
    [("command", .text b.command), ("signature", .int b.index), ("source", .text b.source),
      ("values", .object (b.values.map fun (name, value) => (name, value.toData)))]

end Binding

end Invocation
