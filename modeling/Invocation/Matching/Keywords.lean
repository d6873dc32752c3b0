/-
  The keywords of an input, resolved against one signature.

  * `Signature.keywordIndex?` is the keyword argument that a name or alias
    stands for;
  * `Keywords` holds the occurrences in input order, and the stray names
    that stand for no keyword argument.
-/
import Invocation.Signature.Basic
import Invocation.Token

namespace Invocation

/-- The index of the keyword argument that a name or alias stands for. -/
def Signature.keywordIndex? (s : Signature) (name : String) : Option Nat :=
  (s.resolve? name).filter fun index => (s.arguments[index]?).any (·.kind == .keyword)

/-- Keywords by argument. -/
structure Keywords where
  /-- The argument and the assigned text of every keyword, in input order. -/
  found : List (Nat × Option String) := []
  /-- The names that stand for no keyword argument. -/
  stray : List String := []

namespace Keywords

/-- The keywords of an input under a signature. -/
def resolve (s : Signature) (keywords : List (String × Option String)) : Keywords where
  found := keywords.filterMap fun (name, value) => (s.keywordIndex? name).map (·, value)
  stray := keywords.filterMap fun (name, _) => if (s.keywordIndex? name).isNone then some name else none

/-- The texts assigned to the argument at an index, in input order. -/
def occurrences (k : Keywords) (index : Nat) : List (Option String) :=
  k.found.filterMap fun (i, value) => if i = index then some value else none

/-- The arguments below `count` that occur, in ascending order. -/
def present (k : Keywords) (count : Nat) : List Nat :=
  (List.range count).filter fun index => !(k.occurrences index).isEmpty

end Keywords

end Invocation
