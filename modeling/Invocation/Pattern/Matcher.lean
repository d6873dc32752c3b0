/-
  Patterns as compiled regular expressions.

  * `Pattern.matcher` searches texts by the program of a pattern;
  * `Matcher.ofText?` is the matcher of the pattern that a text is, unless the
    pattern is not well formed or too large.
-/
import Invocation.Libraries
import Invocation.Pattern.Parser
import Invocation.Pattern.Search
import Invocation.Pattern.Size

namespace Invocation

/-- The part of a group of a match; none if the group takes no part in it. -/
def Slots.extent? (slots : Slots) (number : Nat) : Option Extent := do
  let first ← List.lookup (2 * number) slots
  let last ← List.lookup (2 * number + 1) slots
  some ⟨first, last⟩

namespace Pattern

mutual

/-- The greatest number of a group; 0 if there is none. -/
def groupCount : Pattern → Nat
  | empty | text _ | chars _ | start | stop => 0
  | cat items => groupCountAll items
  | alt branches => groupCountAll branches
  | repeat_ _ _ _ item => groupCount item
  | group number item => max number (groupCount item)

/-- The greatest number of a group in some patterns; 0 if there is none. -/
def groupCountAll : List Pattern → Nat
  | [] => 0
  | p :: rest => max (groupCount p) (groupCountAll rest)

end

/-- The matcher of a pattern. -/
def matcher (p : Pattern) : Matcher :=
  let program := Program.ofPattern p
  { isMatch := program.isMatch
    groups := p.groupCount
    captures? := fun text => (program.search? text.toList).map Slots.extent? }

end Pattern

/-- The matcher of the pattern that a text is. Patterns that are not well formed have none, nor have those
that are too large. -/
def Matcher.ofText? (text : String) : Option Matcher := do
  let p ← Pattern.parse text
  if p.fits then some p.matcher else none

end Invocation
