/-
  What the program leaves to libraries.

  * `Matcher` is a regular expression that was compiled, and `Matcher.Searches`
    what is relied on of it: it finds a match that begins first, wherever in
    the text that is;
  * `Serializer` reads and prints one format, and `Serializer.Returns` is what
    is relied on of it: a tree is read as it was printed;
  * `Libraries` gathers what building, loading and saving configurations call.
-/
import Invocation.Document

namespace Invocation

/-! ## Regular expressions -/

/-- A part of a text: the characters between two positions. -/
structure Extent where
  first : Nat
  last : Nat
  deriving DecidableEq, Repr

/-- The text of a part. -/
def Extent.textIn (e : Extent) (text : String) : String :=
  String.ofList ((text.toList.drop e.first).take (e.last - e.first))

/-- The groups of a match by number, where they take part in it. Group 0 is the match itself. -/
abbrev Captures := Nat → Option Extent

/-- A regular expression that was compiled. -/
structure Matcher where
  /-- Whether a text holds a match. -/
  isMatch : String → Bool
  /-- The number of groups, without group 0. -/
  groups : Nat
  /-- The groups of the match that is found in a text. -/
  captures? : String → Option Captures

/-- A matcher searches texts for matches, where `occurs text e` means that there is one at `e`. -/
structure Matcher.Searches (m : Matcher) (occurs : String → Extent → Prop) : Prop where
  inside : ∀ {text e}, occurs text e → e.first ≤ e.last ∧ e.last ≤ text.toList.length
  isMatch_iff : ∀ {text}, m.isMatch text = true ↔ ∃ e, occurs text e
  /-- The groups are those of a match, if there is one. -/
  isSome_captures? : ∀ text, (m.captures? text).isSome = m.isMatch text
  /-- The match that is found is one that begins first. -/
  leftmost : ∀ {text c}, m.captures? text = some c →
    ∃ e, c 0 = some e ∧ occurs text e ∧ ∀ e', occurs text e' → e.first ≤ e'.first
  /-- There are no more groups than those of the expression. -/
  bounded : ∀ {text c n}, m.captures? text = some c → m.groups < n → c n = none

/-! ## Formats -/

/-- The reading and printing of a format. -/
structure Serializer where
  /-- The document that a text is. -/
  parse? : String → Option Document
  /-- What is said of a text that is not what is wanted. -/
  complaint : String → String
  /-- The text of a tree. -/
  print : Data → String

/-- What is printed for a tree is read as this tree. -/
def Serializer.Returns (s : Serializer) (tree : Data) : Prop := s.parse? (s.print tree) = some tree.document

/-! ## Libraries -/

/-- The functions of libraries that configurations call. -/
structure Libraries where
  /-- The regular expression that a text is, or what is said of the text if it is none. -/
  compile : String → Except String Matcher
  json : Serializer
  yaml : Serializer

end Invocation
