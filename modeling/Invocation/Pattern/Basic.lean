/-
  Patterns: regular expressions over characters.

  * `Pattern` is the tree in its simple form;
  * `Pattern.minLength` and `Pattern.maxLength` bound the number of characters
    that a pattern matches; `Pattern.isAtStart` and `Pattern.isAtStop` tell
    whether it matches only at the beginning or only at the end of a text;
  * `Pattern.ofSet`, `Pattern.sequence`, `Pattern.oneOf` and
    `Pattern.repeated` build patterns in simple form: texts side by side are
    joined, alternatives that are single characters make a class, and what
    all alternatives begin with stands in front of them once.
-/
import Invocation.Pattern.CharSet

namespace Invocation

/-- A pattern. Of several ways to match, the first of the alternatives and the longest of a greedy
repetition is preferred. -/
inductive Pattern where
  | empty
  /-- The characters of a text, one after the other. -/
  | text (cs : List Char)
  /-- A character of a class. -/
  | chars (set : CharSet)
  /-- The beginning of the text. -/
  | start
  /-- The end of the text. -/
  | stop
  /-- Parts side by side. -/
  | cat (items : List Pattern)
  | alt (branches : List Pattern)
  /-- At least `least` times, and at most `most` times if that is given. -/
  | repeat_ (greedy : Bool) (least : Nat) (most : Option Nat) (item : Pattern)
  /-- The group with a number; the numbers begin with one. -/
  | group (number : Nat) (item : Pattern)
  deriving Repr

namespace Pattern

instance : Inhabited Pattern := ⟨empty⟩

mutual

/-- Whether two patterns are equal. -/
def same : Pattern → Pattern → Bool
  | empty, empty => true
  | text cs, text ds => cs == ds
  | chars a, chars b => a == b
  | start, start => true
  | stop, stop => true
  | cat ps, cat qs => sameAll ps qs
  | alt ps, alt qs => sameAll ps qs
  | repeat_ g m n p, repeat_ h k l q => g == h && m == k && n == l && same p q
  | group m p, group n q => m == n && same p q
  | _, _ => false

/-- Whether two lists of patterns are equal. -/
def sameAll : List Pattern → List Pattern → Bool
  | [], [] => true
  | p :: ps, q :: qs => same p q && sameAll ps qs
  | _, _ => false

end

/-! ## Lengths -/

mutual

/-- The number of characters of the shortest text that may match; none if no text does. -/
def minLength : Pattern → Option Nat
  | empty | start | stop => some 0
  | text cs => some cs.length
  | chars set => if set.ranges.isEmpty then none else some 1
  | cat items => minLengthAll items
  | alt branches => minLengthAny branches
  | repeat_ _ least _ item => (minLength item).map (least * ·)
  | group _ item => minLength item

/-- The number of characters of the shortest text that patterns side by side may match. -/
def minLengthAll : List Pattern → Option Nat
  | [] => some 0
  | p :: rest => do some ((← minLength p) + (← minLengthAll rest))

/-- The number of characters of the shortest text that one of some patterns may match. -/
def minLengthAny : List Pattern → Option Nat
  | [] => none
  | [p] => minLength p
  | p :: rest => do some (min (← minLength p) (← minLengthAny rest))

end

mutual

/-- The number of characters of the longest text that may match; none if there is no bound. -/
def maxLength : Pattern → Option Nat
  | empty | start | stop => some 0
  | text cs => some cs.length
  | chars set => if set.ranges.isEmpty then none else some 1
  | cat items => maxLengthAll items
  | alt branches => maxLengthAny branches
  | repeat_ _ _ most item => do some ((← most) * (← maxLength item))
  | group _ item => maxLength item

/-- The number of characters of the longest text that patterns side by side may match. -/
def maxLengthAll : List Pattern → Option Nat
  | [] => some 0
  | p :: rest => do some ((← maxLength p) + (← maxLengthAll rest))

/-- The number of characters of the longest text that one of some patterns may match. -/
def maxLengthAny : List Pattern → Option Nat
  | [] => none
  | [p] => maxLength p
  | p :: rest => do some (max (← maxLength p) (← maxLengthAny rest))

end

/-- Whether a pattern matches the empty text only. -/
def isVoid (p : Pattern) : Bool := p.maxLength == some 0

/-! ## Anchors -/

mutual

/-- Whether a pattern matches at the beginning of a text only. -/
def isAtStart : Pattern → Bool
  | start => true
  | cat items => anyAtStart items
  | alt branches => allAtStart branches
  | repeat_ _ least _ item => 0 < least && isAtStart item
  | group _ item => isAtStart item
  | _ => false

/-- Whether patterns side by side match at the beginning of a text only, for one of them that nothing
stands before. -/
def anyAtStart : List Pattern → Bool
  | [] => false
  | p :: rest => isAtStart p || (isVoid p && anyAtStart rest)

/-- Whether all of some patterns match at the beginning of a text only. -/
def allAtStart : List Pattern → Bool
  | [] => true
  | p :: rest => isAtStart p && allAtStart rest

end

mutual

/-- Whether a pattern matches at the end of a text only. -/
def isAtStop : Pattern → Bool
  | stop => true
  | cat items => anyAtStop items
  | alt branches => allAtStop branches
  | repeat_ _ least _ item => 0 < least && isAtStop item
  | group _ item => isAtStop item
  | _ => false

/-- Whether patterns side by side match at the end of a text only, for one of them that nothing stands
behind. -/
def anyAtStop : List Pattern → Bool
  | [] => false
  | p :: rest => anyAtStop rest || (isAtStop p && rest.all isVoid)

/-- Whether all of some patterns match at the end of a text only. -/
def allAtStop : List Pattern → Bool
  | [] => true
  | p :: rest => isAtStop p && allAtStop rest

end

/-! ## Simple forms -/

/-- A character of a class. -/
def ofSet (set : CharSet) : Pattern :=
  match set.single? with
  | some c => text [c]
  | none => chars set

/-- The parts that a pattern has when it stands beside others. -/
def items : Pattern → List Pattern
  | empty => []
  | cat ps => ps
  | p => [p]

/-- Parts with the texts that stand side by side joined. -/
def joinTexts : List Pattern → List Pattern
  | [] => []
  | p :: rest =>
    match p, joinTexts rest with
    | text cs, text ds :: rest => text (cs ++ ds) :: rest
    | p, rest => p :: rest

/-- Parts side by side. -/
def sequence (ps : List Pattern) : Pattern :=
  match joinTexts (ps.flatMap items) with
  | [] => empty
  | [p] => p
  | ps => cat ps

/-- The branches that a pattern has as an alternative. -/
def branches : Pattern → List Pattern
  | alt ps => ps
  | p => [p]

/-- The character that a pattern stands for. -/
def char? : Pattern → Option Char
  | text [c] => some c
  | _ => none

/-- The class that a pattern stands for. -/
def set? : Pattern → Option CharSet
  | chars set => some set
  | _ => none

/-- The class of the characters that alternatives are, or of the classes that they are. -/
def commonSet? (ps : List Pattern) : Option CharSet :=
  match ps.mapM char?, ps.mapM set? with
  | some cs, _ => some (.ofRanges (cs.map fun c => (c.toNat, c.toNat)))
  | none, some sets => some (.ofRanges (sets.flatMap CharSet.ranges))
  | none, none => none

/-- The parts of a pattern of several parts. -/
def parts? : Pattern → Option (List Pattern)
  | cat ps => some ps
  | _ => none

/-- The number of equal parts that two lists begin with. -/
def commonLength : List Pattern → List Pattern → Nat
  | p :: ps, q :: qs => if same p q then commonLength ps qs + 1 else 0
  | _, _ => 0

/-- The number of equal parts that all alternatives begin with. -/
def commonPrefixLength : List (List Pattern) → Nat
  | [] => 0
  | first :: rest => rest.foldl (fun n ps => min n (commonLength first ps)) first.length

/-- One of alternatives. What all of them begin with is put in front; `fuel` bounds how often. -/
def oneOfFrom : Nat → List Pattern → Pattern
  | 0, ps => alt ps
  | fuel + 1, ps =>
    match ps.flatMap branches with
    | [] => chars .empty
    | [p] => p
    | ps =>
      match commonSet? ps, ps.mapM parts? with
      | some set, _ => ofSet set
      | none, none => alt ps
      | none, some parts =>
        match commonPrefixLength parts, parts with
        | n + 1, first :: _ =>
          let rest := oneOfFrom fuel (parts.map fun ps => sequence (ps.drop (n + 1)))
          sequence (first.take (n + 1) ++ [rest])
        | _, _ => alt ps

mutual

/-- The number of nodes of a pattern. -/
def nodes : Pattern → Nat
  | cat items => nodesAll items + 1
  | alt branches => nodesAll branches + 1
  | repeat_ _ _ _ item => nodes item + 1
  | group _ item => nodes item + 1
  | _ => 1

/-- The number of nodes of patterns. -/
def nodesAll : List Pattern → Nat
  | [] => 0
  | p :: rest => nodes p + nodesAll rest

end

/-- One of alternatives. -/
def oneOf (ps : List Pattern) : Pattern := oneOfFrom (nodesAll ps + 1) ps

/-- A repetition. What can match nothing only is repeated at most once, and no repetition at all matches
the empty text. -/
def repeated (greedy : Bool) (least : Nat) (most : Option Nat) (item : Pattern) : Pattern :=
  let least := if item.isVoid then min least 1 else least
  let most := if item.isVoid then some ((most.map (min 1)).getD 1) else most
  match least, most with
  | 0, some 0 => empty
  | 1, some 1 => item
  | _, _ => repeat_ greedy least most item

end Pattern

end Invocation
