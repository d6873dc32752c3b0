/-
  Reading patterns.

  * `Pattern.parse` is the pattern of a text; there is none if brackets do
    not balance, if a repetition has nothing to repeat or its bounds are
    reversed, if a range of characters is reversed, and if an escape or the
    kind of a group is unknown. There is no looking around and no reference
    to an earlier group. A pattern that is nested in more than `depthLimit`
    levels is refused.

  Some valid syntax is not read and its patterns are refused: classes by
  Unicode property (`\p{L}`, `\pL`), word boundaries (`\b`, `\B` and their
  kin), characters by code (`\x41`, `\u{41}`), and flags (`(?i)`, `(?s-u:a)`).

  The readers of parts take the characters and give the part with what is
  left of them; `room` bounds the number of brackets inside one another, and
  fuel the number of parts, for which four times the number of characters is
  always enough.
-/
import Invocation.Decimal.Numeral
import Invocation.Pattern.Term

namespace Invocation.Pattern

open Invocation.Decimal

/-! ## Escapes -/

/-- Whether a character stands for itself after a backslash: ASCII punctuation without the angle
brackets. -/
def isPunctuation (c : Char) : Bool :=
  c.toNat < 128 && !c.isAlphanum && c != '<' && c != '>'

/-- The class that a backslash and a letter stand for. -/
def classEscape? : Char → Option CharSet
  | 'd' => some .digit
  | 'D' => some CharSet.digit.negate
  | 's' => some .blank
  | 'S' => some CharSet.blank.negate
  | 'w' => some .word
  | 'W' => some CharSet.word.negate
  | _ => none

/-- The character that a backslash and a character stand for. -/
def charEscape? : Char → Option Char
  | 'a' => some '\x07'
  | 'f' => some '\x0c'
  | 'n' => some '\n'
  | 'r' => some '\r'
  | 't' => some '\t'
  | 'v' => some '\x0b'
  | c => if isPunctuation c then some c else none

/-! ## Classes in brackets -/

/-- An operation between two classes. -/
inductive ClassOperator where
  | inter
  | difference
  | symmetricDifference
  deriving DecidableEq, Repr

namespace ClassOperator

/-- The operation on classes. -/
def apply : ClassOperator → CharSet → CharSet → CharSet
  | inter => .inter
  | difference => .difference
  | symmetricDifference => .symmetricDifference

/-- The operation that a doubled character stands for. -/
def ofChar? : Char → Option ClassOperator
  | '&' => some inter
  | '-' => some difference
  | '~' => some symmetricDifference
  | _ => none

end ClassOperator

/-- A class with the number of levels that it is nested in. -/
structure LevelSet where
  set : CharSet
  levels : Nat

/-- A class that is being read: the operand before the last operator with that operator, and the members
since then. -/
structure OpenClass where
  before : Option (LevelSet × ClassOperator) := none
  ranges : Text.Ranges := []
  /-- The number of members. -/
  count : Nat := 0
  /-- The greatest number of levels that one of the members is nested in. -/
  levels : Nat := 0

namespace OpenClass

/-- The class with one more member. -/
def add (o : OpenClass) (set : CharSet) (levels : Nat) : OpenClass :=
  { o with
    ranges := set.ranges ++ o.ranges
    count := o.count + 1
    levels := max o.levels levels }

/-- The class of the members. Several of them are a level of their own. -/
def members (o : OpenClass) : LevelSet :=
  ⟨.ofRanges o.ranges, if 1 < o.count then o.levels + 1 else o.levels⟩

/-- The whole class that has been read. An operation is a level of its own. -/
def whole (o : OpenClass) : LevelSet :=
  match o.before with
  | none => o.members
  | some (left, op) => ⟨op.apply left.set o.members.set, max left.levels o.members.levels + 1⟩

end OpenClass

/-- One member of a class, which is a character or a class, and what follows it. -/
def classMember? : List Char → Option ((Char ⊕ CharSet) × List Char)
  | '\\' :: c :: rest =>
    match classEscape? c, charEscape? c with
    | some set, _ => some (.inr set, rest)
    | none, some c => some (.inl c, rest)
    | none, none => none
  | ['\\'] => none
  | c :: rest => some (.inl c, rest)
  | [] => none

/-- The class of a member. -/
def memberSet : Char ⊕ CharSet → CharSet
  | .inl c => .single c
  | .inr set => set

/-- A member or a range of characters, and what follows it. A hyphen before the end of the class or
before another hyphen makes no range. -/
def classRange? (cs : List Char) : Option (CharSet × List Char) := do
  let (first, rest) ← classMember? cs
  match rest with
  | '-' :: ']' :: _ => some (memberSet first, rest)
  | '-' :: '-' :: _ => some (memberSet first, rest)
  | '-' :: after =>
    match first, ← classMember? after with
    | .inl lo, (.inl hi, left) => if lo ≤ hi then some (.ofRanges [(lo.toNat, hi.toNat)], left) else none
    | _, _ => none
  | _ => some (memberSet first, rest)

/-- The class of ASCII characters that has a name. -/
def asciiClass? : String → Option CharSet
  | "alnum" => some (.ofRanges [(48, 57), (65, 90), (97, 122)])
  | "alpha" => some (.ofRanges [(65, 90), (97, 122)])
  | "ascii" => some (.ofRanges [(0, 127)])
  | "blank" => some (.ofRanges [(9, 9), (32, 32)])
  | "cntrl" => some (.ofRanges [(0, 31), (127, 127)])
  | "digit" => some (.ofRanges [(48, 57)])
  | "graph" => some (.ofRanges [(33, 126)])
  | "lower" => some (.ofRanges [(97, 122)])
  | "print" => some (.ofRanges [(32, 126)])
  | "punct" => some (.ofRanges [(33, 47), (58, 64), (91, 96), (123, 126)])
  | "space" => some (.ofRanges [(9, 13), (32, 32)])
  | "upper" => some (.ofRanges [(65, 90)])
  | "word" => some (.ofRanges [(48, 57), (65, 90), (95, 95), (97, 122)])
  | "xdigit" => some (.ofRanges [(48, 57), (65, 70), (97, 102)])
  | _ => none

/-- A class by its name, which stands between colons after an opening bracket, and what follows its closing
bracket. Where no class has the name, the bracket opens a class of the characters themselves. -/
def namedClass? : List Char → Option (CharSet × List Char)
  | ':' :: rest =>
    let (negated, body) := match rest with
      | '^' :: after => (true, after)
      | _ => (false, rest)
    match body.dropWhile (· != ':') with
    | ':' :: ']' :: left =>
      (asciiClass? (String.ofList (body.takeWhile (· != ':')))).map fun set =>
        (if negated then set.negate else set, left)
    | _ => none
  | _ => none

/-- A class with nothing but hyphens so far. -/
def hyphens (n : Nat) : OpenClass :=
  { ranges := if n = 0 then [] else (CharSet.single '-').ranges, count := n }

/-- What stands at the beginning of a class and is not special there: hyphens, or else a closing
bracket. -/
def classHead (cs : List Char) : OpenClass × List Char :=
  let rest := cs.dropWhile (· == '-')
  let open_ := hyphens (cs.length - rest.length)
  match rest with
  | ']' :: after => if open_.count = 0 then (open_.add (.single ']') 0, after) else (open_, rest)
  | _ => (open_, rest)

mutual

/-- A class after its opening bracket, and what follows its closing bracket. -/
def class? : Nat → Nat → List Char → Option (LevelSet × List Char)
  | 0, _, _ => none
  | _, 0, _ => none
  | fuel + 1, room + 1, cs =>
    let (negated, body) := match cs with
      | '^' :: rest => (true, rest)
      | _ => (false, cs)
    let (head, rest) := classHead body
    (classBody? fuel room head rest).map fun (inner, left) =>
      (⟨if negated then inner.set.negate else inner.set, inner.levels + 1⟩, left)

/-- The members of a class up to its closing bracket. -/
def classBody? : Nat → Nat → OpenClass → List Char → Option (LevelSet × List Char)
  | 0, _, _, _ => none
  | fuel + 1, room, o, cs =>
    match cs with
    | [] => none
    | ']' :: rest => some (o.whole, rest)
    | '[' :: rest =>
      match namedClass? rest with
      | some (set, left) => classBody? fuel room (o.add set 0) left
      | none =>
        match class? fuel room rest with
        | some (inner, left) => classBody? fuel room (o.add inner.set inner.levels) left
        | none => none
    | c :: d :: rest =>
      match if c = d then ClassOperator.ofChar? c else none with
      | some op => classBody? fuel room { before := some (o.whole, op) } rest
      | none =>
        match classRange? cs with
        | some (set, left) => classBody? fuel room (o.add set 0) left
        | none => none
    | [_] => none

end

/-! ## Repetitions -/

/-- A decimal number between blanks, and what follows it. -/
def count? (cs : List Char) : Option (Nat × List Char) :=
  let body := Text.trimStartChars cs
  let digits := body.takeWhile isDigit
  let n := digitsValue digits
  if digits.isEmpty || 4294967296 ≤ n then none
  else some (n, Text.trimStartChars (body.dropWhile isDigit))

/-- The bounds of a repetition after its opening brace, and what follows the closing brace. -/
def bounds? (cs : List Char) : Option (Nat × Option Nat × List Char) := do
  let (least, rest) ← count? cs
  match rest with
  | '}' :: left => some (least, some least, left)
  | ',' :: '}' :: left => some (least, none, left)
  | ',' :: rest =>
    let (most, rest) ← count? rest
    match rest with
    | '}' :: left => if least ≤ most then some (least, some most, left) else none
    | _ => none
  | _ => none

/-- The bounds that a repetition operator stands for; nothing if none stands there, and an error inside
if it is malformed. -/
def operator? : List Char → Option (Option (Nat × Option Nat × List Char))
  | '*' :: rest => some (some (0, none, rest))
  | '+' :: rest => some (some (1, none, rest))
  | '?' :: rest => some (some (0, some 1, rest))
  | '{' :: rest => some (bounds? rest)
  | _ => none

/-- Applies the repetition operators that follow an item; `fuel` bounds their number. -/
def repetitions? : Nat → Term → List Char → Option (Term × List Char)
  | 0, _, _ => none
  | fuel + 1, item, cs =>
    match operator? cs with
    | none => some (item, cs)
    | some none => none
    | some (some (least, most, rest)) =>
      match rest with
      | '?' :: left => repetitions? fuel (.repeat_ false least most item) left
      | _ => repetitions? fuel (.repeat_ true least most item) rest

/-! ## Patterns -/

/-- The name of a group, and the pattern of the group, which begins after the name. -/
def groupName? (cs : List Char) : Option (List Char × List Char) :=
  let name := cs.takeWhile (· != '>')
  match name, cs.dropWhile (· != '>') with
  | first :: _, _ :: rest =>
    let isName (c : Char) : Bool :=
      c == '_' || c == '.' || c == '[' || c == ']' || Text.isAlphabetic c || Text.isNumeric c
    if (first == '_' || Text.isAlphabetic first) && name.all isName then some (name, rest) else none
  | _, _ => none

/-- What makes a group: nothing, a number, or a number and a name. -/
inductive GroupKind where
  | plain
  | numbered
  | named (name : List Char)
  deriving DecidableEq, Repr

/-- The kind of a group after its opening parenthesis, and what follows. -/
def groupKind? : List Char → Option (GroupKind × List Char)
  | '?' :: ':' :: rest => some (.plain, rest)
  | '?' :: 'P' :: '<' :: rest => (groupName? rest).map fun (name, rest) => (.named name, rest)
  | '?' :: '<' :: rest => (groupName? rest).map fun (name, rest) => (.named name, rest)
  | '?' :: _ => none
  | rest => some (.numbered, rest)

/-- The numbered groups so far, the last first, each with its name if it has one. -/
abbrev Groups := List (Option (List Char))

/-- The number of a group of some kind and the groups with it. No two groups have one name. -/
def GroupKind.number? : GroupKind → Groups → Option (Option Nat × Groups)
  | plain, groups => some (none, groups)
  | numbered, groups => some (some (groups.length + 1), none :: groups)
  | named name, groups =>
    if groups.contains (some name) then none else some (some (groups.length + 1), some name :: groups)

mutual

/-- Alternatives after those in `done` up to a closing parenthesis or the end. `groups` are the groups
before. -/
def alternatives? :
    Nat → Nat → Groups → List Term → List Char → Option (Term × Groups × List Char)
  | 0, _, _, _, _ => none
  | fuel + 1, room, groups, done, cs =>
    match sequence? fuel room groups [] cs with
    | some (term, groups, '|' :: rest) => alternatives? fuel room groups (term :: done) rest
    | some (term, groups, rest) => some (.either (term :: done).reverse, groups, rest)
    | none => none

/-- Items side by side after those in `done` up to a bar, a closing parenthesis or the end. -/
def sequence? :
    Nat → Nat → Groups → List Term → List Char → Option (Term × Groups × List Char)
  | 0, _, _, _, _ => none
  | fuel + 1, room, groups, done, cs =>
    match cs with
    | [] | '|' :: _ | ')' :: _ => some (.side done.reverse, groups, cs)
    | _ =>
      match item? fuel room groups cs with
      | none => none
      | some (item, groups, rest) =>
        match repetitions? (fuel + 1) item rest with
        | none => none
        | some (item, rest) => sequence? fuel room groups (item :: done) rest

/-- One item without the repetition after it. -/
def item? : Nat → Nat → Groups → List Char → Option (Term × Groups × List Char)
  | 0, _, _, _ => none
  | fuel + 1, room, groups, cs =>
    match cs with
    | [] => none
    | '^' :: rest => some (.start, groups, rest)
    | '$' :: rest => some (.stop, groups, rest)
    | '.' :: rest => some (.chars .anyButBreak 0, groups, rest)
    | '\\' :: 'A' :: rest => some (.start, groups, rest)
    | '\\' :: 'z' :: rest => some (.stop, groups, rest)
    | '\\' :: c :: rest =>
      match classEscape? c, charEscape? c with
      | some set, _ => some (.chars set 0, groups, rest)
      | none, some c => some (.char c, groups, rest)
      | none, none => none
    | '[' :: rest =>
      (class? (fuel + 1) room rest).map fun (inner, left) =>
        (.chars inner.set inner.levels, groups, left)
    | '(' :: rest =>
      match room, groupKind? rest with
      | room + 1, some (kind, body) =>
        match kind.number? groups with
        | some (number, groups) =>
          match alternatives? fuel room groups [] body with
          | some (inner, groups, ')' :: rest) => some (.group number inner, groups, rest)
          | _ => none
        | none => none
      | _, _ => none
    | c :: rest =>
      if c = '\\' || (operator? cs).isSome then none else some (.char c, groups, rest)

end

/-- The greatest number of levels that a pattern may be nested in. -/
def depthLimit : Nat := 250

/-- The pattern that a text is. -/
def parse (text : String) : Option Pattern :=
  let cs := text.toList
  match alternatives? (4 * cs.length + 4) depthLimit [] [] cs with
  | some (term, _, []) => if term.depth ≤ depthLimit then some term.pattern else none
  | _ => none

end Invocation.Pattern
