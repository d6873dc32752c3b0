/-
  Reading YAML text.

  * `Yaml.parse` reads a text that is one document; nothing but blanks and
    comments may stand after its end.

  Plain scalars are texts; an empty one is blank, and the words for nothing
  are null. Anchors, aliases, tags and directives are not read.

  The readers of parts take the tokens and give the part with what is left
  of them. They take fuel that bounds the nesting, for which a few more than
  twice the number of tokens is always enough.
-/
import Invocation.Document
import Invocation.Yaml.Token

namespace Invocation.Yaml

/-- The document of a scalar. -/
def scalarDocument (isPlain : Bool) (text : String) : Document :=
  if isPlain && text.isEmpty then .blank
  else if isPlain && isNullWord text then .null text
  else .text text

/-- The table of entries, if all their keys are texts. -/
def tableDocument (entries : List (Document × Document)) : Document :=
  match entries.mapM fun (key, d) => key.text?.map fun k => (k, d) with
  | some entries => .table entries
  | none => .other

/-- Whether a part in a block has been left out before a token, where an item stands. -/
def endsItem : Option Token → Bool
  | some .item => true
  | some .blockEnd => true
  | _ => false

/-- Whether a part in a block has been left out before a token, where an item stands below a key. -/
def endsKeyItem (t : Option Token) : Bool := endsItem t || t == some .key || t == some .value

/-- Whether a key or a value in a block has been left out before a token. -/
def endsEntry : Option Token → Bool
  | some .key => true
  | some .value => true
  | some .blockEnd => true
  | _ => false

/-- Whether a part in brackets has been left out before a token. -/
def endsFlow (closing : Token) (t : Option Token) : Bool := t == some .separator || t == some closing

mutual

/-- A part. Below a key, the items of a list may stand without indentation. -/
def part? (inBlock belowKey : Bool) : Nat → List Token → Option (Document × List Token)
  | 0, _ => none
  | fuel + 1, ts =>
    match ts with
    | .scalar isPlain text :: rest => some (scalarDocument isPlain text, rest)
    | .flowList :: rest =>
      (flowItems? true fuel rest).map fun (items, left) => (.list items, left)
    | .flowTable :: rest =>
      (flowEntries? true fuel rest).map fun (entries, left) => (tableDocument entries, left)
    | .blockList :: rest =>
      if inBlock then (items? fuel rest).map fun (items, left) => (.list items, left) else none
    | .blockTable :: rest =>
      if inBlock then (entries? fuel rest).map fun (entries, left) => (tableDocument entries, left)
      else none
    | .item :: _ =>
      if belowKey then (keyItems? fuel ts).map fun (items, left) => (.list items, left) else none
    | _ => none

/-- A part in a block, or nothing before one of the tokens that end it. -/
def optionalPart? (isLeftOut belowKey : Bool) : Nat → List Token → Option (Document × List Token)
  | 0, _ => none
  | fuel + 1, ts => if isLeftOut then some (.blank, ts) else part? true belowKey fuel ts

/-- A part in brackets, or nothing. -/
def flowPart? (isLeftOut : Bool) : Nat → List Token → Option (Document × List Token)
  | 0, _ => none
  | fuel + 1, ts => if isLeftOut then some (.blank, ts) else part? false false fuel ts

/-- The items of a list in a block, up to its end. -/
def items? : Nat → List Token → Option (List Document × List Token)
  | 0, _ => none
  | fuel + 1, ts =>
    match ts with
    | .item :: rest => do
      let (d, rest) ← optionalPart? (endsItem rest.head?) false fuel rest
      let (ds, left) ← items? fuel rest
      some (d :: ds, left)
    | .blockEnd :: left => some ([], left)
    | _ => none

/-- The items of a list below a key, up to the first token that is no item. -/
def keyItems? : Nat → List Token → Option (List Document × List Token)
  | 0, _ => none
  | fuel + 1, ts =>
    match ts with
    | .item :: rest => do
      let (d, rest) ← optionalPart? (endsKeyItem rest.head?) false fuel rest
      let (ds, left) ← keyItems? fuel rest
      some (d :: ds, left)
    | _ => some ([], ts)

/-- The value after a key in a block. -/
def value? : Nat → List Token → Option (Document × List Token)
  | 0, _ => none
  | fuel + 1, ts =>
    match ts with
    | .value :: rest => optionalPart? (endsEntry rest.head?) true fuel rest
    | _ => some (.blank, ts)

/-- The entries of a table in a block, up to its end. -/
def entries? : Nat → List Token → Option (List (Document × Document) × List Token)
  | 0, _ => none
  | fuel + 1, ts =>
    match ts with
    | .key :: rest => do
      let (k, rest) ← optionalPart? (endsEntry rest.head?) true fuel rest
      let (d, rest) ← value? fuel rest
      let (entries, left) ← entries? fuel rest
      some ((k, d) :: entries, left)
    | .blockEnd :: left => some ([], left)
    | _ => none

/-- The value after a key in brackets. -/
def flowValue? (closing : Token) : Nat → List Token → Option (Document × List Token)
  | 0, _ => none
  | fuel + 1, ts =>
    match ts with
    | .value :: rest => flowPart? (endsFlow closing rest.head?) fuel rest
    | _ => some (.blank, ts)

/-- The items of a list in brackets, up to the closing one. A key makes a table of one entry. -/
def flowItems? (isFirst : Bool) : Nat → List Token → Option (List Document × List Token)
  | 0, _ => none
  | fuel + 1, ts =>
    match isFirst, ts with
    | _, .flowListEnd :: left => some ([], left)
    | false, .separator :: .flowListEnd :: left => some ([], left)
    | false, .separator :: rest => flowItem? fuel rest
    | false, _ => none
    | true, ts => flowItem? fuel ts

/-- An item of a list in brackets and those after it. After a key mark whose key is left out the next
token is lost, so that `[? : a]` is not well formed. -/
def flowItem? : Nat → List Token → Option (List Document × List Token)
  | 0, _ => none
  | fuel + 1, ts =>
    match ts with
    | .key :: rest => do
      let isLeftOut := endsFlow .flowListEnd rest.head? || rest.head? == some .value
      let (k, rest) ← flowPart? isLeftOut fuel (if isLeftOut then rest.drop 1 else rest)
      let (d, rest) ← flowValue? .flowListEnd fuel rest
      let (ds, left) ← flowItems? false fuel rest
      some (tableDocument [(k, d)] :: ds, left)
    | ts => do
      let (d, rest) ← part? false false fuel ts
      let (ds, left) ← flowItems? false fuel rest
      some (d :: ds, left)

/-- The entries of a table in brackets, up to the closing one. -/
def flowEntries? (isFirst : Bool) : Nat → List Token → Option (List (Document × Document) × List Token)
  | 0, _ => none
  | fuel + 1, ts =>
    match isFirst, ts with
    | _, .flowTableEnd :: left => some ([], left)
    | false, .separator :: .flowTableEnd :: left => some ([], left)
    | false, .separator :: rest => flowPair? fuel rest
    | false, _ => none
    | true, ts => flowPair? fuel ts

/-- An entry of a table in brackets and those after it. An entry without a key mark has no value. -/
def flowPair? : Nat → List Token → Option (List (Document × Document) × List Token)
  | 0, _ => none
  | fuel + 1, ts =>
    match ts with
    | .key :: rest => do
      let isLeftOut := endsFlow .flowTableEnd rest.head? || rest.head? == some .value
      let (k, rest) ← flowPart? isLeftOut fuel rest
      let (d, rest) ← flowValue? .flowTableEnd fuel rest
      let (entries, left) ← flowEntries? false fuel rest
      some ((k, d) :: entries, left)
    | ts => do
      let (k, rest) ← part? false false fuel ts
      let (entries, left) ← flowEntries? false fuel rest
      some ((k, .blank) :: entries, left)

end

/-- The document that tokens are. -/
def document? (ts : List Token) : Option Document :=
  let whole (ts : List Token) : Option Document :=
    match part? true false (4 * ts.length + 4) ts with
    | some (d, rest) => if rest.all (· == .documentEnd) then some d else none
    | none => none
  match ts with
  | [] => some .blank
  | .documentStart :: rest =>
    if rest.all (· == .documentEnd) then some .blank else whole rest
  | ts => whole ts

/-- The document that a text is. -/
def parse (text : String) : Option Document := (tokens? text).bind document?

end Invocation.Yaml
