/-
  Tokens of a YAML text.

  * `Token` lists them: scalars, the marks of the structure, and the
    beginnings and ends of collections in blocks, which indentation makes;
  * `tokens?` gives the tokens of a text.

  That a scalar or a collection is a key is known only at the colon after
  it. So a place is left wherever a key may begin, and the places of keys
  are filled at the end; a key has to stand on one line with its colon.
-/
import Invocation.Yaml.Cursor

namespace Invocation.Yaml

/-- A token. -/
inductive Token where
  | documentStart
  | documentEnd
  /-- The beginning of a list in a block. -/
  | blockList
  /-- The beginning of a table in a block. -/
  | blockTable
  | blockEnd
  | flowList
  | flowListEnd
  | flowTable
  | flowTableEnd
  /-- The mark of an item in a block. -/
  | item
  /-- The mark between the parts of a collection in brackets. -/
  | separator
  | key
  | value
  | scalar (isPlain : Bool) (text : String)
  deriving DecidableEq, Repr

/-- A token, or a place where a key may turn out to begin. -/
inductive Piece where
  | token (t : Token)
  | place (n : Nat)

/-- The beginning of what may turn out to be a key. -/
structure Candidate where
  place : Nat
  line : Nat
  column : Nat
  index : Nat
  /-- Whether nothing but a key may stand there. -/
  isRequired : Bool

/-- What has been read of a text. -/
structure Reader where
  cursor : Cursor
  /-- The pieces in reverse order. -/
  pieces : List Piece := []
  /-- The columns of the open collections in blocks, the innermost first. -/
  indents : List Nat := []
  /-- The possible keys of the open brackets, the innermost first, and of the block around them. -/
  candidates : List (Option Candidate) := [none]
  /-- Whether a key may begin here. -/
  mayBegin : Bool := true
  /-- The tokens of the places so far: some for those that have become keys, none for the others. -/
  places : Array (List Token) := #[]

namespace Reader

/-- Whether a bracket is open. -/
def inFlow (r : Reader) : Bool := !(r.candidates.drop 1).isEmpty

/-- Adds a token. -/
def emit (r : Reader) (t : Token) : Reader := { r with pieces := .token t :: r.pieces }

/-- Passes over characters of one line. -/
def skip (r : Reader) (n : Nat) : Reader := { r with cursor := r.cursor.skip n }

/-! ## Blanks and comments -/

/-- Passes over blanks, breaks and comments, and over a byte order mark at the beginning of a line. A key
may begin on a new line of a block; where a key may begin, no tab may stand. -/
def skipFiller (inFlow : Bool) : Nat → Bool → Cursor → Bool × Cursor
  | 0, mayBegin, c => (mayBegin, c)
  | fuel + 1, mayBegin, c =>
    match c.rest with
    | [] => (mayBegin, c)
    | b :: _ =>
      if b == ' ' || (b == '\t' && (inFlow || !mayBegin)) then
        skipFiller inFlow fuel mayBegin (c.skip 1)
      else if b == '\ufeff' && c.column == 0 then skipFiller inFlow fuel mayBegin (c.skip 1)
      else if b == '#' then skipFiller inFlow fuel mayBegin (c.skip c.lineRest.length)
      else if isBreak b then skipFiller inFlow fuel (mayBegin || !inFlow) c.newLine.2
      else (mayBegin, c)

/-- Goes to the next token. The fuel bounds the number of characters. -/
def toToken (fuel : Nat) (r : Reader) : Reader :=
  let (mayBegin, cursor) := skipFiller r.inFlow fuel r.mayBegin r.cursor
  { r with cursor, mayBegin }

/-! ## Possible keys -/

/-- Gives up a candidate; nothing else may stand in place of one that is required. -/
def giveUp : Option Candidate → Option (Option Candidate)
  | some candidate => if candidate.isRequired then none else some none
  | none => some none

/-- Gives up the candidates that are too far off: on another line, or more than 1024 bytes before. -/
def dropStale (r : Reader) : Option Reader :=
  let isStale (candidate : Candidate) : Bool :=
    candidate.line < r.cursor.line || candidate.index + 1024 < r.cursor.index
  let keep (candidate : Option Candidate) : Option (Option Candidate) :=
    if candidate.any isStale then giveUp candidate else some candidate
  (r.candidates.mapM keep).map fun candidates => { r with candidates }

/-- Gives up the candidate of the innermost bracket. -/
def dropCandidate (r : Reader) : Option Reader :=
  match r.candidates with
  | candidate :: rest => (giveUp candidate).map fun none_ => { r with candidates := none_ :: rest }
  | [] => some r

/-- Leaves a place for a key here, if one may begin here. -/
def markCandidate (r : Reader) : Option Reader :=
  if r.mayBegin then
    (dropCandidate r).map fun r =>
      let c := r.cursor
      let candidate : Candidate :=
        ⟨r.places.size, c.line, c.column, c.index, !r.inFlow && r.indents.head? == some c.column⟩
      { r with
        candidates := some candidate :: r.candidates.drop 1
        pieces := .place r.places.size :: r.pieces
        places := r.places.push [] }
  else some r

/-! ## Indentation -/

/-- Whether a collection that begins at a column is a new one inside the others. -/
def opensAt (r : Reader) (column : Nat) : Bool := !r.inFlow && r.indents.head?.all (· < column)

/-- Begins a collection at the column of the cursor, unless the innermost one goes on there. -/
def openBlock (r : Reader) (t : Token) : Reader :=
  let column := r.cursor.column
  if r.opensAt column then { r.emit t with indents := column :: r.indents } else r

/-- Ends the collections in blocks for which `ends` holds, from the innermost one on. -/
def closeBlocks (ends : Nat → Bool) (r : Reader) : Reader :=
  if r.inFlow then r
  else
    let closed := r.indents.takeWhile ends
    { r with
      indents := r.indents.dropWhile ends
      pieces := closed.map (fun _ => .token .blockEnd) ++ r.pieces }

/-! ## Tokens -/

/-- Reads a marker of documents. -/
def readMarker (r : Reader) (t : Token) : Option Reader :=
  (closeBlocks (fun _ => true) r).dropCandidate.map fun r => { (r.emit t).skip 3 with mayBegin := false }

/-- Reads an opening bracket. -/
def readOpening (r : Reader) (t : Token) : Option Reader :=
  r.markCandidate.map fun r =>
    let r := (r.emit t).skip 1
    { r with candidates := none :: r.candidates, mayBegin := true }

/-- Reads a closing bracket. -/
def readClosing (r : Reader) (t : Token) : Option Reader :=
  r.dropCandidate.map fun r =>
    let r := (r.emit t).skip 1
    let outer := r.candidates.drop 1
    { r with candidates := if outer.isEmpty then r.candidates else outer, mayBegin := false }

/-- Reads a mark between the parts of a collection in brackets. -/
def readSeparator (r : Reader) : Option Reader :=
  r.dropCandidate.map fun r => { (r.emit .separator).skip 1 with mayBegin := true }

/-- Reads the mark of an item. -/
def readItem (r : Reader) : Option Reader :=
  if !r.inFlow && !r.mayBegin then none
  else (r.openBlock .blockList).dropCandidate.map fun r => { (r.emit .item).skip 1 with mayBegin := true }

/-- Reads the mark of a key. -/
def readKey (r : Reader) : Option Reader :=
  if !r.inFlow && !r.mayBegin then none
  else
    (r.openBlock .blockTable).dropCandidate.map fun r =>
      { (r.emit .key).skip 1 with mayBegin := !r.inFlow }

/-- Reads the colon before a value. It makes a key of the candidate, if there is one. -/
def readValue (r : Reader) : Option Reader :=
  match r.candidates with
  | some candidate :: rest =>
    let opens := r.opensAt candidate.column
    let tokens := if opens then [.blockTable, .key] else [.key]
    let r := { r with
      places := r.places.setIfInBounds candidate.place tokens
      indents := if opens then candidate.column :: r.indents else r.indents
      candidates := none :: rest
      mayBegin := false }
    some ((r.emit .value).skip 1)
  | _ =>
    if !r.inFlow && !r.mayBegin then none
    else
      let r := r.openBlock .blockTable
      some { (r.emit .value).skip 1 with mayBegin := !r.inFlow }

/-- Reads a scalar in quotation marks. -/
def readQuoted (fuel : Nat) (r : Reader) (mark : Char) : Option Reader := do
  let r ← r.markCandidate
  let (text, cursor) ← r.cursor.quoted mark fuel
  some { r.emit (.scalar false (String.ofList text)) with cursor, mayBegin := false }

/-- Reads a plain scalar. -/
def readPlain (fuel : Nat) (r : Reader) : Option Reader := do
  let r ← r.markCandidate
  let (text, isBroken, cursor) ← r.cursor.plain r.inFlow (r.indents.head?.elim 0 (· + 1)) fuel
  some { r.emit (.scalar true (String.ofList text)) with cursor, mayBegin := isBroken }

/-- Reads a block scalar. -/
def readBlock (fuel : Nat) (r : Reader) : Option Reader := do
  let r ← r.dropCandidate
  let (text, cursor) ← r.cursor.block r.indents.head? fuel
  some { r.emit (.scalar false (String.ofList text)) with cursor, mayBegin := true }

/-- Whether a plain scalar begins with a character, given the one after it. -/
def beginsPlain (inFlow : Bool) (c : Char) (next : Option Char) : Bool :=
  if c == '-' then !next.any isGap
  else if c == '?' || c == ':' then !inFlow && !isEnd next
  else !(",[]\x7b\x7d#&*!|>'\"%@`".toList.contains c) && !isEnd (some c)

/-- Reads the token that begins with a character. The fuel bounds the number of characters. -/
def readToken (fuel : Nat) (r : Reader) (c : Char) (next : Option Char) : Option Reader :=
  if r.cursor.column == 0 && c == '%' then none
  else if r.cursor.atMarker then r.readMarker (if c == '-' then .documentStart else .documentEnd)
  else
    match c with
    | '[' => r.readOpening .flowList
    | '{' => r.readOpening .flowTable
    | ']' => r.readClosing .flowListEnd
    | '}' => r.readClosing .flowTableEnd
    | ',' => r.readSeparator
    | '\'' => readQuoted fuel r '\''
    | '"' => readQuoted fuel r '"'
    | _ =>
      if c == '-' && isEnd next then r.readItem
      else if c == '?' && (r.inFlow || isEnd next) then r.readKey
      else if c == ':' && (r.inFlow || isEnd next) then r.readValue
      else if (c == '|' || c == '>') && !r.inFlow then readBlock fuel r
      else if beginsPlain r.inFlow c next then readPlain fuel r
      else none

/-- Reads up to the end of the text. -/
def readAll : Nat → Reader → Option Reader
  | 0, _ => none
  | fuel + 1, r =>
    match (toToken (fuel + 1) r).dropStale with
    | none => none
    | some r =>
      let column := r.cursor.column
      match r.cursor.rest with
      | [] => (closeBlocks (fun _ => true) r).dropCandidate
      | c :: rest =>
        match readToken (fuel + 1) (closeBlocks (column < ·) r) c rest.head? with
        | none => none
        | some r => readAll fuel r

/-- The tokens that have been read, with the places of keys filled. -/
def tokens (r : Reader) : List Token :=
  r.pieces.reverse.flatMap fun
    | .token t => [t]
    | .place n => r.places.getD n []

end Reader

/-- Whether a character may stand in a text: the printable ones, tabs, breaks and the byte order mark. -/
def isAllowed (c : Char) : Bool :=
  isPrintable c || c == '\t' || c == '\r' || c == '\u0085' || c == '\ufeff'

/-- The tokens of a text. -/
def tokens? (text : String) : Option (List Token) :=
  let cs := text.toList
  if cs.all isAllowed then (Reader.readAll (cs.length + 1) { cursor := ⟨cs, 0, 0, 0⟩ }).map Reader.tokens
  else none

end Invocation.Yaml
