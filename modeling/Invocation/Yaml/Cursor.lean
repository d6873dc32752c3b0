/-
  Places in a YAML text, and scalars that begin at a place.

  * `Cursor` is what is left of a text, with the place of its first
    character; `Cursor.gap` passes over blanks and line breaks;
  * `Gap.folded` is the text of a gap inside a scalar: a single line break
    is a space, and of several the first is dropped;
  * `Cursor.plain`, `Cursor.quoted` and `Cursor.block` read scalars of the
    three kinds.

  The readers take fuel that bounds the characters that are left; nothing is
  the answer to a text that is not well formed.
-/
import Invocation.Yaml.Scalar

namespace Invocation.Yaml

/-- What is left of a text, and where it begins. -/
structure Cursor where
  rest : List Char
  line : Nat := 0
  column : Nat := 0
  /-- The number of bytes before. -/
  index : Nat := 0

/-- What stands between two words of a scalar: the blanks before the first line break, and the breaks. -/
structure Gap where
  blanks : List Char := []
  breaks : List Char := []

/-- The text of a gap. -/
def Gap.folded (g : Gap) : List Char :=
  match g.breaks with
  | [] => g.blanks
  | ['\n'] => [' ']
  | '\n' :: more => more
  | breaks => breaks

namespace Cursor

/-- The number of bytes of characters. -/
def byteLength (cs : List Char) : Nat := cs.foldl (fun n c => n + c.utf8Size) 0

/-- The place some characters on, on the same line. -/
def skip (c : Cursor) (n : Nat) : Cursor :=
  { c with rest := c.rest.drop n, column := c.column + n, index := c.index + byteLength (c.rest.take n) }

/-- The line break in front and the place after it. The usual breaks are all read as one character. -/
def newLine (c : Cursor) : List Char × Cursor :=
  let after (rest : List Char) (n : Nat) : Cursor := ⟨rest, c.line + 1, 0, c.index + n⟩
  match c.rest with
  | '\r' :: '\n' :: rest => (['\n'], after rest 2)
  | b :: rest => ([if b == '\u2028' || b == '\u2029' then b else '\n'], after rest b.utf8Size)
  | [] => ([], c)

/-- Whether a marker of documents stands at the beginning of a line. -/
def atMarker (c : Cursor) : Bool :=
  c.column == 0 &&
    match c.rest with
    | '-' :: '-' :: '-' :: rest => isEnd rest.head?
    | '.' :: '.' :: '.' :: rest => isEnd rest.head?
    | _ => false

/-- The characters up to the end of the line. -/
def lineRest (c : Cursor) : List Char := c.rest.takeWhile (!isBreak ·)

/-- Passes over blanks and breaks. On a new line, no tab may stand before the column `limit`. -/
def gap (limit : Nat) : Nat → Gap → Cursor → Option (Gap × Cursor)
  | 0, g, c => some (g, c)
  | fuel + 1, g, c =>
    match c.rest with
    | [] => some (g, c)
    | b :: _ =>
      if isGap b then
        if g.breaks.isEmpty then gap limit fuel { g with blanks := g.blanks ++ [b] } (c.skip 1)
        else if b == '\t' && c.column < limit then none
        else gap limit fuel g (c.skip 1)
      else if isBreak b then
        let (broken, next) := c.newLine
        gap limit fuel { g with breaks := g.breaks ++ broken } next
      else some (g, c)

/-! ## Plain scalars -/

/-- Whether a character belongs to the structure of a collection in brackets. -/
def isFlowMark (c : Char) : Bool := c == ',' || c == '[' || c == ']' || c == '{' || c == '}'

/-- The word in front. It ends before a colon that ends a key; inside brackets no colon may stand
before a mark of their structure. -/
def plainWord? (inFlow : Bool) : List Char → Option (List Char)
  | [] => some []
  | c :: rest =>
    if isEnd (some c) then some []
    else if c == ':' && inFlow && rest.head?.any (fun d => isFlowMark d || d == '?') then none
    else if c == ':' && isEnd rest.head? then some []
    else if inFlow && isFlowMark c then some []
    else (plainWord? inFlow rest).map (c :: ·)

/-- The words of a plain scalar after a gap and what stands in `done`, the last part first; whether the
last gap holds a break, and the place after it. -/
def plainWords (inFlow : Bool) (limit : Nat) :
    Nat → List (List Char) → Gap → Cursor → Option (List Char × Bool × Cursor)
  | 0, _, _, _ => none
  | fuel + 1, done, g, c =>
    if c.atMarker || c.rest.head? == some '#' then some (done.reverse.flatten, !g.breaks.isEmpty, c)
    else
      match plainWord? inFlow c.rest with
      | none => none
      | some [] => some (done.reverse.flatten, !g.breaks.isEmpty, c)
      | some word =>
        let done := word :: g.folded :: done
        match gap limit (fuel + 1) {} (c.skip word.length) with
        | none => none
        | some (g, next) =>
          if g.blanks.isEmpty && g.breaks.isEmpty then some (done.reverse.flatten, false, next)
          else if !inFlow && next.column < limit then
            some (done.reverse.flatten, !g.breaks.isEmpty, next)
          else plainWords inFlow limit fuel done g next

/-- A plain scalar whose further lines begin at the column `limit` or after it: its text, whether it is
followed by a new line, and the place after it. The fuel bounds the number of characters. -/
def plain (inFlow : Bool) (limit fuel : Nat) (c : Cursor) : Option (List Char × Bool × Cursor) :=
  plainWords inFlow limit fuel [] {} c

/-! ## Quoted scalars -/

/-- The character that an escape of one letter stands for. -/
def letterEscape? : Char → Option Char
  | '0' => some '\x00'
  | 'a' => some '\x07'
  | 'b' => some '\x08'
  | 't' => some '\t'
  | '\t' => some '\t'
  | 'n' => some '\n'
  | 'v' => some '\x0b'
  | 'f' => some '\x0c'
  | 'r' => some '\r'
  | 'e' => some '\x1b'
  | ' ' => some ' '
  | '"' => some '"'
  | '/' => some '/'
  | '\\' => some '\\'
  | 'N' => some '\u0085'
  | '_' => some '\u00a0'
  | 'L' => some '\u2028'
  | 'P' => some '\u2029'
  | _ => none

/-- The character with a number in hexadecimal digits. -/
def hexCharacter? (digits : List Char) : Option Char :=
  match radixValue? 16 digits with
  | none => none
  | some n => if n < 0xD800 || (0xE000 ≤ n && n < 0x110000) then some (Char.ofNat n) else none

/-- The number of digits after the letter of a numeric escape. -/
def escapeWidth? : Char → Option Nat
  | 'x' => some 2
  | 'u' => some 4
  | 'U' => some 8
  | _ => none

/-- The character of an escape after its backslash, and the length of the escape. -/
def escape? : List Char → Option (Char × Nat)
  | [] => none
  | letter :: rest =>
    match escapeWidth? letter with
    | some width =>
      if (rest.take width).length = width then
        (hexCharacter? (rest.take width)).map fun c => (c, width + 1)
      else none
    | none => (letterEscape? letter).map fun c => (c, 1)

/-- The text up to the closing quotation mark, and the place after that. -/
def quotedBody (mark : Char) : Nat → Cursor → Option (List Char × Cursor)
  | 0, _ => none
  | fuel + 1, c =>
    if c.atMarker then none
    else
      match c.rest with
      | [] => none
      | d :: rest =>
        if isEnd (some d) then do
          let (g, next) ← gap 0 (fuel + 1) {} c
          let (text, left) ← quotedBody mark fuel next
          some (g.folded ++ text, left)
        else if d == mark then
          if mark == '\'' && rest.head? == some '\'' then do
            let (text, left) ← quotedBody mark fuel (c.skip 2)
            some ('\'' :: text, left)
          else some ([], c.skip 1)
        else if d == '\\' && mark == '"' then
          if rest.head?.any isBreak then do
            let (broken, next) := (c.skip 1).newLine
            let (g, next) ← gap 0 (fuel + 1) { breaks := broken } next
            let (text, left) ← quotedBody mark fuel next
            some (g.breaks.drop 1 ++ text, left)
          else do
            let (e, width) ← escape? rest
            let (text, left) ← quotedBody mark fuel (c.skip (width + 1))
            some (e :: text, left)
        else do
          let (text, left) ← quotedBody mark fuel (c.skip 1)
          some (d :: text, left)

/-- A scalar in quotation marks, of the kind that stands in front. The fuel bounds the number of
characters. -/
def quoted (mark : Char) (fuel : Nat) (c : Cursor) : Option (List Char × Cursor) :=
  quotedBody mark fuel (c.skip 1)

/-! ## Block scalars -/

/-- What happens to the breaks at the end of a block scalar. -/
inductive Ending where
  | strip
  | clip
  | keep
  deriving DecidableEq, Repr

/-- The ending that a sign stands for. -/
def endingOf? : Char → Option Ending
  | '-' => some .strip
  | '+' => some .keep
  | _ => none

/-- The indentation that a digit stands for. -/
def indentOf? (c : Char) : Option Nat :=
  if '1' ≤ c && c ≤ '9' then some (c.toNat - 48) else none

/-- The signs after the mark of a block scalar: ending, indentation if it is told, and their number. -/
def blockSigns : List Char → Ending × Option Nat × Nat
  | a :: b :: _ =>
    match endingOf? a, indentOf? a, endingOf? b, indentOf? b with
    | some ending, _, _, some indent => (ending, some indent, 2)
    | some ending, _, _, none => (ending, none, 1)
    | none, some indent, some ending, _ => (ending, some indent, 2)
    | none, some indent, none, _ => (.clip, some indent, 1)
    | none, none, _, _ => (.clip, none, 0)
  | [a] => ((endingOf? a).getD .clip, indentOf? a, if (endingOf? a).isSome || (indentOf? a).isSome then 1 else 0)
  | [] => (.clip, none, 0)

/-- Passes over indentation and empty lines. Without a known indentation all spaces belong to it; the
widest line is kept. -/
def blockBreaks (indent : Option Nat) : Nat → Nat → List Char → Cursor → Option (List Char × Nat × Cursor)
  | 0, widest, breaks, c => some (breaks, widest, c)
  | fuel + 1, widest, breaks, c =>
    let blanks := (c.rest.takeWhile (· == ' ')).length
    let c := c.skip (indent.elim blanks fun n => min (n - c.column) blanks)
    let widest := max widest c.column
    match c.rest with
    | [] => some (breaks, widest, c)
    | b :: _ =>
      if b == '\t' && indent.all (c.column < ·) then none
      else if isBreak b then
        let (broken, next) := c.newLine
        blockBreaks indent fuel widest (breaks ++ broken) next
      else some (breaks, widest, c)

/-- The lines of a block scalar after what stands in `done`, the last part first, a break and empty
lines. -/
def blockLines (folds : Bool) (indent : Nat) (ending : Ending) :
    Nat → List (List Char) → List Char → List Char → Bool → Cursor → Option (List Char × Cursor)
  | 0, _, _, _, _, _ => none
  | fuel + 1, done, broken, breaks, afterBlank, c =>
    if c.column == indent && !c.rest.isEmpty then
      let isBlank := c.rest.head?.any isGap
      let joint :=
        if folds && broken == ['\n'] && !afterBlank && !isBlank then if breaks.isEmpty then [' '] else []
        else broken
      let line := c.lineRest
      let (nextBroken, next) := (c.skip line.length).newLine
      match blockBreaks (some indent) (fuel + 1) 0 [] next with
      | none => none
      | some (nextBreaks, _, next) =>
        blockLines folds indent ending fuel (line :: breaks :: joint :: done) nextBroken nextBreaks
          isBlank next
    else
      let tail := match ending with
        | .strip => []
        | .clip => broken
        | .keep => broken ++ breaks
      some (done.reverse.flatten ++ tail, c)

/-- A block scalar inside a collection that begins at the column `parent`. The fuel bounds the number of
characters. -/
def block (parent : Option Nat) (fuel : Nat) (c : Cursor) : Option (List Char × Cursor) :=
  let folds := c.rest.head? == some '>'
  let (ending, told, width) := blockSigns (c.rest.drop 1)
  let c := c.skip (1 + width)
  let c := c.skip (c.rest.takeWhile isGap).length
  let c := if c.rest.head? == some '#' then c.skip c.lineRest.length else c
  if c.rest.head?.any (!isBreak ·) then none
  else
    let (_, c) := c.newLine
    let told := told.map fun n => n + parent.getD 0
    match blockBreaks told fuel 0 [] c with
    | none => none
    | some (breaks, widest, c) =>
      let indent := told.getD (max widest (max 1 (parent.elim 0 (· + 1))))
      blockLines folds indent ending (fuel + 1) [] [] breaks false c

end Cursor

end Invocation.Yaml
