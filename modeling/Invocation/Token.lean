/-
  Tokens of an input line.

  A word is a keyword if it begins with two hyphens and a name follows them;
  the text after the first equals sign is its value. All other words are
  positional.

  * `Token.classify` reads one word, `Token.tokenize` a line,
    `Token.text` writes a token back, and `Token.toData` is its data tree;
  * `Input` holds the tokens of a line by kind, each kind in its order.
-/
import Invocation.Data
import Invocation.Text.Blank

namespace Invocation

open Invocation.Text

/-- A token of an input line. -/
inductive Token where
  | positional (text : String)
  /-- A name without marker, and the text assigned to it. -/
  | keyword (name : String) (value : Option String)
  deriving DecidableEq, Repr

namespace Token

/-- The characters before the first equals sign, and those after it if there is one. -/
def splitAssignment (cs : List Char) : List Char × Option (List Char) :=
  (cs.takeWhile (· != '='),
    match cs.dropWhile (· != '=') with
    | [] => none
    | _ :: value => some value)

/-- The token that a word is. A marker without a name is positional. -/
def classify (raw : String) : Token :=
  match raw.toList with
  | '-' :: '-' :: rest =>
    let (name, value) := splitAssignment rest
    if name.isEmpty then positional raw
    else keyword (String.ofList name) (value.map String.ofList)
  | _ => positional raw

/-- The tokens of a line. -/
def tokenize (line : String) : List Token := (words line).map classify

/-- A token as it is written. -/
def text : Token → String
  | positional text => text
  | keyword name none => "--" ++ name
  | keyword name (some value) => "--" ++ name ++ "=" ++ value

/-- The data tree of a token. -/
def toData : Token → Data
  | positional text => .object [("positional", .text text)]
  | keyword name value =>
    .object [("keyword", .list [.text name, (value.map Data.text).getD .null])]

theorem tokenize_append_blank {b : Char} (hb : isBlank b = true) (xs ys : List Char) :
    tokenize (String.ofList (xs ++ b :: ys)) =
      tokenize (String.ofList xs) ++ tokenize (String.ofList ys) := by
  simp [tokenize, words, wordsOfChars_append_blank hb]

end Token

/-- The tokens of a line by kind. -/
structure Input where
  positional : List String := []
  /-- Names and the texts assigned to them. -/
  keywords : List (String × Option String) := []
  deriving DecidableEq, Repr

namespace Input

/-- The text of a positional token. -/
def positional? : Token → Option String
  | .positional text => some text
  | .keyword _ _ => none

/-- The name and the text of a keyword token. -/
def keyword? : Token → Option (String × Option String)
  | .positional _ => none
  | .keyword name value => some (name, value)

/-- Tokens by kind, each kind in its order. -/
def ofTokens (tokens : List Token) : Input :=
  ⟨tokens.filterMap positional?, tokens.filterMap keyword?⟩

/-- The tokens of a line by kind. -/
def ofLine (line : String) : Input := ofTokens (Token.tokenize line)

/-- Whether there is no token. -/
def isEmpty (input : Input) : Bool := input.positional.isEmpty && input.keywords.isEmpty

end Input

end Invocation
