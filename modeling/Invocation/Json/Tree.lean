/-
  JSON values as they are written.

  * `Json.Tree` is a value whose strings may hold what is no character;
  * `Tree.data?` is its data tree, if all its strings are texts;
  * `Tree.document` is the document that it is. A string that is no text is
    refused only where a text is wanted.
-/
import Invocation.Data
import Invocation.Document

namespace Invocation.Json

/-- A value. Its strings are texts unless they hold half of a surrogate pair. -/
inductive Tree where
  | null
  | bool (b : Bool)
  | int (n : Int)
  | float (x : Float)
  | string (s : Option String)
  | list (items : List Tree)
  | object (fields : List (Option String × Tree))

namespace Tree

instance : Inhabited Tree := ⟨null⟩

mutual

/-- The data tree of a value. -/
def data? : Tree → Option Data
  | null => some .null
  | bool b => some (.bool b)
  | int n => some (.int n)
  | float x => some (.float x)
  | string s => s.map .text
  | list items => (dataItems? items).map .list
  | object fields => (dataFields? fields).map .object

/-- The data trees of values. -/
def dataItems? : List Tree → Option (List Data)
  | [] => some []
  | t :: rest => do some ((← data? t) :: (← dataItems? rest))

/-- The data trees of the fields of an object. -/
def dataFields? : List (Option String × Tree) → Option (List (String × Data))
  | [] => some []
  | (name, t) :: rest => do some ((← name, ← data? t) :: (← dataFields? rest))

end

mutual

/-- The document of a value. Numbers and truth values are no texts. -/
def document : Tree → Document
  | null => .null none
  | string (some s) => .text s
  | list items => .list (documentItems items)
  | object fields =>
    match documentFields? fields with
    | some entries => .table entries
    | none => .other
  | _ => .other

/-- The documents of values. -/
def documentItems : List Tree → List Document
  | [] => []
  | t :: rest => document t :: documentItems rest

/-- The documents of the fields of an object, if their names are texts. -/
def documentFields? : List (Option String × Tree) → Option (List (String × Document))
  | [] => some []
  | (name, t) :: rest => do some ((← name, document t) :: (← documentFields? rest))

end

end Tree

end Invocation.Json
