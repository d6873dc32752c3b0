/-
  YAML text of a data tree.

  * `Yaml.print` writes a tree in blocks, two spaces for each level. A list
    that belongs to a key is not indented below it, an empty list or object
    is written in brackets, and a tag stands in front of its payload.

  Every function gives whole lines, from where it begins to a line end.
-/
import Invocation.Json.Printer
import Invocation.Yaml.Scalar

namespace Invocation.Yaml

/-- The text of a tree that is written on its line; `indent` is that of further lines. -/
def atomChars (indent : Nat) : Data → List Char
  | .text s => scalarChars indent s ++ scalarEnd s
  | d => Json.atomChars d ++ ['\n']

mutual

/-- What follows a key or a tag: `listIndent` is the indentation of the items of a list, `indent` that of
all else. -/
def valueChars (listIndent indent : Nat) : Data → List Char
  | .list [] => [' ', '[', ']', '\n']
  | .object [] => [' ', '{', '}', '\n']
  | .list items => '\n' :: itemsChars listIndent false items
  | .object fields => '\n' :: fieldsChars indent false fields
  | .tagged tag payload => ' ' :: '!' :: tag.toList ++ valueChars listIndent indent payload
  | d => ' ' :: atomChars indent d

/-- What follows the mark of an item; `indent` is the indentation of further lines. -/
def itemChars (indent : Nat) : Data → List Char
  | .list [] => [' ', '[', ']', '\n']
  | .object [] => [' ', '{', '}', '\n']
  | .list items => ' ' :: itemsChars indent true items
  | .object fields => ' ' :: fieldsChars indent true fields
  | .tagged tag payload => ' ' :: '!' :: tag.toList ++ valueChars indent indent payload
  | d => ' ' :: atomChars indent d

/-- The items of a list, each with its mark; `begun` tells that the first line is indented already. -/
def itemsChars (indent : Nat) (begun : Bool) : List Data → List Char
  | [] => []
  | d :: rest =>
    (if begun then [] else spaces indent) ++ '-' :: itemChars (indent + 2) d ++
      itemsChars indent false rest

/-- The fields of an object, each with its key; `begun` tells that the first line is indented already. -/
def fieldsChars (indent : Nat) (begun : Bool) : List (String × Data) → List Char
  | [] => []
  | (key, d) :: rest =>
    (if begun then [] else spaces indent) ++
      (if isSimpleKey key then
        scalarChars (indent + 2) key ++ ':' :: valueChars indent (indent + 2) d
      else
        '?' :: ' ' :: scalarChars (indent + 2) key ++ scalarEnd key ++ spaces indent ++
          ':' :: itemChars (indent + 2) d) ++
      fieldsChars indent false rest

end

/-- The lines of a tree. A literal scalar at the end keeps its breaks: nothing marks the end of the document. -/
def documentChars : Data → List Char
  | .list (d :: rest) => itemsChars 0 false (d :: rest)
  | .object (field :: rest) => fieldsChars 0 false (field :: rest)
  | d => (valueChars 0 0 d).drop 1

/-- The YAML text of a tree. -/
def print (d : Data) : String := String.ofList (documentChars d)

end Invocation.Yaml
