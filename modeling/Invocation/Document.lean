/-
  Documents: what is read from a file before its parts are given a meaning.

  * `Document` is the tree;
  * `Document.text?` is the text of a part, and `Document.isAbsent` tells
    whether a part that may be missing is left out;
  * `Document.items?` and `Document.entries?` are the parts of a list and of
    a table. A part after which nothing is written is an empty text, list or
    table, whichever is wanted;
  * `Data.document` is a data tree as the document that is read.
-/
import Invocation.Data

namespace Invocation

/-- A document. -/
inductive Document where
  /-- Nothing is written where a part is wanted. -/
  | blank
  /-- The word for nothing, and its text if it can be read as one. -/
  | null (word : Option String)
  | text (s : String)
  | list (items : List Document)
  | table (entries : List (String × Document))
  /-- A part that is neither a text nor a list nor a table with texts as keys. -/
  | other

namespace Document

instance : Inhabited Document := ⟨blank⟩

/-- The text of a part. -/
def text? : Document → Option String
  | blank => some ""
  | null word => word
  | text s => some s
  | _ => none

/-- Whether a part that may be missing is left out. -/
def isAbsent : Document → Bool
  | blank => true
  | null _ => true
  | _ => false

/-- The items of a list. -/
def items? : Document → Option (List Document)
  | blank => some []
  | list items => some items
  | _ => none

/-- The entries of a table. -/
def entries? : Document → Option (List (String × Document))
  | blank => some []
  | table entries => some entries
  | _ => none

end Document

namespace Data

mutual

/-- The document that is written for a data tree. -/
def document : Data → Document
  | null => .null none
  | text s => .text s
  | list items => .list (documentItems items)
  | object fields => .table (documentFields fields)
  | _ => .other

/-- The documents that are written for the items of a list. -/
def documentItems : List Data → List Document
  | [] => []
  | d :: rest => document d :: documentItems rest

/-- The documents that are written for the fields of an object. -/
def documentFields : List (String × Data) → List (String × Document)
  | [] => []
  | (k, d) :: rest => (k, document d) :: documentFields rest

end

end Data

end Invocation
