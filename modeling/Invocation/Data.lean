/-
  Data trees: what the casts of custom types produce, and what files and
  answers are made of.

  * `Data` is the tree. The fields of an object stand in the order in which
    they are written; `tagged` is a choice together with what belongs to it.
  * `Data.same` compares two trees. Numbers with and without a point differ,
    and numbers with a point are compared as numbers.
  * `Data.canonical` sorts the fields of every object by name and keeps the
    last of those with one name.
-/
import Invocation.Ordered

namespace Invocation

/-- A tree of data. -/
inductive Data where
  | null
  | bool (b : Bool)
  | int (n : Int)
  | float (x : Float)
  | text (s : String)
  | list (items : List Data)
  | object (fields : List (String × Data))
  | tagged (tag : String) (payload : Data)

namespace Data

instance : Inhabited Data := ⟨null⟩

mutual

/-- Whether two trees are equal. -/
def same : Data → Data → Bool
  | null, null => true
  | bool a, bool b => a == b
  | int a, int b => a == b
  | float a, float b => a == b
  | text a, text b => a == b
  | list as, list bs => sameItems as bs
  | object as, object bs => sameFields as bs
  | tagged s a, tagged t b => s == t && same a b
  | _, _ => false

/-- Whether two lists of trees are equal, item by item. -/
def sameItems : List Data → List Data → Bool
  | [], [] => true
  | a :: as, b :: bs => same a b && sameItems as bs
  | _, _ => false

/-- Whether two lists of fields are equal, in names and trees. -/
def sameFields : List (String × Data) → List (String × Data) → Bool
  | [], [] => true
  | (k, a) :: as, (l, b) :: bs => k == l && same a b && sameFields as bs
  | _, _ => false

end

instance : BEq Data := ⟨same⟩

mutual

/-- The tree with the fields of every object in the order of their names, the last of each name. -/
def canonical : Data → Data
  | list items => list (canonicalItems items)
  | object fields => object (keyTable (canonicalFields fields))
  | tagged tag payload => tagged tag (canonical payload)
  | d => d

/-- The items of a list, each in canonical form. -/
def canonicalItems : List Data → List Data
  | [] => []
  | d :: rest => canonical d :: canonicalItems rest

/-- The fields of an object, each in canonical form and still in their order. -/
def canonicalFields : List (String × Data) → List (String × Data)
  | [] => []
  | (k, d) :: rest => (k, canonical d) :: canonicalFields rest

end

/-- The first field with a name. -/
def field? (name : String) : Data → Option Data
  | object fields => fields.lookup name
  | _ => none

/-- A list of texts. -/
def texts (ts : List String) : Data := list (ts.map text)

end Data

end Invocation
