/-
  The values that arguments are bound to.

  * `Value` is the type, `Value.typeName` the name of a value's kind;
  * `Value.text` is the plain text of a value, as messages quote it, and
    `Value.toData` its data tree: all kinds but custom values lose their
    kind in it;
  * `Value.same` compares two values.
-/
import Invocation.Json.Printer

namespace Invocation

/-- A value. Whole numbers are those of 64 bits with sign. -/
inductive Value where
  | bool (b : Bool)
  | int (n : Int)
  | float (x : Float)
  | str (s : String)
  /-- What the cast of the custom type `symbol` made. -/
  | custom (symbol : String) (data : Data)
  | list (items : List Value)

namespace Value

instance : Inhabited Value := ⟨list []⟩

/-- The name of the kind of a value: its native type, the symbol of its custom type, or `list`. -/
def typeName : Value → String
  | bool _ => "bool"
  | int _ => "int"
  | float _ => "float"
  | str _ => "str"
  | custom symbol _ => symbol
  | list _ => "list"

/-- The truth value of a boolean. -/
def bool? : Value → Option Bool
  | bool b => some b
  | _ => none

/-- The number of a whole number. -/
def int? : Value → Option Int
  | int n => some n
  | _ => none

/-- The number of a number with a point. -/
def float? : Value → Option Float
  | float x => some x
  | _ => none

/-- The text of a text. -/
def str? : Value → Option String
  | str s => some s
  | _ => none

/-- The items of a list. -/
def list? : Value → Option (List Value)
  | list items => some items
  | _ => none

mutual

/-- Whether two values are equal. -/
def same : Value → Value → Bool
  | bool a, bool b => a == b
  | int a, int b => a == b
  | float a, float b => a == b
  | str a, str b => a == b
  | custom s a, custom t b => s == t && a == b
  | list as, list bs => sameItems as bs
  | _, _ => false

/-- Whether two lists of values are equal, item by item. -/
def sameItems : List Value → List Value → Bool
  | [], [] => true
  | a :: as, b :: bs => same a b && sameItems as bs
  | _, _ => false

end

instance : BEq Value := ⟨same⟩

mutual

/-- The characters of the plain text of a value. -/
def textChars : Value → List Char
  | bool b => Json.atomChars (.bool b)
  | int n => Json.intChars n
  | float x => (Decimal.Layout.plain.render x).toList
  | str s => s.toList
  | custom _ data => Json.compactChars data
  | list items => '[' :: textItems true items ++ [']']

/-- Items after a comma and a space each, the first one without. -/
def textItems (first : Bool) : List Value → List Char
  | [] => []
  | v :: rest => (if first then [] else [',', ' ']) ++ textChars v ++ textItems false rest

end

/-- The plain text of a value. -/
def text (v : Value) : String := String.ofList (textChars v)

mutual

/-- The data tree of a value. -/
def toData : Value → Data
  | bool b => .bool b
  | int n => .int n
  | float x => .float x
  | str s => .text s
  | custom symbol data => .object [("symbol", .text symbol), ("data", data)]
  | list items => .list (itemsToData items)

/-- The data trees of values. -/
def itemsToData : List Value → List Data
  | [] => []
  | v :: rest => toData v :: itemsToData rest

end

end Value

end Invocation
