/-
  Signatures: the argument table of a call and the logic tree over it.

  * `Argument` is a declared argument: a name, its `Kind`, its
    `ArgumentType`, its `Shape` and what was registered for it;
  * `Node` is the tree: a leaf is an index into the argument table, a group
    joins nodes by a `Combinator` and is required or optional;
  * `Signature` holds the table, the root group and the names that resolve
    to each argument.
-/
import Invocation.Value

namespace Invocation

/-! ## Types of arguments -/

/-- The types that need no registration. -/
inductive NativeType where
  | bool
  | int
  | float
  | str
  deriving DecidableEq, Repr

namespace NativeType

/-- The native types in the order in which the type of a token is inferred. -/
def inferenceOrder : List NativeType := [bool, int, float, str]

/-- The name of a native type in specifiers. -/
def name : NativeType → String
  | bool => "bool"
  | int => "int"
  | float => "float"
  | str => "str"

/-- The native type with a name; a text type has two names. -/
def ofName? : String → Option NativeType
  | "bool" => some bool
  | "int" => some int
  | "float" => some float
  | "str" => some str
  | "string" => some str
  | _ => none

@[simp] theorem ofName?_name (t : NativeType) : ofName? t.name = some t := by cases t <;> rfl

end NativeType

/-- The declared type of an argument. -/
inductive ArgumentType where
  /-- The type is inferred for each token. -/
  | any
  | native (type : NativeType)
  /-- The custom type registered under the symbol. -/
  | custom (symbol : String)
  deriving DecidableEq, Repr

/-- The name of a type in specifiers. -/
def ArgumentType.name : ArgumentType → String
  | any => "any"
  | native type => type.name
  | custom symbol => symbol

/-- How many tokens an argument takes. -/
inductive Shape where
  /-- One token. -/
  | scalar
  /-- As many tokens as fit the type. -/
  | greedy
  /-- Exactly that many tokens. -/
  | fixed (count : Nat)
  deriving DecidableEq, Repr

/-- Whether an argument is given by its position or by its name. -/
inductive Kind where
  | positional
  | keyword
  deriving DecidableEq, Repr

/-- A check on the value bound to an argument. It rejects by answering false or with a reason. Two
validators are the same one if they were registered as one. -/
structure Validator where
  identity : Nat
  check : Value → Except String Bool

instance : BEq Validator := ⟨fun a b => a.identity == b.identity⟩

instance : ReflBEq Validator where
  rfl {v} := beq_self_eq_true v.identity

/-- The description of an argument that was given none. -/
def defaultDescription : String := "No description provided."

/-- A declared argument. -/
structure Argument where
  /-- The name, without the marker of keywords. -/
  name : String
  kind : Kind
  type : ArgumentType
  shape : Shape
  /-- The other names of the argument. -/
  aliases : List String := []
  validator : Option Validator := none
  description : String := defaultDescription
  deriving BEq, ReflBEq

/-! ## The logic tree -/

/-- How the children of a group are joined. -/
inductive Combinator where
  /-- All children in order. -/
  | and
  /-- A nonempty choice of children in order. -/
  | or
  /-- One child. -/
  | xor
  deriving DecidableEq, Repr

/-- The name of a combinator. -/
def Combinator.name : Combinator → String
  | and => "AND"
  | or => "OR"
  | xor => "XOR"

/-- A node of the logic tree. -/
inductive Node where
  /-- The argument at an index of the table. -/
  | leaf (index : Nat)
  | group (combinator : Combinator) (required : Bool) (children : List Node)
  deriving Repr

namespace Node

instance : Inhabited Node := ⟨leaf 0⟩

mutual

/-- Whether two trees are equal. -/
def same : Node → Node → Bool
  | leaf i, leaf j => i == j
  | group c r ns, group d s ms => c == d && r == s && sameChildren ns ms
  | _, _ => false

/-- Whether two lists of trees are equal, tree by tree. -/
def sameChildren : List Node → List Node → Bool
  | [], [] => true
  | n :: ns, m :: ms => same n m && sameChildren ns ms
  | _, _ => false

end

instance : BEq Node := ⟨same⟩

mutual

/-- The indices at the leaves from left to right. -/
def leaves : Node → List Nat
  | leaf i => [i]
  | group _ _ children => childLeaves children

/-- The indices at the leaves of a list of trees from left to right. -/
def childLeaves : List Node → List Nat
  | [] => []
  | n :: rest => leaves n ++ childLeaves rest

end

mutual

theorem same_iff_eq (a b : Node) : same a b = true ↔ a = b := by
  cases a <;> cases b <;> simp [same, sameChildren_iff_eq, and_assoc]

theorem sameChildren_iff_eq (as bs : List Node) : sameChildren as bs = true ↔ as = bs := by
  cases as <;> cases bs <;> simp [sameChildren, same_iff_eq, sameChildren_iff_eq]

end

instance : ReflBEq Node where
  rfl {n} := (same_iff_eq n n).2 rfl

end Node

/-- Children joined by a combinator. An optional group may be absent from a call. -/
structure Group where
  children : List Node
  combinator : Combinator
  required : Bool
  deriving Repr, BEq, ReflBEq

namespace Group

/-- The group as a node of a tree. -/
def toNode (g : Group) : Node := .group g.combinator g.required g.children

/-- The group that a node is; a leaf becomes the only child of an `and` group. -/
def ofNode (required : Bool) : Node → Group
  | .group combinator _ children => ⟨children, combinator, required⟩
  | leaf => ⟨[leaf], .and, required⟩

end Group

/-! ## Signatures -/

/-- A compiled signature. -/
structure Signature where
  /-- The text it was compiled from, without the blanks around it. -/
  source : String
  root : Group
  /-- The arguments in the order of their declaration. -/
  arguments : List Argument
  /-- The index of the argument that each name and alias stands for. -/
  lookup : List (String × Nat)

namespace Signature

/-- Signatures are equal if their trees and their arguments are; the texts do not matter. -/
instance : BEq Signature := ⟨fun a b => a.root == b.root && a.arguments == b.arguments⟩

theorem beq_of_eq {s t : Signature} (hroot : s.root = t.root) (harguments : s.arguments = t.arguments) :
    (s == t) = true := by
  change (s.root == t.root && s.arguments == t.arguments) = true
  rw [hroot, harguments, beq_self_eq_true, beq_self_eq_true, Bool.and_self]

/-- The index of the argument with a name or alias. -/
def resolve? (s : Signature) (name : String) : Option Nat := s.lookup.lookup name

/-- The argument with a name or alias. -/
def argument? (s : Signature) (name : String) : Option Argument :=
  (s.resolve? name).bind fun index => s.arguments[index]?

/-- The name of the argument at an index. -/
def nameAt (s : Signature) (index : Nat) : String := (s.arguments[index]?).elim "" Argument.name

end Signature

end Invocation
