/-
  Types of tokens: casting to a given type and inferring a type.

  * `castNative` casts to a native type: `castInt?` and `castFloat?` give
    the forms of numbers, booleans are the words of the settings, and every
    token is a text;
  * `CustomType` is a symbol with a predicate and a cast, `TypeRegistry` the
    registered ones; the first registered takes precedence;
  * `TypeRegistry.infer` takes the first custom type that accepts and casts
    a token, else the first native type that casts it.
-/
import Invocation.Decimal.Numeral
import Invocation.RegistrationError
import Invocation.Settings
import Invocation.Signature.Basic
import Invocation.Text.Identifier

namespace Invocation

open Invocation.Text Invocation.Decimal

/-! ## Native types -/

/-- Whether a number fits 64 bits with sign. -/
def fitsInt64 (n : Int) : Bool := -9223372036854775808 ≤ n && n ≤ 9223372036854775807

/-- The whole number that the characters denote: an optional sign and digits, within 64 bits. -/
def castInt? (cs : List Char) : Option Int :=
  let (negative, digits) := takeSign cs
  let n : Int := if negative then -(digitsValue digits : Int) else digitsValue digits
  if !digits.isEmpty && digits.all isDigit && fitsInt64 n then some n else none

/-- The numeral with a point that the characters are: an optional sign, and digits with one point
before, between or after them. -/
def pointNumeral? (cs : List Char) : Option Numeral :=
  let (negative, body) := takeSign cs
  let whole := body.takeWhile isDigit
  match body.dropWhile isDigit with
  | '.' :: fraction =>
    if fraction.all isDigit && !(whole.isEmpty && fraction.isEmpty) then
      some ⟨negative, whole ++ fraction, -(fraction.length : Int)⟩
    else none
  | _ => none

/-- The number nearest to the numeral with a point that the characters are. -/
def castFloat? (cs : List Char) : Option Float := (pointNumeral? cs).map Numeral.toFloat

/-- Casts a token to a native type. A word that is both true and false is true. -/
def castNative (settings : EffectiveSettings) (type : NativeType) (token : String) : Option Value :=
  match type with
  | .bool =>
    if settings.isTruthy token then some (.bool true)
    else if settings.isFalsy token then some (.bool false)
    else none
  | .int => (castInt? token.toList).map .int
  | .float => (castFloat? token.toList).map .float
  | .str => some (.str token)

/-! ## Custom types -/

/-- A type made by the user: whether it accepts a token, and what it makes of it. -/
structure CustomType where
  symbol : String
  accepts : String → Bool
  cast : String → Except String Data

/-- The value of a token that the predicate accepts and the cast does not refuse. -/
def CustomType.value? (t : CustomType) (token : String) : Option Value :=
  if t.accepts token then
    match t.cast token with
    | .ok data => some (.custom t.symbol data)
    | .error _ => none
  else none

/-- The names of types that no custom type may take. -/
def reservedSymbols : List String := ["any", "bool", "int", "float", "str", "string"]

/-- The registered custom types, in the order of their registration. -/
structure TypeRegistry where
  types : List CustomType := []

namespace TypeRegistry

/-- The type registered under a symbol. -/
def get? (r : TypeRegistry) (symbol : String) : Option CustomType :=
  r.types.find? (·.symbol == symbol)

/-- Whether a symbol is registered. -/
def contains (r : TypeRegistry) (symbol : String) : Bool := (r.get? symbol).isSome

/-- The registered symbols in order. -/
def symbols (r : TypeRegistry) : List String := r.types.map CustomType.symbol

/-- Registers a type after all others. -/
def register (r : TypeRegistry) (t : CustomType) : Except RegistrationError TypeRegistry :=
  if reservedSymbols.contains t.symbol then .error (.reservedType t.symbol)
  else if !isIdentifier t.symbol then .error (.invalidTypeSymbol t.symbol)
  else if r.contains t.symbol then .error (.duplicateType t.symbol)
  else .ok ⟨r.types ++ [t]⟩

/-- The custom types that inference tries, in order: all of them, or the registered ones of the
configured order. -/
def chain (r : TypeRegistry) (settings : EffectiveSettings) : List CustomType :=
  match settings.typeOrder with
  | none => r.types
  | some order => order.filterMap r.get?

/-- The type of a token by a custom type. -/
def inferCustom? (types : List CustomType) (token : String) : Option (ArgumentType × Value) :=
  types.findSome? fun t => (t.value? token).map (.custom t.symbol, ·)

/-- The type of a token by a native type. -/
def inferNative? (settings : EffectiveSettings) (token : String) : Option (ArgumentType × Value) :=
  NativeType.inferenceOrder.findSome? fun t => (castNative settings t token).map (.native t, ·)

/-- The type of a token and its value. -/
def infer (r : TypeRegistry) (settings : EffectiveSettings) (token : String) : ArgumentType × Value :=
  ((inferCustom? (r.chain settings) token).or (inferNative? settings token)).getD
    (.native .str, .str token)

/-- Casts a token to a type. A symbol that is not registered casts nothing. -/
def cast (r : TypeRegistry) (settings : EffectiveSettings) (type : ArgumentType) (token : String) :
    Option Value :=
  match type with
  | .any => some (r.infer settings token).2
  | .native type => castNative settings type token
  | .custom symbol => (r.get? symbol).bind (·.value? token)

end TypeRegistry

end Invocation
