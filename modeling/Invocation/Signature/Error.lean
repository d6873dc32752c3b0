/-
  What can be wrong with a signature.

  * `SignatureError` lists the causes; offsets count the bytes of the text
    before the place, in UTF-8;
  * `SignatureError.message` is the wording.
-/

namespace Invocation

/-- The reason why a signature is refused. -/
inductive SignatureError where
  | emptySignature
  | unexpectedChar (ch : Char) (offset : Nat)
  | invalidName (name : String) (offset : Nat)
  | unclosedSpecifier (offset : Nat)
  | invalidType (text : String) (offset : Nat)
  | malformedArraySize (text : String) (offset : Nat)
  | customTypeArray (symbol : String) (offset : Nat)
  | missingName (offset : Nat)
  | danglingOperator (op : Char) (offset : Nat)
  | unbalancedGroup (opener : Char) (offset : Nat)
  | unmatchedClose (close : Char) (offset : Nat)
  | mismatchedGroup (opener : Char) (found : Char) (offset : Nat)
  | emptyGroup (offset : Nat)
  | duplicateName (name : String)
  | duplicateAlias (byname argument : String)
  | unknownType (symbol : String)
  deriving DecidableEq, Repr

/-- The wording of an error. -/
def SignatureError.message : SignatureError → String
  | emptySignature => "signature is empty"
  | unexpectedChar ch offset => s!"unexpected character '{ch}' at offset {offset}"
  | invalidName name offset => s!"invalid argument name '{name}' at offset {offset}"
  | unclosedSpecifier offset => s!"type annotation at offset {offset} is never closed"
  | invalidType text offset => s!"invalid type annotation '({text})' at offset {offset}"
  | malformedArraySize text offset => s!"malformed array size in '({text})' at offset {offset}"
  | customTypeArray symbol offset =>
    s!"custom type '{symbol}' at offset {offset} cannot be used as an array"
  | missingName offset => s!"type annotation at offset {offset} is not followed by an argument name"
  | danglingOperator op offset => s!"operator '{op}' at offset {offset} is missing an operand"
  | unbalancedGroup opener offset => s!"group opened with '{opener}' at offset {offset} is never closed"
  | unmatchedClose close offset => s!"'{close}' at offset {offset} has no matching opener"
  | mismatchedGroup opener found offset =>
    s!"group opened with '{opener}' at offset {offset} is closed with '{found}'"
  | emptyGroup offset => s!"empty group at offset {offset}"
  | duplicateName name => s!"duplicate argument name '{name}'"
  | duplicateAlias byname argument =>
    s!"alias '{byname}' of argument '{argument}' collides with an existing name or alias"
  | unknownType symbol => s!"unknown type '{symbol}'"

end Invocation
