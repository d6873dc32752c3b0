/-
  The lexemes of a signature text.

  * `Lexeme` lists them: brackets, operators, specifiers in parentheses and
    names; `Placed` adds the offset of the first character, in bytes;
  * `Lexeme.scan` reads a text from left to right and stops at the first
    character that belongs to no lexeme, or at a parenthesis that is never
    closed.
-/
import Invocation.Signature.Basic
import Invocation.Signature.Error
import Invocation.Text.Blank
import Invocation.Text.Identifier

namespace Invocation

open Invocation.Text

/-- The two kinds of brackets: around a group that may be absent, and around a required one. -/
inductive Bracket where
  | optional
  | required
  deriving DecidableEq, Repr

namespace Bracket

/-- The character that opens a group. -/
def opener : Bracket → Char
  | optional => '['
  | required => '<'

/-- The character that closes a group. -/
def closer : Bracket → Char
  | optional => ']'
  | required => '>'

/-- Whether a group in these brackets is required. -/
def isRequired : Bracket → Bool
  | optional => false
  | required => true

end Bracket

/-- The operators between the operands of a choice. -/
inductive Operator where
  | or
  | xor
  deriving DecidableEq, Repr

namespace Operator

/-- The character of an operator. -/
def symbol : Operator → Char
  | or => '/'
  | xor => '|'

/-- The combinator of the group that an operator makes. -/
def combinator : Operator → Combinator
  | or => .or
  | xor => .xor

end Operator

/-- A lexeme. -/
inductive Lexeme where
  | opening (bracket : Bracket)
  | closing (bracket : Bracket)
  | operator (op : Operator)
  /-- The text between parentheses, without the blanks at its ends. -/
  | specifier (text : List Char)
  | name (text : List Char)
  deriving DecidableEq, Repr

/-- A lexeme at its place: the number of bytes before it. -/
structure Placed where
  lexeme : Lexeme
  offset : Nat
  deriving DecidableEq, Repr

/-- The number of bytes that characters take in UTF-8. -/
def byteCount (cs : List Char) : Nat := cs.foldl (fun n c => n + c.utf8Size) 0

namespace Lexeme

/-- The lexeme that is one character long. -/
def ofSymbol? : Char → Option Lexeme
  | '[' => some (opening .optional)
  | '<' => some (opening .required)
  | ']' => some (closing .optional)
  | '>' => some (closing .required)
  | '|' => some (operator .xor)
  | '/' => some (operator .or)
  | _ => none

/-- The characters before the first closing parenthesis, and those after it. -/
def closeSpecifier? (cs : List Char) : Option (List Char × List Char) :=
  match cs.dropWhile (· != ')') with
  | [] => none
  | _ :: after => some (cs.takeWhile (· != ')'), after)

theorem length_of_closeSpecifier? {cs text after : List Char}
    (h : closeSpecifier? cs = some (text, after)) : after.length < cs.length + 1 := by
  have hle := (List.dropWhile_suffix (l := cs) (· != ')')).length_le
  rw [closeSpecifier?] at h
  split at h
  · simp at h
  · next d _ hd =>
    obtain ⟨-, rfl⟩ := Prod.mk.injEq .. ▸ Option.some.injEq .. ▸ h
    rw [hd] at hle
    simp only [List.length_cons] at hle
    omega

/-- The lexemes of the characters that begin at an offset. -/
def scanFrom (offset : Nat) (cs : List Char) : Except SignatureError (List Placed) :=
  match cs with
  | [] => .ok []
  | c :: rest =>
    if isBlank c then scanFrom (offset + c.utf8Size) rest
    else if c = '(' then
      match h : closeSpecifier? rest with
      | none => .error (.unclosedSpecifier offset)
      | some (text, after) =>
        (scanFrom (offset + byteCount text + 2) after).map
          (⟨specifier (trimChars text), offset⟩ :: ·)
    else if isNameChar c then
      let run := c :: rest.takeWhile isNameChar
      (scanFrom (offset + byteCount run) (rest.dropWhile isNameChar)).map (⟨name run, offset⟩ :: ·)
    else
      match ofSymbol? c with
      | some lexeme => (scanFrom (offset + c.utf8Size) rest).map (⟨lexeme, offset⟩ :: ·)
      | none => .error (.unexpectedChar c offset)
termination_by cs.length
decreasing_by
  · simp
  · exact length_of_closeSpecifier? h
  · exact Nat.lt_succ_of_le (List.dropWhile_suffix (l := rest) isNameChar).length_le
  · simp

/-- The lexemes of a text. -/
def scan (source : String) : Except SignatureError (List Placed) := scanFrom 0 source.toList

end Lexeme

end Invocation
