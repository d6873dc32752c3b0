/-
  Names: what an argument, an alias or a custom type may be called.

  * `isNameChar` is the class of characters that a run of name characters
    consists of: alphabetic and numeric characters, the low line and the
    hyphen;
  * `isIdentifier` holds for a text that begins with an alphabetic character
    or a low line and goes on with name characters.
-/
import Invocation.Text.Alphabetic
import Invocation.Text.Numeric

namespace Invocation.Text

/-- Whether a character may begin a name. -/
def isNameStart (c : Char) : Bool := isAlphabetic c || c == '_'

/-- Whether a character may stand in a name. -/
def isNameChar (c : Char) : Bool := isAlphabetic c || isNumeric c || c == '_' || c == '-'

/-- Whether the characters are a name. -/
def isIdentifierChars : List Char → Bool
  | [] => false
  | c :: rest => isNameStart c && rest.all isNameChar

/-- Whether a text is a name. -/
def isIdentifier (s : String) : Bool := isIdentifierChars s.toList

theorem isNameChar_of_isNameStart {c : Char} (h : isNameStart c = true) : isNameChar c = true := by
  rcases Bool.or_eq_true _ _ ▸ h with h | h <;> simp [isNameChar, h]

theorem all_isNameChar_of_isIdentifierChars {cs : List Char} (h : isIdentifierChars cs = true) :
    cs.all isNameChar = true := by
  match cs with
  | [] => rfl
  | c :: rest =>
    obtain ⟨hc, hr⟩ := Bool.and_eq_true _ _ ▸ h
    simp only [List.all_cons, isNameChar_of_isNameStart hc, hr, Bool.and_self]

/-- The characters after one leading double hyphen, and all of them if there is none. -/
def dropMarkerChars : List Char → List Char
  | '-' :: '-' :: rest => rest
  | cs => cs

/-- A text without one leading double hyphen. -/
def dropMarker (s : String) : String := String.ofList (dropMarkerChars s.toList)

end Invocation.Text
