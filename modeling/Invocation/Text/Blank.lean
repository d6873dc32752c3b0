/-
  Blanks: the characters with the property White_Space, and what they
  separate.

  * `trim` drops the blanks at both ends of a text;
  * `words` splits a text into its maximal runs of characters that are not
    blank, and `words_append_blank` says that a blank separates: the words
    of two texts with a blank between them are the words of the first
    followed by the words of the second.
-/
import Invocation.Text.Ranges

namespace Invocation.Text

/-- The blanks. -/
def blankRanges : Ranges := [
  (0x9, 0xD), (0x20, 0x20), (0x85, 0x85), (0xA0, 0xA0), (0x1680, 0x1680), (0x2000, 0x200A),
  (0x2028, 0x2029), (0x202F, 0x202F), (0x205F, 0x205F), (0x3000, 0x3000)]

/-- Whether a character is a blank. -/
def isBlank (c : Char) : Bool := blankRanges.has c.toNat

/-! ## Trimming -/

/-- The characters without the blanks in front. -/
def trimStartChars (cs : List Char) : List Char := cs.dropWhile isBlank

/-- The characters without the blanks at the end. -/
def trimEndChars (cs : List Char) : List Char := (cs.reverse.dropWhile isBlank).reverse

/-- The characters without the blanks at both ends. -/
def trimChars (cs : List Char) : List Char := trimEndChars (trimStartChars cs)

/-- A text without the blanks at both ends. -/
def trim (s : String) : String := String.ofList (trimChars s.toList)

/-! ## Words -/

/-- The words of `cs` when the characters `word` have already been read of the first one. -/
def wordsFrom (word : List Char) : List Char → List (List Char)
  | [] => if word.isEmpty then [] else [word]
  | c :: rest =>
    if isBlank c then
      if word.isEmpty then wordsFrom [] rest else word :: wordsFrom [] rest
    else wordsFrom (word ++ [c]) rest

/-- The maximal runs of characters that are not blank, in order. -/
def wordsOfChars (cs : List Char) : List (List Char) := wordsFrom [] cs

/-- The words of a text. -/
def words (s : String) : List String := (wordsOfChars s.toList).map String.ofList

theorem wordsFrom_append_blank {b : Char} (hb : isBlank b = true) (word xs ys : List Char) :
    wordsFrom word (xs ++ b :: ys) = wordsFrom word xs ++ wordsFrom [] ys := by
  induction xs generalizing word with
  | nil => by_cases h : word.isEmpty <;> simp [wordsFrom, hb, h]
  | cons c xs ih => by_cases hc : isBlank c <;> by_cases h : word.isEmpty <;> simp [wordsFrom, hc, h, ih]

theorem wordsOfChars_append_blank {b : Char} (hb : isBlank b = true) (xs ys : List Char) :
    wordsOfChars (xs ++ b :: ys) = wordsOfChars xs ++ wordsOfChars ys :=
  wordsFrom_append_blank hb [] xs ys

end Invocation.Text
