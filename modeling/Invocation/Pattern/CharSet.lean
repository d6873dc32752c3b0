/-
  Classes of characters.

  * `CharSet` is a class, given by ascending ranges of code points, and
    `CharSet.ofRanges` the class of any ranges;
  * `CharSet.union`, `CharSet.negate`, `CharSet.inter` and their kin combine
    classes;
  * `CharSet.digit`, `CharSet.word` and `CharSet.blank` are the classes that
    have a letter of their own.
-/
import Invocation.Text.Alphabetic
import Invocation.Text.Blank
import Invocation.Text.Mark
import Invocation.Text.Numeric
import Invocation.Text.Recent

namespace Invocation

open Text

/-- A class of characters: ascending ranges of code points that do not touch one another. -/
structure CharSet where
  ranges : Ranges := []
  deriving DecidableEq, Repr

namespace CharSet

/-- Whether a character belongs to a class. -/
def has (set : CharSet) (c : Char) : Bool := set.ranges.has c.toNat

/-! ## Ranges -/

/-- Puts a range among ascending ones, in front of those that do not begin before it. -/
def insertRange (range : Nat × Nat) : Ranges → Ranges
  | [] => [range]
  | other :: rest => if range.1 ≤ other.1 then range :: other :: rest else other :: insertRange range rest

/-- A range and ascending ranges that do not begin before it, joined where they touch. -/
def joinFrom (lo hi : Nat) : Ranges → Ranges
  | [] => [(lo, hi)]
  | (a, b) :: rest =>
    if a ≤ hi + 1 then joinFrom lo (max hi b) rest else (lo, hi) :: joinFrom a b rest

/-- Ascending ranges, joined where they touch. -/
def join : Ranges → Ranges
  | [] => []
  | (lo, hi) :: rest => joinFrom lo hi rest

/-- The ranges between ascending ranges, from a code point on. -/
def gapsFrom (from_ : Nat) : Ranges → Ranges
  | [] => if from_ ≤ 0x10FFFF then [(from_, 0x10FFFF)] else []
  | (lo, hi) :: rest =>
    if from_ < lo then (from_, lo - 1) :: gapsFrom (hi + 1) rest else gapsFrom (hi + 1) rest

/-- The range without surrogates at its ends; nothing if there is no character in it. -/
def characters? (range : Nat × Nat) : Option (Nat × Nat) :=
  let isSurrogate (n : Nat) : Bool := 0xD800 ≤ n && n < 0xE000
  let lo := if isSurrogate range.1 then 0xE000 else range.1
  let hi := if isSurrogate range.2 then 0xD7FF else range.2
  if lo ≤ hi then some (lo, hi) else none

/-- The class of the characters in ranges. -/
def ofRanges (ranges : Ranges) : CharSet :=
  ⟨join ((ranges.filterMap characters?).foldr insertRange [])⟩

/-! ## Classes -/

/-- The class without characters. -/
def empty : CharSet := {}

/-- The class of one character. -/
def single (c : Char) : CharSet := ⟨[(c.toNat, c.toNat)]⟩

/-- The characters that are in one of two classes. -/
def union (a b : CharSet) : CharSet := ofRanges (a.ranges ++ b.ranges)

/-- The characters that are not in a class. -/
def negate (a : CharSet) : CharSet := ofRanges (gapsFrom 0 a.ranges)

/-- The characters that are in both of two classes. -/
def inter (a b : CharSet) : CharSet := negate (union (negate a) (negate b))

/-- The characters of `a` that are not in `b`. -/
def difference (a b : CharSet) : CharSet := inter a (negate b)

/-- The characters that are in one of two classes only. -/
def symmetricDifference (a b : CharSet) : CharSet := union (difference a b) (difference b a)

/-- The only character of a class. -/
def single? (a : CharSet) : Option Char :=
  match a.ranges with
  | [(lo, hi)] => if lo = hi then some (Char.ofNat lo) else none
  | _ => none

/-- The class of a table without the characters of the latest version of the standard. -/
def ofTable (ranges : Ranges) : CharSet := difference (ofRanges ranges) (ofRanges recentRanges)

/-- The decimal digits of every script. -/
def digit : CharSet := ofTable decimalDigitRanges

/-- The characters of words: letters, marks, decimal digits, connectors and joiners. -/
def word : CharSet :=
  ofTable (alphabeticRanges ++ markRanges ++ decimalDigitRanges ++ connectorRanges ++ joinerRanges)

/-- The blanks. -/
def blank : CharSet := ofTable blankRanges

/-- All characters but the line break. -/
def anyButBreak : CharSet := negate (single '\n')

end CharSet

end Invocation
