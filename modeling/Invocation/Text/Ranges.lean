/-
  Sets of characters given by ascending ranges of code points.

  * `Ranges.has` tells whether a code point lies in one of the ranges, and
    stops at the first range that begins above it.
-/

namespace Invocation.Text

/-- Ascending, disjoint ranges of code points, both ends included. -/
abbrev Ranges := List (Nat × Nat)

namespace Ranges

/-- Whether the code point `c` lies in one of the ranges. -/
def has : Ranges → Nat → Bool
  | [], _ => false
  | (lo, hi) :: rest, c => if c < lo then false else c ≤ hi || has rest c

@[simp] theorem has_nil (c : Nat) : has [] c = false := rfl

theorem has_cons (lo hi : Nat) (rest : Ranges) (c : Nat) :
    has ((lo, hi) :: rest) c = if c < lo then false else c ≤ hi || has rest c := rfl

end Ranges

end Invocation.Text
