/-
  The bytes of characters.

  * `utf8Bytes` are the bytes of the code point of a character;
  * `CharSet.rows` are the rows of byte ranges that encode a class: a
    character belongs to the class if its bytes lie in the ranges of one of
    the rows. The rows are in ascending order.

  A range is cut where the number of bytes changes, and where a block of
  continuation bytes begins or ends inside it, from the last byte on.
-/
import Invocation.Pattern.CharSet

namespace Invocation

/-- The bytes of a code point. -/
def utf8Bytes (n : Nat) : List Nat :=
  let continuation (k : Nat) : Nat := 0x80 + n / k % 0x40
  if n < 0x80 then [n]
  else if n < 0x800 then [0xC0 + n / 0x40, continuation 1]
  else if n < 0x10000 then [0xE0 + n / 0x1000, continuation 0x40, continuation 1]
  else [0xF0 + n / 0x40000, continuation 0x1000, continuation 0x40, continuation 1]

/-- The bytes of characters. -/
def utf8BytesOf (cs : List Char) : List Nat := cs.flatMap fun c => utf8Bytes c.toNat

namespace CharSet

/-- The ranges of code points with one number of bytes. -/
def bands : List (Nat × Nat) :=
  [(0, 0x7F), (0x80, 0x7FF), (0x800, 0xD7FF), (0xE000, 0xFFFF), (0x10000, 0x10FFFF)]

/-- The parts of a range in the bands. -/
def cutInBands (range : Nat × Nat) : List (Nat × Nat) :=
  bands.filterMap fun band =>
    let lo := max range.1 band.1
    let hi := min range.2 band.2
    if lo ≤ hi then some (lo, hi) else none

/-- The parts of a range: it is cut behind its first block of a size and before its last one, unless
they are wholly inside. What takes a single byte is not cut. -/
def cutAtBlocks (size : Nat) (range : Nat × Nat) : List (Nat × Nat) :=
  let cutEnd (lo hi : Nat) : List (Nat × Nat) :=
    let last := hi / size * size
    if lo / size = hi / size || hi + 1 = last + size then [(lo, hi)] else [(lo, last - 1), (last, hi)]
  let (lo, hi) := range
  let next := (lo / size + 1) * size
  if hi < 0x80 || lo / size = hi / size then [(lo, hi)]
  else if lo % size = 0 then cutEnd lo hi
  else (lo, next - 1) :: cutEnd next hi

/-- The rows of byte ranges that encode a class. -/
def rows (set : CharSet) : List (List (Nat × Nat)) :=
  let parts := set.ranges.flatMap cutInBands
  let parts := parts.flatMap (cutAtBlocks 0x40)
  let parts := parts.flatMap (cutAtBlocks 0x1000)
  let parts := parts.flatMap (cutAtBlocks 0x40000)
  parts.map fun (lo, hi) => (utf8Bytes lo).zip (utf8Bytes hi)

end CharSet

end Invocation
