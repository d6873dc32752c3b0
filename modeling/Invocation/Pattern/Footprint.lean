/-
  How much room the states of an automaton take.

  * `Footprint` counts states, transitions and links, `Footprint.bytes` is
    the room that they take, and `Footprint.limit` the room that there is;
  * `Measure` is the act of adding a part to an automaton, which fails when
    the room is used up;
  * `Measure.row`, `Measure.times`, `Measure.anyOf` and their kin add parts
    side by side, repeated parts and alternatives.
-/

namespace Invocation

/-- What an automaton is made of. -/
structure Footprint where
  /-- The number of states, and so the number of the next one. -/
  states : Nat := 0
  /-- The number of the transitions of those states that hold a list of them. -/
  transitions : Nat := 0
  /-- The number of the ways on from branches. -/
  links : Nat := 0
  deriving DecidableEq, Repr

namespace Footprint

/-- Footprints are added up. -/
def add (a b : Footprint) : Footprint :=
  ⟨a.states + b.states, a.transitions + b.transitions, a.links + b.links⟩

instance : Add Footprint := ⟨add⟩

/-- The number of bytes: 32 for a state, 8 for a transition, and 4 for a link. -/
def bytes (f : Footprint) : Nat := 32 * f.states + 8 * f.transitions + 4 * f.links

/-- The greatest number of bytes of an automaton. -/
def limit : Nat := 10485760

/-- The footprint with more, if there is room. -/
def grow (f more : Footprint) : Option Footprint :=
  let f := f + more
  if f.bytes ≤ limit then some f else none

end Footprint

/-- The last state of a part: a branch takes a link to what follows, other states need none. -/
inductive Exit where
  | state
  | branch
  deriving DecidableEq, Repr

/-- The footprint when something follows. -/
def Exit.onward : Exit → Footprint → Footprint
  | state, f => f
  | branch, f => f + { links := 1 }

/-- Adds a part to an automaton: from the footprint before to the last state and the footprint after. -/
abbrev Measure := Footprint → Option (Exit × Footprint)

namespace Measure

/-- A part of a given footprint that does not end in a branch. -/
def ofFootprint (part : Footprint) : Measure := fun f => (f.grow part).map fun f => (.state, f)

/-- One state. -/
def single : Measure := ofFootprint { states := 1 }

/-- A part before another one. -/
def before (first second : Measure) : Measure := fun f =>
  match first f with
  | none => none
  | some (exit, f) => second (exit.onward f)

/-- Parts side by side; none of them are a state without effect. -/
def row : List Measure → Measure
  | [] => single
  | [m] => m
  | m :: rest => m.before (row rest)

/-- A part that many times; no time is a state without effect. -/
def times (m : Measure) : Nat → Measure
  | 0 => single
  | 1 => m
  | n + 2 => fun f =>
    match m f with
    | none => none
    | some (exit, f) => times m (n + 1) (exit.onward f)

/-- A part at most that many times after an exit. Each time is a branch to the part and past it. -/
def upTo (m : Measure) : Nat → Exit → Measure
  | 0, exit => fun f => some (.state, exit.onward f)
  | n + 1, exit => fun f =>
    match (exit.onward f).grow { states := 1, links := 2 } with
    | none => none
    | some f =>
      match m f with
      | none => none
      | some (exit, f) => upTo m n exit f

/-- A part that may be left out: a branch before it, and a state behind it. -/
def optional (m : Measure) : Measure := fun f => do
  let f ← f.grow { states := 1, links := 2 }
  let (exit, f) ← m f
  let f ← (exit.onward f).grow { states := 1 }
  some (.state, f)

/-- A part one or more times: a branch behind it leads back. -/
def oneOrMore (m : Measure) : Measure := fun f => do
  let (exit, f) ← m f
  let f ← (exit.onward f).grow { states := 1, links := 1 }
  some (.branch, f)

/-- A part any number of times. If it takes a character each time, a branch before it is enough; otherwise
it may be left out after all. -/
def zeroOrMore (takes : Bool) (m : Measure) : Measure := fun f =>
  if takes then do
    let f ← f.grow { states := 1, links := 1 }
    let (exit, f) ← m f
    some (.branch, exit.onward f)
  else do
    let (exit, f) ← m f
    let f ← (exit.onward f).grow { states := 3, links := 4 }
    some (.state, f)

/-- A part any number of times from some number on, or up to another number. -/
def repeated (takes : Bool) (least : Nat) (most : Option Nat) (m : Measure) : Measure :=
  match least, most with
  | 0, none => m.zeroOrMore takes
  | 1, none => m.oneOrMore
  | n + 1, none => (m.times n).before m.oneOrMore
  | 0, some 1 => m.optional
  | n, some k =>
    if n = k then m.times n
    else fun f => do
      let (exit, f) ← m.times n f
      let f ← f.grow { states := 1 }
      m.upTo (k - n) exit f

/-- More alternatives: each takes a link. -/
def moreOf : List Measure → Measure
  | [] => fun f => some (.state, f)
  | m :: rest => fun f => do
    let (exit, f) ← m f
    moreOf rest (exit.onward f + { links := 1 })

/-- Alternatives: a branch, which stands behind the first two, and a state in which all end. -/
def anyOf : List Measure → Measure
  | first :: second :: rest => fun f => do
    let (exit₁, f) ← first f
    let (exit₂, f) ← second f
    let f ← (exit₁.onward (exit₂.onward f)).grow { states := 2, links := 2 }
    moreOf rest f
  | ms => row ms

end Measure

end Invocation
