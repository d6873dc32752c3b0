/-
  The size of patterns.

  A pattern is searched by an automaton over bytes, and another one reads it
  backwards. If one of them does not fit, the pattern is refused.

  * `CharSet.measure` adds a class to an automaton: forwards the rows of its
    bytes share their ends, backwards their beginnings, as far as a memory of
    limited size can tell;
  * `Pattern.measure` adds a pattern;
  * `Pattern.fits` tells whether both automata fit.
-/
import Invocation.Pattern.Basic
import Invocation.Pattern.Encoding
import Invocation.Pattern.Trie
import Std.Data.HashMap

namespace Invocation

/-! ## Memories of states -/

/-- Mixes a number into a hash. -/
def mixHash (h : UInt64) (n : Nat) : UInt64 := (h ^^^ n.toUInt64) * 1099511628211

/-- The slot of numbers in a memory with a number of slots. -/
def slotOf (slots : Nat) (key : List Nat) : Nat :=
  (key.foldl mixHash 14695981039346656037).toNat % slots

/-- The states that have been built, by their keys. Each slot keeps the last one only. -/
structure StateMemory where
  slots : Nat
  entries : Std.HashMap Nat (List Nat × Nat) := {}

namespace StateMemory

/-- The state with a key. -/
def find? (m : StateMemory) (key : List Nat) : Option Nat :=
  match m.entries[slotOf m.slots key]? with
  | some (other, id) => if other = key then some id else none
  | none => none

/-- Keeps a state with a key. -/
def keep (m : StateMemory) (key : List Nat) (id : Nat) : StateMemory :=
  { m with entries := m.entries.insert (slotOf m.slots key) (key, id) }

end StateMemory

/-! ## Classes -/

/-- A part of an automaton that is being built: its footprint, the number of the next state, and the
states so far. -/
structure Builder where
  footprint : Footprint
  next : Nat
  memory : StateMemory

namespace Builder

/-- The state with a key, which is built with some transitions unless it is there. -/
def state (b : Builder) (key : List Nat) (transitions : Nat) : Nat × Builder :=
  match b.memory.find? key with
  | some id => (id, b)
  | none =>
    (b.next,
      { footprint := b.footprint + { states := 1, transitions }
        next := b.next + 1
        memory := b.memory.keep key b.next })

/-- Adds a row that is read backwards, from the state in which all rows end. -/
def addBackwards (end_ : Nat) (b : Builder) (row : List (Nat × Nat)) : Builder :=
  let (_, b) := row.foldl (fun (target, b) (lo, hi) => b.state [target, lo, hi] 0) (end_, b)
  { b with footprint := b.footprint + { links := 1 } }

end Builder

/-- A state that is not complete: its transitions as triples of two bytes and a state, one after the
other, and the range of bytes that leads to the states behind it. -/
structure OpenState where
  transitions : List Nat := []
  last : Option (Nat × Nat) := none

namespace OpenState

/-- The state with its last range leading to a state. -/
def close (s : OpenState) (target : Nat) : OpenState :=
  match s.last with
  | some (lo, hi) => { transitions := s.transitions ++ [lo, hi, target] }
  | none => s

end OpenState

/-- The open states of the last row, the deepest first, and what has been built behind them. -/
structure OpenRow where
  states : List OpenState
  builder : Builder

namespace OpenRow

/-- Builds the states below the first `depth + 1` ones, the deepest leading to the end. -/
def closeTo (end_ depth : Nat) (r : OpenRow) : OpenRow :=
  let deep := r.states.take (r.states.length - (depth + 1))
  let (target, builder) := deep.foldl
    (fun (target, b) s =>
      let transitions := (s.close target).transitions
      b.state transitions (transitions.length / 3))
    (end_, r.builder)
  match r.states.drop deep.length with
  | top :: rest => ⟨top.close target :: rest, builder⟩
  | [] => ⟨[], builder⟩

/-- The number of ranges that a row has in common with the open states from the first one on. -/
def commonLength : List (Nat × Nat) → List OpenState → Nat
  | range :: row, s :: states => if s.last = some range then commonLength row states + 1 else 0
  | _, _ => 0

/-- Adds a row. The states behind what it has in common with the row before are complete. -/
def add (end_ : Nat) (r : OpenRow) (row : List (Nat × Nat)) : OpenRow :=
  let common := commonLength row r.states.reverse
  let r := r.closeTo end_ common
  match row.drop common, r.states with
  | range :: more, top :: rest =>
    let fresh := more.reverse.map fun range => { last := some range }
    { r with states := fresh ++ { top with last := some range } :: rest }
  | _, _ => r

end OpenRow

namespace CharSet

/-- The footprint of a class that is read backwards, behind a number of states: a branch leads to the
last bytes of the rows. -/
def backwards (set : CharSet) (states : Nat) : Footprint :=
  (set.rows.foldl (Builder.addBackwards (states + 1)) ⟨{ states := 2 }, states + 2, { slots := 1000 }⟩).footprint

/-- The footprint of a class that is read forwards, behind a number of states. -/
def forwards (set : CharSet) (states : Nat) : Footprint :=
  let r : OpenRow := ⟨[{}], ⟨{ states := 1 }, states + 1, { slots := 10000 }⟩⟩
  let r := (set.rows.foldl (OpenRow.add states) r).closeTo states 0
  let root := r.states.flatMap OpenState.transitions
  (r.builder.state root (root.length / 3)).2.footprint

/-- Adds a class to an automaton. A class of ASCII characters is a list of transitions. -/
def measure (isBackwards : Bool) (set : CharSet) : Measure := fun f =>
  let part : Footprint :=
    if set.ranges.all (·.2 < 0x80) then { states := 2, transitions := set.ranges.length }
    else if isBackwards then set.backwards f.states
    else set.forwards f.states
  Measure.ofFootprint part f

end CharSet

/-! ## Patterns -/

namespace Pattern

/-- The text that a pattern stands for. -/
def text? : Pattern → Option (List Char)
  | text cs => some cs
  | _ => none

/-- Adds alternatives that are texts to an automaton. -/
def measureTexts (isBackwards : Bool) (texts : List (List Char)) : Measure :=
  let bytes (cs : List Char) : List Nat :=
    if isBackwards then (utf8BytesOf cs).reverse else utf8BytesOf cs
  .ofFootprint ({ states := 1 } + (Trie.ofTexts (texts.map bytes)).footprint)

mutual

/-- Adds a pattern to an automaton. Groups are noted only when it is read forwards. -/
def measure (isBackwards : Bool) : Pattern → Measure
  | empty | start | stop => .single
  | text cs => .ofFootprint { states := (utf8BytesOf cs).length }
  | chars set => set.measure isBackwards
  | cat items =>
    let parts := measureAll isBackwards items
    .row (if isBackwards then parts.reverse else parts)
  | alt branches =>
    match branches.mapM text? with
    | some texts => measureTexts isBackwards texts
    | none => .anyOf (measureAll isBackwards branches)
  | repeat_ _ least most item =>
    (measure isBackwards item).repeated (item.minLength.any (0 < ·)) least most
  | group _ item =>
    if isBackwards then measure isBackwards item
    else Measure.single.before ((measure isBackwards item).before .single)

/-- The acts of adding patterns to an automaton. -/
def measureAll (isBackwards : Bool) : List Pattern → List Measure
  | [] => []
  | p :: rest => measure isBackwards p :: measureAll isBackwards rest

end

/-- The footprint of the automaton of a pattern; none if it does not fit. Unless it can match at one end
only, the automaton passes over any bytes first. -/
def footprint? (isBackwards : Bool) (p : Pattern) : Option Footprint := do
  let isAnchored := if isBackwards then p.isAtStop else p.isAtStart
  let first : Footprint :=
    if isAnchored then { states := 1 } else { states := 3, transitions := 1, links := 2 }
  let whole := if isBackwards then p else group 0 p
  let (_, f) ← (whole.measure isBackwards).before .single first
  some f

/-- Whether the automata of a pattern fit. -/
def fits (p : Pattern) : Bool := (p.footprint? true).isSome && (p.footprint? false).isSome

end Pattern

end Invocation
