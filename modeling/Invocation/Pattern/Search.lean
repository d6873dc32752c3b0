/-
  Searching a text for a match of a program.

  The search reads the text once. At each position it keeps the threads that
  are waiting for a character, in order of preference, and at most one for
  each instruction. A thread begins at every position until a match is
  found, after all threads that began before it; a match ends the threads
  that are less preferred than the one that found it.

  * `Program.search?` gives the noted positions of the preferred match among
    those that begin first;
  * `Program.isMatch` tells whether there is a match.
-/
import Invocation.Pattern.Program

namespace Invocation

/-- Noted positions, the last noted first. -/
abbrev Slots := List (Nat × Nat)

/-- A thread that waits at an instruction. -/
structure Thread where
  place : Nat
  slots : Slots
  deriving Repr, DecidableEq

/-- The threads at a position and the instructions that were reached there. -/
structure Threads where
  /-- Whether an instruction was reached. -/
  reached : Array Bool
  /-- The threads that wait, in order of preference. -/
  waiting : Array Thread := #[]
  deriving Repr

/-- A position in a text. -/
structure Position where
  index : Nat
  isStart : Bool
  isStop : Bool

namespace Program

/-- No threads. -/
def noThreads (p : Program) : Threads := { reached := Array.replicate p.code.size false }

/-- Follows the instructions that take no character, from the given places on and the first of them
first. A place that was reached before at this position is not followed again. The fuel bounds the number
of places on the way. -/
def follow (p : Program) (at_ : Position) : Nat → List Thread → Threads → Threads
  | 0, _, threads => threads
  | _, [], threads => threads
  | fuel + 1, t :: rest, threads =>
    if threads.reached.getD t.place true then p.follow at_ fuel rest threads
    else
      let threads := { threads with reached := threads.reached.setIfInBounds t.place true }
      match p.code[t.place]? with
      | some (.branch first second) =>
        p.follow at_ fuel (⟨first, t.slots⟩ :: ⟨second, t.slots⟩ :: rest) threads
      | some (.note slot next) =>
        p.follow at_ fuel (⟨next, (slot, at_.index) :: t.slots⟩ :: rest) threads
      | some (.atStart next) =>
        p.follow at_ fuel (if at_.isStart then ⟨next, t.slots⟩ :: rest else rest) threads
      | some (.atStop next) =>
        p.follow at_ fuel (if at_.isStop then ⟨next, t.slots⟩ :: rest else rest) threads
      | some (.chars _ _) | some .accept =>
        p.follow at_ fuel rest { threads with waiting := threads.waiting.push t }
      | none => p.follow at_ fuel rest threads

/-- Follows a thread from a place on. A branch adds one place to those on the way. -/
def enter (p : Program) (at_ : Position) (place : Nat) (slots : Slots) (threads : Threads) : Threads :=
  p.follow at_ (2 * p.code.size + 2) [⟨place, slots⟩] threads

/-- Whether a thread has found a match. -/
def accepts (p : Program) (t : Thread) : Bool := p.code[t.place]? == some .accept

/-- The threads that are preferred to the first match, and that match. -/
def untilMatch (p : Program) (threads : List Thread) : List Thread × Option Slots :=
  (threads.takeWhile (!p.accepts ·), (threads.find? p.accepts).map Thread.slots)

/-- The threads after a character, at the position behind it. -/
def advance (p : Program) (at_ : Position) (c : Char) (waiting : List Thread) : Threads :=
  waiting.foldl
    (fun (threads : Threads) (t : Thread) =>
      match p.code[t.place]? with
      | some (.chars set next) => if set.has c then p.enter at_ next t.slots threads else threads
      | _ => threads)
    p.noThreads

/-- Goes on with threads at an index, `found` being the best match so far. -/
def run (p : Program) (index : Nat) (waiting : List Thread) (found : Option Slots) :
    List Char → Option Slots
  | [] => (p.untilMatch waiting).2.or found
  | c :: rest =>
    let (preferred, now) := p.untilMatch waiting
    let found := now.or found
    let at_ : Position := ⟨index + 1, false, rest.isEmpty⟩
    let threads := p.advance at_ c preferred
    let threads := if found.isNone then p.enter at_ p.entry [] threads else threads
    p.run (index + 1) threads.waiting.toList found rest

/-- The noted positions of the preferred match of those that begin first. -/
def search? (p : Program) (cs : List Char) : Option Slots :=
  p.run 0 (p.enter ⟨0, true, cs.isEmpty⟩ p.entry [] p.noThreads).waiting.toList none cs

/-- Whether a text holds a match. -/
def isMatch (p : Program) (s : String) : Bool := (p.search? s.toList).isSome

end Program

end Invocation
