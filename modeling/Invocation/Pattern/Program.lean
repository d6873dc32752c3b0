/-
  Programs of patterns.

  * `Instruction` is one step: it takes a character, branches, notes a
    position, or tests the place in the text;
  * `Pattern.compile` puts the instructions of a pattern behind those of a
    program, so that they go on at a given instruction; the instructions
    that a repetition returns to are reserved first and set afterwards;
  * `Program.ofPattern` is the program of a whole pattern: positions 0 and 1
    are the ends of the match, and `2 * n` and `2 * n + 1` those of group n.
-/
import Invocation.Pattern.Basic

namespace Invocation

/-- One step of a program. -/
inductive Instruction where
  /-- Takes a character of a class. -/
  | chars (set : CharSet) (next : Nat)
  /-- Goes on at the first place, or else at the second. -/
  | branch (first second : Nat)
  /-- Notes the position. -/
  | note (slot : Nat) (next : Nat)
  /-- Goes on at the beginning of the text only. -/
  | atStart (next : Nat)
  /-- Goes on at the end of the text only. -/
  | atStop (next : Nat)
  /-- The match is complete. -/
  | accept
  deriving Repr, DecidableEq

/-- A program and the place where it begins. -/
structure Program where
  code : Array Instruction
  entry : Nat
  deriving Repr

namespace Pattern

/-- Puts an instruction at the end; its place is the entry. -/
def append (code : Array Instruction) (i : Instruction) : Program :=
  let place := code.size
  ⟨code.push i, place⟩

/-- A branch to an item and past it; a greedy one prefers the item. -/
def choose (greedy : Bool) (item past : Nat) : Instruction :=
  if greedy then .branch item past else .branch past item

/-- Code behind a program, given the place where it goes on. -/
abbrev Fragment := Nat → Array Instruction → Program

/-- A fragment that many times. -/
def times (f : Fragment) : Nat → Fragment
  | 0 => fun next code => ⟨code, next⟩
  | n + 1 => fun next code =>
    let last := f next code
    times f n last.entry last.code

/-- A fragment at most that many times before the code at `next`; each time it may be left for `past`. -/
def upTo (greedy : Bool) (f : Fragment) (past : Nat) : Nat → Fragment
  | 0 => fun next code => ⟨code, next⟩
  | n + 1 => fun next code =>
    let item := f next code
    let last := append item.code (choose greedy item.entry past)
    upTo greedy f past n last.entry last.code

/-- A fragment one or more times: after each time a branch goes back to it. The entry is the fragment. -/
def oneOrMore (greedy : Bool) (f : Fragment) : Fragment := fun next code =>
  let back := code.size
  let item := f back (code.push .accept)
  let entry := item.entry
  ⟨item.code.set! back (choose greedy entry next), entry⟩

/-- A fragment any number of times. If it takes a character each time, the branch after it is the entry
as well; otherwise an entry of its own comes before the fragment. -/
def zeroOrMore (greedy : Bool) (takes : Bool) (f : Fragment) : Fragment := fun next code =>
  let back := code.size
  let loop := oneOrMore greedy f next code
  if takes then ⟨loop.code, back⟩ else append loop.code (choose greedy loop.entry next)

/-- The characters of a text, one after the other. -/
def texts (cs : List Char) : Fragment := fun next code =>
  cs.foldr (fun c rest => append rest.code (.chars (.single c) rest.entry)) ⟨code, next⟩

/-- A fragment any number of times from some number on, or up to another number. -/
def repetition (greedy takes : Bool) (least : Nat) (most : Option Nat) (f : Fragment) : Fragment :=
  fun next code =>
    match least, most with
    | 0, none => zeroOrMore greedy takes f next code
    | n + 1, none =>
      let last := oneOrMore greedy f next code
      times f n last.entry last.code
    | n, some m =>
      let last := upTo greedy f next (m - n) next code
      times f n last.entry last.code

mutual

/-- The code of a pattern. -/
def compile : Pattern → Fragment
  | .empty => fun next code => ⟨code, next⟩
  | .text cs => texts cs
  | .chars set => fun next code => append code (.chars set next)
  | .start => fun next code => append code (.atStart next)
  | .stop => fun next code => append code (.atStop next)
  | .cat items => compileAll items
  | .alt branches => compileAny branches
  | .repeat_ greedy least most item =>
    repetition greedy (item.minLength.any (0 < ·)) least most (compile item)
  | .group number item => fun next code =>
    let close := append code (.note (2 * number + 1) next)
    let inner := compile item close.entry close.code
    append inner.code (.note (2 * number) inner.entry)

/-- The code of patterns side by side. -/
def compileAll : List Pattern → Fragment
  | [] => fun next code => ⟨code, next⟩
  | p :: rest => fun next code =>
    let behind := compileAll rest next code
    compile p behind.entry behind.code

/-- The code of alternatives. -/
def compileAny : List Pattern → Fragment
  | [] => fun next code => ⟨code, next⟩
  | [p] => compile p
  | p :: rest => fun next code =>
    let first := compile p next code
    let others := compileAny rest next first.code
    append others.code (.branch first.entry others.entry)

end

end Pattern

/-- The program of a pattern. -/
def Program.ofPattern (p : Pattern) : Program :=
  let close := Pattern.append #[.accept] (.note 1 0)
  let body := p.compile close.entry close.code
  Pattern.append body.code (.note 0 body.entry)

end Invocation
