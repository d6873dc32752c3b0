/-
  Patterns as they are written.

  * `Term` is the tree of the text of a pattern, `Term.depth` the number of
    levels that it is nested in;
  * `Term.pattern` is the pattern in simple form.

  Groups, repetitions, bracketed classes, parts side by side and alternatives
  make a level each; what stands for itself makes none.
-/
import Invocation.Pattern.Basic

namespace Invocation.Pattern

/-- A pattern as it is written. -/
inductive Term where
  | empty
  /-- A character that stands for itself. -/
  | char (c : Char)
  /-- A class, and the number of levels that its brackets are nested in. -/
  | chars (set : CharSet) (levels : Nat)
  | start
  | stop
  | cat (items : List Term)
  | alt (branches : List Term)
  | repeat_ (greedy : Bool) (least : Nat) (most : Option Nat) (item : Term)
  /-- A group, and its number if it has one. -/
  | group (number : Option Nat) (item : Term)

namespace Term

instance : Inhabited Term := ⟨empty⟩

/-- Items side by side: none and one are no level of their own. -/
def side : List Term → Term
  | [] => empty
  | [t] => t
  | ts => cat ts

/-- Alternatives: a single one is no level of its own. -/
def either : List Term → Term
  | [t] => t
  | ts => alt ts

mutual

/-- The number of levels that a term is nested in. -/
def depth : Term → Nat
  | chars _ levels => levels
  | cat items => depthAll items + 1
  | alt branches => depthAll branches + 1
  | repeat_ _ _ _ item => depth item + 1
  | group _ item => depth item + 1
  | _ => 0

/-- The greatest number of levels that one of some terms is nested in. -/
def depthAll : List Term → Nat
  | [] => 0
  | t :: rest => max (depth t) (depthAll rest)

end

mutual

/-- The pattern of a term. -/
def pattern : Term → Pattern
  | empty => .empty
  | char c => .text [c]
  | chars set _ => .ofSet set
  | start => .start
  | stop => .stop
  | cat items => sequence (patterns items)
  | alt branches => oneOf (patterns branches)
  | repeat_ greedy least most item => repeated greedy least most (pattern item)
  | group none item => pattern item
  | group (some number) item => .group number (pattern item)

/-- The patterns of terms. -/
def patterns : List Term → List Pattern
  | [] => []
  | t :: rest => pattern t :: patterns rest

end

end Term

end Invocation.Pattern
