/-
  Matching an input to a signature.

  The search walks the logic tree. A node gets what remains of the match as
  a continuation, so that a later failure falls back into an earlier choice.
  Two decisions are never taken back: a list takes all the tokens it can,
  and an optional group is absent only if nothing in it binds when it is
  tried on its own; once it begins it must be completed.

  * `Search` holds what is fixed during a search, `Progress` what is not;
  * `Search.leaf` binds one argument;
  * `Step` is the walk over a node: besides the continuation it carries the
    mark that tells whether a leaf has bound a value since the mark was
    cleared;
  * `Search.solve?` is the first full match: all positional tokens are taken
    and all keywords are bound.
-/
import Invocation.Matching.Keywords
import Invocation.Matching.Subsets
import Invocation.TypeRegistry

namespace Invocation

open Invocation.Matching

/-- One signature and one input, with the types and settings in force. -/
structure Search where
  signature : Signature
  positional : List String
  keywords : Keywords
  types : TypeRegistry
  settings : EffectiveSettings

/-- How far a match has come. -/
structure Progress where
  /-- The number of positional tokens taken. -/
  cursor : Nat := 0
  /-- The bound arguments and their values, in the order in which they were bound. -/
  values : List (Nat × Value) := []
  /-- The number of keyword arguments bound. -/
  keywords : Nat := 0

namespace Search

/-- The search for an input under a signature. -/
def of (signature : Signature) (input : Input) (types : TypeRegistry) (settings : EffectiveSettings) :
    Search where
  signature
  positional := input.positional
  keywords := Keywords.resolve signature input.keywords
  types
  settings

variable (s : Search)

/-! ## Values of arguments -/

/-- Casts a token. -/
def cast (type : ArgumentType) (token : String) : Option Value := s.types.cast s.settings type token

/-- The type of all items of a list of fixed length: items of any type have the type of the first one,
and a keyword without text is a boolean. -/
def itemType (type : ArgumentType) (first : Option String) : ArgumentType :=
  match type, first with
  | .any, some token => (s.types.infer s.settings token).1
  | .any, none => .native .bool
  | type, _ => type

/-- Casts all tokens to one type. -/
def castAll (type : ArgumentType) : List String → Option (List Value)
  | [] => some []
  | token :: rest => do
    let value ← s.cast type token
    let values ← castAll type rest
    some (value :: values)

/-- Casts tokens from the front for as long as that succeeds. -/
def castWhile (type : ArgumentType) : List String → List Value
  | [] => []
  | token :: rest =>
    match s.cast type token with
    | some value => value :: castWhile type rest
    | none => []

/-- The value of a positional argument whose tokens begin at the cursor, and the number of tokens that
it takes. A list of any length that gets no token has no value. -/
def positionalValue (type : ArgumentType) (shape : Shape) (cursor : Nat) :
    Option (Option Value × Nat) :=
  let rest := s.positional.drop cursor
  match shape with
  | .scalar => do
    let token ← rest.head?
    let value ← s.cast type token
    some (some value, 1)
  | .fixed count =>
    if rest.length < count then none
    else
      (s.castAll (s.itemType type rest.head?) (rest.take count)).map fun values =>
        (some (.list values), count)
  | .greedy =>
    let values := s.castWhile type rest
    some (if values.isEmpty then none else some (.list values), values.length)

/-- Casts the text of a keyword. A keyword without text is true, where a boolean is expected or any
type. -/
def keywordCast (type : ArgumentType) : Option String → Option Value
  | some token => s.cast type token
  | none => if type = .any || type = .native .bool then some (.bool true) else none

/-- Casts the texts of all occurrences of a keyword to one type. -/
def keywordCastAll (type : ArgumentType) : List (Option String) → Option (List Value)
  | [] => some []
  | text :: rest => do
    let value ← s.keywordCast type text
    let values ← keywordCastAll type rest
    some (value :: values)

/-- The value of a keyword argument with the given occurrences. -/
def keywordValue (type : ArgumentType) (shape : Shape) (occurrences : List (Option String)) :
    Option Value :=
  match occurrences with
  | [] => none
  | first :: rest =>
    match shape with
    | .scalar => if rest.isEmpty then s.keywordCast type first else none
    | .fixed count =>
      if occurrences.length = count then
        (s.keywordCastAll (s.itemType type first) occurrences).map .list
      else none
    | .greedy => (s.keywordCastAll type occurrences).map .list

/-! ## Leaves -/

/-- Binds the argument at an index: the progress after it, and whether it has got a value. Only in an
optional group may a list stay without value. -/
def leaf (index : Nat) (progress : Progress) (optional : Bool) : Option (Progress × Bool) := do
  let argument ← s.signature.arguments[index]?
  match argument.kind with
  | .positional =>
    let (value, used) ← s.positionalValue argument.type argument.shape progress.cursor
    let progress := { progress with cursor := progress.cursor + used }
    match value with
    | some value => some ({ progress with values := progress.values ++ [(index, value)] }, true)
    | none => if optional then some (progress, false) else none
  | .keyword =>
    let value ← s.keywordValue argument.type argument.shape (s.keywords.occurrences index)
    some
      ({ progress with
          values := progress.values ++ [(index, value)]
          keywords := progress.keywords + 1 }, true)

end Search

/-! ## Groups -/

/-- What remains of a match. The state is the mark that a leaf has bound a value. -/
abbrev Continuation := Progress → StateM Bool (Option Progress)

/-- The walk over a node, from a progress on and inside an optional group or not. -/
abbrev Step := Progress → Bool → Continuation → StateM Bool (Option Progress)

namespace Step

/-- All steps in order. -/
def sequence : List Step → Step
  | [] => fun progress _ next => next progress
  | step :: rest => fun progress optional next =>
    step progress optional fun progress => sequence rest progress optional next

/-- The first step that leads to a match. -/
def first : List Step → Step
  | [] => fun _ _ _ => pure none
  | step :: rest => fun progress optional next => do
    match ← step progress optional next with
    | some result => pure (some result)
    | none => first rest progress optional next

/-- The body of a group: its children joined by its combinator. -/
def body (combinator : Combinator) (children : List Step) : Step :=
  match combinator with
  | .and => sequence children
  | .or => first ((subsets children.length).map fun chosen => sequence (chosen.filterMap (children[·]?)))
  | .xor => first children

/-- Whether a leaf binds a value when the step is tried on its own; the mark outside of the trial is
kept, and set if one does. -/
def begins (step : Step) (progress : Progress) : StateM Bool Bool := do
  let outer ← get
  set false
  let _ ← step progress true fun progress => pure (some progress)
  let began ← get
  set (outer || began)
  pure began

/-- A group: an optional one is passed over unless it begins. -/
def group (combinator : Combinator) (required : Bool) (children : List Step) : Step :=
  fun progress optional next =>
    if required then body combinator children progress optional next
    else do
      if ← begins (body combinator children) progress then
        body combinator children progress true next
      else next progress

/-- A leaf; the mark is set if it binds a value. -/
def leaf (s : Search) (index : Nat) : Step := fun progress optional next =>
  match s.leaf index progress optional with
  | none => pure none
  | some (progress, bound) => do
    if bound then set true
    next progress

end Step

namespace Search

mutual

/-- The walk over a node. -/
def node (s : Search) : Node → Step
  | .leaf index => Step.leaf s index
  | .group combinator required children => Step.group combinator required (nodes s children)

/-- The walks over nodes. -/
def nodes (s : Search) : List Node → List Step
  | [] => []
  | n :: rest => node s n :: nodes s rest

end

/-- Whether all tokens of the input are used. -/
def isComplete (s : Search) (progress : Progress) : Bool :=
  progress.cursor == s.positional.length &&
    progress.keywords == (s.keywords.present s.signature.arguments.length).length

/-- The end of a match: it must be complete. -/
def finish (s : Search) : Continuation := fun progress =>
  pure (if s.isComplete progress then some progress else none)

/-- The first full match: argument indices and values in the order in which they were bound. An input
with a stray keyword has none. -/
def solve? (s : Search) : Option (List (Nat × Value)) :=
  if s.keywords.stray.isEmpty then
    ((s.node s.signature.root.toNode {} false s.finish).run false).1.map Progress.values
  else none

end Search

end Invocation
