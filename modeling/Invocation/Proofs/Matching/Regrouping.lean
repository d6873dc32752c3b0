/-
  Brackets that may be left out.

  A required group does not show in a match where its children could stand in
  its place: an `and` group among the children of an `and` group, an `xor`
  group among those of an `xor` group, and an `and` group with one child.

  * `Node.Ungroups`: such a group, at any depth of a tree, gives way to its
    children;
  * `Walk.sequence_append`, `Walk.sequence_splice`: walks in order are joined
    in any way; `Search.trail_congr`: what the trail of a node depends on;
  * `Search.trail_of_eqvGen`: the trail of the tree stays the same, so that the
    walk over it does the same in every context;
  * `solve?_of_ungroups`: trees that become equal in this way match alike.
-/
import Invocation.Proofs.Dispatcher.Agreement
import Invocation.Signature.Compile
import Mathlib

namespace Invocation

open Invocation.Matching

/-- A required group of a tree gives way to its children: in a group of its own kind, or where it has
one child only. -/
inductive Node.Ungroups : Node → Node → Prop
  | and {required before ns after} :
      Ungroups (.group .and required (before ++ .group .and true ns :: after))
        (.group .and required (before ++ ns ++ after))
  | xor {required before ns after} :
      Ungroups (.group .xor required (before ++ .group .xor true ns :: after))
        (.group .xor required (before ++ ns ++ after))
  | single {n} : Ungroups (.group .and true [n]) n
  | inside {c required before n m after} (h : Ungroups n m) :
      Ungroups (.group c required (before ++ n :: after)) (.group c required (before ++ m :: after))

/-! ## Walks in order -/

namespace Trail

theorem andThen_append (t u : Trail) (next : Progress → Trail) :
    (t ++ u).andThen next = t.andThen next ++ u.andThen next :=
  List.flatMap_append

theorem andThen_outcome_self (t : Trail) : (t.andThen fun p => [.outcome p]) = t := by
  induction t with
  | nil => rfl
  | cons moment t ih =>
    cases moment with
    | binding => rw [andThen_binding, ih]
    | outcome p => rw [andThen_outcome, ih, List.singleton_append]

theorem andThen_assoc (t : Trail) (k l : Progress → Trail) :
    (t.andThen k).andThen l = t.andThen fun p => (k p).andThen l := by
  induction t with
  | nil => rfl
  | cons moment t ih =>
    cases moment with
    | binding => rw [andThen_binding, andThen_binding, andThen_binding, ih]
    | outcome p => rw [andThen_outcome, andThen_append, ih, andThen_outcome]

end Trail

namespace Walk

theorem sequence_append (before after : List Walk) (p : Progress) (o : Bool) :
    sequence (before ++ after) p o = (sequence before p o).andThen fun q => sequence after q o := by
  induction before generalizing p with
  | nil => exact (List.append_nil _).symm
  | cons walk before ih =>
    simp only [List.cons_append, sequence, ih, Trail.andThen_assoc]

theorem sequence_singleton (walk : Walk) : sequence [walk] = walk := by
  funext p o
  exact Trail.andThen_outcome_self (walk p o)

/-- Walks in order that are one of several walks in order may as well stand in its place. -/
theorem sequence_splice (before walks after : List Walk) :
    sequence (before ++ sequence walks :: after) = sequence (before ++ walks ++ after) := by
  funext p o
  rw [List.append_assoc, sequence_append, sequence_append]
  refine congrArg _ (funext fun q => ?_)
  rw [sequence_append]
  rfl

theorem group_congr {c : Combinator} {walks walks' : List Walk} (h : body c walks = body c walks')
    (required : Bool) : group c required walks = group c required walks' := by
  funext p o
  simp only [group, h]

end Walk

/-! ## Trails of trees -/

namespace Search

/-- The trail of a node depends on what its leaves bind. -/
theorem trail_congr {s s' : Search} {n : Node} (h : ∀ i ∈ n.leaves, s.leaf i = s'.leaf i) :
    s.trail n = s'.trail n := by
  induction n using Node.treeInduction with
  | leaf i =>
    funext p o
    simp only [trail, Walk.leaf, h i (List.mem_singleton_self i)]
  | group c required ns ih =>
    have hchildren : ns.map s.trail = ns.map s'.trail := List.map_congr_left fun n hn =>
      ih n hn fun i hi => h i (Node.mem_childLeaves.2 ⟨n, hn, hi⟩)
    rw [trail, trail, trails_eq_map, trails_eq_map, hchildren]

/-- Two searches whose roots have the same trail, and that end alike, have the same result. -/
theorem solve?_of_trail {s s' : Search} (hstray : s.keywords.stray = s'.keywords.stray)
    (htrail : s.trail s.signature.root.toNode {} false = s'.trail s'.signature.root.toNode {} false)
    (hcomplete : s.isComplete = s'.isComplete) : s.solve? = s'.solve? := by
  rw [solve?_eq_find?, solve?_eq_find?, ← outcomes_trail, ← outcomes_trail, hstray, htrail, hcomplete]

variable (s : Search)

/-- Where a required group gives way to its children, the trail stays as it is: the outcomes, their order
and the bindings before each of them. -/
theorem trail_of_ungroups {n m : Node} (h : n.Ungroups m) : s.trail n = s.trail m := by
  induction h with
  | @and required before ns after =>
    have hbody := Walk.sequence_splice (before.map s.trail) (ns.map s.trail) (after.map s.trail)
    simp only [trail, trails_eq_map, List.map_append, List.map_cons]
    exact Walk.group_congr (c := .and) hbody required
  | @xor required before ns after =>
    have hinner : ∀ p o, s.trail (.group .xor true ns) p o = ns.flatMap fun n => s.trail n p o := by
      intro p o
      rw [trail, trails_eq_map]
      exact List.flatMap_map ..
    rw [trail, trail, trails_eq_map, trails_eq_map]
    refine Walk.group_congr ?_ required
    funext p o
    simp only [Walk.body, List.flatMap_map, List.flatMap_append, List.flatMap_cons, hinner,
      List.append_assoc]
  | @single n =>
    rw [trail, trails_eq_map]
    exact Walk.sequence_singleton (s.trail n)
  | inside _ ih =>
    rw [trail, trail, trails_eq_map, trails_eq_map]
    simp only [List.map_append, List.map_cons, ih]

theorem trail_of_eqvGen {n m : Node} (h : Relation.EqvGen Node.Ungroups n m) : s.trail n = s.trail m := by
  induction h with
  | rel n m h => exact s.trail_of_ungroups h
  | refl n => rfl
  | symm n m _ ih => exact ih.symm
  | trans n m k _ _ ih ih' => exact ih.trans ih'

end Search

/-! ## Matches -/

/-- How keywords are resolved depends on the arguments that their names stand for. -/
theorem Keywords.resolve_congr {s s' : Signature} {keywords : List (String × Option String)}
    (h : ∀ name text, (name, text) ∈ keywords → s'.keywordIndex? name = s.keywordIndex? name) :
    resolve s' keywords = resolve s keywords := by
  rw [resolve, resolve, mk.injEq]
  constructor <;> refine List.filterMap_congr fun (name, text) hmem => ?_
  all_goals simp only [h name text hmem]

/-- **Required brackets do not show in a match.** When required groups give way to their children, or
stand around them again, anywhere below the root and any number of times, every input binds the same
arguments to the same values in the same order, or matches neither signature. -/
theorem solve?_of_ungroups {signature regrouped : Signature}
    (h : Relation.EqvGen Node.Ungroups signature.root.toNode regrouped.root.toNode)
    (harguments : regrouped.arguments = signature.arguments)
    (hlookup : regrouped.lookup = signature.lookup) (input : Input) (types : TypeRegistry)
    (settings : EffectiveSettings) :
    (Search.of regrouped input types settings).solve? =
      (Search.of signature input types settings).solve? := by
  have hindex : regrouped.keywordIndex? = signature.keywordIndex? := by
    funext name
    rw [Signature.keywordIndex?, Signature.keywordIndex?, Signature.resolve?, Signature.resolve?,
      harguments, hlookup]
  have hkeywords : Keywords.resolve regrouped input.keywords = Keywords.resolve signature input.keywords :=
    Keywords.resolve_congr fun name _ _ => congrFun hindex name
  refine Search.solve?_of_trail (congrArg Keywords.stray hkeywords) ?trail ?complete
  case trail =>
    have hsearch : (Search.of regrouped input types settings).trail regrouped.root.toNode =
        (Search.of signature input types settings).trail regrouped.root.toNode :=
      Search.trail_congr fun i _ => Search.leaf_congr (congrArg (·[i]?) harguments) rfl
        (congrArg (·.occurrences i) hkeywords) rfl rfl
    change (Search.of regrouped input types settings).trail regrouped.root.toNode {} false = _
    rw [hsearch, ← Search.trail_of_eqvGen _ h]
    rfl
  case complete =>
    funext p
    simp only [Search.isComplete, Search.of, hkeywords, harguments]

set_option maxRecDepth 2000 in
/-- A choice of three in an optional group: two of them in brackets of their own, or no such brackets. -/
theorem solve?_of_ungroups_threeChoices :
    ∃ signature regrouped,
      Signature.compile "[(int) n <(str) word | <(int) k | --flag>>]" = .ok signature ∧
      Signature.compile "[(int) n <(str) word | (int) k | --flag>]" = .ok regrouped ∧
      Relation.EqvGen Node.Ungroups signature.root.toNode regrouped.root.toNode ∧
      regrouped.arguments = signature.arguments ∧ regrouped.lookup = signature.lookup ∧
      (Search.of regrouped (Input.ofLine "4 --flag") {} {}).solve? =
        (Search.of signature (Input.ofLine "4 --flag") {} {}).solve? ∧
      (Search.of signature (Input.ofLine "4 --flag") {} {}).solve? =
        some [(0, .int 4), (3, .bool true)] := by
  let arguments : List Argument :=
    [{ name := "n", kind := .positional, type := .native .int, shape := .scalar },
      { name := "word", kind := .positional, type := .native .str, shape := .scalar },
      { name := "k", kind := .positional, type := .native .int, shape := .scalar },
      { name := "flag", kind := .keyword, type := .native .bool, shape := .scalar }]
  have hcompile : Signature.compile "[(int) n <(str) word | <(int) k | --flag>>]" = .ok
      { source := "[(int) n <(str) word | <(int) k | --flag>>]"
        root := ⟨[.leaf 0, .group .xor true [.leaf 1, .group .xor true [.leaf 2, .leaf 3]]], .and, false⟩
        arguments
        lookup := nameTable arguments } := by cbv
  have hregrouped : Signature.compile "[(int) n <(str) word | (int) k | --flag>]" = .ok
      { source := "[(int) n <(str) word | (int) k | --flag>]"
        root := ⟨[.leaf 0, .group .xor true [.group .xor true [.leaf 1, .leaf 2], .leaf 3]], .and, false⟩
        arguments
        lookup := nameTable arguments } := by cbv
  have hline : Input.ofLine "4 --flag" = ⟨["4"], [("flag", none)]⟩ := by cbv
  -- both trees give way to the one with a single group of three
  have hright : Node.Ungroups (.group .xor true [.leaf 1, .group .xor true [.leaf 2, .leaf 3]])
      (.group .xor true [.leaf 1, .leaf 2, .leaf 3]) :=
    @Node.Ungroups.xor true [.leaf 1] [.leaf 2, .leaf 3] []
  have hleft : Node.Ungroups (.group .xor true [.group .xor true [.leaf 1, .leaf 2], .leaf 3])
      (.group .xor true [.leaf 1, .leaf 2, .leaf 3]) :=
    @Node.Ungroups.xor true [] [.leaf 1, .leaf 2] [.leaf 3]
  have hroots : Relation.EqvGen Node.Ungroups
      (.group .and false [.leaf 0, .group .xor true [.leaf 1, .group .xor true [.leaf 2, .leaf 3]]])
      (.group .and false [.leaf 0, .group .xor true [.group .xor true [.leaf 1, .leaf 2], .leaf 3]]) :=
    .trans _ _ _ (.rel _ _ (@Node.Ungroups.inside .and false [.leaf 0] _ _ [] hright))
      (.symm _ _ (.rel _ _ (@Node.Ungroups.inside .and false [.leaf 0] _ _ [] hleft)))
  refine ⟨_, _, hcompile, hregrouped, hroots, rfl, rfl, ?_, ?_⟩
  · refine solve?_of_ungroups ?_ ?_ ?_ _ _ _
    exacts [hroots, rfl, rfl]
  · rw [hline]
    rfl

end Invocation
