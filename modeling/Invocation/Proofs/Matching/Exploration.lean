/-
  The search as an enumeration in order.

  A node is explored from left to right: leaves bind values, and from time to
  time the node as a whole is matched. The trail of a node lists these
  moments; it needs neither a mark nor a continuation.

  * `Trail` is a list of moments, `Trail.begins` tells whether a leaf binds a
    value up to the first outcome, and `Trail.follow` tries a continuation at
    each outcome in turn;
  * `Search.trail` is the trail of a node and `Search.outcomes` the list of
    the states in which it is matched; an optional group is passed over
    unless the trail of its body begins (`Search.begins`);
  * `node_follows`: the walk over a node follows the node's trail, whatever
    the continuation and the mark;
  * `solve?_eq_find?`: a full match is the first complete outcome of the root.
-/
import Invocation.Matching.Search
import Invocation.Proofs.Matching.Choices
import Invocation.Proofs.Signature.Node
import Mathlib.Data.List.Basic

namespace Invocation

open Invocation.Matching

/-! ## Trails -/

/-- A moment of an exploration. -/
inductive Moment where
  /-- A leaf binds a value. -/
  | binding
  /-- What is explored is matched, and this is the progress. -/
  | outcome (progress : Progress)

namespace Moment

/-- Whether a leaf binds a value. -/
def isBinding : Moment → Bool
  | binding => true
  | outcome _ => false

/-- The progress of an outcome. -/
def outcome? : Moment → Option Progress
  | binding => none
  | outcome progress => some progress

end Moment

/-- The moments of an exploration in order. -/
abbrev Trail := List Moment

namespace Trail

/-- The outcomes of an exploration in order. -/
def outcomes (t : Trail) : List Progress := t.filterMap Moment.outcome?

/-- The moments before the first outcome: a trial stops there. -/
def untilOutcome (t : Trail) : Trail := t.takeWhile Moment.isBinding

/-- Whether a leaf binds a value up to the first outcome. -/
def begins (t : Trail) : Bool := t.untilOutcome.any Moment.isBinding

/-- Goes on from each outcome. -/
def andThen (t : Trail) (next : Progress → Trail) : Trail :=
  t.flatMap fun
    | .binding => [.binding]
    | .outcome progress => next progress

/-- Tries a continuation at each outcome in turn, up to the first that leads to a match; the mark is set
whenever a leaf binds a value. -/
def follow : Trail → Continuation → StateM Bool (Option Progress)
  | [], _ => pure none
  | .binding :: t, next => do
    set true
    follow t next
  | .outcome progress :: t, next => do
    match ← next progress with
    | some result => pure (some result)
    | none => follow t next

end Trail

/-- An exploration from a progress on, inside an optional group or not. -/
abbrev Walk := Progress → Bool → Trail

namespace Walk

/-- All walks in order. -/
def sequence : List Walk → Walk
  | [] => fun progress _ => [.outcome progress]
  | walk :: rest => fun progress optional =>
    (walk progress optional).andThen fun progress => sequence rest progress optional

/-- The body of a group. -/
def body (combinator : Combinator) (children : List Walk) : Walk := fun progress optional =>
  match combinator with
  | .and => sequence children progress optional
  | .or => (choices children).flatMap fun chosen => sequence chosen progress optional
  | .xor => children.flatMap fun walk => walk progress optional

/-- A group. An optional one is tried on its own first; its body is explored if the trial begins,
else the group is passed over. -/
def group (combinator : Combinator) (required : Bool) (children : List Walk) : Walk :=
  fun progress optional =>
    if required then body combinator children progress optional
    else
      let trail := body combinator children progress true
      trail.untilOutcome ++ if trail.begins then trail else [.outcome progress]

/-- A leaf. -/
def leaf (s : Search) (index : Nat) : Walk := fun progress optional =>
  match s.leaf index progress optional with
  | none => []
  | some (progress, bound) => if bound then [.binding, .outcome progress] else [.outcome progress]

end Walk

namespace Search

mutual

/-- The trail of a node. -/
def trail (s : Search) : Node → Walk
  | .leaf index => Walk.leaf s index
  | .group combinator required children => Walk.group combinator required (trails s children)

/-- The trails of nodes. -/
def trails (s : Search) : List Node → List Walk
  | [] => []
  | n :: rest => trail s n :: trails s rest

end

/-- Whether an optional group begins: a leaf binds a value when its body is explored on its own, up
to the first outcome. -/
def begins (s : Search) (combinator : Combinator) (children : List Node) (progress : Progress) : Bool :=
  (Walk.body combinator (s.trails children) progress true).begins

end Search

/-! ## Outcomes -/

/-- The states in which something is matched, in order. -/
abbrev Enumeration := Progress → Bool → List Progress

namespace Enumeration

/-- All enumerations in order, each from every outcome of the one before. -/
def thread : List Enumeration → Enumeration
  | [] => fun progress _ => [progress]
  | e :: rest => fun progress optional =>
    (e progress optional).flatMap fun progress => thread rest progress optional

/-- The body of a group: its children threaded; or each nonempty choice of them threaded, the largest
choices first; or one child after the other. -/
def body (combinator : Combinator) (children : List Enumeration) : Enumeration :=
  fun progress optional =>
    match combinator with
    | .and => thread children progress optional
    | .or => (choices children).flatMap fun chosen => thread chosen progress optional
    | .xor => children.flatMap fun e => e progress optional

end Enumeration

namespace Search

mutual

/-- The states in which a node is matched, in order. -/
def outcomes (s : Search) : Node → Enumeration
  | .leaf index => fun progress optional => ((s.leaf index progress optional).map Prod.fst).toList
  | .group combinator required children => fun progress optional =>
    if required then Enumeration.body combinator (eachOutcomes s children) progress optional
    else if s.begins combinator children progress then
      Enumeration.body combinator (eachOutcomes s children) progress true
    else [progress]

/-- The states in which each of the nodes is matched. -/
def eachOutcomes (s : Search) : List Node → List Enumeration
  | [] => []
  | n :: rest => outcomes s n :: eachOutcomes s rest

end

end Search

/-! ## Following a trail -/

/-- One attempt after another: the second is made if the first leads to no match. -/
def orElse (first second : StateM Bool (Option Progress)) : StateM Bool (Option Progress) := do
  match ← first with
  | some result => pure (some result)
  | none => second

theorem none_orElse (a : StateM Bool (Option Progress)) : orElse (pure none) a = a := by
  simp only [orElse, pure_bind]

theorem orElse_none (a : StateM Bool (Option Progress)) : orElse a (pure none) = a := by
  calc
    orElse a (pure none) = a >>= pure := bind_congr fun r => by cases r <;> rfl
    _ = a := bind_pure a

theorem orElse_assoc (a b c : StateM Bool (Option Progress)) :
    orElse (orElse a b) c = orElse a (orElse b c) := by
  simp only [orElse, bind_assoc]
  refine bind_congr fun r => ?_
  cases r <;> simp only [pure_bind]

theorem set_orElse (a b : StateM Bool (Option Progress)) :
    orElse (do set true; a) b = (do set true; orElse a b) := by
  simp only [orElse, bind_assoc]

theorem run_orElse_some {a : StateM Bool (Option Progress)} {mark mark' : Bool} {r : Progress}
    (h : a.run mark = (some r, mark')) (b : StateM Bool (Option Progress)) :
    (orElse a b).run mark = (some r, mark') := by
  rw [orElse, StateT.run_bind, h]
  rfl

theorem run_orElse_none {a : StateM Bool (Option Progress)} {mark mark' : Bool}
    (h : a.run mark = (none, mark')) (b : StateM Bool (Option Progress)) :
    (orElse a b).run mark = b.run mark' := by
  rw [orElse, StateT.run_bind, h]
  rfl

namespace Trail

theorem follow_binding (t : Trail) (next : Continuation) :
    follow (.binding :: t) next = (do set true; follow t next) := rfl

theorem follow_outcome (p : Progress) (t : Trail) (next : Continuation) :
    follow (.outcome p :: t) next = orElse (next p) (follow t next) := rfl

theorem follow_append (t u : Trail) (next : Continuation) :
    follow (t ++ u) next = orElse (follow t next) (follow u next) := by
  induction t with
  | nil => exact (none_orElse _).symm
  | cons moment t ih =>
    cases moment with
    | binding => rw [List.cons_append, follow_binding, ih, follow_binding, set_orElse]
    | outcome p => rw [List.cons_append, follow_outcome, ih, follow_outcome, orElse_assoc]

theorem follow_singleton (p : Progress) (next : Continuation) :
    follow [.outcome p] next = next p := orElse_none (next p)

@[simp] theorem andThen_binding (t : Trail) (next : Progress → Trail) :
    andThen (.binding :: t) next = .binding :: andThen t next := rfl

@[simp] theorem andThen_outcome (p : Progress) (t : Trail) (next : Progress → Trail) :
    andThen (.outcome p :: t) next = next p ++ andThen t next := rfl

/-- Going on from the outcomes is following the trail with what comes next as the continuation. -/
theorem follow_andThen (t : Trail) (k : Progress → Trail) (next : Continuation) :
    follow (t.andThen k) next = follow t fun p => follow (k p) next := by
  induction t with
  | nil => rfl
  | cons moment t ih =>
    cases moment with
    | binding => rw [andThen_binding, follow_binding, ih, follow_binding]
    | outcome p => rw [andThen_outcome, follow_append, ih, follow_outcome]

theorem begins_binding (t : Trail) : begins (.binding :: t) = true := rfl

theorem begins_outcome (p : Progress) (t : Trail) : begins (.outcome p :: t) = false := rfl

/-- The moments of a trial set the mark if it begins, and change nothing else. -/
theorem follow_untilOutcome_append (t u : Trail) (next : Continuation) :
    follow (t.untilOutcome ++ u) next =
      if t.begins then (do set true; follow u next) else follow u next := by
  induction t with
  | nil => rfl
  | cons moment t ih =>
    cases moment with
    | outcome p => rfl
    | binding =>
      rw [begins_binding, if_pos rfl]
      change (do set true; follow (untilOutcome t ++ u) next) = _
      rw [ih]
      split <;> rfl

/-- What a trial does to the mark: it sets the mark if it begins. -/
theorem run_follow_some (t : Trail) (mark : Bool) :
    ((follow t fun p => pure (some p)).run mark).2 = (mark || t.begins) := by
  induction t generalizing mark with
  | nil => exact (Bool.or_false mark).symm
  | cons moment t ih =>
    cases moment with
    | outcome p =>
      rw [begins_outcome, Bool.or_false]
      rfl
    | binding =>
      rw [begins_binding, Bool.or_true]
      exact (ih true).trans (Bool.true_or _)

end Trail

/-! ## Walks with a mark and walks along a trail -/

/-- A step follows a walk if, with any continuation, it does what following the trail does: with the
same result and the same mark in the end, whatever the mark was before. -/
def Step.Follows (step : Step) (walk : Walk) : Prop :=
  ∀ progress optional next, step progress optional next = (walk progress optional).follow next

section
variable {α : Type} (f : α → Step) (g : α → Walk) {xs : List α}

theorem sequence_follows (h : ∀ x ∈ xs, (f x).Follows (g x)) :
    (Step.sequence (xs.map f)).Follows (Walk.sequence (xs.map g)) := by
  induction xs with
  | nil => exact fun p _ next => (Trail.follow_singleton p next).symm
  | cons x xs ih =>
    intro p o next
    have ihxs := ih fun y hy => h y (List.mem_cons_of_mem x hy)
    simp only [List.map_cons, Step.sequence, Walk.sequence, Trail.follow_andThen,
      h x List.mem_cons_self p o]
    exact congrArg _ (funext fun q => ihxs q o next)

theorem first_follows (h : ∀ x ∈ xs, (f x).Follows (g x)) :
    (Step.first (xs.map f)).Follows fun p o => xs.flatMap fun x => g x p o := by
  induction xs with
  | nil => exact fun _ _ _ => rfl
  | cons x xs ih =>
    intro p o next
    have ihxs := ih fun y hy => h y (List.mem_cons_of_mem x hy)
    simp only [List.flatMap_cons, Trail.follow_append, ← h x List.mem_cons_self p o next,
      ← ihxs p o next]
    rfl

theorem map_chosen_subsets :
    ((subsets (xs.map f).length).map fun chosen =>
      Step.sequence (chosen.filterMap ((xs.map f)[·]?))) =
      (choices xs).map fun chosen => Step.sequence (chosen.map f) := by
  have h := congrArg (List.map Step.sequence) (choices_eq_map_subsets (xs.map f))
  rw [choices_map, List.map_map, List.map_map] at h
  exact h

/-- Bodies that are joined in the same way follow if all children do. -/
theorem body_follows (combinator : Combinator) (h : ∀ x ∈ xs, (f x).Follows (g x)) :
    (Step.body combinator (xs.map f)).Follows (Walk.body combinator (xs.map g)) := by
  cases combinator with
  | and => exact sequence_follows f g h
  | or =>
    have hchosen : ∀ chosen ∈ choices xs,
        (Step.sequence (chosen.map f)).Follows (Walk.sequence (chosen.map g)) :=
      fun chosen hc => sequence_follows f g fun x hx => h x ((mem_choices.1 hc).1.mem hx)
    intro p o next
    simp only [Step.body, Walk.body, map_chosen_subsets, choices_map, List.flatMap_map]
    exact first_follows _ _ hchosen p o next
  | xor =>
    intro p o next
    simp only [Step.body, Walk.body, List.flatMap_map]
    exact first_follows f g h p o next

end

/-- A trial tells whether the walk begins, and the mark outside of it is only set by that. -/
theorem run_begins {step : Step} {walk : Walk} (h : step.Follows walk) (p : Progress) (mark : Bool) :
    (Step.begins step p).run mark =
      ((walk p true).begins, mark || (walk p true).begins) := by
  have ht := Trail.run_follow_some (walk p true) false
  rw [Bool.false_or, ← h] at ht
  rw [← ht]
  rfl

theorem run_group_optional {c : Combinator} {steps : List Step} {p : Progress} {mark mark' b : Bool}
    (h : (Step.begins (Step.body c steps) p).run mark = (b, mark')) (o : Bool)
    (next : Continuation) :
    (Step.group c false steps p o next).run mark =
      (if b then Step.body c steps p true next else next p).run mark' := by
  change (Step.begins (Step.body c steps) p >>= fun b =>
    if b then Step.body c steps p true next else next p).run mark = _
  rw [StateT.run_bind, h]
  rfl

theorem group_follows {α : Type} {f : α → Step} {g : α → Walk} {xs : List α} (c : Combinator)
    (required : Bool) (h : ∀ x ∈ xs, (f x).Follows (g x)) :
    (Step.group c required (xs.map f)).Follows (Walk.group c required (xs.map g)) := by
  have hb := body_follows f g c h
  intro p o next
  cases required with
  | true => exact hb p o next
  | false =>
    funext mark
    refine (run_group_optional (run_begins hb p mark) o next).trans ?_
    simp only [Walk.group, Bool.false_eq_true, if_false, Trail.follow_untilOutcome_append]
    cases (Walk.body c (xs.map g) p true).begins with
    | true =>
      -- the trial has set the mark, as the first moment of the trail does
      rw [Bool.or_true, if_pos rfl, if_pos rfl, if_pos rfl, hb]
      rfl
    | false =>
      rw [Bool.or_false]
      exact congrFun (Trail.follow_singleton p next).symm mark

/-! ## The trail of a node -/

namespace Search

variable (s : Search)

theorem nodes_eq_map (ns : List Node) : s.nodes ns = ns.map s.node := by
  induction ns with
  | nil => rfl
  | cons n ns ih => rw [nodes, ih, List.map_cons]

theorem trails_eq_map (ns : List Node) : s.trails ns = ns.map s.trail := by
  induction ns with
  | nil => rfl
  | cons n ns ih => rw [trails, ih, List.map_cons]

theorem eachOutcomes_eq_map (ns : List Node) : s.eachOutcomes ns = ns.map s.outcomes := by
  induction ns with
  | nil => rfl
  | cons n ns ih => rw [eachOutcomes, ih, List.map_cons]

theorem leaf_follows (i : Nat) : (Step.leaf s i).Follows (Walk.leaf s i) := by
  intro p o next
  simp only [Step.leaf, Walk.leaf]
  rcases s.leaf i p o with _ | ⟨q, _ | _⟩
  · rfl
  · exact (Trail.follow_singleton q next).symm
  · change _ = (do set true; Trail.follow [.outcome q] next)
    rw [Trail.follow_singleton]
    rfl

/-- **The walk over a node follows its trail.** -/
theorem node_follows (n : Node) : (s.node n).Follows (s.trail n) := by
  induction n using Node.treeInduction with
  | leaf i => rw [node, trail]; exact s.leaf_follows i
  | group c r ns ih =>
    rw [node, trail, nodes_eq_map, trails_eq_map]
    exact group_follows c r ih

end Search

/-! ## The outcomes of a trail -/

namespace Trail

@[simp] theorem outcomes_nil : outcomes [] = [] := rfl

@[simp] theorem outcomes_binding (t : Trail) : outcomes (.binding :: t) = outcomes t := rfl

@[simp] theorem outcomes_outcome (p : Progress) (t : Trail) :
    outcomes (.outcome p :: t) = p :: outcomes t := rfl

theorem outcomes_append (t u : Trail) : outcomes (t ++ u) = outcomes t ++ outcomes u :=
  List.filterMap_append

theorem outcomes_untilOutcome (t : Trail) : outcomes t.untilOutcome = [] := by
  induction t with
  | nil => rfl
  | cons moment t ih =>
    cases moment with
    | outcome p => rfl
    | binding => exact ih

theorem outcomes_andThen (t : Trail) (k : Progress → Trail) :
    outcomes (t.andThen k) = t.outcomes.flatMap fun p => (k p).outcomes := by
  induction t with
  | nil => rfl
  | cons moment t ih =>
    cases moment with
    | binding => rw [andThen_binding, outcomes_binding, ih, outcomes_binding]
    | outcome p => rw [andThen_outcome, outcomes_append, ih, outcomes_outcome, List.flatMap_cons]

theorem outcomes_flatMap {α : Type} (xs : List α) (t : α → Trail) :
    outcomes (xs.flatMap t) = xs.flatMap fun x => (t x).outcomes := by
  induction xs with
  | nil => rfl
  | cons x xs ih => rw [List.flatMap_cons, outcomes_append, ih, List.flatMap_cons]

/-- A continuation whose answer does not depend on the mark: following a trail gives its first answer at
an outcome. -/
theorem run_follow_fst {next : Continuation} {answer : Progress → Option Progress}
    (h : ∀ p mark, ((next p).run mark).1 = answer p) (t : Trail) (mark : Bool) :
    ((t.follow next).run mark).1 = t.outcomes.findSome? answer := by
  induction t generalizing mark with
  | nil => rfl
  | cons moment t ih =>
    cases moment with
    | binding => exact ih true
    | outcome p =>
      have hp := h p mark
      rw [follow_outcome, outcomes_outcome, List.findSome?_cons, ← hp]
      rcases hr : (next p).run mark with ⟨_ | r, mark'⟩
      · rw [run_orElse_none hr]
        exact ih mark'
      · rw [run_orElse_some hr]

end Trail

section
variable {α : Type} (g : α → Walk) (e : α → Enumeration) {xs : List α}

theorem outcomes_sequence (h : ∀ x ∈ xs, ∀ p o, (g x p o).outcomes = e x p o)
    (p : Progress) (o : Bool) :
    (Walk.sequence (xs.map g) p o).outcomes = Enumeration.thread (xs.map e) p o := by
  induction xs generalizing p with
  | nil => rfl
  | cons x xs ih =>
    have ihxs := ih fun y hy => h y (List.mem_cons_of_mem x hy)
    simp only [List.map_cons, Walk.sequence, Enumeration.thread, Trail.outcomes_andThen, ihxs,
      h x List.mem_cons_self]

theorem outcomes_body (combinator : Combinator)
    (h : ∀ x ∈ xs, ∀ p o, (g x p o).outcomes = e x p o) (p : Progress) (o : Bool) :
    (Walk.body combinator (xs.map g) p o).outcomes =
      Enumeration.body combinator (xs.map e) p o := by
  cases combinator with
  | and => exact outcomes_sequence g e h p o
  | or =>
    simp only [Walk.body, Enumeration.body, choices_map, List.flatMap_map, Trail.outcomes_flatMap]
    refine List.flatMap_congr fun chosen hc => ?_
    exact outcomes_sequence g e (fun x hx => h x ((mem_choices.1 hc).1.mem hx)) p o
  | xor =>
    simp only [Walk.body, Enumeration.body, List.flatMap_map, Trail.outcomes_flatMap]
    exact List.flatMap_congr fun x hx => h x hx p o

end

namespace Search

variable (s : Search)

/-- The outcomes along the trail of a node are those of its enumeration. -/
theorem outcomes_trail (n : Node) (p : Progress) (o : Bool) :
    (s.trail n p o).outcomes = s.outcomes n p o := by
  induction n using Node.treeInduction generalizing p o with
  | leaf i =>
    simp only [trail, outcomes, Walk.leaf]
    rcases s.leaf i p o with _ | ⟨q, _ | _⟩ <;> rfl
  | group c r ns ih =>
    have hb := outcomes_body s.trail s.outcomes c ih
    rw [trail, outcomes]
    simp only [Walk.group, begins, trails_eq_map, eachOutcomes_eq_map]
    cases r with
    | true => exact hb p o
    | false =>
      simp only [Bool.false_eq_true, if_false, Trail.outcomes_append, Trail.outcomes_untilOutcome,
        List.nil_append]
      split
      · exact hb p true
      · rfl

/-- The trial of an optional group tells whether it begins. -/
theorem run_begins_body (c : Combinator) (ns : List Node) (p : Progress) (mark : Bool) :
    (Step.begins (Step.body c (s.nodes ns)) p).run mark =
      (s.begins c ns p, mark || s.begins c ns p) := by
  rw [begins, nodes_eq_map, trails_eq_map]
  exact run_begins (body_follows s.node s.trail c fun n _ => s.node_follows n) p mark

/-- The first full match is the first complete outcome of the root. -/
theorem solve?_eq_find? :
    s.solve? =
      if s.keywords.stray.isEmpty then
        ((s.outcomes s.signature.root.toNode {} false).find? s.isComplete).map Progress.values
      else none := by
  have hfinish : ∀ p mark, ((s.finish p).run mark).1 = Option.guard s.isComplete p := fun _ _ => rfl
  have h := Trail.run_follow_fst hfinish (s.trail s.signature.root.toNode {} false) false
  rw [← s.node_follows, outcomes_trail, List.findSome?_guard] at h
  rw [solve?, h]

/-- **Searching is enumerating.** With any continuation and any mark before, the walk over a node
does what trying the continuation at each outcome along its trail does, the mark included; the
outcomes along the trail are the enumerated ones, so that a continuation whose answer is a function
of the progress gives its first answer over them; a trial tells whether the group begins and leaves
no other trace in the mark than that; a full match is the first complete outcome of the root; and the
choices among the children of an `or` group are all nonempty ones, the largest first. -/
theorem node_is_first_outcome (s : Search) :
    (∀ (n : Node) (p : Progress) (optional mark : Bool),
      (∀ next : Continuation,
        (s.node n p optional next).run mark = ((s.trail n p optional).follow next).run mark) ∧
      (s.trail n p optional).outcomes = s.outcomes n p optional ∧
      ∀ (next : Continuation) (answer : Progress → Option Progress),
        (∀ q m, ((next q).run m).1 = answer q) →
        ((s.node n p optional next).run mark).1 = (s.outcomes n p optional).findSome? answer) ∧
    (∀ (c : Combinator) (ns : List Node) (p : Progress) (mark : Bool),
      (Step.begins (Step.body c (s.nodes ns)) p).run mark =
        (s.begins c ns p, mark || s.begins c ns p)) ∧
    s.solve? =
      (if s.keywords.stray.isEmpty then
        ((s.outcomes s.signature.root.toNode {} false).find? s.isComplete).map Progress.values
      else none) ∧
    ∀ children : List Enumeration,
      choices children =
        (subsets children.length).map (fun chosen => chosen.filterMap (children[·]?)) ∧
      (subsets children.length).Pairwise Precedes ∧
      ∀ chosen, chosen ∈ subsets children.length ↔
        chosen.Sublist (List.range children.length) ∧ chosen ≠ [] := by
  refine ⟨fun n p o mark => ⟨fun next => ?_, s.outcomes_trail n p o, fun next answer h => ?_⟩,
    fun c ns p mark => s.run_begins_body c ns p mark, s.solve?_eq_find?, fun children =>
      ⟨(choices_eq_map_subsets children).symm, pairwise_subsets _, fun _ => mem_choices⟩⟩
  · rw [s.node_follows]
  · rw [s.node_follows, Trail.run_follow_fst h, s.outcomes_trail]

end Search

end Invocation
