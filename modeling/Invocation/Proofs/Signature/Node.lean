/-
  Logic trees: induction over a tree, the leaves below a list of nodes, and
  the nodes of a tree.

  * `Node.treeInduction`: a property of all leaves that a group has if its
    children have it holds of every node;
  * `Node.mem_childLeaves`, `Node.childLeaves_sublist`: the leaves below
    nodes are those below each of them, in order;
  * `Node.not_mem_leaves_of_nodup`: where no leaf stands twice, siblings have
    no leaf in common;
  * `Node.Inside n m`: the node `n` is `m` or stands somewhere below it;
    `Node.AllRequired`: no group in a tree is optional.
-/
import Invocation.Signature.Basic

namespace Invocation.Node

/-- Induction over a tree, with the property for all children of a group. -/
@[elab_as_elim]
theorem treeInduction {motive : Node → Prop} (leaf : ∀ i, motive (.leaf i))
    (group : ∀ c r ns, (∀ n ∈ ns, motive n) → motive (.group c r ns)) : ∀ n, motive n
  | .leaf i => leaf i
  | .group c r ns => group c r ns fun n _ => treeInduction leaf group n

/-! ## Leaves -/

theorem childLeaves_eq_flatMap (ns : List Node) : childLeaves ns = ns.flatMap leaves := by
  induction ns with
  | nil => rfl
  | cons n ns ih => rw [childLeaves, ih, List.flatMap_cons]

theorem mem_childLeaves {i : Nat} {ns : List Node} :
    i ∈ childLeaves ns ↔ ∃ n ∈ ns, i ∈ n.leaves := by
  rw [childLeaves_eq_flatMap, List.mem_flatMap]

@[simp] theorem childLeaves_singleton (n : Node) : childLeaves [n] = n.leaves := by
  rw [childLeaves, childLeaves, List.append_nil]

theorem childLeaves_append (ns ms : List Node) :
    childLeaves (ns ++ ms) = childLeaves ns ++ childLeaves ms := by
  simp only [childLeaves_eq_flatMap, List.flatMap_append]

theorem childLeaves_sublist {ms ns : List Node} (h : ms.Sublist ns) :
    (childLeaves ms).Sublist (childLeaves ns) := by
  induction h with
  | slnil => exact List.Sublist.refl _
  | cons n _ ih =>
    rw [childLeaves]
    exact ih.trans (List.sublist_append_right ..)
  | cons_cons n _ ih =>
    rw [childLeaves, childLeaves]
    exact ih.append_left _

/-- Where no leaf stands twice, a leaf of one child is a leaf of no other. -/
theorem not_mem_leaves_of_nodup {before after : List Node} {n m : Node} {i : Nat}
    (h : (childLeaves (before ++ n :: after)).Nodup) (hi : i ∈ n.leaves) (hm : m ∈ before ++ after) :
    i ∉ m.leaves := by
  rw [childLeaves_append, childLeaves] at h
  obtain ⟨-, h', hb⟩ := List.nodup_append.1 h
  obtain ⟨-, -, ha⟩ := List.nodup_append.1 h'
  intro hi'
  rcases List.mem_append.1 hm with hm | hm
  · exact hb i (mem_childLeaves.2 ⟨m, hm, hi'⟩) i (List.mem_append_left _ hi) rfl
  · exact ha i hi i (mem_childLeaves.2 ⟨m, hm, hi'⟩) rfl

theorem eq_of_mem_leaves {ns : List Node} {n m : Node} {i : Nat} (h : (childLeaves ns).Nodup)
    (hn : n ∈ ns) (hm : m ∈ ns) (hi : i ∈ n.leaves) (hi' : i ∈ m.leaves) : n = m := by
  obtain ⟨before, after, rfl⟩ := List.append_of_mem hn
  rcases List.mem_append.1 hm with hb | ha
  · exact absurd hi' (not_mem_leaves_of_nodup h hi (List.mem_append_left _ hb))
  rcases List.mem_cons.1 ha with rfl | ha
  · rfl
  · exact absurd hi' (not_mem_leaves_of_nodup h hi (List.mem_append_right _ ha))

/-! ## Nodes of a tree -/

/-- A node of a tree: the tree itself, or a node of one of its children. -/
inductive Inside (n : Node) : Node → Prop
  | root : Inside n n
  | child {c r ns m} (hm : m ∈ ns) (h : Inside n m) : Inside n (.group c r ns)

theorem Inside.leaves_subset {n m : Node} (h : Inside n m) : ∀ i ∈ n.leaves, i ∈ m.leaves := by
  induction h with
  | root => exact fun _ hi => hi
  | child hm _ ih => exact fun i hi => mem_childLeaves.2 ⟨_, hm, ih i hi⟩

/-- No group in a tree is optional. -/
def AllRequired (m : Node) : Prop := ∀ c ns, ¬ (group c false ns).Inside m

@[simp] theorem allRequired_leaf (i : Nat) : (leaf i).AllRequired := fun _ _ h => nomatch h

@[simp] theorem allRequired_group_iff {c : Combinator} {required : Bool} {ns : List Node} :
    (group c required ns).AllRequired ↔ required = true ∧ ∀ n ∈ ns, n.AllRequired := by
  constructor
  · intro h
    refine ⟨?_, fun n hn c' ms hinside => h c' ms (.child hn hinside)⟩
    cases required with
    | true => rfl
    | false => exact absurd .root (h c ns)
  · rintro ⟨rfl, hchildren⟩ c' ms (_ | ⟨hn, hinside⟩)
    exact hchildren _ hn c' ms hinside

end Invocation.Node
