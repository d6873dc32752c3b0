/-
  Texts that share their beginnings.

  * `Trie` is a tree of byte texts with a preference: an earlier text is
    preferred to a later one. So the edges of a node stand in groups, and
    between two groups a text ends at the node;
  * `Trie.ofTexts` is the tree of texts, `Trie.footprint` what its states
    take up in an automaton.
-/
import Invocation.Pattern.Footprint

namespace Invocation

/-- A tree of texts. The edges have the number of their group and a byte; the number of texts that end
at a node before an edge is the number of its group. -/
inductive Trie where
  | node (ends : Nat) (edges : List (Nat × Nat × Trie))

namespace Trie

instance : Inhabited Trie := ⟨node 0 []⟩

/-- Changes what an edge leads to. A new edge leads to a node without edges. -/
def changeEdge (group byte : Nat) (change : Trie → Trie) :
    List (Nat × Nat × Trie) → List (Nat × Nat × Trie)
  | [] => [(group, byte, change (node 0 []))]
  | (g, b, t) :: rest =>
    if g = group && b = byte then (g, b, change t) :: rest
    else (g, b, t) :: changeEdge group byte change rest

/-- Adds a text. That a second one ends at a node without edges makes no difference. -/
def add : List Nat → Trie → Trie
  | [], node ends edges => node (if edges.isEmpty then 1 else ends + 1) edges
  | b :: bs, node ends edges => node ends (changeEdge ends b (add bs) edges)

/-- The tree of texts. -/
def ofTexts (texts : List (List Nat)) : Trie := texts.foldl (fun t text => t.add text) (node 0 [])

/-- The footprint of the groups of edges: a single edge is a state, several are a state of transitions. A
branch leads to the groups, and to the end of each text between them. -/
def groupsFootprint (ends : Nat) (edges : List (Nat × Nat × Trie)) : Footprint :=
  let counts := (List.range (ends + 1)).map fun g => edges.countP (·.1 = g)
  let groups := counts.filter (0 < ·)
  groups.foldl
    (fun size n => size + { states := 1, transitions := if n = 1 then 0 else n })
    { states := 1, links := groups.length + ends }

mutual

/-- The footprint of the states below a node; a node without edges has none. -/
def footprint : Trie → Footprint
  | node ends edges => if edges.isEmpty then {} else groupsFootprint ends edges + edgesFootprint edges

/-- The footprint of the states that edges lead to. -/
def edgesFootprint : List (Nat × Nat × Trie) → Footprint
  | [] => {}
  | (_, _, t) :: rest => footprint t + edgesFootprint rest

end

end Trie

end Invocation
