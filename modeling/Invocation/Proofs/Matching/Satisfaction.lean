/-
  What a match says about the logic tree.

  * `Sat` is when bound arguments satisfy a node, inside an optional group or
    not, and `Untouched` when they have no leaf of it;
  * `sat_of_path`: what a path binds satisfies its nodes, since no leaf
    stands twice below them;
  * `Sat.inside`: below a satisfied node all nodes are satisfied or
    untouched; `sat_of_solve?`: a full match satisfies the root.
-/
import Invocation.Proofs.Matching.Tokens

namespace Invocation

open Invocation.Matching

/-! ## Satisfaction -/

/-- Whether none of the leaves of a node is bound. -/
def Untouched (bound : Nat → Prop) (n : Node) : Prop := ∀ i ∈ n.leaves, ¬ bound i

/-- When bound arguments satisfy a node, inside an optional group or not. -/
inductive Sat (signature : Signature) (bound : Nat → Prop) : Bool → Node → Prop
  | bound {o i} (h : bound i) : Sat signature bound o (.leaf i)
  /-- Inside an optional group a list may stay without value. -/
  | empty {i a} (ha : signature.arguments[i]? = some a) (hk : a.kind = .positional)
      (hs : a.shape = .greedy) : Sat signature bound true (.leaf i)
  | absent {c o ns} (h : ∀ n ∈ ns, Untouched bound n) : Sat signature bound o (.group c false ns)
  | and {required o ns} (h : ∀ n ∈ ns, Sat signature bound (o || !required) n) :
      Sat signature bound o (.group .and required ns)
  /-- Some children, at least one, are satisfied, and the others untouched. -/
  | or {required o ns n} (chosen : Node → Prop) (hn : n ∈ ns) (hc : chosen n)
      (h : ∀ n ∈ ns, chosen n → Sat signature bound (o || !required) n)
      (hu : ∀ n ∈ ns, ¬ chosen n → Untouched bound n) :
      Sat signature bound o (.group .or required ns)
  /-- One child is satisfied, and the others are untouched. -/
  | xor {required o n before after} (h : Sat signature bound (o || !required) n)
      (hu : ∀ m ∈ before ++ after, Untouched bound m) :
      Sat signature bound o (.group .xor required (before ++ n :: after))

variable {signature : Signature} {bound : Nat → Prop}

/-- Below a satisfied node all nodes are untouched or satisfied. -/
theorem Sat.inside {n m : Node} {o : Bool} (hn : n.Inside m) (h : Sat signature bound o m) :
    Untouched bound n ∨ ∃ o', Sat signature bound o' n := by
  induction hn generalizing o with
  | root => exact Or.inr ⟨o, h⟩
  | @child _ _ _ k hm hn ih =>
    have huntouched : Untouched bound k → Untouched bound n :=
      fun hu i hi => hu i (hn.leaves_subset i hi)
    cases h with
    | absent h => exact Or.inl (huntouched (h k hm))
    | and h => exact ih (h k hm)
    | or chosen _ _ h hu =>
      by_cases hc : chosen k
      · exact ih (h k hm hc)
      · exact Or.inl (huntouched (hu k hm hc))
    | xor h hu =>
      rcases List.mem_append.1 hm with hb | ha
      · exact Or.inl (huntouched (hu k (List.mem_append_left _ hb)))
      rcases List.mem_cons.1 ha with rfl | ha
      · exact ih h
      · exact Or.inl (huntouched (hu k (List.mem_append_right _ ha)))

theorem mem_of_getElem?_of_ne {α : Type} {before after : List α} {x y : α} {j : Nat}
    (h : (before ++ x :: after)[j]? = some y) (hj : j ≠ before.length) : y ∈ before ++ after := by
  rcases Nat.lt_or_ge j before.length with hlt | hge
  · rw [List.getElem?_append_left hlt] at h
    exact List.mem_append_left _ (List.mem_of_getElem? h)
  · rw [List.getElem?_append_right hge, show j - before.length = j - before.length - 1 + 1 by omega,
      List.getElem?_cons_succ] at h
    exact List.mem_append_right _ (List.mem_of_getElem? h)

/-- The leaves of an `and` group are bound all or none, if its children are leaves and no lists. -/
theorem Sat.all_or_none {required : Bool} {ns : List Node} {o : Bool}
    (h : Sat signature bound o (.group .and required ns))
    (hscalar : ∀ n ∈ ns, ∃ i a, n = .leaf i ∧ signature.arguments[i]? = some a ∧ a.shape = .scalar) :
    (∀ i ∈ Node.childLeaves ns, bound i) ∨ ∀ i ∈ Node.childLeaves ns, ¬ bound i := by
  cases h with
  | absent h =>
    refine Or.inr fun i hi => ?_
    obtain ⟨n, hn, hi⟩ := Node.mem_childLeaves.1 hi
    exact h n hn i hi
  | and h =>
    refine Or.inl fun i hi => ?_
    obtain ⟨n, hn, hi⟩ := Node.mem_childLeaves.1 hi
    obtain ⟨j, a, rfl, ha, hs⟩ := hscalar n hn
    obtain rfl := List.mem_singleton.1 hi
    have hleaf := h (.leaf i) hn
    generalize (o || !required) = o' at hleaf
    cases hleaf with
    | bound hb => exact hb
    | empty ha' _ hs' =>
      rw [ha, Option.some.injEq] at ha'
      rw [← ha', hs] at hs'
      cases hs'

/-- No leaves of two children of an `xor` group are bound together. -/
theorem Sat.apart {required : Bool} {ns : List Node} {o : Bool}
    (h : Sat signature bound o (.group .xor required ns)) {j k : Nat} {n m : Node}
    (hn : ns[j]? = some n) (hm : ns[k]? = some m) (hjk : j ≠ k) {i l : Nat} (hi : i ∈ n.leaves)
    (hl : l ∈ m.leaves) : ¬ (bound i ∧ bound l) := by
  rintro ⟨hbi, hbl⟩
  cases h with
  | absent h => exact h n (List.mem_of_getElem? hn) i hi hbi
  | @xor _ _ _ before after _ hu =>
    by_cases hj : j = before.length
    · exact hu m (mem_of_getElem?_of_ne hm fun hk => hjk (hj.trans hk.symm)) l hl hbl
    · exact hu n (mem_of_getElem?_of_ne hn hj) i hi hbi

/-! ## Paths satisfy their nodes -/

/-- The arguments bound from one progress to another. -/
def Progress.boundSince (p q : Progress) : List Nat := (q.values.drop p.values.length).map Prod.fst

namespace Search

variable {s : Search} {leaves leaves' : List Nat} {p q r : Progress} {added added' : List (Nat × Value)}

theorem Adds.boundSince_eq (h : s.Adds leaves p q added) : p.boundSince q = added.map Prod.fst := by
  rw [Progress.boundSince, h.values_eq, List.drop_left]

theorem Adds.boundSince_subset (h : s.Adds leaves p q added) : ∀ i ∈ p.boundSince q, i ∈ leaves := by
  rw [h.boundSince_eq]
  exact fun i hi => h.order.mem hi

/-- Where no leaf stands twice, what is bound on the whole way is what is bound on its two parts. -/
theorem Adds.bound_parts (h : s.Adds leaves p q added) (h' : s.Adds leaves' q r added')
    (hnodup : (leaves ++ leaves').Nodup)
    (hbound : ∀ i ∈ leaves ++ leaves', bound i ↔ i ∈ p.boundSince r) :
    (∀ i ∈ leaves, bound i ↔ i ∈ p.boundSince q) ∧
      ∀ i ∈ leaves', bound i ↔ i ∈ q.boundSince r := by
  obtain ⟨-, -, hdisjoint⟩ := List.nodup_append.1 hnodup
  have hsplit : p.boundSince r = p.boundSince q ++ q.boundSince r := by
    rw [(h.trans h').boundSince_eq, h.boundSince_eq, h'.boundSince_eq, List.map_append]
  rw [hsplit] at hbound
  constructor
  · intro i hi
    rw [hbound i (List.mem_append_left _ hi), List.mem_append]
    exact or_iff_left fun hi' => hdisjoint i hi i (h'.boundSince_subset i hi') rfl
  · intro i hi
    rw [hbound i (List.mem_append_right _ hi), List.mem_append]
    exact or_iff_right fun hi' => hdisjoint i (h.boundSince_subset i hi') i hi rfl

theorem sat_of_leafStep {i : Nat} {o b : Bool} (h : s.LeafStep i p o q b)
    (hbound : bound i ↔ i ∈ p.boundSince q) : Sat s.signature bound o (.leaf i) := by
  cases h with
  | absent ha hk hs => exact .empty ha hk hs
  | positional => exact .bound (hbound.2 (by simp [Progress.boundSince]))
  | keyword => exact .bound (hbound.2 (by simp [Progress.boundSince]))

/-- What a path binds satisfies its nodes, where no leaf stands twice below them. -/
theorem sat_of_path {ns : List Node} {o : Bool} (h : s.Path ns o p q)
    (hnodup : (Node.childLeaves ns).Nodup)
    (hbound : ∀ i ∈ Node.childLeaves ns, bound i ↔ i ∈ p.boundSince q) :
    ∀ n ∈ ns, Sat s.signature bound o n := by
  induction h with
  | nil => exact fun n hn => absurd hn List.not_mem_nil
  | leaf h rest ih =>
    obtain ⟨added, ha⟩ := adds_of_leafStep h
    obtain ⟨added', ha'⟩ := adds_of_path rest
    obtain ⟨hleaf, hrest⟩ := ha.bound_parts ha' hnodup hbound
    refine List.forall_mem_cons.2 ⟨?_, ih (List.nodup_append.1 hnodup).2.1 hrest⟩
    exact sat_of_leafStep h (hleaf _ List.mem_cons_self)
  | @absent _ ms _ _ p _ rest ih =>
    have ha : s.Adds (Node.childLeaves ms) p p [] := (Adds.refl p).mono (List.nil_sublist _)
    obtain ⟨added', ha'⟩ := adds_of_path rest
    obtain ⟨hgroup, hrest⟩ := ha.bound_parts ha' hnodup hbound
    refine List.forall_mem_cons.2 ⟨.absent fun m hm i hi hb => ?_,
      ih (List.nodup_append.1 hnodup).2.1 hrest⟩
    have hmem := (hgroup i (Node.mem_childLeaves.2 ⟨m, hm, hi⟩)).1 hb
    rw [ha.boundSince_eq] at hmem
    exact List.not_mem_nil hmem
  | and body rest ih ih' =>
    obtain ⟨added, ha⟩ := adds_of_path body
    obtain ⟨added', ha'⟩ := adds_of_path rest
    obtain ⟨hbody, hrest⟩ := ha.bound_parts ha' hnodup hbound
    obtain ⟨hnodup, hnodup', -⟩ := List.nodup_append.1 hnodup
    exact List.forall_mem_cons.2 ⟨.and (ih hnodup hbody), ih' hnodup' hrest⟩
  | @or required chosen ms _ _ p q _ hc body rest ih ih' =>
    obtain ⟨hsub, hne⟩ := mem_choices.1 hc
    obtain ⟨added, ha⟩ := adds_of_path body
    obtain ⟨added', ha'⟩ := adds_of_path rest
    obtain ⟨hbody, hrest⟩ := (ha.mono (Node.childLeaves_sublist hsub)).bound_parts ha' hnodup hbound
    obtain ⟨hnodup, hnodup', -⟩ := List.nodup_append.1 hnodup
    have hsat := ih (hnodup.sublist (Node.childLeaves_sublist hsub)) fun i hi =>
      hbody i ((Node.childLeaves_sublist hsub).mem hi)
    obtain ⟨n, hn⟩ := List.exists_mem_of_ne_nil chosen hne
    refine List.forall_mem_cons.2 ⟨.or (· ∈ chosen) (hsub.mem hn) hn (fun m _ => hsat m) ?_,
      ih' hnodup' hrest⟩
    -- what is bound lies below a chosen child, and no two children share a leaf
    intro m hm hnot i hi hb
    have hmem := (hbody i (Node.mem_childLeaves.2 ⟨m, hm, hi⟩)).1 hb
    obtain ⟨k, hk, hik⟩ := Node.mem_childLeaves.1 (ha.boundSince_subset i hmem)
    exact hnot (Node.eq_of_mem_leaves hnodup (hsub.mem hk) hm hik hi ▸ hk)
  | @xor required m ms _ _ p q _ hm body rest ih ih' =>
    have hsub : (Node.childLeaves [m]).Sublist (Node.childLeaves ms) :=
      Node.childLeaves_sublist (List.singleton_sublist.2 hm)
    obtain ⟨added, ha⟩ := adds_of_path body
    obtain ⟨added', ha'⟩ := adds_of_path rest
    obtain ⟨hbody, hrest⟩ := (ha.mono hsub).bound_parts ha' hnodup hbound
    obtain ⟨hnodup, hnodup', -⟩ := List.nodup_append.1 hnodup
    have hsat := ih (hnodup.sublist hsub) (fun i hi => hbody i (hsub.mem hi)) m
      (List.mem_singleton.2 rfl)
    obtain ⟨before, after, rfl⟩ := List.append_of_mem hm
    refine List.forall_mem_cons.2 ⟨.xor hsat ?_, ih' hnodup' hrest⟩
    intro k hk i hi hb
    have hkm : k ∈ before ++ m :: after :=
      (List.append_sublist_append_left before).2 (List.sublist_cons_self m after) |>.mem hk
    have hmem := (hbody i (Node.mem_childLeaves.2 ⟨k, hkm, hi⟩)).1 hb
    have him := ha.boundSince_subset i hmem
    rw [Node.childLeaves_singleton] at him
    exact Node.not_mem_leaves_of_nodup hnodup him hk hi

end Search

/-! ## Full matches -/

/-- **A full match satisfies the logic tree.** The arguments that it binds satisfy the root. So in a tree
matched, of the leaves that an `and` group joins all are bound or none, if they are not lists; and never
are leaves of two children of an `xor` group bound together. -/
theorem sat_of_solve? {signature : Signature} {input : Input} {types : TypeRegistry}
    {settings : EffectiveSettings} {values : List (Nat × Value)} (hs : signature.Compiled)
    (h : (Search.of signature input types settings).solve? = some values) :
    Sat signature (· ∈ values.map Prod.fst) false signature.root.toNode ∧
    (∀ required ns, (Node.group .and required ns).Inside signature.root.toNode →
      (∀ n ∈ ns, ∃ i a, n = .leaf i ∧ signature.arguments[i]? = some a ∧ a.shape = .scalar) →
      (∀ i ∈ Node.childLeaves ns, i ∈ values.map Prod.fst) ∨
        ∀ i ∈ Node.childLeaves ns, i ∉ values.map Prod.fst) ∧
    ∀ required ns, (Node.group .xor required ns).Inside signature.root.toNode →
      ∀ (j k : Nat) (n m : Node), ns[j]? = some n → ns[k]? = some m → j ≠ k →
        ∀ i ∈ n.leaves, ∀ l ∈ m.leaves, ¬ (i ∈ values.map Prod.fst ∧ l ∈ values.map Prod.fst) := by
  obtain ⟨-, q, rfl, -, hpath⟩ := Search.path_of_solve? h
  have hsat : Sat signature (· ∈ q.values.map Prod.fst) false signature.root.toNode := by
    refine Search.sat_of_path hpath ?_ (fun i _ => Iff.rfl) _ (List.mem_singleton.2 rfl)
    rw [Node.childLeaves_singleton]
    exact hs.leaves_root ▸ List.nodup_range
  refine ⟨hsat, fun required ns hin hscalar => ?_, fun required ns hin j k n m hn hm hjk i hi l hl => ?_⟩
  · rcases hsat.inside hin with hu | ⟨o, hgroup⟩
    · exact Or.inr hu
    · exact hgroup.all_or_none hscalar
  · rcases hsat.inside hin with hu | ⟨o, hgroup⟩
    · exact fun hb => hu i (Node.mem_childLeaves.2 ⟨n, List.mem_of_getElem? hn, hi⟩) hb.1
    · exact hgroup.apart hn hm hjk hi hl

set_option maxRecDepth 2000 in
/-- A word that is no number, so that the other child of the group is bound, and a group without its
list. -/
theorem sat_of_word_and_flag :
    ∃ signature values,
      Signature.compile "<(int) count | (str) name> [(int[]) nums (bool) --v]" = .ok signature ∧
      (Search.of signature (Input.ofLine "x --v") {} {}).solve? = some values ∧
      values.map Prod.fst = [1, 3] ∧
      Sat signature (· ∈ values.map Prod.fst) false signature.root.toNode := by
  have hcompile : Signature.compile "<(int) count | (str) name> [(int[]) nums (bool) --v]" = .ok
      { source := "<(int) count | (str) name> [(int[]) nums (bool) --v]"
        root :=
          ⟨[.group .xor true [.leaf 0, .leaf 1], .group .and false [.leaf 2, .leaf 3]], .and, true⟩
        arguments :=
          [{ name := "count", kind := .positional, type := .native .int, shape := .scalar },
            { name := "name", kind := .positional, type := .native .str, shape := .scalar },
            { name := "nums", kind := .positional, type := .native .int, shape := .greedy },
            { name := "v", kind := .keyword, type := .native .bool, shape := .scalar }]
        lookup := [("count", 0), ("name", 1), ("nums", 2), ("v", 3)] } := by cbv
  have hline : Input.ofLine "x --v" = ⟨["x"], [("v", none)]⟩ := by cbv
  refine ⟨_, [(1, .str "x"), (3, .bool true)], hcompile, ?solve, rfl,
    (sat_of_solve? (.text hcompile) ?solve).1⟩
  rw [hline]
  rfl

end Invocation
