/-
  The choice that a chain of `or` makes.

  A chain of arguments with `or` between them folds into groups of two, so
  that its choices are not tried by size alone.

  * `Signature.IsOrChain`: the text of a signature is such a chain;
    `Compiled.toNode_root`: its tree is the folded one;
  * `foldedSubsets` lists the choices in the order in which they are tried;
    `mem_foldedSubsets`: these are all nonempty choices;
    `pairwise_foldedSubsets`: a choice stands before the choices that are
    parts of it;
  * `Search.consume?` is what the arguments of a choice bind, one after the
    other, if that uses the whole input; `outcomes_chainNode`: the outcomes of
    the tree are those of the choices in their order;
  * `solve?_of_isOrChain`: a match binds the first choice in this order that
    uses the whole input; `solve?_ne_first_subset`: the largest such choice
    that comes first by its places need not be the one.
-/
import Invocation.Proofs.Matching.Chains
import Invocation.Proofs.Signature.Shape

namespace Invocation

open Invocation.Matching Invocation.Text

/-! ## Trees of chains -/

/-- The lexemes of operands with an operator between them. -/
def chainLexemes (op : Operator) : List (List Lexeme) → List Lexeme
  | [] => []
  | first :: rest => first ++ rest.flatMap (.operator op :: ·)

/-- The text of a signature is a chain of `n` arguments with `or` between them. -/
def Signature.IsOrChain (s : Signature) (n : Nat) : Prop :=
  ∃ operands : List (List Lexeme), operands.length = n ∧ (∀ ls ∈ operands, ∃ a, Declares ls a) ∧
    Lexeme.Splits s.source.toList (chainLexemes .or operands)

namespace Reading

variable {r r' : Reading} {op : Operator} {ls : List Lexeme} {placed : List Placed}

theorem addArgument_of_mem {run : List Char} {kind : Kind} {name : String} (h : Names run kind name)
    (offset : Nat) (hmem : name ∈ r.arguments.map Argument.name) :
    r.addArgument run offset = .error (.duplicateName name) := by
  obtain ⟨a, ha, hname⟩ := List.mem_map.1 hmem
  have hany : r.arguments.any (·.name == name) = true :=
    List.any_eq_true.2 ⟨a, ha, beq_iff_eq.2 hname⟩
  simp only [addArgument, h.splitMarker, String.ofList_toList, h.isIdentifierChars]
  rw [if_neg (by simp), if_pos hany]

theorem notMem_of_steps {a : Argument} (h : Declares ls a) (hplaced : placed.map Placed.lexeme = ls)
    (hpending : r.pending = none) (hsteps : r.steps placed = .ok r') :
    a.name ∉ r.arguments.map Argument.name := by
  intro hmem
  cases h with
  | any hnames | switch hnames =>
    obtain ⟨p, rfl, hp⟩ := List.map_eq_singleton_iff.1 hplaced
    rw [steps, step_of_name hp, addArgument_of_mem hnames _ hmem] at hsteps
    cases hsteps
  | @specified text specifier run kind name hs hnames =>
    obtain ⟨p, rest, rfl, hp, hrest⟩ := List.map_eq_cons_iff.1 hplaced
    obtain ⟨q, rfl, hq⟩ := List.map_eq_singleton_iff.1 hrest
    have hstep : r.step p = .ok { r with pending := some (specifier, p.offset) } := by
      simp only [step, hpending, hp, Specifier.ofChars_of_spells hs]
      rfl
    have hdup := addArgument_of_mem (r := { r with pending := some (specifier, p.offset) }) hnames
      q.offset hmem
    rw [steps, hstep] at hsteps
    change steps _ [q] = _ at hsteps
    rw [steps, step_of_name hq, hdup] at hsteps
    cases hsteps

/-- Reading the declaration of an argument puts its leaf at the end of the level. -/
theorem eq_extend_of_steps {a : Argument} (h : Declares ls a) (hplaced : placed.map Placed.lexeme = ls)
    (hpending : r.pending = none) (hsteps : r.steps placed = .ok r') :
    r' = r.extend [a] [.leaf r.arguments.length] := by
  have hnew := notMem_of_steps h hplaced hpending hsteps
  rw [steps_of_declares h hplaced hpending hnew] at hsteps
  exact (Except.ok.inj hsteps).symm

/-- What has been read is a chain with `k` operators. -/
structure Chains (r : Reading) (op : Operator) (k : Nat) : Prop where
  pending : r.pending = none
  enclosing : r.enclosing = []
  length : r.arguments.length = k + 1
  node : ∃ operand, r.level.operand? = some operand ∧ r.level.join operand = chainNode op k

theorem steps_append_eq_ok {ps qs : List Placed} (h : r.steps (ps ++ qs) = .ok r') :
    ∃ m, r.steps ps = .ok m ∧ m.steps qs = .ok r' := by
  rw [steps_append] at h
  cases hps : r.steps ps with
  | error e =>
    rw [hps] at h
    cases h
  | ok m =>
    rw [hps] at h
    exact ⟨m, rfl, h⟩

/-- One more operand makes the chain longer by one. -/
theorem Chains.operand {k : Nat} {a : Argument} (hr : r.Chains op k) (h : Declares ls a)
    (hplaced : placed.map Placed.lexeme = .operator op :: ls) (hsteps : r.steps placed = .ok r') :
    r'.Chains op (k + 1) := by
  obtain ⟨p, rest, rfl, hp, hrest⟩ := List.map_eq_cons_iff.1 hplaced
  obtain ⟨operand, ho, hnode⟩ := hr.node
  have hstep : r.step p = .ok { r with level := ⟨some (chainNode op k, op, p.offset), []⟩ } := by
    simp only [step, hr.pending, hp, addOperator, ho, Level.addOperator, hnode]
  rw [steps, hstep] at hsteps
  obtain rfl := eq_extend_of_steps (r := { r with level := ⟨some (chainNode op k, op, p.offset), []⟩ })
    h hrest hr.pending hsteps
  refine ⟨hr.pending, hr.enclosing, by simp [extend, hr.length], .leaf (k + 1), ?_, rfl⟩
  simp [extend, Level.operand?, hr.length]

theorem chains_of_steps_rest {k : Nat} {rest : List (List Lexeme)} (hr : r.Chains op k)
    (h : ∀ ls ∈ rest, ∃ a, Declares ls a)
    (hplaced : placed.map Placed.lexeme = rest.flatMap (.operator op :: ·))
    (hsteps : r.steps placed = .ok r') : r'.Chains op (k + rest.length) := by
  induction rest generalizing r k placed with
  | nil =>
    rw [List.flatMap_nil, List.map_eq_nil_iff] at hplaced
    subst hplaced
    cases hsteps
    exact hr
  | cons first rest ih =>
    obtain ⟨⟨a, ha⟩, hrest⟩ := List.forall_mem_cons.1 h
    obtain ⟨ps, qs, rfl, hps, hqs⟩ := List.map_eq_append_iff.1 hplaced
    obtain ⟨m, hm, hsteps⟩ := steps_append_eq_ok hsteps
    have hlength := ih (hr.operand ha hps hm) hrest hqs hsteps
    rwa [Nat.add_assoc, Nat.add_comm 1] at hlength

/-- The operands of a chain are read one after the other. -/
theorem chains_of_steps {first : List Lexeme} {rest : List (List Lexeme)}
    (h : ∀ ls ∈ first :: rest, ∃ a, Declares ls a)
    (hplaced : placed.map Placed.lexeme = chainLexemes op (first :: rest))
    (hsteps : steps {} placed = .ok r') : r'.Chains op rest.length := by
  obtain ⟨⟨a, ha⟩, hrest⟩ := List.forall_mem_cons.1 h
  obtain ⟨ps, qs, rfl, hps, hqs⟩ := List.map_eq_append_iff.1 hplaced
  obtain ⟨m, hm, hsteps⟩ := steps_append_eq_ok hsteps
  obtain rfl := eq_extend_of_steps ha hps rfl hm
  have hone : Chains (extend {} [a] [.leaf 0]) op 0 := ⟨rfl, rfl, rfl, _, rfl, rfl⟩
  have hlength := chains_of_steps_rest hone hrest hqs hsteps
  rwa [Nat.zero_add] at hlength

end Reading

namespace Signature

variable {s : Signature} {n : Nat}

theorem root_of_isOrChain {source : String} (h : compile source = .ok s) (hchain : s.IsOrChain n)
    (hn : n ≠ 0) : s.root = Group.ofRoot (chainNode .or (n - 1)) ∧ s.arguments.length = n := by
  obtain ⟨operands, rfl, hdeclares, hsplits⟩ := hchain
  obtain ⟨first, rest, rfl⟩ := List.exists_cons_of_length_pos (Nat.pos_of_ne_zero hn)
  obtain ⟨placed, hscan, hplaced⟩ := Lexeme.scanFrom_of_splits hsplits 0
  have hagain := compile_source h
  simp only [compile, Lexeme.scan, hscan] at hagain
  split at hagain
  · cases hagain
  next r hsteps =>
  have hr := Reading.chains_of_steps hdeclares hplaced hsteps
  obtain ⟨operand, ho, hnode⟩ := hr.node
  simp only [Reading.finish, hr.pending, hr.enclosing, ho, hnode, Except.ok.injEq] at hagain
  rw [← hagain]
  exact ⟨rfl, hr.length⟩

/-- The tree of a chain of `or`, alone or in a command. -/
theorem Compiled.toNode_root (hs : s.Compiled) (hchain : s.IsOrChain n) (hn : 2 ≤ n) :
    s.root.toNode = chainNode .or (n - 1) := by
  have hroot : s.root = Group.ofRoot (chainNode .or (n - 1)) := by
    cases hs with
    | text h => exact (root_of_isOrChain h hchain (by omega)).1
    | command h =>
      obtain ⟨t, names, ht, rfl⟩ := compile_of_command h
      exact (root_of_isOrChain (s := t) ht hchain (by omega)).1
  obtain ⟨k, rfl⟩ : ∃ k, n = k + 2 := ⟨n - 2, by omega⟩
  rw [hroot]
  rfl

end Signature

/-! ## The order of the choices -/

/-- The choices from a chain of `n` members that folds from the left, in the order in which they are tried:
those with the last member and others, those without it, and the last member alone. -/
def foldedSubsets : Nat → List (List Nat)
  | 0 => []
  | n + 1 => (foldedSubsets n).map (· ++ [n]) ++ foldedSubsets n ++ [[n]]

theorem foldedSubsets_succ (n : Nat) :
    foldedSubsets (n + 1) = (foldedSubsets n).map (· ++ [n]) ++ foldedSubsets n ++ [[n]] := rfl

/-- All nonempty choices are tried. -/
theorem mem_foldedSubsets {n : Nat} {chosen : List Nat} :
    chosen ∈ foldedSubsets n ↔ chosen.Sublist (List.range n) ∧ chosen ≠ [] := by
  induction n generalizing chosen with
  | zero =>
    simp only [foldedSubsets, List.not_mem_nil, List.range_zero, List.sublist_nil, false_iff]
    exact fun h => h.2 h.1
  | succ n ih =>
    simp only [foldedSubsets, List.mem_append, List.mem_map, List.mem_singleton, ih, List.range_succ,
      List.sublist_append_iff, List.sublist_singleton]
    constructor
    · rintro ((⟨a, ⟨ha, -⟩, rfl⟩ | ⟨ha, hne⟩) | rfl)
      · exact ⟨⟨a, [n], rfl, ha, .inr rfl⟩, by simp⟩
      · exact ⟨⟨chosen, [], by simp, ha, .inl rfl⟩, hne⟩
      · exact ⟨⟨[], [n], rfl, List.nil_sublist _, .inr rfl⟩, by simp⟩
    · rintro ⟨⟨a, _, rfl, ha, rfl | rfl⟩, hne⟩
      · rw [List.append_nil] at hne ⊢
        exact .inl (.inr ⟨ha, hne⟩)
      · rcases List.eq_nil_or_concat a with rfl | ⟨_, _, rfl⟩
        · exact .inr rfl
        · exact .inl (.inl ⟨_, ⟨ha, by simp⟩, rfl⟩)

theorem lt_of_mem_foldedSubsets {n i : Nat} {chosen : List Nat} (h : chosen ∈ foldedSubsets n)
    (hi : i ∈ chosen) : i < n :=
  List.mem_range.1 ((mem_foldedSubsets.1 h).1.mem hi)

/-- No choice is part of one that is tried after it. -/
theorem pairwise_foldedSubsets (n : Nat) : (foldedSubsets n).Pairwise fun a b => ¬ a ⊆ b := by
  induction n with
  | zero => exact .nil
  | succ n ih =>
    have hlast : ∀ {a}, a ∈ foldedSubsets n → n ∉ a := fun ha hn =>
      Nat.lt_irrefl n (lt_of_mem_foldedSubsets ha hn)
    -- the last member alone comes after choices with a member before it
    have hothers : ∀ {a}, a ∈ foldedSubsets n → ¬ a ⊆ [n] := by
      intro a ha hsub
      obtain ⟨i, hi⟩ := List.exists_mem_of_ne_nil a (mem_foldedSubsets.1 ha).2
      exact hlast ha (List.mem_singleton.1 (hsub hi) ▸ hi)
    rw [foldedSubsets, List.pairwise_append, List.pairwise_append, List.pairwise_map]
    refine ⟨⟨ih.imp_of_mem ?both, ih, ?first⟩, List.pairwise_singleton _ _, ?last⟩
    case both =>
      intro a b ha _ hab hsub
      refine hab fun i hi => ?_
      rcases List.mem_append.1 (hsub (List.mem_append_left _ hi)) with hi' | hi'
      · exact hi'
      · rw [List.mem_singleton.1 hi'] at hi
        exact absurd hi (hlast ha)
    case first =>
      intro _ ha b hb hsub
      obtain ⟨a, -, rfl⟩ := List.mem_map.1 ha
      exact hlast hb (hsub (by simp))
    case last =>
      intro _ ha _ hb
      obtain rfl := List.mem_singleton.1 hb
      rcases List.mem_append.1 ha with ha | ha
      · obtain ⟨a, ha', rfl⟩ := List.mem_map.1 ha
        exact fun hsub => hothers ha' fun i hi => hsub (List.mem_append_left _ hi)
      · exact hothers ha

/-! ## What a choice binds -/

namespace Search

variable (s : Search)

/-- Binds arguments, one after the other. -/
def bindAll : List Nat → Progress → Option Progress
  | [], p => some p
  | i :: rest, p => (s.leaf i p false).bind fun (q, _) => bindAll rest q

/-- What the arguments of a choice bind, one after the other, if that uses the whole input. -/
def consume? (chosen : List Nat) : Option (List (Nat × Value)) :=
  if s.keywords.stray.isEmpty then ((s.bindAll chosen {}).filter s.isComplete).map Progress.values
  else none

theorem bindAll_append (xs ys : List Nat) (p : Progress) :
    s.bindAll (xs ++ ys) p = (s.bindAll xs p).bind (s.bindAll ys) := by
  induction xs generalizing p with
  | nil => rfl
  | cons i xs ih =>
    rw [List.cons_append, bindAll, bindAll, Option.bind_assoc]
    exact congrArg _ (funext fun (q, _) => ih q)

variable {s}

/-- Binding arguments binds each of them, in their order. -/
theorem map_fst_of_bindAll {chosen : List Nat} {p q : Progress} (h : s.bindAll chosen p = some q) :
    q.values.map Prod.fst = p.values.map Prod.fst ++ chosen := by
  induction chosen generalizing p with
  | nil =>
    cases h
    exact (List.append_nil _).symm
  | cons i rest ih =>
    obtain ⟨⟨r, b⟩, hleaf, hrest⟩ := Option.bind_eq_some_iff.1 h
    rw [ih hrest]
    cases s.leafStep_of_leaf hleaf with
    | positional | keyword => simp

theorem outcomes_leaf (i : Nat) (p : Progress) :
    s.outcomes (.leaf i) p false = (s.bindAll [i] p).toList := by
  simp only [outcomes, bindAll]
  cases s.leaf i p false <;> rfl

theorem outcomes_or_pair (n m : Node) (p : Progress) :
    s.outcomes (.group .or true [n, m]) p false =
      (s.outcomes n p false).flatMap (s.outcomes m · false) ++ s.outcomes n p false ++
        s.outcomes m p false := by
  rw [outcomes_required]
  simp only [Enumeration.body, List.map_cons, List.map_nil, choices_pair, List.flatMap_cons,
    List.flatMap_nil, Enumeration.thread, List.flatMap_singleton', List.append_nil, List.append_assoc]

/-- The outcomes of a chain are those of its choices, in the order in which they are tried. -/
theorem outcomes_chainNode (k : Nat) (p : Progress) :
    s.outcomes (chainNode .or k) p false = (foldedSubsets (k + 1)).filterMap (s.bindAll · p) := by
  induction k with
  | zero =>
    rw [chainNode, outcomes_leaf]
    change _ = List.filterMap (s.bindAll · p) [[0]]
    cases h : s.bindAll [0] p <;> simp [h]
  | succ k ih =>
    have hlast : (s.bindAll [k + 1] p).toList = List.filterMap (s.bindAll · p) [[k + 1]] := by
      cases h : s.bindAll [k + 1] p <;> simp [h]
    have hboth : ((foldedSubsets (k + 1)).filterMap (s.bindAll · p)).flatMap
        (fun q => (s.bindAll [k + 1] q).toList) =
        ((foldedSubsets (k + 1)).map (· ++ [k + 1])).filterMap (s.bindAll · p) := by
      rw [List.filterMap_map, ← List.filterMap_eq_flatMap_toList, List.filterMap_filterMap]
      exact List.filterMap_congr fun chosen _ => (s.bindAll_append chosen [k + 1] p).symm
    rw [chainNode, Operator.combinator, outcomes_or_pair, ih, foldedSubsets_succ (k + 1),
      List.filterMap_append, List.filterMap_append]
    simp only [outcomes_leaf, hboth, hlast]

theorem map_find?_filterMap {α β γ : Type} (f : α → Option β) (p : β → Bool) (g : β → γ) (xs : List α) :
    ((xs.filterMap f).find? p).map g = xs.findSome? fun x => ((f x).filter p).map g := by
  induction xs with
  | nil => rfl
  | cons x xs ih =>
    rw [List.findSome?_cons]
    cases hx : f x with
    | none => rw [List.filterMap_cons_none hx, ih, Option.filter_none, Option.map_none]
    | some y =>
      rw [List.filterMap_cons_some hx, List.find?_cons]
      by_cases hy : p y = true
      · rw [hy, Option.filter_some_pos hy, Option.map_some]
      · rw [Bool.not_eq_true] at hy
        simp only [hy, ih, Option.filter_some, Bool.false_eq_true, if_false, Option.map_none]

/-- The first complete outcome of a chain is what the first choice binds that uses the whole input. -/
theorem solve?_of_chainNode {k : Nat} (h : s.signature.root.toNode = chainNode .or k) :
    s.solve? = (foldedSubsets (k + 1)).findSome? s.consume? := by
  rw [solve?_eq_find?, h, outcomes_chainNode]
  by_cases hstray : s.keywords.stray.isEmpty = true
  · have hconsume : s.consume? = fun chosen =>
        ((s.bindAll chosen {}).filter s.isComplete).map Progress.values := by
      funext chosen
      rw [consume?, if_pos hstray]
    rw [if_pos hstray, hconsume, map_find?_filterMap]
  · have hconsume : s.consume? = fun _ => none := by
      funext chosen
      rw [consume?, if_neg hstray]
    rw [if_neg hstray, hconsume, List.findSome?_eq_none_iff.2 fun _ _ => rfl]

/-- The first choice that uses the whole input, and what it binds. -/
theorem exists_first_of_consume? {choices : List (List Nat)} {subset : List Nat} (hmem : subset ∈ choices)
    (h : (s.consume? subset).isSome = true) :
    ∃ chosen values, choices.find? (fun subset => (s.consume? subset).isSome) = some chosen ∧
      s.consume? chosen = some values ∧ choices.findSome? s.consume? = some values := by
  induction choices with
  | nil => exact absurd hmem List.not_mem_nil
  | cons first rest ih =>
    rw [List.find?_cons, List.findSome?_cons]
    cases hfirst : s.consume? first with
    | some values => exact ⟨first, values, rfl, hfirst, rfl⟩
    | none =>
      refine ih ((List.mem_cons.1 hmem).resolve_left ?_)
      rintro rfl
      rw [hfirst] at h
      cases h

/-- A choice that uses the whole input binds the arguments of the choice, in their order. -/
theorem map_fst_of_consume? {chosen : List Nat} {values : List (Nat × Value)}
    (h : s.consume? chosen = some values) : values.map Prod.fst = chosen := by
  rw [consume?, Option.ite_none_right_eq_some, Option.map_eq_some_iff] at h
  obtain ⟨-, q, hq, rfl⟩ := h
  exact map_fst_of_bindAll (Option.filter_eq_some_iff.1 hq).1

end Search

/-! ## The match of a chain -/

/-- **A chain of `or` binds the first choice that uses the whole input.** Choices come in the order of the
groups that the chain folds into: all nonempty choices are tried, none of them before a choice that it is part
of, so that the full choice is the first; for two members this is the order by size. -/
theorem solve?_of_isOrChain {signature : Signature} {n : Nat} (hs : signature.Compiled) (hn : 2 ≤ n)
    (hchain : signature.IsOrChain n) :
    (∀ input types settings,
      (∃ subset, subset.Sublist (List.range n) ∧ subset ≠ [] ∧
        ((Search.of signature input types settings).consume? subset).isSome = true) →
      ∃ chosen values,
        (foldedSubsets n).find?
          (fun subset => ((Search.of signature input types settings).consume? subset).isSome) =
            some chosen ∧
        (Search.of signature input types settings).consume? chosen = some values ∧
        values.map Prod.fst = chosen ∧
        (Search.of signature input types settings).solve? = some values) ∧
    (∀ subset, subset ∈ foldedSubsets n ↔ subset.Sublist (List.range n) ∧ subset ≠ []) ∧
    (foldedSubsets n).Pairwise (fun a b => ¬ a ⊆ b) ∧
    (n = 2 → foldedSubsets n = subsets n) := by
  refine ⟨fun input types settings hsome => ?_, fun _ => mem_foldedSubsets, pairwise_foldedSubsets n,
    fun h => h ▸ rfl⟩
  obtain ⟨subset, hsub, hne, hconsumes⟩ := hsome
  obtain ⟨chosen, values, hchosen, hvalues, hfirst⟩ :=
    Search.exists_first_of_consume? (mem_foldedSubsets.2 ⟨hsub, hne⟩) hconsumes
  have hsolve := Search.solve?_of_chainNode (s := Search.of signature input types settings)
    (hs.toNode_root hchain hn)
  rw [Nat.sub_add_cancel (Nat.le_of_succ_le hn), hfirst] at hsolve
  exact ⟨chosen, values, hchosen, hvalues, Search.map_fst_of_consume? hvalues, hsolve⟩

/-- The signature of `(str) a / (str) b / (str) c`. -/
def threeTexts : Signature where
  source := "(str) a / (str) b / (str) c"
  root := Group.ofRoot (chainNode .or 2)
  arguments := ["a", "b", "c"].map fun name =>
    { name, kind := .positional, type := .native .str, shape := .scalar }
  lookup := [("a", 0), ("b", 1), ("c", 2)]

theorem isOrChain_threeTexts : threeTexts.IsOrChain 3 := by
  have hdeclares : ∀ name, isIdentifier name = true →
      ∃ a, Declares [.specifier "str".toList, .name name.toList] a := fun name h =>
    ⟨_, .specified (Specifier.spells_of_ofChars
      (show Specifier.ofChars "str".toList 0 = .ok ⟨.native .str, .scalar⟩ by decide)) (.positional h)⟩
  refine ⟨["a", "b", "c"].map fun name => [.specifier "str".toList, .name name.toList], rfl, ?_, ?_⟩
  · simp only [List.map_cons, List.map_nil, List.forall_mem_cons]
    exact ⟨hdeclares "a" (by decide), hdeclares "b" (by decide), hdeclares "c" (by decide), by simp⟩
  · obtain ⟨placed, hscan, hplaced⟩ : ∃ placed, Lexeme.scanFrom 0 threeTexts.source.toList = .ok placed ∧
        placed.map Placed.lexeme = chainLexemes .or
          (["a", "b", "c"].map fun name => [.specifier "str".toList, .name name.toList]) :=
      ⟨_, by cbv, by decide⟩
    exact hplaced ▸ Lexeme.splits_of_scanFrom hscan

theorem compile_threeTexts : Signature.compile "(str) a / (str) b / (str) c" = .ok threeTexts := by cbv

/-- Two words for three texts: several choices use them up, and the first of these is bound. -/
theorem solve?_of_isOrChain_threeTexts :
    threeTexts.Compiled ∧ threeTexts.IsOrChain 3 ∧
      ∃ s, s = Search.of threeTexts ⟨["x", "y"], []⟩ {} {} ∧ (s.consume? [1, 2]).isSome = true ∧
        ∃ chosen values,
          (foldedSubsets 3).find? (fun subset => (s.consume? subset).isSome) = some chosen ∧
          s.consume? chosen = some values ∧ values.map Prod.fst = chosen ∧ s.solve? = some values := by
  refine ⟨.text compile_threeTexts, isOrChain_threeTexts, _, rfl, rfl, ?_⟩
  exact (solve?_of_isOrChain (.text compile_threeTexts) (by decide) isOrChain_threeTexts).1 _ _ _
    ⟨[1, 2], by decide, by decide, rfl⟩

/-- Two words could be the first two of three texts, and are the first and the last. -/
theorem solve?_ne_first_subset :
    Signature.compile "(str) a / (str) b / (str) c" = .ok threeTexts ∧ threeTexts.IsOrChain 3 ∧
      ∃ s, s = Search.of threeTexts (Input.ofLine "x y") {} {} ∧
        (subsets 3).find? (fun subset => (s.consume? subset).isSome) = some [0, 1] ∧
        s.consume? [0, 1] = some [(0, .str "x"), (1, .str "y")] ∧
        s.solve? = some [(0, .str "x"), (2, .str "y")] := by
  have hline : Input.ofLine "x y" = ⟨["x", "y"], []⟩ := by cbv
  refine ⟨compile_threeTexts, isOrChain_threeTexts, _, rfl, ?_⟩
  rw [hline]
  exact ⟨rfl, rfl, rfl⟩

end Invocation
