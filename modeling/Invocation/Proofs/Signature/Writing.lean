/-
  Writing a signature back as a text.

  * `Writes`: the texts of a tree, lexeme by lexeme. Arguments are written as
    their usage, groups in brackets, which may be left out around a required
    group where the precedence of the operators makes them redundant;
  * `Node.Formed`: the trees that the grammar builds (`formed_of_derives`);
  * `derives_of_writes`: the texts of a tree of the grammar derive this tree;
  * `Signature.compile_of_written`: every text of a compiled signature, in
    every layout, compiles to the signature again.
-/
import Invocation.Proofs.Matching.Choices
import Invocation.Proofs.Signature.Usage
import Mathlib

namespace Invocation

open Invocation.Text

/-! ## The texts of a tree -/

/-- Where nodes are written. -/
inductive Place where
  /-- One of the units of a run, where every group stands in brackets. -/
  | unit
  /-- Units side by side. -/
  | units
  /-- Between the brackets of a group. -/
  | content
  /-- Right of an operator. -/
  | right
  /-- Left of an operator. -/
  | left
  deriving DecidableEq, Repr

/-- The texts of the lexemes of nodes at a place. The brackets of a required group may be left out if it is
an operand and a run of two or more units, and if it is a left operand and has an operator itself. -/
inductive Writes (arguments : List Argument) : Place → List Node → List (List Char) → Prop
  | leaf {i a} (h : arguments[i]? = some a) : Writes arguments .unit [.leaf i] (wordsOfChars a.usage.toList)
  | brackets {c ns texts} (b : Bracket) (h : Writes arguments .content [.group c b.isRequired ns] texts) :
      Writes arguments .unit [.group c b.isRequired ns] ([b.opener] :: (texts ++ [[b.closer]]))
  | none : Writes arguments .units [] []
  | more {ns texts n texts'} (h : Writes arguments .units ns texts) (h' : Writes arguments .unit [n] texts') :
      Writes arguments .units (ns ++ [n]) (texts ++ texts')
  | and {required ns texts} (h : Writes arguments .units ns texts) :
      Writes arguments .content [.group .and required ns] texts
  | operator {required l texts r texts'} (op : Operator) (h : Writes arguments .left [l] texts)
      (h' : Writes arguments .right [r] texts') :
      Writes arguments .content [.group op.combinator required [l, r]] (texts ++ [op.symbol] :: texts')
  | unit {n texts} (h : Writes arguments .unit [n] texts) : Writes arguments .right [n] texts
  | run {ns texts} (hns : 2 ≤ ns.length) (h : Writes arguments .units ns texts) :
      Writes arguments .right [.group .and true ns] texts
  | right {n texts} (h : Writes arguments .right [n] texts) : Writes arguments .left [n] texts
  | chain {ns texts} (op : Operator) (h : Writes arguments .content [.group op.combinator true ns] texts) :
      Writes arguments .left [.group op.combinator true ns] texts

namespace Signature

/-- The texts of the lexemes of a signature. The brackets of a required root may be left out. -/
inductive Writes (s : Signature) : List (List Char) → Prop
  | brackets {texts} (h : Invocation.Writes s.arguments .unit [s.root.toNode] texts) : Writes s texts
  | bare {texts} (hrequired : s.root.required = true)
      (h : Invocation.Writes s.arguments .content [s.root.toNode] texts) : Writes s texts

/-- The texts of a signature, in every layout. -/
def Written (s : Signature) (text : String) : Prop :=
  ∃ texts, s.Writes texts ∧ Lexeme.LaidOut texts text.toList

end Signature

/-! ## The trees of the grammar -/

namespace Node

/-- The trees that the grammar builds: a group is a bracketed leaf, a run of two or more units, or an
operator with its two operands. -/
inductive Formed : Node → Prop
  | leaf (i : Nat) : Formed (.leaf i)
  | wrapped (required : Bool) (i : Nat) : Formed (.group .and required [.leaf i])
  | run {required ns} (hns : 2 ≤ ns.length) (h : ∀ n ∈ ns, Formed n) : Formed (.group .and required ns)
  | operator {required l r} (op : Operator) (hl : Formed l) (hr : Formed r) :
      Formed (.group op.combinator required [l, r])

namespace Formed

variable {c : Combinator} {required : Bool} {ns : List Node}

theorem setRequired (h : Formed (.group c required ns)) (required' : Bool) :
    Formed (.group c required' ns) := by
  cases h with
  | wrapped _ i => exact .wrapped _ i
  | run hns h => exact .run hns h
  | operator op hl hr => exact .operator op hl hr

theorem children (h : Formed (.group c required ns)) : ∀ n ∈ ns, n.Formed := by
  cases h with
  | wrapped _ i => simpa using Formed.leaf i
  | run _ h => exact h
  | operator _ hl hr => simpa using ⟨hl, hr⟩

theorem shape (h : Formed (.group c required ns)) : (∃ i, ns = [.leaf i]) ∨ 2 ≤ ns.length := by
  cases h with
  | wrapped _ i => exact Or.inl ⟨i, rfl⟩
  | run hns _ => exact Or.inr hns
  | operator _ _ _ => exact Or.inr le_rfl

end Formed

/-- What is read between the brackets of a group: a single leaf alone, else the group, required as all
groups are before a bracket is closed. -/
def bare : Node → Node
  | group .and _ [leaf i] => leaf i
  | group c _ ns => group c true ns
  | leaf i => leaf i

theorem bare_run {required : Bool} {ns : List Node} (hns : 2 ≤ ns.length) :
    bare (.group .and required ns) = .group .and true ns := by
  match ns, hns with
  | n :: _ :: _, _ => cases n <;> rfl

theorem bare_operator (op : Operator) (required : Bool) (ns : List Node) :
    bare (.group op.combinator required ns) = .group op.combinator true ns := by
  cases op <;> rfl

/-- Closing the brackets gives the group back. -/
theorem ofNode_bare {c : Combinator} {required : Bool} {ns : List Node}
    (h : Formed (.group c required ns)) (required' : Bool) :
    (Group.ofNode required' (bare (.group c required ns))).toNode = .group c required' ns := by
  cases h with
  | wrapped _ i => rfl
  | run hns _ => rw [bare_run hns]; rfl
  | operator op _ _ => rw [bare_operator]; rfl

theorem ofRoot_bare {c : Combinator} {ns : List Node} (h : Formed (.group c true ns)) :
    Group.ofRoot (bare (.group c true ns)) = ⟨ns, c, true⟩ := by
  cases h with
  | wrapped _ i => rfl
  | run hns _ => rw [bare_run hns]; rfl
  | operator op _ _ => rw [bare_operator]; rfl

theorem childLeaves_group (c : Combinator) (required : Bool) (ns : List Node) :
    childLeaves [.group c required ns] = childLeaves ns := by
  rw [childLeaves_singleton, leaves]

/-- The leaves below nodes are numbered from `first` on. -/
def NumberedFrom (first : Nat) (ns : List Node) : Prop :=
  childLeaves ns = List.range' first (childLeaves ns).length

theorem NumberedFrom.children {first : Nat} {c : Combinator} {required : Bool} {ns : List Node}
    (h : NumberedFrom first [.group c required ns]) : NumberedFrom first ns := by
  rwa [NumberedFrom, childLeaves_group] at h

theorem numberedFrom_append {first : Nat} {ns ms : List Node} (h : NumberedFrom first (ns ++ ms)) :
    NumberedFrom first ns ∧ NumberedFrom (first + (childLeaves ns).length) ms := by
  rw [NumberedFrom, childLeaves_append, List.length_append, ← List.range'_append_1] at h
  exact List.append_inj h (by rw [List.length_range'])

end Node

theorem formed_of_derives {part : Part} {first : Nat} {ls : List Lexeme} {as : List Argument}
    {ns : List Node} (h : Derives part first ls as ns) : ∀ n ∈ ns, n.Formed := by
  induction h with
  | leaf => simpa using Node.Formed.leaf _
  | bracketedLeaf => simpa using Node.Formed.wrapped _ _
  | bracketedGroup _ ih =>
    simp only [List.forall_mem_singleton] at ih ⊢
    exact ih.setRequired _
  | none => simp
  | more _ _ ih ih' =>
    intro n hn
    rcases List.mem_append.1 hn with hn | hn
    · exact ih n hn
    · exact ih' n hn
  | single _ ih => exact ih
  | several _ hns ih => simpa using Node.Formed.run hns ih
  | operand _ ih => exact ih
  | operator _ _ ih ih' =>
    simp only [List.forall_mem_singleton] at ih ih' ⊢
    exact .operator _ ih ih'

/-! ## Reading what is written -/

namespace Place

/-- The part of the grammar that what is written at a place belongs to. -/
def part : Place → Part
  | unit => .unit
  | units => .units
  | content => .chain
  | right => .operand
  | left => .chain

/-- What is read at a place where nodes are written. -/
def read : Place → List Node → List Node
  | content, ns => ns.map Node.bare
  | _, ns => ns

end Place

theorem operand_of_unit {first : Nat} {ls : List Lexeme} {as : List Argument} {n : Node}
    (h : Derives .unit first ls as [n]) : Derives .operand first ls as [n] :=
  .single (.more .none h)

theorem length_eq_of_map {α β : Type} {f : α → Option β} {xs : List α} {ys : List β}
    (h : xs.map f = ys.map some) : ys.length = xs.length := by
  rw [← List.length_map (f := f), h, List.length_map]

/-- The texts of nodes of the grammar are lexemes that derive these nodes, with the arguments at their
leaves. -/
theorem derives_of_writes {arguments : List Argument} {place : Place} {ns : List Node}
    {texts : List (List Char)} (h : Writes arguments place ns texts)
    (harguments : ∀ a ∈ arguments, ∃ ls, Declares ls a) {first : Nat} (hformed : ∀ n ∈ ns, n.Formed)
    (hnumbered : Node.NumberedFrom first ns) :
    ∃ ls as, List.Forall₂ Lexeme.TextOf texts ls ∧ Derives place.part first ls as (place.read ns) ∧
      (Node.childLeaves ns).map (arguments[·]?) = as.map some := by
  -- the numbering tells which arguments the leaves of each part are
  induction h generalizing first with
  | @leaf i a h =>
    obtain rfl : i = first := (List.cons.inj hnumbered).1
    obtain ⟨ls, hls⟩ := harguments a (List.mem_of_getElem? h)
    obtain ⟨ls', htexts, hls'⟩ := hls.usage
    exact ⟨ls', [a], htexts, .leaf i hls', congrArg (fun x => [x]) h⟩
  | brackets b _ ih =>
    obtain ⟨ls, as, htexts, hderives, has⟩ := ih hformed hnumbered
    refine ⟨.opening b :: (ls ++ [.closing b]), as, ?_, ?_, has⟩
    · exact .cons (.opening b) (List.rel_append htexts (.cons (.closing b) .nil))
    · have hunit := derives_ofNode (b := b) hderives
      rwa [Node.ofNode_bare (hformed _ (List.mem_singleton_self _))] at hunit
  | none => exact ⟨[], [], .nil, .none, rfl⟩
  | more _ _ ih ih' =>
    obtain ⟨hns, hn⟩ := Node.numberedFrom_append hnumbered
    obtain ⟨ls, as, htexts, hderives, has⟩ := ih (fun n hn => hformed n (List.mem_append_left _ hn)) hns
    rw [← length_eq_of_map has] at hn
    obtain ⟨ls', as', htexts', hderives', has'⟩ :=
      ih' (fun n hn => hformed n (List.mem_append_right _ hn)) hn
    refine ⟨ls ++ ls', as ++ as', List.rel_append htexts htexts', .more hderives hderives', ?_⟩
    rw [Node.childLeaves_append, List.map_append, List.map_append, has, has']
  | and _ ih =>
    have hgroup := hformed _ (List.mem_singleton_self _)
    obtain ⟨ls, as, htexts, hderives, has⟩ := ih hgroup.children hnumbered.children
    refine ⟨ls, as, htexts, ?_, by rwa [Node.childLeaves_group]⟩
    obtain ⟨i, rfl⟩ | hns := hgroup.shape
    · exact .operand (.single hderives)
    · rw [Place.read, List.map_singleton, Node.bare_run hns]
      exact .operand (.several hderives hns)
  | @operator required l texts r texts' op _ _ ih ih' =>
    have hgroup := hformed _ (List.mem_singleton_self _)
    have hpair : Node.NumberedFrom first ([l] ++ [r]) := hnumbered.children
    obtain ⟨hl, hr⟩ := Node.numberedFrom_append hpair
    obtain ⟨ls, as, htexts, hderives, has⟩ := ih (fun n hn => hgroup.children n (by simp_all)) hl
    rw [← length_eq_of_map has] at hr
    obtain ⟨ls', as', htexts', hderives', has'⟩ := ih' (fun n hn => hgroup.children n (by simp_all)) hr
    refine ⟨ls ++ .operator op :: ls', as ++ as', ?_, ?_, ?_⟩
    · exact List.rel_append htexts (.cons (.operator op) htexts')
    · rw [Place.read, List.map_singleton, Node.bare_operator]
      exact .operator hderives hderives'
    · rw [Node.childLeaves_group, ← List.singleton_append, Node.childLeaves_append, List.map_append,
        List.map_append, has, has']
  | unit _ ih =>
    obtain ⟨ls, as, htexts, hderives, has⟩ := ih hformed hnumbered
    exact ⟨ls, as, htexts, operand_of_unit hderives, has⟩
  | run hns _ ih =>
    have hgroup := hformed _ (List.mem_singleton_self _)
    obtain ⟨ls, as, htexts, hderives, has⟩ := ih hgroup.children hnumbered.children
    exact ⟨ls, as, htexts, .several hderives hns, by rwa [Node.childLeaves_group]⟩
  | right _ ih =>
    obtain ⟨ls, as, htexts, hderives, has⟩ := ih hformed hnumbered
    exact ⟨ls, as, htexts, .operand hderives, has⟩
  | chain op _ ih =>
    obtain ⟨ls, as, htexts, hderives, has⟩ := ih hformed hnumbered
    rw [Place.read, List.map_singleton, Node.bare_operator] at hderives
    exact ⟨ls, as, htexts, hderives, has⟩

/-! ## Writing a tree -/

theorem exists_writes_units {arguments : List Argument} {ns : List Node}
    (h : ∀ n ∈ ns, ∃ texts, Writes arguments .unit [n] texts) :
    ∃ texts, Writes arguments .units ns texts := by
  induction ns using List.reverseRecOn with
  | nil => exact ⟨[], .none⟩
  | append_singleton ns n ih =>
    obtain ⟨texts, htexts⟩ := ih fun m hm => h m (List.mem_append_left _ hm)
    obtain ⟨texts', htexts'⟩ := h n (List.mem_append_right _ (List.mem_singleton_self _))
    exact ⟨_, .more htexts htexts'⟩

theorem exists_writes_brackets {arguments : List Argument} {c : Combinator} {required : Bool}
    {ns : List Node} (h : ∃ texts, Writes arguments .content [.group c required ns] texts) :
    ∃ texts, Writes arguments .unit [.group c required ns] texts := by
  obtain ⟨texts, htexts⟩ := h
  cases required with
  | false => exact ⟨_, .brackets .optional htexts⟩
  | true => exact ⟨_, .brackets .required htexts⟩

/-- Every tree of the grammar has a text, with all brackets. -/
theorem exists_writes {arguments : List Argument} {n : Node} (h : n.Formed)
    (hleaves : ∀ i ∈ n.leaves, i < arguments.length) : ∃ texts, Writes arguments .unit [n] texts := by
  have hleaf : ∀ i < arguments.length, ∃ texts, Writes arguments .unit [.leaf i] texts :=
    fun i hi => ⟨_, .leaf (List.getElem?_eq_getElem hi)⟩
  induction h with
  | leaf i => exact hleaf i (hleaves i (List.mem_singleton_self i))
  | wrapped required i =>
    obtain ⟨texts, htexts⟩ := hleaf i (hleaves i (List.mem_singleton_self i))
    exact exists_writes_brackets ⟨_, .and (.more .none htexts)⟩
  | @run required ns _ _ ih =>
    obtain ⟨texts, htexts⟩ := exists_writes_units fun n hn =>
      ih n hn fun i hi => hleaves i (Node.mem_childLeaves.2 ⟨n, hn, hi⟩)
    exact exists_writes_brackets ⟨_, .and htexts⟩
  | @operator required l r op _ _ ihl ihr =>
    obtain ⟨texts, htexts⟩ := ihl fun i hi => hleaves i (Node.mem_childLeaves.2 ⟨l, by simp, hi⟩)
    obtain ⟨texts', htexts'⟩ := ihr fun i hi => hleaves i (Node.mem_childLeaves.2 ⟨r, by simp, hi⟩)
    exact exists_writes_brackets ⟨_, .operator op (.right (.unit htexts)) (.unit htexts')⟩

/-! ## Compiled signatures -/

namespace Signature

variable {source text : String} {s : Signature}

theorem formed_of_compile (h : compile source = .ok s) :
    s.root.toNode.Formed ∧ (∀ a ∈ s.arguments, ∃ ls, Declares ls a) ∧
      s.lookup = nameTable s.arguments := by
  refine ⟨?_, declares_of_compile h⟩
  cases prescribes_of_compile h with
  | group _ hderives _ => exact formed_of_derives hderives _ (List.mem_singleton_self _)
  | leaf _ hderives _ => exact .wrapped true _

/-- The lexemes of a text of a compiled signature derive its root, but for the brackets around it. -/
theorem exists_derives_of_writes {texts : List (List Char)} (h : compile source = .ok s)
    (hw : s.Writes texts) :
    ∃ ls n, List.Forall₂ Lexeme.TextOf texts ls ∧ Derives .chain 0 ls s.arguments [n] ∧
      Group.ofRoot n = s.root := by
  obtain ⟨hformed, hdeclared, -⟩ := formed_of_compile h
  have hleaves : Node.childLeaves [s.root.toNode] = List.range s.arguments.length := by
    rw [Node.childLeaves_singleton, (numbered_of_compile h).1]
  have hnumbered : Node.NumberedFrom 0 [s.root.toNode] := by
    rw [Node.NumberedFrom, hleaves, List.length_range, List.range_eq_range']
  -- the arguments at the leaves are all arguments
  have harguments : ∀ {as}, (Node.childLeaves [s.root.toNode]).map (s.arguments[·]?) = as.map some →
      as = s.arguments := fun has => by
    rw [hleaves, Matching.map_getElem?_range] at has
    exact (List.map_injective_iff.2 (fun _ _ => Option.some.inj) has).symm
  have hall : ∀ n ∈ [s.root.toNode], n.Formed := by simpa using hformed
  cases hw with
  | brackets hw =>
    obtain ⟨ls, as, htexts, hderives, has⟩ := derives_of_writes hw hdeclared hall hnumbered
    obtain rfl := harguments has
    exact ⟨ls, _, htexts, .operand (operand_of_unit hderives), rfl⟩
  | bare hrequired hw =>
    obtain ⟨ls, as, htexts, hderives, has⟩ := derives_of_writes hw hdeclared hall hnumbered
    obtain rfl := harguments has
    refine ⟨ls, _, htexts, hderives, ?_⟩
    rw [Group.toNode, hrequired] at hformed ⊢
    rw [Node.ofRoot_bare hformed, ← hrequired]

theorem compile_written (h : compile source = .ok s) (hw : s.Written text) :
    compile text = .ok { s with source := trim text } := by
  obtain ⟨texts, hw, hlaid⟩ := hw
  obtain ⟨ls, n, htexts, hderives, hroot⟩ := exists_derives_of_writes h hw
  have hsplits := Lexeme.splits_of_laidOut hlaid htexts
  have hcompile := compile_of_derives hsplits hderives (numbered_of_compile h).2
  obtain ⟨-, -, hlookup⟩ := formed_of_compile h
  rw [hcompile, hroot, ← hlookup]

theorem exists_written (h : compile source = .ok s) : ∃ text, s.Written text := by
  obtain ⟨hleaves, -⟩ := numbered_of_compile h
  obtain ⟨texts, hw⟩ := exists_writes (formed_of_compile h).1 fun i hi =>
    List.mem_range.1 (hleaves ▸ hi)
  obtain ⟨cs, hlaid⟩ := Lexeme.exists_laidOut texts
  exact ⟨String.ofList cs, texts, .brackets hw, by rwa [String.toList_ofList]⟩

/-- A compiled signature can be written, and every text of it compiles to the same signature, but for the
text it was compiled from, which does not matter for equality. -/
theorem compile_of_written (h : compile source = .ok s) :
    (∃ text, s.Written text) ∧
      ∀ text, s.Written text →
        compile text = .ok { s with source := trim text } ∧
          ({ s with source := trim text } == s) = true :=
  ⟨exists_written h, fun _ hw => ⟨compile_written h hw, beq_of_eq rfl rfl⟩⟩

/-- Two arguments side by side, or a third one that may be absent. -/
def pairOrOptional : Signature where
  source := "<a --b>|[c]"
  root := ⟨[.group .and true [.leaf 0, .leaf 1], .group .and false [.leaf 2]], .xor, true⟩
  arguments := [{ name := "a", kind := .positional, type := .any, shape := .scalar },
    { name := "b", kind := .keyword, type := .native .bool, shape := .scalar },
    { name := "c", kind := .positional, type := .any, shape := .scalar }]
  lookup := [("a", 0), ("b", 1), ("c", 2)]

theorem written_pairOrOptional : pairOrOptional.Written "(any)a (bool) --b | [(any) c]" := by
  -- both pairs of angle brackets are left out
  have hwrites : pairOrOptional.Writes _ :=
    .bare rfl
      (.operator .xor (.right (.run (Nat.le_refl 2) (.more (.more .none (.leaf rfl)) (.leaf rfl))))
        (.unit (.brackets .optional (.and (.more .none (.leaf rfl))))))
  refine ⟨_, hwrites, ?_⟩
  cbv
  repeat'
    first
    | exact Lexeme.LaidOut.nil
    | refine Lexeme.LaidOut.blank (by decide) ?_
    | refine Lexeme.LaidOut.text (by decide) ?_

set_option maxRecDepth 4000 in
theorem compile_of_written_pairOrOptional :
    compile "<a --b>|[c]" = .ok pairOrOptional ∧
      pairOrOptional.Written "(any)a (bool) --b | [(any) c]" ∧
      compile "(any)a (bool) --b | [(any) c]" =
        .ok { pairOrOptional with source := "(any)a (bool) --b | [(any) c]" } := by
  have hcompile : compile "<a --b>|[c]" = .ok pairOrOptional := by cbv
  have htrim : trim "(any)a (bool) --b | [(any) c]" = "(any)a (bool) --b | [(any) c]" := by cbv
  have hagain := ((compile_of_written hcompile).2 _ written_pairOrOptional).1
  rw [htrim] at hagain
  exact ⟨hcompile, written_pairOrOptional, hagain⟩

end Signature

end Invocation
