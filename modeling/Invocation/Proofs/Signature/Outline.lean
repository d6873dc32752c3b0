/-
  The text of a logic tree.

  Every node has a line, with two spaces for each level above it, and below
  the line of a group stand the lines of its children.

  * `eq_of_indented`: a line gives its level and its text away;
  * `Declares.eq_of_usage`: the usage of a declared argument gives the
    argument away; `groupLine_inj`: so does the line of a group;
  * `Outlined`: nodes whose leaves are numbered from some index on and stand
    in a table of declared arguments; `Outlined.exists_line`: they begin with
    a line of their level;
  * `Ends`: what follows the lines below a level; `Outlined.eq_of_render`:
    from there on a node can be read back, one case for each kind of node;
  * `Signature.renderTree_eq_iff`: compiled signatures have the same text of
    their trees exactly if they are equal.
-/
import Invocation.Proofs.Signature.Shape
import Invocation.Proofs.Signature.Usage

namespace Invocation

open Invocation.Text

/-! ## Lines -/

/-- A mark that does not stand before it ends the same part of equal texts. -/
theorem eq_of_append_cons {mark : Char} {text text' rest rest' : List Char} (h : mark ∉ text)
    (h' : mark ∉ text') (heq : text ++ mark :: rest = text' ++ mark :: rest') :
    text = text' ∧ rest = rest' := by
  induction text generalizing text' with
  | nil =>
    cases text' with
    | nil => exact ⟨rfl, (List.cons.inj heq).2⟩
    | cons c cs => exact absurd ((List.cons.inj heq).1 ▸ List.mem_cons_self) h'
  | cons c cs ih =>
    cases text' with
    | nil => exact absurd ((List.cons.inj heq).1 ▸ List.mem_cons_self) h
    | cons d ds =>
      obtain ⟨rfl, htail⟩ := List.cons.inj heq
      obtain ⟨rfl, hrest⟩ := ih (fun hm => h (List.mem_cons_of_mem _ hm))
        (fun hm => h' (List.mem_cons_of_mem _ hm)) htail
      exact ⟨rfl, hrest⟩

/-- The text of a line: it does not begin with a space, and no line ends within it. -/
structure Unindented (text : String) : Prop where
  head : ∃ c cs, text.toList = c :: cs ∧ c ≠ ' '
  inline : '\n' ∉ text.toList

theorem indented_toList (level : Nat) (text : String) :
    (indented level text).toList = List.replicate (2 * level) ' ' ++ (text.toList ++ ['\n']) := by
  simp [indented]

/-- Before a text that begins with something else, the spaces can be counted. -/
theorem eq_of_replicate {m n : Nat} {c d : Char} {cs ds : List Char} (hc : c ≠ ' ') (hd : d ≠ ' ')
    (h : List.replicate m ' ' ++ c :: cs = List.replicate n ' ' ++ d :: ds) :
    m = n ∧ c :: cs = d :: ds := by
  induction m generalizing n with
  | zero =>
    cases n with
    | zero => exact ⟨rfl, h⟩
    | succ n => exact absurd (List.cons.inj h).1 hc
  | succ m ih =>
    cases n with
    | zero => exact absurd (List.cons.inj h).1.symm hd
    | succ n =>
      obtain ⟨rfl, hrest⟩ := ih (List.cons.inj h).2
      exact ⟨rfl, hrest⟩

theorem eq_of_indented {level level' : Nat} {text text' : String} {rest rest' : List Char}
    (h : Unindented text) (h' : Unindented text')
    (heq : (indented level text).toList ++ rest = (indented level' text').toList ++ rest') :
    level = level' ∧ text = text' ∧ rest = rest' := by
  obtain ⟨c, cs, htext, hc⟩ := h.head
  obtain ⟨d, ds, htext', hd⟩ := h'.head
  simp only [indented_toList, List.append_assoc, List.singleton_append] at heq
  rw [htext, htext', List.cons_append, List.cons_append] at heq
  obtain ⟨hlevel, hline⟩ := eq_of_replicate hc hd heq
  rw [← List.cons_append, ← List.cons_append, ← htext, ← htext'] at hline
  obtain ⟨hchars, hrest⟩ := eq_of_append_cons h.inline h'.inline hline
  exact ⟨by omega, String.toList_inj.1 hchars, hrest⟩

/-! ## Arguments and groups -/

theorem unindented_groupLine (c : Combinator) (required : Bool) : Unindented (groupLine c required) := by
  cases c <;> cases required <;> exact ⟨⟨_, _, rfl, by decide⟩, by decide⟩

theorem groupLine_inj {c d : Combinator} {required required' : Bool}
    (h : groupLine c required = groupLine d required') : c = d ∧ required = required' := by
  cases c <;> cases d <;> cases required <;> cases required' <;>
    first | exact ⟨rfl, rfl⟩ | exact absurd h (by decide)

/-- The line of a group does not begin with a parenthesis, as those of arguments do. -/
theorem groupLine_ne_usage (c : Combinator) (required : Bool) (a : Argument) :
    groupLine c required ≠ a.usage := by
  intro h
  have hhead := congrArg (fun text : String => text.toList.head?) h
  simp only [usage_toList, List.cons_append, List.head?_cons] at hhead
  revert hhead
  cases c <;> cases required <;> decide

namespace Declares

variable {ls ls' : List Lexeme} {a b : Argument}

theorem unindented_usage (h : Declares ls a) : Unindented a.usage := by
  obtain ⟨run, kind, name, specifier, hnames, hspells, rfl⟩ := h.exists_specifier
  have htext := (Specifier.spells_text hspells).2
  obtain ⟨-, hrun⟩ := hnames.isNameChar
  refine ⟨⟨_, _, usage_toList _, by decide⟩, fun hmem => ?_⟩
  rw [usage_toList, ← hnames.eq_append] at hmem
  have hmem : '\n' ∈ specifier.text ∨ '\n' ∈ run := by simpa using hmem
  rcases hmem with hmem | hmem
  · exact absurd (htext _ hmem).1 (by decide)
  · exact absurd (hrun _ hmem) (by decide)

/-- The usage of a declared argument gives all that was declared away. -/
theorem eq_of_usage (ha : Declares ls a) (hb : Declares ls' b) (h : a.usage = b.usage) : a = b := by
  obtain ⟨run, kind, name, specifier, hnames, hspells, rfl⟩ := ha.exists_specifier
  obtain ⟨run', kind', name', specifier', hnames', hspells', rfl⟩ := hb.exists_specifier
  have hchars := congrArg String.toList h
  simp only [usage_toList, ← hnames.eq_append, ← hnames'.eq_append, List.cons_append,
    List.append_assoc, List.cons.injEq, true_and] at hchars
  obtain ⟨htext, hrest⟩ := eq_of_append_cons hspells.not_mem hspells'.not_mem hchars
  obtain rfl : run = run' := (List.cons.inj hrest).2
  -- a text is read as one specifier only, and a run as one name
  have hspecifier : specifier = specifier' := by
    have hread := Specifier.ofChars_of_spells hspells 0
    have hread' := Specifier.ofChars_of_spells hspells' 0
    change specifier.text = specifier'.text at htext
    rw [htext, hread'] at hread
    exact (Except.ok.inj hread).symm
  have hsplit := hnames.splitMarker.symm.trans hnames'.splitMarker
  obtain ⟨rfl, hname⟩ := Prod.mk.inj hsplit
  rw [hspecifier, String.toList_inj.1 hname]

end Declares

/-! ## Nodes -/

/-- The leaves of nodes are numbered from `first` on, and each of them stands for an argument of a table
of declared arguments. -/
structure Outlined (arguments : List Argument) (first : Nat) (ns : List Node) : Prop where
  declared : ∀ a ∈ arguments, ∃ ls, Declares ls a
  numbered : Node.NumberedFrom first ns
  bounded : ∀ i ∈ Node.childLeaves ns, i < arguments.length

/-- The lines below a level end where nothing follows, or a line of that level or of one above it. -/
inductive Ends (level : Nat) : List Char → Prop
  | nothing : Ends level []
  | line {level' text} (rest) (hlevel : level' ≤ level) (htext : Unindented text) :
      Ends level ((indented level' text).toList ++ rest)

theorem Ends.below {level : Nat} {rest : List Char} (h : Ends level rest) : Ends (level + 1) rest := by
  cases h with
  | nothing => exact .nothing
  | line rest hlevel htext => exact .line rest (Nat.le_succ_of_le hlevel) htext

namespace Outlined

variable {as bs : List Argument} {level first : Nat} {n m : Node} {ns ms : List Node}
  {rest rest' : List Char}

theorem children {c : Combinator} {required : Bool} (h : Outlined as first [.group c required ns]) :
    Outlined as first ns :=
  ⟨h.declared, h.numbered.children, fun i hi => h.bounded i (by rwa [Node.childLeaves_group])⟩

theorem uncons (h : Outlined as first (n :: ns)) :
    Outlined as first [n] ∧ Outlined as (first + n.leaves.length) ns := by
  have hsplit : Node.NumberedFrom first ([n] ++ ns) := h.numbered
  obtain ⟨hn, hns⟩ := Node.numberedFrom_append hsplit
  rw [Node.childLeaves_singleton] at hns
  refine ⟨⟨h.declared, hn, fun i hi => h.bounded i ?_⟩, ⟨h.declared, hns, fun i hi => h.bounded i ?_⟩⟩
  · rw [Node.childLeaves_singleton] at hi
    exact List.mem_append_left _ hi
  · exact List.mem_append_right _ hi

/-- A leaf has the index `first`, and an argument in the table. -/
theorem exists_argument {i : Nat} (h : Outlined as first [.leaf i]) :
    i = first ∧ ∃ a ls, as[i]? = some a ∧ Declares ls a := by
  have hnumbered : [i] = [first] := h.numbered
  have hlt : i < as.length := h.bounded i (List.mem_singleton_self i)
  obtain ⟨ls, hls⟩ := h.declared as[i] (List.getElem_mem hlt)
  exact ⟨List.singleton_inj.1 hnumbered, as[i], ls, List.getElem?_eq_getElem hlt, hls⟩

theorem render_leaf {i : Nat} {a : Argument} (h : as[i]? = some a) :
    Node.render as level (.leaf i) = indented level a.usage := by
  rw [Node.render, h, Option.elim_some]

/-- The text of a node begins with a line of its level. -/
theorem exists_line (h : Outlined as first [n]) (level : Nat) :
    ∃ text rest, Unindented text ∧ (n.render as level).toList = (indented level text).toList ++ rest := by
  cases n with
  | leaf i =>
    obtain ⟨-, a, ls, ha, hls⟩ := h.exists_argument
    exact ⟨a.usage, [], hls.unindented_usage, by rw [render_leaf ha, List.append_nil]⟩
  | group c required ns =>
    exact ⟨groupLine c required, _, unindented_groupLine c required,
      by rw [Node.render, String.toList_append]⟩

/-- Below a level, lines end where a node of that level begins. -/
theorem ends (h : Outlined as first [n]) (level : Nat) (rest : List Char) :
    Ends level ((n.render as level).toList ++ rest) := by
  obtain ⟨text, rest', htext, hline⟩ := h.exists_line level
  rw [hline, List.append_assoc]
  exact .line _ le_rfl htext

theorem ends_renderAll (h : Outlined as first ns) (hrest : Ends level rest) :
    Ends (level + 1) ((Node.renderAll as (level + 1) ns).toList ++ rest) := by
  cases ns with
  | nil => exact hrest.below
  | cons n ns =>
    rw [Node.renderAll, String.toList_append, List.append_assoc]
    exact h.uncons.1.ends _ _

/-- Where the lines below a level end, no node below it begins. -/
theorem ne_of_ends (h : Outlined as first [n]) (hrest : Ends level rest) (rest' : List Char) :
    rest ≠ (n.render as (level + 1)).toList ++ rest' := by
  obtain ⟨text, rest'', htext, hline⟩ := h.exists_line (level + 1)
  rw [hline, List.append_assoc]
  intro heq
  cases hrest with
  | nothing => simp [indented_toList] at heq
  | line rest hlevel htext' =>
    obtain ⟨rfl, -, -⟩ := eq_of_indented htext' htext heq
    omega

/-- A node and the arguments at its leaves can be read back from its text: another node with the same text,
up to where the lines below its level end, is the same one. -/
def Recoverable (as bs : List Argument) (n : Node) : Prop :=
  ∀ {m level first rest rest'}, Outlined as first [n] → Outlined bs first [m] → Ends level rest →
    Ends level rest' → (n.render as level).toList ++ rest = (m.render bs level).toList ++ rest' →
      n = m ∧ rest = rest' ∧ ∀ i ∈ n.leaves, as[i]? = bs[i]?

theorem eq_of_renderAll (ih : ∀ n ∈ ns, Recoverable as bs n) (h : Outlined as first ns)
    (h' : Outlined bs first ms) (hrest : Ends level rest) (hrest' : Ends level rest')
    (heq : (Node.renderAll as (level + 1) ns).toList ++ rest =
      (Node.renderAll bs (level + 1) ms).toList ++ rest') :
    ns = ms ∧ rest = rest' ∧ ∀ i ∈ Node.childLeaves ns, as[i]? = bs[i]? := by
  induction ns generalizing ms first with
  | nil =>
    cases ms with
    | nil => exact ⟨rfl, heq, fun _ hi => absurd hi List.not_mem_nil⟩
    | cons m ms =>
      rw [Node.renderAll, Node.renderAll, String.toList_append, List.append_assoc] at heq
      exact absurd heq (h'.uncons.1.ne_of_ends hrest _)
  | cons n ns ihns =>
    obtain ⟨hn, hns⟩ := h.uncons
    cases ms with
    | nil =>
      rw [Node.renderAll, Node.renderAll, String.toList_append, List.append_assoc] at heq
      exact absurd heq.symm (hn.ne_of_ends hrest' _)
    | cons m ms =>
      obtain ⟨hm, hms⟩ := h'.uncons
      simp only [Node.renderAll, String.toList_append, List.append_assoc] at heq
      obtain ⟨rfl, heq, hleaves⟩ := ih n List.mem_cons_self hn hm (hns.ends_renderAll hrest)
        (hms.ends_renderAll hrest') heq
      obtain ⟨rfl, hrest, hchildren⟩ := ihns (fun k hk => ih k (List.mem_cons_of_mem _ hk)) hns hms heq
      refine ⟨rfl, hrest, fun i hi => ?_⟩
      rw [Node.childLeaves, List.mem_append] at hi
      exact hi.elim (hleaves i) (hchildren i)

theorem recoverable (as bs : List Argument) (n : Node) : Recoverable as bs n := by
  induction n using Node.treeInduction with
  | leaf i =>
    intro m level first rest rest' h h' _ _ heq
    obtain ⟨rfl, a, ls, ha, hls⟩ := h.exists_argument
    rw [render_leaf ha] at heq
    cases m with
    | leaf j =>
      obtain ⟨rfl, b, ls', hb, hls'⟩ := h'.exists_argument
      rw [render_leaf hb] at heq
      obtain ⟨-, husage, hrest⟩ := eq_of_indented hls.unindented_usage hls'.unindented_usage heq
      obtain rfl := hls.eq_of_usage hls' husage
      refine ⟨rfl, hrest, fun k hk => ?_⟩
      rw [List.mem_singleton.1 hk, ha, hb]
    | group c required ms =>
      rw [Node.render, String.toList_append, List.append_assoc] at heq
      obtain ⟨-, hline, -⟩ :=
        eq_of_indented hls.unindented_usage (unindented_groupLine c required) heq
      exact absurd hline.symm (groupLine_ne_usage c required a)
  | group c required ns ih =>
    intro m level first rest rest' h h' hrest hrest' heq
    rw [Node.render, String.toList_append, List.append_assoc] at heq
    cases m with
    | leaf j =>
      obtain ⟨-, b, ls', hb, hls'⟩ := h'.exists_argument
      rw [render_leaf hb] at heq
      obtain ⟨-, hline, -⟩ :=
        eq_of_indented (unindented_groupLine c required) hls'.unindented_usage heq
      exact absurd hline (groupLine_ne_usage c required b)
    | group d required' ms =>
      rw [Node.render, String.toList_append, List.append_assoc] at heq
      obtain ⟨-, hline, hchildren⟩ :=
        eq_of_indented (unindented_groupLine c required) (unindented_groupLine d required') heq
      obtain ⟨rfl, rfl⟩ := groupLine_inj hline
      obtain ⟨rfl, hrest, hleaves⟩ := eq_of_renderAll ih h.children h'.children hrest hrest' hchildren
      exact ⟨rfl, hrest, hleaves⟩

/-- Trees with the same text are the same, and so are the arguments at their leaves. -/
theorem eq_of_render (h : Outlined as first [n]) (h' : Outlined bs first [m])
    (heq : n.render as level = m.render bs level) : n = m ∧ ∀ i ∈ n.leaves, as[i]? = bs[i]? := by
  obtain ⟨hnode, -, hleaves⟩ := recoverable as bs n h h' .nothing .nothing
    (by rw [heq] : (n.render as level).toList ++ [] = (m.render bs level).toList ++ [])
  exact ⟨hnode, hleaves⟩

end Outlined

/-! ## Equal signatures -/

instance : LawfulBEq Node where
  eq_of_beq h := (Node.same_iff_eq _ _).1 h

theorem Group.eq_of_beq {g h : Group} (heq : (g == h) = true) : g = h := by
  obtain ⟨ns, c, required⟩ := g
  obtain ⟨ms, d, required'⟩ := h
  have hparts : (ns == ms && (c == d && required == required')) = true := heq
  simp only [Bool.and_eq_true, beq_iff_eq] at hparts
  obtain ⟨rfl, rfl, rfl⟩ := hparts
  rfl

theorem Group.toNode_inj {g h : Group} (heq : g.toNode = h.toNode) : g = h := by
  obtain ⟨ns, c, required⟩ := g
  obtain ⟨ms, d, required'⟩ := h
  obtain ⟨rfl, rfl, rfl⟩ := Node.group.inj heq
  rfl

/-- Declared arguments are equal if they compare as equal, for they have no validators yet. -/
theorem Declares.eq_of_beq {ls ls' : List Lexeme} {a b : Argument} (ha : Declares ls a)
    (hb : Declares ls' b) (heq : (a == b) = true) : a = b := by
  obtain ⟨run, kind, name, specifier, -, -, rfl⟩ := ha.exists_specifier
  obtain ⟨run', kind', name', specifier', -, -, rfl⟩ := hb.exists_specifier
  have hparts : (name == name' && (kind == kind' && (specifier.type == specifier'.type &&
      (specifier.shape == specifier'.shape && true)))) = true := heq
  simp only [Bool.and_eq_true, beq_iff_eq] at hparts
  obtain ⟨rfl, rfl, htype, hshape, -⟩ := hparts
  rw [htype, hshape]

theorem eq_of_beq_of_declared {as bs : List Argument} (has : ∀ a ∈ as, ∃ ls, Declares ls a)
    (hbs : ∀ b ∈ bs, ∃ ls, Declares ls b) (heq : (as == bs) = true) : as = bs := by
  induction as generalizing bs with
  | nil =>
    cases bs with
    | nil => rfl
    | cons b bs => cases heq
  | cons a as ih =>
    cases bs with
    | nil => cases heq
    | cons b bs =>
      obtain ⟨⟨ls, ha⟩, has⟩ := List.forall_mem_cons.1 has
      obtain ⟨⟨ls', hb⟩, hbs⟩ := List.forall_mem_cons.1 hbs
      rw [List.cons_beq_cons, Bool.and_eq_true] at heq
      rw [ha.eq_of_beq hb heq.1, ih has hbs heq.2]

namespace Signature

variable {source source' : String} {s t : Signature}

theorem outlined_of_compile (h : compile source = .ok s) :
    Outlined s.arguments 0 [s.root.toNode] := by
  have hleaves := (numbered_of_compile h).1
  refine ⟨(declares_of_compile h).1, ?_, ?_⟩
  · rw [Node.NumberedFrom, Node.childLeaves_singleton, hleaves, List.length_range, List.range_eq_range']
  · rw [Node.childLeaves_singleton, hleaves]
    exact fun i => List.mem_range.1

/-- Compiled signatures with the same text of their trees have the same tree and the same arguments. -/
theorem eq_of_renderTree (hs : compile source = .ok s) (ht : compile source' = .ok t)
    (h : s.renderTree = t.renderTree) : s.root = t.root ∧ s.arguments = t.arguments := by
  obtain ⟨hnode, harguments⟩ := (outlined_of_compile hs).eq_of_render (outlined_of_compile ht) h
  have hleaves := (numbered_of_compile hs).1
  have hlength : s.arguments.length = t.arguments.length := by
    have hranges := hleaves.symm.trans (hnode ▸ (numbered_of_compile ht).1)
    simpa using congrArg List.length hranges
  refine ⟨Group.toNode_inj hnode, List.ext_getElem? fun i => ?_⟩
  by_cases hi : i < s.arguments.length
  · exact harguments i (by rw [hleaves]; exact List.mem_range.2 hi)
  · rw [List.getElem?_eq_none (by omega), List.getElem?_eq_none (by omega)]

/-- Compiled signatures are equal if their trees and their arguments are. -/
theorem beq_iff_of_compile (hs : compile source = .ok s) (ht : compile source' = .ok t) :
    (s == t) = true ↔ s.root = t.root ∧ s.arguments = t.arguments := by
  refine ⟨fun h => ?_, fun ⟨hroot, harguments⟩ => beq_of_eq hroot harguments⟩
  have hparts : (s.root == t.root && s.arguments == t.arguments) = true := h
  rw [Bool.and_eq_true] at hparts
  exact ⟨Group.eq_of_beq hparts.1,
    eq_of_beq_of_declared (declares_of_compile hs).1 (declares_of_compile ht).1 hparts.2⟩

/-- **The text of its tree identifies a compiled signature.** Two texts that compile give signatures with
the same text of their trees exactly if the signatures are equal: they have the same tree, with the same
combinators and the same required groups, and the same arguments. -/
theorem renderTree_eq_iff (hs : compile source = .ok s) (ht : compile source' = .ok t) :
    (s.renderTree = t.renderTree ↔ (s == t) = true) ∧
      ((s == t) = true ↔ s.root = t.root ∧ s.arguments = t.arguments) := by
  have hbeq := beq_iff_of_compile hs ht
  refine ⟨⟨fun h => hbeq.2 (eq_of_renderTree hs ht h), fun h => ?_⟩, hbeq⟩
  obtain ⟨hroot, harguments⟩ := hbeq.1 h
  rw [renderTree, renderTree, hroot, harguments]

set_option maxRecDepth 4000 in
/-- One signature written in two ways, and another one, whose choice is in an optional group. -/
theorem renderTree_eq_iff_choice :
    ∃ s t u, compile "(string[2]) a <(hex) b | --c>" = .ok s ∧
      compile " (str [ 02 ])a<( hex )b|(bool)--c>\n" = .ok t ∧
      compile "(str[2]) a [(hex) b | --c]" = .ok u ∧
      s.renderTree = "AND (required)\n  (str[2]) a\n  XOR (required)\n    (hex) b\n    (bool) --c\n" ∧
      (s == t) = true ∧ t.renderTree = s.renderTree ∧ (s == u) = false ∧ s.renderTree ≠ u.renderTree := by
  let arguments : List Argument :=
    [{ name := "a", kind := .positional, type := .native .str, shape := .fixed 2 },
      { name := "b", kind := .positional, type := .custom "hex", shape := .scalar },
      { name := "c", kind := .keyword, type := .native .bool, shape := .scalar }]
  let table : List (String × Nat) := [("a", 0), ("b", 1), ("c", 2)]
  let root (required : Bool) : Group :=
    ⟨[.leaf 0, .group .xor required [.leaf 1, .leaf 2]], .and, true⟩
  have hs : compile "(string[2]) a <(hex) b | --c>" =
      .ok ⟨"(string[2]) a <(hex) b | --c>", root true, arguments, table⟩ := by cbv
  have ht : compile " (str [ 02 ])a<( hex )b|(bool)--c>\n" =
      .ok ⟨"(str [ 02 ])a<( hex )b|(bool)--c>", root true, arguments, table⟩ := by cbv
  have hu : compile "(str[2]) a [(hex) b | --c]" =
      .ok ⟨"(str[2]) a [(hex) b | --c]", root false, arguments, table⟩ := by cbv
  have heq := (renderTree_eq_iff hs ht).2.2 ⟨rfl, rfl⟩
  have hne : root true ≠ root false := by simp [root]
  refine ⟨_, _, _, hs, ht, hu, by decide, heq, ((renderTree_eq_iff hs ht).1.2 heq).symm, ?_, fun h => ?_⟩
  · exact Bool.eq_false_iff.2 fun h => hne ((renderTree_eq_iff hs hu).2.1 h).1
  · exact hne ((renderTree_eq_iff hs hu).2.1 ((renderTree_eq_iff hs hu).1.1 h)).1

end Signature

end Invocation
