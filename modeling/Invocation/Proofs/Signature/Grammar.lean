/-
  The grammar of signatures, and what compiling makes of it.

  * `Declares`, `Derives`: the grammar over lexemes, each derivation with the
    arguments it declares and the nodes it stands for;
  * `Reading.Covers`: what has been read is a derivation with some brackets
    still open. `Reading.covers_of_step` is the step, `derives_of_finish` the
    end of the text;
  * `Reading.steps_of_derives`: what derives is read without an error;
  * `Signature.compile_eq_ok_iff_prescribes`: compiling accepts the texts of
    the grammar and builds the signature that the grammar prescribes, which
    is one at most (`Signature.prescribes_unique`).
-/
import Invocation.Proofs.Signature.Lexemes
import Invocation.Proofs.Signature.Numbering
import Invocation.Proofs.Signature.Specifiers

namespace Invocation

open Invocation.Text

/-! ## The grammar -/

/-- The kind and the identifier in a run of name characters: a double hyphen in front makes a keyword. -/
inductive Names : List Char → Kind → String → Prop
  | positional {name} (h : isIdentifier name = true) : Names name.toList .positional name
  | keyword {name} (h : isIdentifier name = true) : Names ('-' :: '-' :: name.toList) .keyword name

/-- The declaration of an argument: a name, which a specifier may precede. Without one, a positional
argument is a token of any type and a keyword is a switch. -/
inductive Declares : List Lexeme → Argument → Prop
  | any {run name} (h : Names run .positional name) :
      Declares [.name run] { name, kind := .positional, type := .any, shape := .scalar }
  | switch {run name} (h : Names run .keyword name) :
      Declares [.name run] { name, kind := .keyword, type := .native .bool, shape := .scalar }
  | specified {text specifier run kind name} (hs : Specifier.Spells text specifier)
      (h : Names run kind name) : Declares [.specifier text, .name run]
        { name, kind, type := specifier.type, shape := specifier.shape }

/-- The nonterminals of the grammar. -/
inductive Part where
  /-- An argument, or a signature in brackets. -/
  | unit
  /-- Any number of units side by side. -/
  | units
  /-- Units side by side, at least one. -/
  | operand
  /-- Operands with operators between them. -/
  | chain
  deriving DecidableEq, Repr

/-- The derivations of a part: the lexemes, the arguments they declare when `first` arguments are declared
before them, and the nodes they stand for. All parts but `units` stand for one node. -/
inductive Derives : Part → Nat → List Lexeme → List Argument → List Node → Prop
  | leaf {ls a} (first : Nat) (h : Declares ls a) : Derives .unit first ls [a] [.leaf first]
  /-- Brackets around a single leaf make a group with one child. -/
  | bracketedLeaf {first b ls as i} (h : Derives .chain first ls as [.leaf i]) :
      Derives .unit first (.opening b :: (ls ++ [.closing b])) as [.group .and b.isRequired [.leaf i]]
  /-- Brackets around a group say whether it is required. -/
  | bracketedGroup {first b ls as c required ns} (h : Derives .chain first ls as [.group c required ns]) :
      Derives .unit first (.opening b :: (ls ++ [.closing b])) as [.group c b.isRequired ns]
  | none {first} : Derives .units first [] [] []
  | more {first ls as ns ls' as' n} (h : Derives .units first ls as ns)
      (h' : Derives .unit (first + as.length) ls' as' [n]) :
      Derives .units first (ls ++ ls') (as ++ as') (ns ++ [n])
  | single {first ls as n} (h : Derives .units first ls as [n]) : Derives .operand first ls as [n]
  | several {first ls as ns} (h : Derives .units first ls as ns) (hns : 2 ≤ ns.length) :
      Derives .operand first ls as [.group .and true ns]
  | operand {first ls as n} (h : Derives .operand first ls as [n]) : Derives .chain first ls as [n]
  /-- Operators have one precedence and group from the left. -/
  | operator {first ls as left op ls' as' right} (h : Derives .chain first ls as [left])
      (h' : Derives .operand (first + as.length) ls' as' [right]) :
      Derives .chain first (ls ++ .operator op :: ls') (as ++ as') [.group op.combinator true [left, right]]

/-- The signature that the grammar prescribes for a text: the text splits into lexemes that derive a chain,
no two arguments have one name, and the root is the group of the chain; a leaf is made one. -/
inductive Prescribes (source : String) : Signature → Prop
  | group {ls as c required ns} (hsplits : Lexeme.Splits source.toList ls)
      (h : Derives .chain 0 ls as [.group c required ns]) (hnames : (as.map Argument.name).Nodup) :
      Prescribes source ⟨trim source, ⟨ns, c, required⟩, as, nameTable as⟩
  | leaf {ls as i} (hsplits : Lexeme.Splits source.toList ls) (h : Derives .chain 0 ls as [.leaf i])
      (hnames : (as.map Argument.name).Nodup) :
      Prescribes source ⟨trim source, ⟨[.leaf i], .and, true⟩, as, nameTable as⟩

/-! ## Names -/

theorem names_of_splitMarker {run chars : List Char} {kind : Kind}
    (h : Reading.splitMarker run = (kind, chars)) (hid : isIdentifierChars chars = true) :
    Names run kind (String.ofList chars) := by
  have hid' : isIdentifier (String.ofList chars) = true := by rwa [isIdentifier, String.toList_ofList]
  unfold Reading.splitMarker at h
  split at h <;> cases h
  · have hnames := Names.keyword hid'
    rwa [String.toList_ofList] at hnames
  · have hnames := Names.positional hid'
    rwa [String.toList_ofList] at hnames

theorem Names.isIdentifierChars {run : List Char} {kind : Kind} {name : String} (h : Names run kind name) :
    Text.isIdentifierChars name.toList = true := by
  cases h <;> assumption

theorem Names.splitMarker {run : List Char} {kind : Kind} {name : String} (h : Names run kind name) :
    Reading.splitMarker run = (kind, name.toList) := by
  cases h with
  | keyword hid => rfl
  | positional hid =>
    -- an identifier does not begin with a hyphen
    unfold Reading.splitMarker
    split
    · next rest hname =>
      rw [isIdentifier, hname, Text.isIdentifierChars] at hid
      exact absurd (Bool.and_eq_true _ _ ▸ hid).1 (by decide)
    · rfl

/-! ## Declared arguments -/

theorem declares_of_derives {part : Part} {first : Nat} {ls : List Lexeme} {as : List Argument}
    {ns : List Node} (h : Derives part first ls as ns) : ∀ a ∈ as, ∃ ls, Declares ls a := by
  induction h with
  | leaf _ h => exact fun a ha => ⟨_, List.mem_singleton.1 ha ▸ h⟩
  | bracketedLeaf _ ih => exact ih
  | bracketedGroup _ ih => exact ih
  | none => exact fun a ha => absurd ha List.not_mem_nil
  | more _ _ ih ih' => exact fun a ha => (List.mem_append.1 ha).elim (ih a) (ih' a)
  | single _ ih => exact ih
  | several _ _ ih => exact ih
  | operand _ ih => exact ih
  | operator _ _ ih ih' => exact fun a ha => (List.mem_append.1 ha).elim (ih a) (ih' a)

/-! ## From the reading to a derivation -/

theorem derives_ofNode {b : Bracket} {first : Nat} {ls : List Lexeme} {as : List Argument} {n : Node}
    (h : Derives .chain first ls as [n]) :
    Derives .unit first (.opening b :: (ls ++ [.closing b])) as [(Group.ofNode b.isRequired n).toNode] := by
  cases n with
  | leaf i => exact .bracketedLeaf h
  | group c required ns => exact .bracketedGroup h

namespace Level

/-- The lexemes and arguments that a level has been read from, after `first` arguments. -/
inductive Covers (first : Nat) : Level → List Lexeme → List Argument → Prop
  | units {units ls as} (h : Derives .units first ls as units) : Covers first ⟨none, units⟩ ls as
  | chain {left units ls as ls' as'} (op : Operator) (offset : Nat) (h : Derives .chain first ls as [left])
      (h' : Derives .units (first + as.length) ls' as' units) :
      Covers first ⟨some (left, op, offset), units⟩ (ls ++ .operator op :: ls') (as ++ as')

variable {level : Level} {first : Nat} {ls : List Lexeme} {as : List Argument}

theorem covers_nil (first : Nat) : Covers first {} [] [] := .units .none

theorem Covers.addUnit (h : level.Covers first ls as) {ls' : List Lexeme} {as' : List Argument} {n : Node}
    (hn : Derives .unit (first + as.length) ls' as' [n]) :
    (level.addUnit n).Covers first (ls ++ ls') (as ++ as') := by
  cases h with
  | units h => exact .units (.more h hn)
  | chain _ _ h h' =>
    rw [List.length_append, ← Nat.add_assoc] at hn
    rw [List.append_assoc, List.cons_append, List.append_assoc]
    exact .chain _ _ h (.more h' hn)

theorem derives_of_operand? {units : List Node} {chain : Option (Node × Operator × Nat)} {operand : Node}
    (h : Derives .units first ls as units) (ho : operand? ⟨chain, units⟩ = some operand) :
    Derives .operand first ls as [operand] := by
  unfold operand? at ho
  split at ho
  · cases ho
  · next hunits =>
    cases ho
    obtain rfl : units = _ := hunits
    exact .single h
  · next hnil hone =>
    cases ho
    refine .several h ?_
    match units with
    | [] => exact absurd rfl hnil
    | [unit] => exact absurd rfl (hone unit)
    | _ :: _ :: _ => simp

/-- A level that ends with an operand is a chain. -/
theorem Covers.derives (h : level.Covers first ls as) {operand : Node}
    (ho : level.operand? = some operand) : Derives .chain first ls as [level.join operand] := by
  cases h with
  | units h => exact .operand (derives_of_operand? h ho)
  | chain _ _ h h' => exact .operator h (derives_of_operand? h' ho)

theorem Covers.addOperator (h : level.Covers first ls as) {operand : Node}
    (ho : level.operand? = some operand) (op : Operator) (offset : Nat) :
    (level.addOperator operand op offset).Covers first (ls ++ [.operator op]) as := by
  have hcovers := Covers.chain op offset (h.derives ho) .none
  rwa [List.append_nil] at hcovers

end Level

namespace Reading

/-- The lexemes and arguments before the innermost open bracket, that bracket included. -/
inductive Encloses : List OpenGroup → List Lexeme → List Argument → Prop
  | nil : Encloses [] [] []
  | cons {groups ls as ls' as'} (group : OpenGroup) (h : Encloses groups ls as)
      (h' : group.outer.Covers as.length ls' as') :
      Encloses (group :: groups) (ls ++ ls' ++ [.opening group.bracket]) (as ++ as')

/-- The specifier that waits for its argument. -/
inductive Awaits : Option (Specifier × Nat) → List Lexeme → Prop
  | none : Awaits none []
  | some {text specifier offset} (h : Specifier.Spells text specifier) :
      Awaits (some (specifier, offset)) [.specifier text]

/-- The lexemes that have been read: those before the innermost open bracket, those of the level, and a
specifier that waits for its argument. -/
def Covers (r : Reading) (ls : List Lexeme) : Prop :=
  ∃ before as mine as' last, Encloses r.enclosing before as ∧ r.level.Covers as.length mine as' ∧
    Awaits r.pending last ∧ r.arguments = as ++ as' ∧ ls = before ++ mine ++ last

variable {r r' : Reading} {ls : List Lexeme}

theorem declares_of_awaits {pending : Option (Specifier × Nat)} {run : List Char} {kind : Kind}
    {name : String} (h : Awaits pending ls) (hnames : Names run kind name) :
    Declares (ls ++ [.name run])
      { name, kind, type := ((pending.map Prod.fst).getD (.default kind)).type
        shape := ((pending.map Prod.fst).getD (.default kind)).shape } := by
  cases h with
  | none =>
    cases kind with
    | positional => exact .any hnames
    | keyword => exact .switch hnames
  | some hs => exact .specified hs hnames

theorem covers_of_addArgument {run : List Char} {offset : Nat} (h : r.addArgument run offset = .ok r')
    (hr : r.Covers ls) : r'.Covers (ls ++ [.name run]) := by
  obtain ⟨before, as, mine, as', last, henc, hlevel, hlast, hargs, rfl⟩ := hr
  cases hmarker : splitMarker run with
  | mk kind chars =>
    simp only [addArgument, hmarker] at h
    split at h
    · cases h
    next hid =>
    split at h
    · cases h
    cases h
    have hnames := names_of_splitMarker hmarker (by simpa using hid)
    have hleaf := Derives.leaf (as.length + as'.length) (declares_of_awaits hlast hnames)
    have hlevel' := hlevel.addUnit hleaf
    rw [← List.length_append, ← hargs] at hlevel'
    exact ⟨before, as, _, _, [], henc, hlevel', .none, by rw [hargs, List.append_assoc], by simp⟩

theorem covers_of_openGroup (hpending : r.pending = none) (bracket : Bracket) (offset : Nat)
    (hr : r.Covers ls) : (r.openGroup bracket offset).Covers (ls ++ [.opening bracket]) := by
  obtain ⟨before, as, mine, as', last, henc, hlevel, hlast, hargs, rfl⟩ := hr
  have henc' := Encloses.cons ⟨bracket, offset, r.level⟩ henc hlevel
  rw [hpending] at hlast
  cases hlast
  exact ⟨_, _, [], [], [], henc', Level.covers_nil _, hpending ▸ .none,
    by rw [openGroup, hargs, List.append_nil], by simp⟩

theorem covers_of_addOperator (hpending : r.pending = none) {op : Operator} {offset : Nat}
    (h : r.addOperator op offset = .ok r') (hr : r.Covers ls) : r'.Covers (ls ++ [.operator op]) := by
  obtain ⟨before, as, mine, as', last, henc, hlevel, hlast, hargs, rfl⟩ := hr
  unfold addOperator at h
  split at h
  · cases h
  · next operand ho =>
    cases h
    rw [hpending] at hlast
    cases hlast
    exact ⟨before, as, _, as', [], henc, hlevel.addOperator ho op offset, hpending ▸ .none, hargs,
      by simp⟩

theorem covers_of_closeGroup (hpending : r.pending = none) {bracket : Bracket} {offset : Nat}
    (h : r.closeGroup bracket offset = .ok r') (hr : r.Covers ls) : r'.Covers (ls ++ [.closing bracket]) := by
  obtain ⟨before, as, mine, as', last, henc, hlevel, hlast, hargs, rfl⟩ := hr
  unfold closeGroup at h
  split at h
  · cases h
  · cases h
  · cases h
  · next operand group outer ho hgroups =>
    split at h
    · next hbracket =>
      cases h
      rw [hpending] at hlast
      cases hlast
      rw [hgroups] at henc
      cases henc with
      | @cons _ before as mine' as'' _ henc hlevel' =>
        rw [List.length_append] at hlevel
        have hunit := hlevel'.addUnit (derives_ofNode (b := bracket) (hlevel.derives ho))
        exact ⟨before, as, _, _, [], henc, hunit, hpending ▸ .none,
          by rw [hargs, List.append_assoc], by simp [hbracket]⟩
    · cases h

/-- Reading a lexeme extends what has been read by it. -/
theorem covers_of_step {placed : Placed} (h : r.step placed = .ok r') (hr : r.Covers ls) :
    r'.Covers (ls ++ [placed.lexeme]) := by
  unfold step at h
  split at h
  · next hl => rw [hl]; exact covers_of_addArgument h hr
  · cases h
  · next text hpending hl =>
    rw [hl]
    cases hs : Specifier.ofChars text placed.offset with
    | error e => rw [hs] at h; cases h
    | ok specifier =>
      rw [hs] at h
      cases h
      obtain ⟨before, as, mine, as', last, henc, hlevel, hlast, hargs, rfl⟩ := hr
      rw [hpending] at hlast
      cases hlast
      exact ⟨before, as, mine, as', _, henc, hlevel, .some (Specifier.spells_of_ofChars hs), hargs,
        by simp⟩
  · next hpending hl => cases h; rw [hl]; exact covers_of_openGroup hpending _ _ hr
  · next hpending hl => rw [hl]; exact covers_of_addOperator hpending h hr
  · next hpending hl => rw [hl]; exact covers_of_closeGroup hpending h hr

theorem covers_of_steps {placed : List Placed} (h : r.steps placed = .ok r') (hr : r.Covers ls) :
    r'.Covers (ls ++ placed.map Placed.lexeme) := by
  induction placed generalizing r ls with
  | nil =>
    cases h
    rwa [List.map_nil, List.append_nil]
  | cons first rest ih =>
    rw [steps] at h
    split at h
    · next hstep =>
      rw [List.map_cons, ← List.singleton_append, ← List.append_assoc]
      exact ih h (covers_of_step hstep hr)
    · cases h

theorem covers_nil : Covers {} [] := ⟨[], [], [], [], [], .nil, Level.covers_nil 0, .none, rfl, rfl⟩

/-- What has been read at the end of a text is a chain. -/
theorem derives_of_finish {n : Node} (h : r.finish = .ok n) (hr : r.Covers ls) :
    Derives .chain 0 ls r.arguments [n] := by
  obtain ⟨before, as, mine, as', last, henc, hlevel, hlast, hargs, rfl⟩ := hr
  unfold finish at h
  split at h
  · cases h
  · cases h
  · cases h
  · next operand hpending ho hgroups =>
    cases h
    rw [hpending] at hlast
    rw [hgroups] at henc
    cases hlast
    cases henc
    rw [hargs, List.append_nil]
    exact hlevel.derives ho
  · cases h

/-! ## From a derivation to the reading -/

theorem steps_append (r : Reading) (ps qs : List Placed) :
    r.steps (ps ++ qs) = (r.steps ps).bind fun r' => r'.steps qs := by
  induction ps generalizing r with
  | nil => rfl
  | cons placed rest ih =>
    rw [List.cons_append, steps, steps]
    cases r.step placed with
    | error e => rfl
    | ok r' => exact ih r'

theorem steps_append_of_ok {r r' : Reading} {ps : List Placed} (h : r.steps ps = .ok r') (qs : List Placed) :
    r.steps (ps ++ qs) = r'.steps qs := by
  rw [steps_append, h]
  rfl

theorem steps_of_step {placed : Placed} (h : r.step placed = .ok r') : r.steps [placed] = .ok r' := by
  rw [steps, h]
  rfl

/-- The reading with more units at the end of its level and more arguments. -/
def extend (r : Reading) (as : List Argument) (ns : List Node) : Reading :=
  { r with level := { r.level with units := r.level.units ++ ns }, arguments := r.arguments ++ as }

theorem extend_nil (r : Reading) : r.extend [] [] = r := by
  rw [extend, List.append_nil, List.append_nil]

theorem extend_extend (r : Reading) (as as' : List Argument) (ns ns' : List Node) :
    (r.extend as ns).extend as' ns' = r.extend (as ++ as') (ns ++ ns') := by
  simp only [extend, List.append_assoc]

theorem step_of_name {placed : Placed} {run : List Char} (h : placed.lexeme = .name run) :
    r.step placed = r.addArgument run placed.offset := by
  simp only [step, h]

theorem addArgument_of_names {run : List Char} {kind : Kind} {name : String} (h : Names run kind name)
    (offset : Nat) (hnew : name ∉ r.arguments.map Argument.name) :
    r.addArgument run offset =
      .ok
        { r.extend
            [{ name, kind, type := ((r.pending.map Prod.fst).getD (.default kind)).type
               shape := ((r.pending.map Prod.fst).getD (.default kind)).shape }]
            [.leaf r.arguments.length] with pending := none } := by
  have hany : ¬ r.arguments.any (·.name == name) = true := by
    intro hany
    obtain ⟨a, ha, hname⟩ := List.any_eq_true.1 hany
    exact hnew (List.mem_map.2 ⟨a, ha, beq_iff_eq.1 hname⟩)
  simp only [addArgument, h.splitMarker, String.ofList_toList, h.isIdentifierChars]
  rw [if_neg (by simp), if_neg hany]
  rfl

theorem steps_of_declares {a : Argument} {placed : List Placed} (h : Declares ls a)
    (hplaced : placed.map Placed.lexeme = ls) (hpending : r.pending = none)
    (hnew : a.name ∉ r.arguments.map Argument.name) :
    r.steps placed = .ok (r.extend [a] [.leaf r.arguments.length]) := by
  obtain ⟨level, enclosing, arguments, pending⟩ := r
  obtain rfl : pending = none := hpending
  cases h with
  | any hnames =>
    obtain ⟨p, rfl, hp⟩ := List.map_eq_singleton_iff.1 hplaced
    exact steps_of_step ((step_of_name hp).trans (addArgument_of_names hnames p.offset hnew))
  | switch hnames =>
    obtain ⟨p, rfl, hp⟩ := List.map_eq_singleton_iff.1 hplaced
    exact steps_of_step ((step_of_name hp).trans (addArgument_of_names hnames p.offset hnew))
  | @specified text specifier run kind name hs hnames =>
    obtain ⟨p, rest, rfl, hp, hrest⟩ := List.map_eq_cons_iff.1 hplaced
    obtain ⟨q, rfl, hq⟩ := List.map_eq_singleton_iff.1 hrest
    have hstep : step ⟨level, enclosing, arguments, none⟩ p =
        .ok ⟨level, enclosing, arguments, some (specifier, p.offset)⟩ := by
      simp only [step, hp, Specifier.ofChars_of_spells hs]
      rfl
    rw [← List.singleton_append, steps_append_of_ok (steps_of_step hstep)]
    exact steps_of_step ((step_of_name hq).trans (addArgument_of_names hnames q.offset hnew))

/-- Where a part may begin: an operand after an operator or at the beginning of a level, a chain only at
the beginning. -/
def Starts (r : Reading) : Part → Prop
  | .unit | .units => True
  | .operand => r.level.units = []
  | .chain => r.level = {}

/-- What reading the lexemes of a part does. Units go to the end of the level; an operand is all that
stands in the level after an operator, and a chain is the whole level. -/
def Yields (r : Reading) (as : List Argument) (ns : List Node) : Part → Reading → Prop
  | .unit, r' => r' = r.extend as ns
  | .units, r' => r' = r.extend as ns
  | .operand, r' => ∃ units operand, r' = r.extend as units ∧
      Level.operand? ⟨r.level.chain, units⟩ = some operand ∧ ns = [operand]
  | .chain, r' => ∃ level operand, r' = { r with level, arguments := r.arguments ++ as } ∧
      level.operand? = some operand ∧ ns = [level.join operand]

/-- What stands in brackets is read on a level of its own. -/
theorem steps_of_brackets {b : Bracket} {as : List Argument} {n : Node} {placed : List Placed}
    (hpending : r.pending = none) (hplaced : placed.map Placed.lexeme = .opening b :: (ls ++ [.closing b]))
    (ih : ∀ {offset : Nat} {inner : List Placed}, inner.map Placed.lexeme = ls →
      ∃ r', (r.openGroup b offset).steps inner = .ok r' ∧
        (r.openGroup b offset).Yields as [n] .chain r') :
    r.steps placed = .ok (r.extend as [(Group.ofNode b.isRequired n).toNode]) := by
  obtain ⟨p, rest, rfl, hp, hrest⟩ := List.map_eq_cons_iff.1 hplaced
  obtain ⟨inner, last, rfl, hinner, hlast⟩ := List.map_eq_append_iff.1 hrest
  obtain ⟨q, rfl, hq⟩ := List.map_eq_singleton_iff.1 hlast
  have hopen : r.step p = .ok (r.openGroup b p.offset) := by simp only [step, hpending, hp]
  obtain ⟨r', hsteps, hyields⟩ := ih hinner
  obtain ⟨level, operand, rfl, ho, hn⟩ := hyields
  obtain rfl : n = level.join operand := (List.cons.inj hn).1
  rw [← List.singleton_append, steps_append_of_ok (steps_of_step hopen), steps_append_of_ok hsteps]
  refine steps_of_step ?_
  simp only [step, openGroup, hpending, hq, closeGroup, ho, if_true, extend]
  rfl

/-- What derives is read without an error. -/
theorem steps_of_derives {part : Part} {first : Nat} {as : List Argument} {ns : List Node}
    (h : Derives part first ls as ns) {placed : List Placed} (hplaced : placed.map Placed.lexeme = ls)
    (hpending : r.pending = none) (hstart : r.Starts part) (hfirst : r.arguments.length = first)
    (hnames : ((r.arguments ++ as).map Argument.name).Nodup) :
    ∃ r', r.steps placed = .ok r' ∧ r.Yields as ns part r' := by
  induction h generalizing r placed with
  | @leaf ls a first h =>
    have hnew : a.name ∉ r.arguments.map Argument.name := by
      rw [List.map_append, List.map_singleton, List.nodup_append] at hnames
      exact fun hmem => hnames.2.2 _ hmem _ (List.mem_singleton_self _) rfl
    exact ⟨_, steps_of_declares h hplaced hpending hnew, by rw [hfirst]; rfl⟩
  | bracketedLeaf _ ih =>
    exact ⟨_, steps_of_brackets hpending hplaced fun hinner => ih hinner hpending rfl hfirst hnames, rfl⟩
  | bracketedGroup _ ih =>
    exact ⟨_, steps_of_brackets hpending hplaced fun hinner => ih hinner hpending rfl hfirst hnames, rfl⟩
  | none =>
    rw [List.map_eq_nil_iff.1 hplaced]
    exact ⟨r, rfl, r.extend_nil.symm⟩
  | @more first ls as ns ls' as' n _ _ ih ih' =>
    obtain ⟨before, last, rfl, hbefore, hlast⟩ := List.map_eq_append_iff.1 hplaced
    rw [← List.append_assoc] at hnames
    have hbefore' : ((r.arguments ++ as).map Argument.name).Nodup :=
      hnames.sublist ((List.sublist_append_left _ _).map _)
    obtain ⟨_, hsteps, rfl⟩ := ih hbefore hpending trivial hfirst hbefore'
    obtain ⟨_, hsteps', rfl⟩ := ih' hlast (r := r.extend as ns) hpending trivial
      (by rw [extend, List.length_append, hfirst]) hnames
    refine ⟨_, ?_, r.extend_extend as as' ns [n]⟩
    rw [steps_append_of_ok hsteps, hsteps']
  | @single first ls as n _ ih =>
    obtain ⟨_, hsteps, rfl⟩ := ih hplaced hpending trivial hfirst hnames
    exact ⟨_, hsteps, [n], n, rfl, rfl, rfl⟩
  | @several first ls as ns _ hns ih =>
    obtain ⟨_, hsteps, rfl⟩ := ih hplaced hpending trivial hfirst hnames
    refine ⟨_, hsteps, ns, _, rfl, ?_, rfl⟩
    match ns, hns with
    | _ :: _ :: _, _ => rfl
  | operand _ ih =>
    have hlevel : r.level = {} := hstart
    obtain ⟨r', hsteps, units, operand, rfl, ho, hn⟩ :=
      ih hplaced hpending (by rw [Starts, hlevel]) hfirst hnames
    rw [hlevel] at ho
    exact ⟨_, hsteps, ⟨none, units⟩, operand, by rw [extend, hlevel]; rfl, ho, hn⟩
  | @operator first ls as left op ls' as' right _ _ ih ih' =>
    obtain ⟨before, rest, rfl, hbefore, hrest⟩ := List.map_eq_append_iff.1 hplaced
    obtain ⟨p, last, rfl, hp, hlast⟩ := List.map_eq_cons_iff.1 hrest
    rw [← List.append_assoc] at hnames
    have hbefore' : ((r.arguments ++ as).map Argument.name).Nodup :=
      hnames.sublist ((List.sublist_append_left _ _).map _)
    obtain ⟨_, hsteps, level, operand, rfl, ho, hleft⟩ := ih hbefore hpending hstart hfirst hbefore'
    obtain rfl : left = level.join operand := (List.cons.inj hleft).1
    -- the operator makes the chain so far its left operand
    have hstep : step { r with level, arguments := r.arguments ++ as } p =
        .ok { r with
              level := level.addOperator operand op p.offset
              arguments := r.arguments ++ as } := by
      simp only [step, hpending, hp, addOperator, ho]
    obtain ⟨_, hsteps', units, operand', rfl, ho', hright⟩ :=
      ih' hlast
        (r := { r with
                level := level.addOperator operand op p.offset
                arguments := r.arguments ++ as })
        hpending rfl (by rw [List.length_append, hfirst]) hnames
    obtain rfl : right = operand' := (List.cons.inj hright).1
    have hrun := (steps_append_of_ok (steps_of_step hstep) last).trans hsteps'
    have hall := (steps_append_of_ok hsteps (p :: last)).trans hrun
    exact ⟨_, hall, ⟨some (level.join operand, op, p.offset), units⟩, right,
      by simp only [extend, Level.addOperator, List.nil_append, List.append_assoc], ho', rfl⟩

end Reading

/-! ## Compiling -/

namespace Signature

theorem prescribes_of_compile {source : String} {s : Signature} (h : compile source = .ok s) :
    Prescribes source s := by
  have hnames := (numbered_of_compile h).2
  unfold compile at h
  split at h
  · cases h
  next lexemes hscan =>
  split at h
  · cases h
  next r hsteps =>
  split at h
  · cases h
  next n hfinish =>
  cases h
  have hsplits := Lexeme.splits_of_scanFrom hscan
  have hderives := Reading.derives_of_finish hfinish (Reading.covers_of_steps hsteps Reading.covers_nil)
  rw [List.nil_append] at hderives
  cases n with
  | leaf i => exact .leaf hsplits hderives hnames
  | group c required ns => exact .group hsplits hderives hnames

/-- What a text that compiles derives, and the signature that is made of it. -/
theorem exists_derives_of_compile {source : String} {s : Signature} (h : compile source = .ok s) :
    ∃ ls n, Lexeme.Splits source.toList ls ∧ Derives .chain 0 ls s.arguments [n] ∧
      (s.arguments.map Argument.name).Nodup ∧
      s = ⟨trim source, Group.ofRoot n, s.arguments, nameTable s.arguments⟩ := by
  cases prescribes_of_compile h with
  | group hsplits hderives hnames => exact ⟨_, _, hsplits, hderives, hnames, rfl⟩
  | leaf hsplits hderives hnames => exact ⟨_, _, hsplits, hderives, hnames, rfl⟩

/-- The arguments of a compiled signature are declared in its text, and each is found under its name. -/
theorem declares_of_compile {source : String} {s : Signature} (h : compile source = .ok s) :
    (∀ a ∈ s.arguments, ∃ ls, Declares ls a) ∧ s.lookup = nameTable s.arguments := by
  cases prescribes_of_compile h with
  | group _ hderives _ => exact ⟨declares_of_derives hderives, rfl⟩
  | leaf _ hderives _ => exact ⟨declares_of_derives hderives, rfl⟩

/-- A text whose lexemes derive a chain compiles to it. -/
theorem compile_of_derives {source : String} {ls : List Lexeme} {as : List Argument} {n : Node}
    (hsplits : Lexeme.Splits source.toList ls) (h : Derives .chain 0 ls as [n])
    (hnames : (as.map Argument.name).Nodup) :
    compile source = .ok ⟨trim source, Group.ofRoot n, as, nameTable as⟩ := by
  obtain ⟨placed, hscan, hplaced⟩ := Lexeme.scanFrom_of_splits hsplits 0
  obtain ⟨_, hsteps, level, operand, rfl, ho, hn⟩ :=
    Reading.steps_of_derives (r := {}) h hplaced rfl rfl rfl hnames
  obtain rfl : n = level.join operand := (List.cons.inj hn).1
  simp only [compile, Lexeme.scan, hscan, hsteps, Reading.finish, ho, List.nil_append]

theorem compile_of_prescribes {source : String} {s : Signature} (h : Prescribes source s) :
    compile source = .ok s := by
  cases h with
  | group hsplits h hnames => exact compile_of_derives hsplits h hnames
  | leaf hsplits h hnames => exact compile_of_derives hsplits h hnames

/-- The grammar is not ambiguous: it prescribes one signature at most. -/
theorem prescribes_unique {source : String} {s t : Signature} (hs : Prescribes source s)
    (ht : Prescribes source t) : s = t := by
  have h := (compile_of_prescribes hs).symm.trans (compile_of_prescribes ht)
  exact Except.ok.inj h

/-- Compiling accepts the texts of the grammar, and gives the signature that the grammar prescribes. -/
theorem compile_eq_ok_iff_prescribes (source : String) (s : Signature) :
    compile source = .ok s ↔ Prescribes source s :=
  ⟨prescribes_of_compile, compile_of_prescribes⟩

end Signature

end Invocation
