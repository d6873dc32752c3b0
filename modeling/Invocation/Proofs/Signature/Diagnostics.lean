/-
  What the errors in signatures say.

  * `Lexeme.closer?`: the bracket that closes first what is open before some
    lexemes; `Lexeme.Closed`: lexemes that close all brackets they open, and no
    others;
  * `Specifier.refusal_of_ofChars`: why a text is no specifier;
  * `Truthful source e`: what an error says of a text is so, one constructor for
    each kind of error. `Truthful.isValid`: an offset is a position between the
    characters of the text;
  * `Reading.Located`: the open brackets, the operators and the specifiers that a
    reading holds stand at their offsets. `located_of_step`: reading a lexeme
    keeps this; `Reading.Refuses` lists why a lexeme is refused;
  * `Signature.compile_truthful`: compiling has no faults, and all its errors are
    truthful.
-/
import Invocation.Proofs.Signature.Descent
import Mathlib

namespace Invocation

open Invocation.Text

/-! ## Brackets -/

namespace Lexeme

/-- The bracket that closes first what is open in front, with `depth` brackets open within it. -/
def closer? (depth : Nat) : List Lexeme → Option Bracket
  | [] => none
  | opening _ :: ls => closer? (depth + 1) ls
  | closing b :: ls =>
    match depth with
    | 0 => some b
    | depth + 1 => closer? depth ls
  | operator _ :: ls => closer? depth ls
  | specifier _ :: ls => closer? depth ls
  | name _ :: ls => closer? depth ls

/-- Lexemes that close the brackets they open and no others: what is open before them is open after them. -/
def Closed (ls : List Lexeme) : Prop := ∀ depth rest, closer? depth (ls ++ rest) = closer? depth rest

theorem closed_nil : Closed [] := fun _ _ => rfl

theorem Closed.append {ls ms : List Lexeme} (h : Closed ls) (h' : Closed ms) : Closed (ls ++ ms) := by
  intro depth rest
  rw [List.append_assoc, h, h']

/-- Whether a lexeme is a bracket. -/
def IsBracket : Lexeme → Prop
  | opening _ | closing _ => True
  | operator _ | specifier _ | name _ => False

theorem closed_singleton {lexeme : Lexeme} (h : ¬ lexeme.IsBracket) : Closed [lexeme] := by
  intro depth rest
  cases lexeme with
  | opening b => exact absurd trivial h
  | closing b => exact absurd trivial h
  | operator op => rfl
  | specifier text => rfl
  | name run => rfl

theorem Closed.brackets (b b' : Bracket) {ls : List Lexeme} (h : Closed ls) :
    Closed (opening b :: (ls ++ [closing b'])) := by
  intro depth rest
  rw [List.cons_append, List.append_assoc, List.singleton_append, closer?, h]
  rfl

theorem Closed.closer?_eq_none {ls : List Lexeme} (h : Closed ls) (depth : Nat) : closer? depth ls = none := by
  have hclosed := h depth []
  rwa [List.append_nil] at hclosed

theorem Closed.closer?_closing {ls : List Lexeme} (h : Closed ls) (b : Bracket) (rest : List Lexeme) :
    closer? 0 (ls ++ closing b :: rest) = some b := by
  rw [h]
  rfl

/-- What comes next in a text: nothing but blanks, or after blanks the text of its first lexeme. -/
theorem exists_of_splits_cons {cs : List Char} {lexeme : Lexeme} {ls : List Lexeme}
    (h : Splits cs (lexeme :: ls)) :
    ∃ blanks text rest, Blanks blanks ∧ cs = blanks ++ (text ++ rest) ∧ TextOf text lexeme := by
  generalize hlexemes : lexeme :: ls = lexemes at h
  induction h with
  | nil => cases hlexemes
  | @blank b cs ls' hb _ ih =>
    obtain ⟨blanks, text, rest, hblanks, rfl, htext⟩ := ih hlexemes
    exact ⟨b :: blanks, text, rest, List.forall_mem_cons.2 ⟨hb, hblanks⟩, rfl, htext⟩
  | opening b _ _ => cases hlexemes; exact ⟨[], [b.opener], _, blanks_nil, rfl, .opening b⟩
  | closing b _ _ => cases hlexemes; exact ⟨[], [b.closer], _, blanks_nil, rfl, .closing b⟩
  | operator op _ _ => cases hlexemes; exact ⟨[], [op.symbol], _, blanks_nil, rfl, .operator op⟩
  | @specifier text cs ls' ht _ _ =>
    cases hlexemes
    exact ⟨[], '(' :: (text ++ [')']), cs, blanks_nil, by simp, .specifier ht⟩
  | @name run cs ls' hne hrun _ _ _ => cases hlexemes; exact ⟨[], run, cs, blanks_nil, rfl, .name hne hrun⟩

theorem blanks_of_splits_nil {cs : List Char} (h : Splits cs []) : Blanks cs := by
  generalize hlexemes : ([] : List Lexeme) = lexemes at h
  induction h with
  | nil => exact blanks_nil
  | blank hb _ ih => exact List.forall_mem_cons.2 ⟨hb, ih hlexemes⟩
  | opening | closing | operator | specifier | name => cases hlexemes

end Lexeme

/-! ## Specifiers -/

namespace Specifier

/-- Why a text is no specifier, and what is reported at an offset. An array is refused only of a type that
must be registered: its symbol comes first, and then a square bracket. -/
inductive Refusal (text : List Char) (offset : Nat) : SignatureError → Prop
  | size (hbracket : '[' ∈ text) (h : ∀ specifier, ¬ Spells text specifier) :
      Refusal text offset (.malformedArraySize (String.ofList text) offset)
  | array {symbol before between size} (hsymbol : isIdentifier symbol = true)
      (hnot : ∀ type, (symbol, type) ∉ builtIns) (hbefore : Blanks before) (hbetween : Blanks between)
      (htext : text = before ++ symbol.toList ++ between ++ '[' :: size) :
      Refusal text offset (.customTypeArray symbol offset)
  | type (h : ∀ specifier, ¬ Spells text specifier) :
      Refusal text offset (.invalidType (String.ofList text) offset)

theorem not_spells_of_ofChars {text : List Char} {offset : Nat} {e : SignatureError}
    (h : ofChars text offset = .error e) (specifier : Specifier) : ¬ Spells text specifier := by
  intro hspells
  rw [ofChars_of_spells hspells] at h
  cases h

theorem refusal_of_ofChars {text : List Char} {offset : Nat} {e : SignatureError}
    (h : ofChars text offset = .error e) : Refusal text offset e := by
  have hnone := not_spells_of_ofChars h
  cases hsplit : split? text with
  | none =>
    have hbracket : '[' ∈ text := by
      by_contra hnot
      rw [split?_of_not_mem hnot] at hsplit
      cases hsplit
    rw [ofChars, hsplit] at h
    cases h
    exact .size hbracket hnone
  | some parts =>
    obtain ⟨base, shape⟩ := parts
    have hnot : ∀ type, (String.ofList base, type) ∉ builtIns := by
      intro type htype
      rw [ofChars_of_builtIn offset hsplit htype] at h
      cases h
    rw [ofChars_of_not_builtIn offset hsplit hnot] at h
    split at h
    · next hidentifier =>
      split at h
      · cases h
      · next hshape =>
        cases h
        rcases split?_eq_some hsplit with ⟨hscalar, -⟩ | ⟨head, size, after, -, -, rfl, rfl⟩
        · exact absurd hscalar hshape
        · obtain ⟨before, between, hbefore, hbetween, hhead⟩ := exists_trimChars head
          have hsymbol : isIdentifier (String.ofList (trimChars head)) = true := by
            rwa [isIdentifier, String.toList_ofList]
          have htext : head ++ '[' :: (size ++ ']' :: after) =
              before ++ (String.ofList (trimChars head)).toList ++ between ++ '[' :: (size ++ ']' :: after) := by
            rw [String.toList_ofList, ← hhead]
          exact .array hsymbol hnot hbefore hbetween htext
    · cases h
      exact .type hnone

end Specifier

/-! ## Truthful errors -/

/-- The offset at which an error is reported. -/
def SignatureError.offset? : SignatureError → Option Nat
  | unexpectedChar _ offset | invalidName _ offset | unclosedSpecifier offset | invalidType _ offset
  | malformedArraySize _ offset | customTypeArray _ offset | missingName offset | danglingOperator _ offset
  | unbalancedGroup _ offset | unmatchedClose _ offset | mismatchedGroup _ _ offset | emptyGroup offset =>
    some offset
  | emptySignature | duplicateName _ | duplicateAlias _ _ | unknownType _ => none

/-- What an error says of a text is so. Lexemes `ls` stand before the place that it reports, and lexemes `ls'`
after it. -/
inductive Truthful (source : String) : SignatureError → Prop
  /-- There are blanks only. -/
  | emptySignature (h : Blanks source.toList) : Truthful source .emptySignature
  /-- The character neither is a blank nor begins a lexeme. -/
  | unexpectedChar {before c after ls} (heq : source.toList = before ++ c :: after)
      (hbefore : Lexeme.Splits before ls) (hblank : isBlank c = false)
      (hnone : ∀ text lexeme, ¬ Lexeme.TextOf (c :: text) lexeme) :
      Truthful source (.unexpectedChar c (byteCount before))
  /-- No parenthesis closes the specifier. -/
  | unclosedSpecifier {before after ls} (heq : source.toList = before ++ '(' :: after)
      (hbefore : Lexeme.Splits before ls) (hnone : ')' ∉ after) :
      Truthful source (.unclosedSpecifier (byteCount before))
  /-- The run of name characters is no identifier, and none without the marker of keywords. -/
  | invalidName {ls run ls' before after} (h : Placement source ls (.name run) ls' before run after)
      (hrun : isIdentifierChars run = false)
      (hmarked : ∀ name, run = '-' :: '-' :: name → isIdentifierChars name = false) :
      Truthful source (.invalidName (String.ofList run) (byteCount before))
  /-- Another argument before it has the same name. -/
  | duplicateName {ls run ls' before after run' kind kind' name}
      (h : Placement source ls (.name run) ls' before run after) (hearlier : Lexeme.name run' ∈ ls)
      (hnames : Names run kind name) (hnames' : Names run' kind' name) :
      Truthful source (.duplicateName name)
  /-- What stands in the parentheses is no specifier. -/
  | specifier {ls inner ls' before after e}
      (h : Placement source ls (.specifier (trimChars inner)) ls' before ('(' :: (inner ++ [')'])) after)
      (hrefusal : Specifier.Refusal (trimChars inner) (byteCount before) e) : Truthful source e
  /-- No name comes after the specifier. -/
  | missingName {ls inner ls' before after}
      (h : Placement source ls (.specifier (trimChars inner)) ls' before ('(' :: (inner ++ [')'])) after)
      (hnext : ∀ run, Lexeme.name run ∉ ls'.head?) : Truthful source (.missingName (byteCount before))
  /-- There is no operand before the operator, where the text or a group begins, or none after it, before
  another operator, a closing bracket or the end. -/
  | danglingOperator {ls op ls' before after}
      (h : Placement source ls (.operator op) ls' before [op.symbol] after)
      (hlacks : (∀ l ∈ ls.getLast?, ∃ b, l = .opening b) ∨
        ∀ l ∈ ls'.head?, (∃ b, l = .closing b) ∨ ∃ op', l = .operator op') :
      Truthful source (.danglingOperator op.symbol (byteCount before))
  /-- All brackets that were opened before have been closed. -/
  | unmatchedClose {ls bracket ls' before after}
      (h : Placement source ls (.closing bracket) ls' before [bracket.closer] after)
      (hclosed : Lexeme.Closed ls) : Truthful source (.unmatchedClose bracket.closer (byteCount before))
  /-- After the opening bracket and blanks a bracket is closed, or the text ends. -/
  | emptyGroup {ls bracket ls' before after}
      (h : Placement source ls (.opening bracket) ls' before [bracket.opener] after)
      (hempty : ∃ blanks rest, Blanks blanks ∧ after = blanks ++ rest ∧
        ∀ c ∈ rest.head?, ∃ found : Bracket, c = found.closer) :
      Truthful source (.emptyGroup (byteCount before))
  /-- A bracket of the other kind is the first to close the opening bracket. -/
  | mismatchedGroup {ls bracket ls' before after found}
      (h : Placement source ls (.opening bracket) ls' before [bracket.opener] after)
      (hcloser : Lexeme.closer? 0 ls' = some found) (hne : found ≠ bracket) :
      Truthful source (.mismatchedGroup bracket.opener found.closer (byteCount before))
  /-- No bracket closes the opening bracket. -/
  | unbalancedGroup {ls bracket ls' before after}
      (h : Placement source ls (.opening bracket) ls' before [bracket.opener] after)
      (hcloser : Lexeme.closer? 0 ls' = none) :
      Truthful source (.unbalancedGroup bracket.opener (byteCount before))

theorem Placement.isValid {source : String} {ls ls' : List Lexeme} {lexeme : Lexeme}
    {before text after : List Char} (h : Placement source ls lexeme ls' before text after) :
    String.Pos.Raw.IsValid source ⟨byteCount before⟩ ∧ byteCount before < source.utf8ByteSize := by
  have heq := h.eq
  obtain ⟨c, cs, rfl⟩ := List.exists_cons_of_ne_nil h.text.ne_nil
  exact isValid_of_append heq

namespace Truthful

variable {source : String} {e : SignatureError} {offset : Nat}

/-- The offset of a truthful error is a position between the characters of the text, before its end. -/
theorem isValid (h : Truthful source e) (hoffset : e.offset? = some offset) :
    String.Pos.Raw.IsValid source ⟨offset⟩ ∧ offset < source.utf8ByteSize := by
  cases h with
  | emptySignature | duplicateName => cases hoffset
  | unexpectedChar heq | unclosedSpecifier heq =>
    cases hoffset
    exact isValid_of_append heq
  | specifier h hrefusal =>
    cases hrefusal <;> cases hoffset <;> exact h.isValid
  | invalidName h | missingName h | danglingOperator h | unmatchedClose h | emptyGroup h
  | mismatchedGroup h | unbalancedGroup h =>
    cases hoffset
    exact h.isValid

end Truthful

/-! ## Reading -/

namespace Reading

/-- The open brackets stand among lexemes, each at its offset, and what stands before the first, between them
and after the last closes the brackets it opens. -/
inductive Opened : List OpenGroup → List Placed → Prop
  | nil {ps} (h : Lexeme.Closed (ps.map Placed.lexeme)) : Opened [] ps
  | cons {group groups front ps} (h : Opened groups front) (hps : Lexeme.Closed (ps.map Placed.lexeme)) :
      Opened (group :: groups) (front ++ ⟨.opening group.bracket, group.offset⟩ :: ps)

theorem Opened.append {groups : List OpenGroup} {read more : List Placed} (h : Opened groups read)
    (hmore : Lexeme.Closed (more.map Placed.lexeme)) : Opened groups (read ++ more) := by
  cases h with
  | nil h => exact .nil (by rw [List.map_append]; exact h.append hmore)
  | cons h hps =>
    rw [List.append_assoc, List.cons_append]
    exact .cons h (by rw [List.map_append]; exact hps.append hmore)

/-- A closing bracket after the innermost open bracket closes it. -/
theorem Opened.close {group : OpenGroup} {groups : List OpenGroup} {read : List Placed}
    (h : Opened (group :: groups) read) (bracket : Bracket) (offset : Nat) :
    Opened groups (read ++ [⟨.closing bracket, offset⟩]) := by
  cases h with
  | @cons _ _ front ps h hps =>
    rw [List.append_assoc, List.cons_append]
    refine h.append ?_
    rw [List.map_cons, List.map_append]
    exact hps.brackets group.bracket bracket

/-- The place before an operand: the beginning of the text, the innermost open bracket, or the last
operator of the level. -/
inductive Begins : List OpenGroup → Option (Node × Operator × Nat) → List Placed → Prop
  | text : Begins [] none []
  | group {group outer front} :
      Begins (group :: outer) none (front ++ [⟨.opening group.bracket, group.offset⟩])
  | operator {groups left op offset front} :
      Begins groups (some (left, op, offset)) (front ++ [⟨.operator op, offset⟩])

/-- Where the lexemes stand that a reading holds, after it has read some lexemes. -/
structure Located (r : Reading) (read : List Placed) : Prop where
  opened : Opened r.enclosing read
  begins : r.level.units = [] → r.pending = none → Begins r.enclosing r.level.chain read
  awaits : ∀ specifier offset, r.pending = some (specifier, offset) →
    ∃ front text, read = front ++ [⟨.specifier text, offset⟩]
  declared : ∀ a ∈ r.arguments, ∃ run kind, Lexeme.name run ∈ read.map Placed.lexeme ∧ Names run kind a.name

variable {r r' : Reading} {read : List Placed}

/-- Without a specifier that waits there is none to be found. -/
theorem awaits_of_none (hpending : r.pending = none) (specifier : Specifier) (offset : Nat)
    (h : r.pending = some (specifier, offset)) : ∃ front text, read = front ++ [⟨.specifier text, offset⟩] := by
  rw [hpending] at h
  cases h

theorem located_nil : Located {} [] where
  opened := .nil Lexeme.closed_nil
  begins _ _ := .text
  awaits := awaits_of_none rfl
  declared _ h := absurd h List.not_mem_nil

theorem Located.declared_append (hr : r.Located read) (more : List Placed) :
    ∀ a ∈ r.arguments, ∃ run kind, Lexeme.name run ∈ (read ++ more).map Placed.lexeme ∧ Names run kind a.name := by
  intro a ha
  obtain ⟨run, kind, hmem, hnames⟩ := hr.declared a ha
  exact ⟨run, kind, by rw [List.map_append]; exact List.mem_append_left _ hmem, hnames⟩

theorem addUnit_ne_nil (level : Level) (unit : Node) : (level.addUnit unit).units ≠ [] := by
  simp [Level.addUnit]

theorem located_of_addArgument {run : List Char} {offset : Nat} (h : r.addArgument run offset = .ok r')
    (hr : r.Located read) : r'.Located (read ++ [⟨.name run, offset⟩]) := by
  cases hmarker : splitMarker run with
  | mk kind chars =>
    simp only [addArgument, hmarker] at h
    split at h
    · cases h
    next hid =>
    split at h
    · cases h
    cases h
    refine ⟨hr.opened.append (Lexeme.closed_singleton id), fun hunits => ?_, awaits_of_none rfl, ?_⟩
    · exact absurd hunits (addUnit_ne_nil _ _)
    · intro a ha
      rcases List.mem_append.1 ha with ha | ha
      · exact hr.declared_append _ a ha
      · obtain rfl := List.mem_singleton.1 ha
        exact ⟨run, kind, by simp, names_of_splitMarker hmarker (by simpa using hid)⟩

theorem located_of_closeGroup {bracket : Bracket} {offset : Nat} (hpending : r.pending = none)
    (h : r.closeGroup bracket offset = .ok r') (hr : r.Located read) :
    r'.Located (read ++ [⟨.closing bracket, offset⟩]) := by
  unfold closeGroup at h
  split at h
  · cases h
  · cases h
  · cases h
  next operand group outer _ hgroups =>
  split at h
  · cases h
    refine ⟨?_, fun hunits => absurd hunits (addUnit_ne_nil _ _), awaits_of_none hpending, hr.declared_append _⟩
    have hopened := hr.opened
    rw [hgroups] at hopened
    exact hopened.close bracket offset
  · cases h

/-- Reading a lexeme keeps what a reading holds at its place. -/
theorem located_of_step {placed : Placed} (h : r.step placed = .ok r') (hr : r.Located read) :
    r'.Located (read ++ [placed]) := by
  obtain ⟨lexeme, offset⟩ := placed
  cases hpending : r.pending with
  | some pending =>
    cases lexeme with
    | name run =>
      rw [step_of_name rfl] at h
      exact located_of_addArgument h hr
    | opening | closing | operator | specifier =>
      simp only [step, hpending] at h
      cases h
  | none =>
    cases lexeme with
    | name run =>
      rw [step_of_name rfl] at h
      exact located_of_addArgument h hr
    | closing bracket => exact located_of_closeGroup hpending (step_closing hpending _ _ ▸ h) hr
    | opening bracket =>
      rw [step_opening hpending] at h
      cases h
      exact ⟨.cons hr.opened Lexeme.closed_nil, fun _ _ => .group, awaits_of_none hpending,
        hr.declared_append _⟩
    | operator op =>
      rw [step_operator hpending, addOperator] at h
      split at h
      · cases h
      cases h
      exact ⟨hr.opened.append (Lexeme.closed_singleton id), fun _ _ => .operator, awaits_of_none hpending,
        hr.declared_append _⟩
    | specifier text =>
      rw [step_specifier hpending] at h
      cases hchars : Specifier.ofChars text offset with
      | error e =>
        rw [hchars] at h
        cases h
      | ok specifier =>
        rw [hchars] at h
        cases h
        refine ⟨hr.opened.append (Lexeme.closed_singleton id), fun _ hnone => ?_, fun _ _ hsome => ?_,
          hr.declared_append _⟩
        · cases hnone
        · cases hsome
          exact ⟨read, text, rfl⟩

theorem located_of_steps {ps : List Placed} (h : r.steps ps = .ok r') (hr : r.Located read) :
    r'.Located (read ++ ps) := by
  induction ps generalizing r read with
  | nil =>
    cases h
    rwa [List.append_nil]
  | cons placed rest ih =>
    rw [steps] at h
    split at h
    · next hstep =>
      rw [List.append_cons]
      exact ih h (located_of_step hstep hr)
    · cases h

/-! ## Refused lexemes -/

/-- Why a lexeme is refused, and what is reported. -/
inductive Refuses (r : Reading) : Placed → SignatureError → Prop
  | invalidName {run kind chars offset} (hmarker : splitMarker run = (kind, chars))
      (h : isIdentifierChars chars = false) :
      Refuses r ⟨.name run, offset⟩ (.invalidName (String.ofList run) offset)
  | duplicateName {run kind name offset} (hnames : Names run kind name)
      (h : ∃ a ∈ r.arguments, a.name = name) : Refuses r ⟨.name run, offset⟩ (.duplicateName name)
  | missingName {placed specifier offset} (hpending : r.pending = some (specifier, offset))
      (h : ∀ run, placed.lexeme ≠ .name run) : Refuses r placed (.missingName offset)
  | specifier {text offset e} (h : Specifier.ofChars text offset = .error e) :
      Refuses r ⟨.specifier text, offset⟩ e
  | operator {op offset} (hpending : r.pending = none) (hoperand : r.level.operand? = none) :
      Refuses r ⟨.operator op, offset⟩ (r.missingOperand (.danglingOperator op.symbol offset))
  | outermost {bracket offset} (hpending : r.pending = none) (hoperand : r.level.operand? = none)
      (h : r.enclosing = []) :
      Refuses r ⟨.closing bracket, offset⟩ (r.missingOperand (.unmatchedClose bracket.closer offset))
  | empty {bracket offset group outer} (hpending : r.pending = none) (hoperand : r.level.operand? = none)
      (h : r.enclosing = group :: outer) :
      Refuses r ⟨.closing bracket, offset⟩ (r.missingOperand (.emptyGroup group.offset))
  | unmatched {bracket offset} (h : r.enclosing = []) :
      Refuses r ⟨.closing bracket, offset⟩ (.unmatchedClose bracket.closer offset)
  | mismatched {bracket offset group outer} (h : r.enclosing = group :: outer) (hne : group.bracket ≠ bracket) :
      Refuses r ⟨.closing bracket, offset⟩
        (.mismatchedGroup group.bracket.opener bracket.closer group.offset)

theorem refuses_of_addArgument {run : List Char} {offset : Nat} {e : SignatureError}
    (h : r.addArgument run offset = .error e) : r.Refuses ⟨.name run, offset⟩ e := by
  cases hmarker : splitMarker run with
  | mk kind chars =>
    simp only [addArgument, hmarker] at h
    split at h
    · next hid =>
      cases h
      exact .invalidName hmarker (by simpa using hid)
    next hid =>
    split at h
    · next hdeclared =>
      cases h
      obtain ⟨a, ha, hname⟩ := List.any_eq_true.1 hdeclared
      exact .duplicateName (names_of_splitMarker hmarker (by simpa using hid)) ⟨a, ha, eq_of_beq hname⟩
    · cases h

theorem refuses_of_closeGroup {bracket : Bracket} {offset : Nat} {e : SignatureError}
    (hpending : r.pending = none) (h : r.closeGroup bracket offset = .error e) :
    r.Refuses ⟨.closing bracket, offset⟩ e := by
  unfold closeGroup at h
  split at h
  · next hoperand hgroups => cases h; exact .outermost hpending hoperand hgroups
  · next hoperand hgroups => cases h; exact .empty hpending hoperand hgroups
  · next hgroups => cases h; exact .unmatched hgroups
  · next hgroups =>
    split at h
    · cases h
    · next hne => cases h; exact .mismatched hgroups hne

theorem refuses_of_step {placed : Placed} {e : SignatureError} (h : r.step placed = .error e) :
    r.Refuses placed e := by
  obtain ⟨lexeme, offset⟩ := placed
  cases hpending : r.pending with
  | some pending =>
    cases lexeme with
    | name run =>
      rw [step_of_name rfl] at h
      exact refuses_of_addArgument h
    | opening | closing | operator | specifier =>
      simp only [step, hpending] at h
      cases h
      refine .missingName hpending fun run hname => ?_
      cases hname
  | none =>
    cases lexeme with
    | name run =>
      rw [step_of_name rfl] at h
      exact refuses_of_addArgument h
    | closing bracket => exact refuses_of_closeGroup hpending (step_closing hpending _ _ ▸ h)
    | opening bracket =>
      rw [step_opening hpending] at h
      cases h
    | operator op =>
      rw [step_operator hpending, addOperator] at h
      split at h
      · next hoperand => cases h; exact .operator hpending hoperand
      · cases h
    | specifier text =>
      rw [step_specifier hpending] at h
      cases hchars : Specifier.ofChars text offset with
      | error e' =>
        rw [hchars] at h
        cases h
        exact .specifier hchars
      | ok specifier =>
        rw [hchars] at h
        cases h

/-- A run whose name is no identifier is none with its marker either. -/
theorem not_isIdentifierChars_of_splitMarker {run chars : List Char} {kind : Kind}
    (hmarker : splitMarker run = (kind, chars)) (h : isIdentifierChars chars = false) :
    isIdentifierChars run = false ∧
      ∀ name, run = '-' :: '-' :: name → isIdentifierChars name = false := by
  unfold splitMarker at hmarker
  split at hmarker
  · cases hmarker
    refine ⟨?_, fun name hname => ?_⟩
    · have hhyphen : isNameStart '-' = false := by decide
      rw [isIdentifierChars, hhyphen, Bool.false_and]
    · cases hname
      exact h
  · next hother =>
    cases hmarker
    exact ⟨h, fun name hname => absurd hname (hother name)⟩

theorem units_of_operand? (h : r.level.operand? = none) : r.level.units = [] := by
  unfold Level.operand? at h
  split at h
  · assumption
  · cases h
  · cases h

end Reading

/-! ## Errors are truthful -/

section
variable {source : String} {r : Reading} {read rest : List Placed} {placed : Placed}

open Reading

/-- A reading at its place in a text: what was read, and what comes next. -/
structure Reading.Reaches (source : String) (r : Reading) (read rest : List Placed) : Prop where
  scan : Lexeme.scan source = .ok (read ++ rest)
  located : r.Located read

namespace Reading.Reaches

/-- A lexeme that was read stands at its offset. -/
theorem placement (h : Reaches source r read rest) {front back : List Placed} {lexeme : Lexeme} {offset : Nat}
    (hread : read = front ++ ⟨lexeme, offset⟩ :: back) :
    ∃ before text after, byteCount before = offset ∧
      Placement source (front.map Placed.lexeme) lexeme ((back ++ rest).map Placed.lexeme) before text after := by
  have hscan := h.scan
  rw [hread, List.append_assoc, List.cons_append] at hscan
  exact Lexeme.placement_of_scan hscan

/-- The lexeme that comes next stands at its offset. -/
theorem placement_next {lexeme : Lexeme} {offset : Nat} (h : Reaches source r read (⟨lexeme, offset⟩ :: rest)) :
    ∃ before text after, byteCount before = offset ∧
      Placement source (read.map Placed.lexeme) lexeme (rest.map Placed.lexeme) before text after :=
  Lexeme.placement_of_scan h.scan

/-- The innermost open bracket stands at its offset, and all that is opened after it is closed. -/
theorem placement_of_open (h : Reaches source r read rest) {group : OpenGroup} {outer : List OpenGroup}
    (hgroups : r.enclosing = group :: outer) :
    ∃ ls mine before after, byteCount before = group.offset ∧ Lexeme.Closed mine ∧
      Placement source ls (.opening group.bracket) (mine ++ rest.map Placed.lexeme) before
        [group.bracket.opener] after := by
  have hopened := h.located.opened
  rw [hgroups] at hopened
  cases hopened with
  | @cons _ _ front ps _ hps =>
    obtain ⟨before, text, after, hoffset, hplace⟩ := h.placement rfl
    rw [List.map_append] at hplace
    obtain rfl := hplace.text.eq_symbol (Lexeme.ofSymbol?_opener group.bracket)
    exact ⟨_, _, before, after, hoffset, hps, hplace⟩

/-- A specifier that waits for its argument is reported at its place. -/
theorem truthful_missingName (h : Reaches source r read rest) {specifier : Specifier} {offset : Nat}
    (hpending : r.pending = some (specifier, offset))
    (hnext : ∀ run, Lexeme.name run ∉ (rest.map Placed.lexeme).head?) :
    Truthful source (.missingName offset) := by
  obtain ⟨front, text, hread⟩ := h.located.awaits specifier offset hpending
  obtain ⟨before, text', after, rfl, hplace⟩ := h.placement hread
  have htext := hplace.text
  cases htext with
  | specifier => exact .missingName hplace hnext

/-- What is reported of an operand that is missing: the last operator of the level, or else where it should
begin. -/
theorem truthful_missingOperand (h : Reaches source r read rest) (hpending : r.pending = none)
    (hoperand : r.level.operand? = none)
    (hrest : ∀ l ∈ (rest.map Placed.lexeme).head?, (∃ b, l = .closing b) ∨ ∃ op, l = .operator op)
    {otherwise : SignatureError}
    (hotherwise : Begins r.enclosing none read → Truthful source otherwise) :
    Truthful source (r.missingOperand otherwise) := by
  have hbegins := h.located.begins (units_of_operand? hoperand) hpending
  rw [missingOperand]
  cases hchain : r.level.chain with
  | none => exact hotherwise (hchain ▸ hbegins)
  | some chain =>
    rw [hchain] at hbegins
    generalize r.enclosing = groups at hbegins
    cases hbegins with
    | @operator _ left op offset front =>
      obtain ⟨before, text, after, rfl, hplace⟩ := h.placement rfl
      obtain rfl := hplace.text.eq_symbol (Lexeme.ofSymbol?_symbol op)
      exact .danglingOperator hplace (.inr hrest)

/-- A group without a lexeme in it is reported at its opening bracket. -/
theorem truthful_emptyGroup (h : Reaches source r read rest) {group : OpenGroup} {outer : List OpenGroup}
    (hbegins : Begins (group :: outer) none read)
    (hrest : rest = [] ∨ ∃ bracket offset rest', rest = ⟨.closing bracket, offset⟩ :: rest') :
    Truthful source (.emptyGroup group.offset) := by
  cases hbegins with
  | @group _ _ front =>
    obtain ⟨before, text, after, hoffset, hplace⟩ := h.placement rfl
    obtain rfl := hplace.text.eq_symbol (Lexeme.ofSymbol?_opener group.bracket)
    rw [← hoffset]
    refine .emptyGroup hplace ?_
    have hafter := hplace.after
    rw [List.nil_append] at hafter
    rcases hrest with rfl | ⟨bracket, offset, rest', rfl⟩
    · exact ⟨after, [], Lexeme.blanks_of_splits_nil hafter, (List.append_nil after).symm, nofun⟩
    · obtain ⟨blanks, text, rest, hblanks, rfl, htext⟩ := Lexeme.exists_of_splits_cons hafter
      obtain rfl := htext.eq_symbol (Lexeme.ofSymbol?_closer bracket)
      exact ⟨blanks, _, hblanks, rfl, fun c hc => ⟨bracket, (Option.some.inj hc).symm⟩⟩

/-- The text or the group begins before an operator without an operand in front. -/
theorem getLast?_of_begins {groups : List OpenGroup} (h : Begins groups none read) :
    ∀ l ∈ (read.map Placed.lexeme).getLast?, ∃ b, l = .opening b := by
  cases h with
  | text => exact nofun
  | @group group _ _ =>
    intro l hl
    rw [List.map_append, List.map_singleton, List.getLast?_concat] at hl
    exact ⟨group.bracket, (Option.some.inj hl).symm⟩

/-- What is reported of a lexeme that is refused is so. -/
theorem truthful_of_refuses (h : Reaches source r read (placed :: rest)) {e : SignatureError}
    (hrefuses : r.Refuses placed e) : Truthful source e := by
  cases hrefuses with
  | @invalidName run kind chars offset hmarker hchars =>
    obtain ⟨before, text, after, rfl, hplace⟩ := h.placement_next
    have htext := hplace.text
    cases htext with
    | name =>
      obtain ⟨hrun, hmarked⟩ := not_isIdentifierChars_of_splitMarker hmarker hchars
      exact .invalidName hplace hrun hmarked
  | @duplicateName run kind name offset hnames hdeclared =>
    obtain ⟨a, ha, rfl⟩ := hdeclared
    obtain ⟨run', kind', hmem, hnames'⟩ := h.located.declared a ha
    obtain ⟨before, text, after, rfl, hplace⟩ := h.placement_next
    have htext := hplace.text
    cases htext with
    | name => exact .duplicateName hplace hmem hnames hnames'
  | missingName hpending hname =>
    refine h.truthful_missingName hpending fun run hrun => hname run ?_
    exact Option.some.inj hrun
  | specifier hchars =>
    obtain ⟨before, text, after, rfl, hplace⟩ := h.placement_next
    have htext := hplace.text
    cases htext with
    | specifier => exact .specifier hplace (Specifier.refusal_of_ofChars hchars)
  | @operator op offset hpending hoperand =>
    refine h.truthful_missingOperand hpending hoperand (fun l hl => .inr ⟨op, (Option.some.inj hl).symm⟩)
      fun hbegins => ?_
    obtain ⟨before, text, after, rfl, hplace⟩ := h.placement_next
    obtain rfl := hplace.text.eq_symbol (Lexeme.ofSymbol?_symbol op)
    exact .danglingOperator hplace (.inl (getLast?_of_begins hbegins))
  | @outermost bracket offset hpending hoperand hgroups =>
    refine h.truthful_missingOperand hpending hoperand (fun l hl => .inl ⟨bracket, (Option.some.inj hl).symm⟩)
      fun hbegins => ?_
    rw [hgroups] at hbegins
    cases hbegins
    obtain ⟨before, text, after, rfl, hplace⟩ := h.placement_next
    obtain rfl := hplace.text.eq_symbol (Lexeme.ofSymbol?_closer bracket)
    exact .unmatchedClose hplace Lexeme.closed_nil
  | @empty bracket offset group outer hpending hoperand hgroups =>
    refine h.truthful_missingOperand hpending hoperand (fun l hl => .inl ⟨bracket, (Option.some.inj hl).symm⟩)
      fun hbegins => ?_
    rw [hgroups] at hbegins
    exact h.truthful_emptyGroup hbegins (.inr ⟨bracket, offset, rest, rfl⟩)
  | @unmatched bracket _ hgroups =>
    obtain ⟨before, text, after, rfl, hplace⟩ := h.placement_next
    obtain rfl := hplace.text.eq_symbol (Lexeme.ofSymbol?_closer bracket)
    have hopened := h.located.opened
    rw [hgroups] at hopened
    cases hopened with
    | nil hclosed => exact .unmatchedClose hplace hclosed
  | @mismatched bracket offset group outer hgroups hne =>
    obtain ⟨ls, mine, before, after, hoffset, hclosed, hplace⟩ := h.placement_of_open hgroups
    rw [← hoffset]
    exact .mismatchedGroup hplace (hclosed.closer?_closing _ _) hne.symm

theorem advance (h : Reaches source r read (placed :: rest)) {r' : Reading} (hstep : r.step placed = .ok r') :
    Reaches source r' (read ++ [placed]) rest :=
  ⟨by rw [← List.append_cons]; exact h.scan, located_of_step hstep h.located⟩

/-- What is reported while a text is read is so. -/
theorem truthful_of_steps (h : Reaches source r read rest) {e : SignatureError} (hsteps : r.steps rest = .error e) :
    Truthful source e := by
  induction rest generalizing r read with
  | nil => cases hsteps
  | cons placed rest ih =>
    rw [steps] at hsteps
    split at hsteps
    · next hstep => exact ih (h.advance hstep) hsteps
    · next hstep =>
      cases hsteps
      exact h.truthful_of_refuses (refuses_of_step hstep)

/-- What is reported at the end of a text is so. -/
theorem truthful_of_finish (h : Reaches source r read []) {e : SignatureError} (hfinish : r.finish = .error e) :
    Truthful source e := by
  unfold finish at hfinish
  split at hfinish
  · next hpending => cases hfinish; exact h.truthful_missingName hpending nofun
  · next hpending hoperand hgroups =>
    cases hfinish
    refine h.truthful_missingOperand hpending hoperand nofun fun hbegins => ?_
    rw [hgroups] at hbegins
    cases hbegins
    exact .emptySignature (Lexeme.blanks_of_splits_nil (Lexeme.splits_of_scanFrom h.scan))
  · next hpending hoperand hgroups =>
    cases hfinish
    refine h.truthful_missingOperand hpending hoperand nofun fun hbegins => ?_
    rw [hgroups] at hbegins
    exact h.truthful_emptyGroup hbegins (.inl rfl)
  · cases hfinish
  · next hpending hoperand hgroups =>
    cases hfinish
    obtain ⟨ls, mine, before, after, hoffset, hclosed, hplace⟩ := h.placement_of_open hgroups
    rw [← hoffset]
    exact .unbalancedGroup hplace (by rw [List.map_nil, List.append_nil]; exact hclosed.closer?_eq_none 0)

end Reading.Reaches

end

namespace Signature

/-- An error of a text is truthful. -/
theorem truthful_of_compile {source : String} {e : SignatureError} (h : compile source = .error e) :
    Truthful source e := by
  unfold compile at h
  split at h
  · next hscan =>
    cases h
    obtain ⟨before, rest, ls, heq, hbefore, hstuck⟩ := Lexeme.stuck_of_scanFrom hscan
    rw [Nat.zero_add] at hstuck
    cases hstuck with
    | char hblank hnone => exact .unexpectedChar heq hbefore hblank hnone
    | unclosed hnone => exact .unclosedSpecifier heq hbefore hnone
  next lexemes hscan =>
  split at h
  · next hsteps =>
    cases h
    exact Reading.Reaches.truthful_of_steps ⟨hscan, Reading.located_nil⟩ hsteps
  next r hsteps =>
  split at h
  · next hfinish =>
    cases h
    have hlocated := Reading.located_of_steps hsteps Reading.located_nil
    exact Reading.Reaches.truthful_of_finish ⟨by rwa [List.append_nil], hlocated⟩ hfinish
  · cases h

/-- **Compiling never fails otherwise than with an error, and errors are truthful.** By descent, every text is
compiled without cutting it within a character or beyond its end, without a lexeme where only others can
stand, and without one left over; the result is the same. If a text is refused, what the error says of it is
so, and its offset is a position between the characters of the text, before the end. -/
theorem compile_truthful (source : String) :
    (∀ fault, Descent.compile source ≠ .error (.fault fault)) ∧
      Descent.compile source = (compile source).mapError .refused ∧
      ∀ e, compile source = .error e →
        Truthful source e ∧
          ∀ offset, e.offset? = some offset →
            String.Pos.Raw.IsValid source ⟨offset⟩ ∧ offset < source.utf8ByteSize := by
  have hdescent := Descent.compile_eq source
  refine ⟨fun fault hfault => ?_, hdescent, fun e he => ?_⟩
  · rw [hdescent] at hfault
    cases hcompile : compile source <;> rw [hcompile] at hfault <;> cases hfault
  · have htruthful := truthful_of_compile he
    exact ⟨htruthful, fun offset hoffset => htruthful.isValid hoffset⟩

/-- The inner bracket is closed by one of the other kind. It stands after letters of two bytes, and brackets
within a specifier do not count. -/
theorem compile_truthful_mismatched :
    compile "é <ñ | [b (int[2]) c> d]" = .error (.mismatchedGroup '[' '>' 9) ∧
      Truthful "é <ñ | [b (int[2]) c> d]" (.mismatchedGroup '[' '>' 9) ∧
      String.Pos.Raw.IsValid "é <ñ | [b (int[2]) c> d]" ⟨9⟩ ∧ 9 < "é <ñ | [b (int[2]) c> d]".utf8ByteSize ∧
      Descent.compile "é <ñ | [b (int[2]) c> d]" = .error (.refused (.mismatchedGroup '[' '>' 9)) := by
  have hcompile : compile "é <ñ | [b (int[2]) c> d]" = .error (.mismatchedGroup '[' '>' 9) := by cbv
  obtain ⟨-, hdescent, herrors⟩ := compile_truthful "é <ñ | [b (int[2]) c> d]"
  obtain ⟨htruthful, hoffset⟩ := herrors _ hcompile
  obtain ⟨hvalid, hlt⟩ := hoffset 9 rfl
  exact ⟨hcompile, htruthful, hvalid, hlt, by rw [hdescent, hcompile]; rfl⟩

end Signature

end Invocation
