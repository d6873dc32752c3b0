/-
  Which parts of a text its lexemes take.

  * `Span`: a lexeme at its offset with its text; `Alternates`: a text is blanks
    and texts of lexemes in turn. `alternates_of_scanFrom`,
    `scanFrom_of_alternates`: scanning finds the lexemes of these texts, and no
    others;
  * `Covers`: what spans take of a text. They stand in order, do not overlap and
    leave out blanks only; the text of a span stands at its offset, that of a
    name between other characters than those of names. `covers_of_alternates`:
    this holds of the spans of every text that is blanks and texts in turn;
  * `Flaw`: a stray character outside of specifiers, or a parenthesis that is
    never closed; `FirstFlaw`: the leftmost one. `Splits.not_flaw`: a text that
    splits into lexemes has none; `scan_eq_error_iff`: scanning fails at the first;
  * `scan_covers`: every byte of a text is accounted for.
-/
import Invocation.Proofs.Signature.Descent

namespace Invocation.Lexeme

open Invocation.Text

/-! ## Blanks and texts in turn -/

/-- A lexeme at its offset, with its text. -/
structure Span where
  placed : Placed
  text : List Char

namespace Span

/-- The offset of the first byte. -/
def start (s : Span) : Nat := s.placed.offset

/-- The offset after the last byte. -/
def stop (s : Span) : Nat := s.placed.offset + byteCount s.text

end Span

/-- From an offset on, a text is blanks and texts of lexemes in turn. The text of a name ends only where no
name character comes next. -/
inductive Alternates : Nat → List Char → List Span → Prop
  | blanks {offset cs} (hb : Blanks cs) : Alternates offset cs []
  | text {offset blanks text after lexeme spans} (hb : Blanks blanks) (ht : TextOf text lexeme)
      (hends : IsName text → ∀ c ∈ after.head?, isNameChar c = false)
      (h : Alternates (offset + byteCount blanks + byteCount text) after spans) :
      Alternates offset (blanks ++ (text ++ after)) (⟨⟨lexeme, offset + byteCount blanks⟩, text⟩ :: spans)

variable {text cs after before source : List Char} {lexeme : Lexeme} {offset : Nat} {spans : List Span}

theorem Alternates.blank {b : Char} (hb : isBlank b = true) (h : Alternates (offset + b.utf8Size) cs spans) :
    Alternates offset (b :: cs) spans := by
  cases h with
  | blanks hcs => exact .blanks (List.forall_mem_cons.2 ⟨hb, hcs⟩)
  | @text _ blanks _ _ _ _ hblanks ht hends h =>
    rw [Nat.add_assoc offset, ← byteCount_cons] at h ⊢
    exact .text (List.forall_mem_cons.2 ⟨hb, hblanks⟩) ht hends h

/-- A text of a lexeme stands in front, without blanks before it. -/
theorem Alternates.cons (ht : TextOf text lexeme)
    (hends : IsName text → ∀ c ∈ after.head?, isNameChar c = false)
    (h : Alternates (offset + byteCount text) after spans) :
    Alternates offset (text ++ after) (⟨⟨lexeme, offset⟩, text⟩ :: spans) :=
  .text blanks_nil ht hends h

/-! ## Texts of lexemes -/

theorem not_isName_symbol {c : Char} (hc : ofSymbol? c = some lexeme) : ¬ IsName [c] := fun h => by
  have hname := h c List.mem_cons_self
  rw [(kind_of_ofSymbol? hc).2.2] at hname
  cases hname

theorem not_isName_specifier (inner : List Char) : ¬ IsName ('(' :: inner) := fun h =>
  absurd (h '(' List.mem_cons_self) (by decide)

theorem TextOf.byteCount_pos (h : TextOf text lexeme) : 0 < byteCount text := by
  obtain ⟨c, cs, rfl⟩ := List.exists_cons_of_ne_nil h.ne_nil
  have hpos : 0 < c.utf8Size := c.utf8Size_pos
  rw [byteCount_cons]
  omega

/-- Only a name ends with a name character. -/
theorem TextOf.isName_of_getLast? (h : TextOf text lexeme) {c : Char} (hc : c ∈ text.getLast?)
    (hname : isNameChar c = true) : IsName text := by
  have hsymbol : ∀ {d : Char} {lexeme : Lexeme}, ofSymbol? d = some lexeme → c ∈ [d].getLast? → IsName [d] := by
    intro d lexeme hd hc
    rw [List.getLast?_singleton, Option.mem_some] at hc
    rw [← hc, (kind_of_ofSymbol? hd).2.2] at hname
    cases hname
  cases h with
  | opening b => exact hsymbol (ofSymbol?_opener b) hc
  | closing b => exact hsymbol (ofSymbol?_closer b) hc
  | operator op => exact hsymbol (ofSymbol?_symbol op) hc
  | specifier =>
    rw [← List.cons_append, List.getLast?_concat, Option.mem_some] at hc
    rw [← hc] at hname
    exact absurd hname (by decide)
  | name _ hrun => exact hrun

/-! ## Scanning finds the texts -/

theorem alternates_of_scanFrom {ps : List Placed} (h : scanFrom offset cs = .ok ps) :
    ∃ spans, Alternates offset cs spans ∧ spans.map Span.placed = ps := by
  fun_induction scanFrom offset cs generalizing ps with
  | case1 =>
    cases h
    exact ⟨[], .blanks blanks_nil, rfl⟩
  | case2 offset b rest hb ih =>
    obtain ⟨spans, hspans, hps⟩ := ih h
    exact ⟨spans, hspans.blank hb, hps⟩
  | case3 => cases h
  | case4 offset rest inner after hclose _ ih =>
    obtain ⟨ps, hscan, rfl⟩ := map_cons_eq_ok h
    obtain ⟨hinner, rfl⟩ := eq_of_closeSpecifier? hclose
    obtain ⟨spans, hspans, rfl⟩ := ih hscan
    rw [Nat.add_assoc, ← byteCount_parenthesized] at hspans
    have halternates := Alternates.cons (.specifier hinner) (fun h => absurd h (not_isName_specifier _)) hspans
    rw [List.cons_append, List.append_assoc] at halternates
    exact ⟨_, halternates, rfl⟩
  | case5 offset c rest _ _ hname run =>
    rename_i ih
    obtain ⟨ps, hscan, rfl⟩ := map_cons_eq_ok h
    obtain ⟨spans, hspans, rfl⟩ := ih hscan
    have hrun : IsRun run (rest.dropWhile isNameChar) := isRun_takeWhile hname rest
    rw [run_append c rest]
    exact ⟨_, .cons (.name hrun.ne_nil hrun.chars) (fun _ => hrun.ends) hspans, rfl⟩
  | case6 offset c rest _ _ _ lexeme hc ih =>
    obtain ⟨ps, hscan, rfl⟩ := map_cons_eq_ok h
    obtain ⟨spans, hspans, rfl⟩ := ih hscan
    rw [← byteCount_singleton] at hspans
    exact ⟨_, .cons (textOf_of_ofSymbol? hc) (fun h => absurd h (not_isName_symbol hc)) hspans, rfl⟩
  | case7 => cases h

theorem scanFrom_blanks {blanks : List Char} (hb : Blanks blanks) (offset : Nat) (cs : List Char) :
    scanFrom offset (blanks ++ cs) = scanFrom (offset + byteCount blanks) cs := by
  induction blanks generalizing offset with
  | nil => rfl
  | cons b blanks ih =>
    obtain ⟨hb, hblanks⟩ := List.forall_mem_cons.1 hb
    rw [List.cons_append, scanFrom, if_pos hb, ih hblanks, byteCount_cons, Nat.add_assoc]

/-- The text of a lexeme in front of a text is scanned first. -/
theorem scanFrom_text (ht : TextOf text lexeme) (hends : IsName text → ∀ c ∈ after.head?, isNameChar c = false)
    (offset : Nat) :
    scanFrom offset (text ++ after) =
      (scanFrom (offset + byteCount text) after).map (⟨lexeme, offset⟩ :: ·) := by
  have hsymbol : ∀ {c : Char} {lexeme : Lexeme}, ofSymbol? c = some lexeme → scanFrom offset ([c] ++ after) =
      (scanFrom (offset + byteCount [c]) after).map (⟨lexeme, offset⟩ :: ·) := fun {c _} hc => by
    rw [byteCount_singleton, List.singleton_append, scanFrom_symbol hc]
  cases ht with
  | opening b => exact hsymbol (ofSymbol?_opener b)
  | closing b => exact hsymbol (ofSymbol?_closer b)
  | operator op => exact hsymbol (ofSymbol?_symbol op)
  | @specifier inner hinner =>
    rw [byteCount_parenthesized, List.cons_append, List.append_assoc, List.singleton_append,
      scanFrom_specifier hinner, Nat.add_assoc]
  | name hne hrun => exact scanFrom_name hne hrun (hends hrun) offset

theorem scanFrom_of_alternates (h : Alternates offset cs spans) :
    scanFrom offset cs = .ok (spans.map Span.placed) := by
  induction h with
  | @blanks offset cs hb =>
    have hscan := scanFrom_blanks hb offset []
    rw [List.append_nil] at hscan
    rw [hscan, scanFrom]
    rfl
  | text hb ht hends _ ih =>
    rw [scanFrom_blanks hb, scanFrom_text ht hends, ih]
    rfl

/-! ## What spans take of a text -/

namespace Span

/-- The text of a span stands at its offset, between a part before and a part after it. A name neither has a
name character before it nor one after it. -/
structure Stands (s : Span) (source before after : List Char) : Prop where
  eq : source = before ++ (s.text ++ after)
  offset : byteCount before = s.start
  text : TextOf s.text s.placed.lexeme
  left : IsName s.text → ∀ c ∈ before.getLast?, isNameChar c = false
  right : IsName s.text → ∀ c ∈ after.head?, isNameChar c = false

/-- Whether the byte at an offset belongs to a span. -/
def Holds (s : Span) (offset : Nat) : Prop := s.start ≤ offset ∧ offset < s.stop

end Span

/-- The spans of a text stand in it in order. They do not overlap, and what they do not hold is blank. -/
structure Covers (source : List Char) (spans : List Span) : Prop where
  increasing : spans.Pairwise fun s t => s.start < t.start
  apart : spans.Pairwise fun s t => s.stop ≤ t.start
  stands : ∀ s ∈ spans, ∃ before after, s.Stands source before after
  blank : ∀ before c after, source = before ++ c :: after → (∀ s ∈ spans, ¬ s.Holds (byteCount before)) →
    isBlank c = true

theorem Alternates.start_lt_stop (h : Alternates offset cs spans) : ∀ s ∈ spans, s.start < s.stop := by
  induction h with
  | blanks => exact fun s hs => absurd hs List.not_mem_nil
  | text _ ht _ _ ih => exact List.forall_mem_cons.2 ⟨Nat.lt_add_of_pos_right ht.byteCount_pos, ih⟩

theorem Alternates.le_start (h : Alternates offset cs spans) : ∀ s ∈ spans, offset ≤ s.start := by
  induction h with
  | blanks => exact fun s hs => absurd hs List.not_mem_nil
  | @text offset _ _ _ _ _ _ _ _ _ ih =>
    refine List.forall_mem_cons.2 ⟨Nat.le_add_right _ _, fun s hs => ?_⟩
    have hle := ih s hs
    omega

theorem Alternates.apart (h : Alternates offset cs spans) : spans.Pairwise fun s t => s.stop ≤ t.start := by
  induction h with
  | blanks => exact .nil
  | text _ _ _ h ih => exact List.pairwise_cons.2 ⟨h.le_start, ih⟩

/-- A character of two texts in a row stands in the first or in the second. -/
theorem place_of_append {front back before after : List Char} {c : Char}
    (h : front ++ back = before ++ c :: after) :
    (∃ between, front = before ++ c :: between) ∨
      ∃ between, before = front ++ between ∧ back = between ++ c :: after := by
  rcases List.append_eq_append_iff.1 h with ⟨between, hbefore, hback⟩ | ⟨between, hfront, hafter⟩
  · exact Or.inr ⟨between, hbefore, hback⟩
  · cases between with
    | nil => exact Or.inr ⟨[], by simpa using hfront.symm, hafter.symm⟩
    | cons d between =>
      obtain ⟨rfl, -⟩ := List.cons.inj hafter
      exact Or.inl ⟨between, hfront⟩

/-- The byte at which a character begins belongs to a span, or the character is a blank. -/
theorem Alternates.holds_or_blank (h : Alternates offset cs spans) {c : Char}
    (hcs : cs = before ++ c :: after) :
    (∃ s ∈ spans, s.Holds (offset + byteCount before)) ∨ isBlank c = true := by
  induction h generalizing before with
  | blanks hb => exact Or.inr (hb c (by simp [hcs]))
  | @text offset blanks text rest lexeme spans hb ht _ h ih =>
    rcases place_of_append hcs with ⟨between, rfl⟩ | ⟨before, rfl, htext⟩
    · exact Or.inr (hb c (by simp))
    rw [byteCount_append, ← Nat.add_assoc]
    rcases place_of_append htext with ⟨between, rfl⟩ | ⟨before, rfl, hrest⟩
    · have hpos : 0 < c.utf8Size := c.utf8Size_pos
      have hlt : byteCount before < byteCount (before ++ c :: between) := by
        rw [byteCount_append, byteCount_cons]
        omega
      exact Or.inl ⟨_, List.mem_cons_self, Nat.le_add_right _ _, Nat.add_lt_add_left hlt _⟩
    · rw [byteCount_append, ← Nat.add_assoc]
      rcases ih hrest with ⟨s, hs, hholds⟩ | hblank
      · exact Or.inl ⟨s, List.mem_cons_of_mem _ hs, hholds⟩
      · exact Or.inr hblank

/-- The texts stand at their offsets, if no name goes on across the beginning. -/
theorem Alternates.stands (h : Alternates offset cs spans) {front : List Char}
    (hoffset : byteCount front = offset)
    (hfront : ∀ c ∈ front.getLast?, isNameChar c = true → ∀ d ∈ cs.head?, isNameChar d = false) :
    ∀ s ∈ spans, ∃ before after, s.Stands (front ++ cs) before after := by
  induction h generalizing front with
  | blanks => exact fun s hs => absurd hs List.not_mem_nil
  | @text offset blanks text rest lexeme spans hb ht hends h ih =>
    subst hoffset
    refine List.forall_mem_cons.2 ⟨⟨front ++ blanks, rest, ?_, ?_, ht, ?_, hends⟩, ?_⟩
    · rw [List.append_assoc]
    · exact byteCount_append front blanks
    · intro hname c hc
      rcases List.eq_nil_or_concat blanks with rfl | ⟨blanks, b, rfl⟩
      · -- the character before the name stands in front of the whole text
        obtain ⟨d, text, rfl⟩ := List.exists_cons_of_ne_nil ht.ne_nil
        rw [List.append_nil] at hc
        by_contra hchar
        have hhead := hfront c hc (by simpa using hchar) d (by simp)
        rw [hname d List.mem_cons_self] at hhead
        cases hhead
      · rw [List.concat_eq_append, ← List.append_assoc, List.getLast?_concat, Option.mem_some] at hc
        exact isNameChar_of_isBlank (hb c (by simp [hc]))
    · have hnext : byteCount (front ++ blanks ++ text) = byteCount front + byteCount blanks + byteCount text := by
        rw [byteCount_append, byteCount_append]
      have hrest := ih hnext fun c hc hchar => by
        rw [List.getLast?_append, Option.mem_def] at hc
        cases htext : text.getLast? with
        | none => exact absurd (List.getLast?_eq_none_iff.1 htext) ht.ne_nil
        | some last =>
          rw [htext, Option.some_or, Option.some_inj] at hc
          subst hc
          exact hends (ht.isName_of_getLast? htext hchar)
      rwa [List.append_assoc, List.append_assoc] at hrest

theorem covers_of_alternates (h : Alternates 0 source spans) : Covers source spans where
  increasing := h.apart.imp_of_mem fun hs _ hst => Nat.lt_of_lt_of_le (h.start_lt_stop _ hs) hst
  apart := h.apart
  stands := h.stands (show byteCount [] = 0 from rfl) (by simp)
  blank before c after hplace hnone := by
    rcases h.holds_or_blank hplace with ⟨s, hs, hholds⟩ | hblank
    · rw [Nat.zero_add] at hholds
      exact absurd hholds (hnone s hs)
    · exact hblank

/-! ## Flaws -/

/-- A character that is neither a blank nor a name character, and none of the brackets, operators and opening
parentheses. -/
def IsStray (c : Char) : Prop :=
  isBlank c = false ∧ isNameChar c = false ∧ c ∉ ['[', ']', '<', '>', '|', '/', '(']

/-- Every specifier that begins in a text ends in it, with the first closing parenthesis after it begins. What
comes next is outside of specifiers. -/
inductive Outside : List Char → Prop
  | nil : Outside []
  | char {c cs} (hc : c ≠ '(') (h : Outside cs) : Outside (c :: cs)
  | specifier {inner cs} (hinner : ')' ∉ inner) (h : Outside cs) : Outside ('(' :: (inner ++ ')' :: cs))

/-- What is wrong at a place, behind a text that stands before it: a stray character outside of specifiers, or a
parenthesis that is never closed. -/
inductive Flaw (before : List Char) : List Char → SignatureError → Prop
  | stray {c rest} (houtside : Outside before) (hc : IsStray c) :
      Flaw before (c :: rest) (.unexpectedChar c (byteCount before))
  | unclosed {rest} (h : ')' ∉ rest) : Flaw before ('(' :: rest) (.unclosedSpecifier (byteCount before))

/-- The leftmost flaw of a text, and what is reported of it. -/
def FirstFlaw (source : List Char) (e : SignatureError) : Prop :=
  ∃ before rest, source = before ++ rest ∧ Flaw before rest e ∧
    ∀ before' rest' e', source = before' ++ rest' → Flaw before' rest' e' → byteCount before ≤ byteCount before'

theorem not_isStray_of_isBlank {c : Char} (h : isBlank c = true) : ¬ IsStray c := fun hc => by
  rw [hc.1] at h
  cases h

theorem not_isStray_of_isNameChar {c : Char} (h : isNameChar c = true) : ¬ IsStray c := fun hc => by
  rw [hc.2.1] at h
  cases h

theorem not_isStray_of_ofSymbol? {c : Char} (h : ofSymbol? c = some lexeme) : ¬ IsStray c := fun hc => by
  unfold ofSymbol? at h
  split at h <;> cases h <;> exact hc.2.2 (by decide)

/-! ## Scanning fails at the first flaw -/

theorem Outside.append {run : List Char} (hrun : '(' ∉ run) (h : Outside cs) : Outside (run ++ cs) := by
  induction run with
  | nil => exact h
  | cons c run ih =>
    obtain ⟨hc, hrun⟩ := not_or.1 (mt List.mem_cons.2 hrun)
    exact .char (Ne.symm hc) (ih hrun)

theorem ne_paren_of_isBlank {c : Char} (h : isBlank c = true) : c ≠ '(' := by
  rintro rfl
  exact absurd h (by decide)

theorem not_mem_of_isName (h : IsName text) : '(' ∉ text := fun hmem => absurd (h '(' hmem) (by decide)

theorem Splits.outside {ls : List Lexeme} (h : Splits cs ls) : Outside cs := by
  have hsymbol : ∀ {c : Char} {lexeme : Lexeme} {cs : List Char}, ofSymbol? c = some lexeme → Outside cs →
      Outside (c :: cs) := fun hc h => .char (kind_of_ofSymbol? hc).2.1 h
  induction h with
  | nil => exact .nil
  | blank hb _ ih => exact .char (ne_paren_of_isBlank hb) ih
  | opening b _ ih => exact hsymbol (ofSymbol?_opener b) ih
  | closing b _ ih => exact hsymbol (ofSymbol?_closer b) ih
  | operator op _ ih => exact hsymbol (ofSymbol?_symbol op) ih
  | specifier ht _ ih => exact .specifier ht ih
  | name _ hrun _ _ ih => exact ih.append (not_mem_of_isName hrun)

/-- A text that splits goes on after its first character, or after the specifier that begins with it, as a text
that splits. -/
theorem Splits.uncons {c : Char} {ls : List Lexeme} (h : Splits (c :: cs) ls) :
    (c ≠ '(' ∧ ¬ IsStray c ∧ ∃ ls', Splits cs ls') ∨
      c = '(' ∧ ∃ inner after ls', ')' ∉ inner ∧ cs = inner ++ ')' :: after ∧ Splits after ls' := by
  have hsymbol : ∀ {d : Char} {lexeme : Lexeme} {cs : List Char} {ls : List Lexeme},
      ofSymbol? d = some lexeme → Splits cs ls → d ≠ '(' ∧ ¬ IsStray d ∧ ∃ ls', Splits cs ls' := fun hd h =>
    ⟨(kind_of_ofSymbol? hd).2.1, not_isStray_of_ofSymbol? hd, _, h⟩
  generalize htext : c :: cs = text at h
  cases h with
  | nil => cases htext
  | blank hb h =>
    cases htext
    exact Or.inl ⟨ne_paren_of_isBlank hb, not_isStray_of_isBlank hb, _, h⟩
  | opening b h =>
    cases htext
    exact Or.inl (hsymbol (ofSymbol?_opener b) h)
  | closing b h =>
    cases htext
    exact Or.inl (hsymbol (ofSymbol?_closer b) h)
  | operator op h =>
    cases htext
    exact Or.inl (hsymbol (ofSymbol?_symbol op) h)
  | specifier ht h =>
    cases htext
    exact Or.inr ⟨rfl, _, _, _, ht, rfl, h⟩
  | @name run after ls hne hrun hmax h =>
    obtain ⟨d, run, rfl⟩ := List.exists_cons_of_ne_nil hne
    obtain ⟨rfl, rfl⟩ := List.cons.inj htext
    have hparen : '(' ∉ c :: run := not_mem_of_isName hrun
    obtain ⟨hc, hrun⟩ := List.forall_mem_cons.1 hrun
    refine Or.inl ⟨fun h => hparen (h ▸ List.mem_cons_self), not_isStray_of_isNameChar hc, ?_⟩
    by_cases hrest : run = []
    · rw [hrest]
      exact ⟨_, h⟩
    · exact ⟨_, .name hrest hrun hmax h⟩

/-- No stray character of a text that splits is outside of specifiers. -/
theorem Splits.not_isStray {c : Char} {ls : List Lexeme} (h : Splits (before ++ c :: after) ls)
    (houtside : Outside before) : ¬ IsStray c := by
  induction houtside generalizing ls with
  | nil =>
    rcases h.uncons with ⟨-, hc, -⟩ | ⟨rfl, -⟩
    · exact hc
    · exact fun hc => hc.2.2 (by decide)
  | char hd _ ih =>
    rcases h.uncons with ⟨-, -, _, h⟩ | ⟨heq, -⟩
    · exact ih h
    · exact absurd heq hd
  | specifier hinner _ ih =>
    rw [List.cons_append, List.append_assoc, List.cons_append] at h
    rcases h.uncons with ⟨hne, -⟩ | ⟨-, inner', after', _, hinner', heq, h⟩
    · exact absurd rfl hne
    · -- both end with the first closing parenthesis
      have hclose := closeSpecifier?_append hinner' after'
      rw [← heq, closeSpecifier?_append hinner] at hclose
      cases hclose
      exact ih h

/-- After a parenthesis that opens in a text that splits, there is one that closes. -/
theorem Splits.closer_mem {before after : List Char} {ls : List Lexeme} (h : Splits (before ++ '(' :: after) ls) :
    ')' ∈ after := by
  match before with
  | [] =>
    rcases h.uncons with ⟨hne, -⟩ | ⟨-, inner, rest, _, -, rfl, -⟩
    · exact absurd rfl hne
    · simp
  | d :: before =>
    rcases h.uncons with ⟨-, -, _, h⟩ | ⟨-, inner, rest, _, -, heq, h⟩
    · exact h.closer_mem
    · rcases place_of_append heq.symm with ⟨between, rfl⟩ | ⟨between, rfl, hrest⟩
      · -- it stands within a specifier, which is closed behind it
        have hafter : '(' :: after = '(' :: (between ++ ')' :: rest) := by simpa using heq
        simp [(List.cons.inj hafter).2]
      · cases between with
        | nil => cases hrest
        | cons e between =>
          obtain ⟨-, rfl⟩ := List.cons.inj hrest
          exact h.closer_mem
termination_by before.length

/-- In a text that splits there is no flaw, whatever comes after it. -/
theorem Splits.not_flaw {c : Char} {ls : List Lexeme} (h : Splits (before ++ c :: after) ls) (rest : List Char)
    (e : SignatureError) : ¬ Flaw before (c :: (after ++ rest)) e := by
  intro hflaw
  cases hflaw with
  | stray houtside hc => exact h.not_isStray houtside hc
  | unclosed hnone => exact hnone (List.mem_append_left _ h.closer_mem)

theorem Flaw.exists_cons {rest : List Char} {e : SignatureError} (h : Flaw before rest e) :
    ∃ c after, rest = c :: after := by
  cases h with
  | stray | unclosed => exact ⟨_, _, rfl⟩

theorem Flaw.unique {rest : List Char} {e e' : SignatureError} (h : Flaw before rest e)
    (h' : Flaw before rest e') : e = e' := by
  cases h with
  | stray _ hc =>
    cases h' with
    | stray => rfl
    | unclosed => exact absurd hc (by simp [IsStray])
  | unclosed =>
    cases h' with
    | stray _ hc => exact absurd hc (by simp [IsStray])
    | unclosed => rfl

/-- Where no lexeme begins outside of specifiers, there is a flaw. -/
theorem flaw_of_stuck {rest : List Char} {e : SignatureError} (houtside : Outside before)
    (h : Stuck (byteCount before) rest e) : Flaw before rest e := by
  cases h with
  | @char c after hblank hnone =>
    refine .stray houtside ⟨hblank, ?_, fun hmem => ?_⟩
    · by_contra hname
      exact hnone [] _ (.name (List.cons_ne_nil c []) (by simpa using hname))
    · have hsymbol : ∀ {lexeme}, ¬ TextOf [c] lexeme := hnone [] _
      simp only [List.mem_cons, List.not_mem_nil, or_false] at hmem
      rcases hmem with rfl | rfl | rfl | rfl | rfl | rfl | rfl
      · exact hsymbol (.opening .optional)
      · exact hsymbol (.closing .optional)
      · exact hsymbol (.opening .required)
      · exact hsymbol (.closing .required)
      · exact hsymbol (.operator .xor)
      · exact hsymbol (.operator .or)
      · exact hnone [')'] _ (.specifier List.not_mem_nil)
  | unclosed hnone => exact .unclosed hnone

theorem firstFlaw_of_scan {source : String} {e : SignatureError} (h : scan source = .error e) :
    FirstFlaw source.toList e := by
  obtain ⟨before, rest, ls, hsource, hbefore, hstuck⟩ := stuck_of_scanFrom h
  rw [Nat.zero_add] at hstuck
  refine ⟨before, rest, hsource, flaw_of_stuck hbefore.outside hstuck, fun before' rest' e' hsource' hflaw => ?_⟩
  obtain ⟨c, after, rfl⟩ := hflaw.exists_cons
  rw [hsource] at hsource'
  rcases place_of_append hsource' with ⟨between, rfl⟩ | ⟨between, rfl, -⟩
  · -- what is scanned before the failure has no flaw
    have hafter : c :: after = c :: (between ++ rest) := by simpa using hsource'.symm
    rw [hafter] at hflaw
    exact absurd hflaw (hbefore.not_flaw rest e')
  · rw [byteCount_append]
    exact Nat.le_add_right _ _

theorem FirstFlaw.unique {e e' : SignatureError} (h : FirstFlaw source e) (h' : FirstFlaw source e') : e = e' := by
  obtain ⟨before, rest, hsource, hflaw, hfirst⟩ := h
  obtain ⟨before', rest', hsource', hflaw', hfirst'⟩ := h'
  have hcount : byteCount before = byteCount before' :=
    Nat.le_antisymm (hfirst _ _ _ hsource' hflaw') (hfirst' _ _ _ hsource hflaw)
  have hbefore := Descent.takeBytes?_append before rest
  rw [← hsource, hsource', hcount, Descent.takeBytes?_append] at hbefore
  obtain rfl := Option.some.inj hbefore
  rw [hsource] at hsource'
  obtain rfl := List.append_cancel_left hsource'
  exact hflaw.unique hflaw'

theorem exists_scan_eq_error_iff {source : String} :
    (∃ e, scan source = .error e) ↔ ∃ before rest e, source.toList = before ++ rest ∧ Flaw before rest e := by
  constructor
  · rintro ⟨e, he⟩
    obtain ⟨before, rest, hsource, hflaw, -⟩ := firstFlaw_of_scan he
    exact ⟨before, rest, e, hsource, hflaw⟩
  · rintro ⟨before, rest, e, hsource, hflaw⟩
    cases hscan : scan source with
    | error e' => exact ⟨e', rfl⟩
    | ok ps =>
      obtain ⟨c, after, rfl⟩ := hflaw.exists_cons
      have hsplits := splits_of_scanFrom hscan
      rw [hsource] at hsplits
      have hnone := hsplits.not_flaw [] e
      rw [List.append_nil] at hnone
      exact absurd hflaw hnone

theorem scan_eq_error_iff {source : String} {e : SignatureError} :
    scan source = .error e ↔ FirstFlaw source.toList e := by
  refine ⟨firstFlaw_of_scan, fun h => ?_⟩
  have ⟨before, rest, hsource, hflaw, _⟩ := h
  obtain ⟨e', he'⟩ := exists_scan_eq_error_iff.2 ⟨before, rest, e, hsource, hflaw⟩
  rw [h.unique (firstFlaw_of_scan he'), he']

/-! ## Every byte is accounted for -/

theorem scan_eq_ok_iff {source : String} {ps : List Placed} :
    scan source = .ok ps ↔ ∃ spans, Alternates 0 source.toList spans ∧ spans.map Span.placed = ps := by
  refine ⟨alternates_of_scanFrom, ?_⟩
  rintro ⟨spans, hspans, rfl⟩
  exact scanFrom_of_alternates hspans

/-- **Every byte of a text is accounted for.** The lexemes that scanning finds are those of the texts that, with
blanks in turn, make up the whole text, each at the offset at which its text begins. These texts stand in order
and do not overlap, all that they leave out is blank, and a name is a maximal run of name characters. Scanning
fails if and only if there is a stray character outside of specifiers or a parenthesis that is never closed,
and it reports the first of them. Walking the text by offsets and cutting the lexemes out of it, which finds the
same, never cuts where no character begins or ends. -/
theorem scan_covers (source : String) :
    (∀ ps, scan source = .ok ps ↔
      ∃ spans, Alternates 0 source.toList spans ∧ spans.map Span.placed = ps) ∧
    (∀ spans, Alternates 0 source.toList spans → Covers source.toList spans) ∧
    ((∃ e, scan source = .error e) ↔
      ∃ before rest e, source.toList = before ++ rest ∧ Flaw before rest e) ∧
    (∀ e, scan source = .error e ↔ FirstFlaw source.toList e) ∧
    Descent.scan source.toList (Descent.indexed 0 source.toList) = (scan source).mapError .refused :=
  ⟨fun _ => scan_eq_ok_iff, fun _ => covers_of_alternates, exists_scan_eq_error_iff, fun _ => scan_eq_error_iff,
    Descent.scan_eq (List.nil_append _).symm rfl⟩

/-- Letters of two bytes, a bracket that touches a specifier, and a closing parenthesis that stands alone. -/
example :
    scan "é<( int [2] )ñ-1|" =
        .ok [⟨.name "é".toList, 0⟩, ⟨.opening .required, 2⟩, ⟨.specifier "int [2]".toList, 3⟩,
          ⟨.name "ñ-1".toList, 14⟩, ⟨.operator .xor, 18⟩] ∧
      scan "(é $) é) (" = .error (.unexpectedChar ')' 9) ∧
      scan "x ( $" = .error (.unclosedSpecifier 2) := by
  refine ⟨?_, ?_, ?_⟩ <;> cbv

end Invocation.Lexeme
