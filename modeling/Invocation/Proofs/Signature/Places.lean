/-
  Where lexemes stand in a text.

  * `byteCount_append`, `byteCount_eq`: offsets count the bytes of the
    characters before a place, so that they are positions between characters;
  * `Lexeme.exists_of_scanFrom`: the text of a lexeme that scanning finds
    stands at its offset, and the texts before and after it split into the
    other lexemes; `Placement` says this of a whole text;
  * `Lexeme.Stuck`: a place where no lexeme begins. `stuck_of_scanFrom`:
    scanning fails at such a place only.
-/
import Invocation.Proofs.Signature.Lexemes

namespace Invocation

open Invocation.Text

/-! ## Offsets -/

theorem byteCount_append (cs ds : List Char) : byteCount (cs ++ ds) = byteCount cs + byteCount ds := by
  have hfrom : ∀ (ds : List Char) (n : Nat), ds.foldl (fun n c => n + c.utf8Size) n = n + byteCount ds := by
    intro ds
    induction ds with
    | nil => exact fun n => rfl
    | cons d ds ih =>
      intro n
      rw [byteCount, List.foldl_cons, List.foldl_cons, ih, ih, Nat.zero_add, Nat.add_assoc]
  rw [byteCount, List.foldl_append]
  exact hfrom ds _

theorem byteCount_cons (c : Char) (cs : List Char) : byteCount (c :: cs) = c.utf8Size + byteCount cs := by
  rw [← List.singleton_append, byteCount_append, byteCount, List.foldl_cons, List.foldl_nil, Nat.zero_add]

theorem byteCount_singleton (c : Char) : byteCount [c] = c.utf8Size := byteCount_cons c []

theorem byteCount_concat (cs : List Char) (c : Char) : byteCount (cs ++ [c]) = byteCount cs + c.utf8Size := by
  rw [byteCount_append, byteCount_singleton]

theorem byteCount_eq (cs : List Char) : byteCount cs = (String.ofList cs).utf8ByteSize := by
  induction cs with
  | nil => rfl
  | cons c cs ih =>
    rw [byteCount_cons, ih, ← List.singleton_append, String.ofList_append, String.utf8ByteSize_append,
      ← String.singleton_eq_ofList, String.utf8ByteSize_singleton]

theorem byteCount_specifier (inner after : List Char) :
    byteCount ('(' :: (inner ++ ')' :: after)) = byteCount inner + 2 + byteCount after := by
  have hopen : '('.utf8Size = 1 := rfl
  have hclose : ')'.utf8Size = 1 := rfl
  rw [byteCount_cons, byteCount_append, byteCount_cons, hopen, hclose]
  omega

theorem byteCount_parenthesized (inner : List Char) : byteCount ('(' :: (inner ++ [')'])) = byteCount inner + 2 :=
  byteCount_specifier inner []

/-- The bytes before a character of a text end at a position between characters, before the end of the
text. -/
theorem isValid_of_append {source : String} {before after : List Char} {c : Char}
    (h : source.toList = before ++ c :: after) :
    String.Pos.Raw.IsValid source ⟨byteCount before⟩ ∧ byteCount before < source.utf8ByteSize := by
  have hsource : source = String.ofList before ++ String.ofList (c :: after) := by
    rw [← String.ofList_append, ← h, String.ofList_toList]
  constructor
  · refine String.Pos.Raw.isValid_iff_exists_append.2 ⟨_, _, hsource, ?_⟩
    rw [byteCount_eq]
    rfl
  · have hpos : 0 < c.utf8Size := c.utf8Size_pos
    rw [hsource, String.utf8ByteSize_append, ← byteCount_eq, ← byteCount_eq, byteCount_cons]
    omega

/-! ## Lexemes at their places -/

/-- The text of a lexeme stands in a text after other lexemes and in front of others. -/
structure Placement (source : String) (ls : List Lexeme) (lexeme : Lexeme) (ls' : List Lexeme)
    (before text after : List Char) : Prop where
  eq : source.toList = before ++ (text ++ after)
  splits : Lexeme.Splits source.toList (ls ++ lexeme :: ls')
  before : Lexeme.Splits before ls
  text : Lexeme.TextOf text lexeme
  after : Lexeme.Splits after ls'

namespace Lexeme

theorem textOf_of_ofSymbol? {c : Char} {lexeme : Lexeme} (h : ofSymbol? c = some lexeme) :
    TextOf [c] lexeme := by
  unfold ofSymbol? at h
  split at h <;> cases h
  · exact .opening .optional
  · exact .opening .required
  · exact .closing .optional
  · exact .closing .required
  · exact .operator .xor
  · exact .operator .or

/-- The text of a lexeme of one character is this character. -/
theorem TextOf.eq_symbol {text : List Char} {lexeme : Lexeme} (h : TextOf text lexeme) {c : Char}
    (hc : ofSymbol? c = some lexeme) : text = [c] := by
  unfold ofSymbol? at hc
  split at hc <;> cases hc <;> cases h <;> rfl

/-- Every lexeme that scanning finds has its text at its offset. -/
theorem exists_of_scanFrom {offset : Nat} {cs : List Char} {front back : List Placed} {placed : Placed}
    (h : scanFrom offset cs = .ok (front ++ placed :: back)) :
    ∃ before text after, cs = before ++ (text ++ after) ∧ placed.offset = offset + byteCount before ∧
      Splits before (front.map Placed.lexeme) ∧ TextOf text placed.lexeme ∧
        Splits after (back.map Placed.lexeme) := by
  generalize hps : front ++ placed :: back = ps at h
  fun_induction scanFrom offset cs generalizing front ps with
  | case1 =>
    cases h
    simp at hps
  | case2 offset b rest hb ih =>
    obtain ⟨before, text, after, rfl, hoffset, hbefore, htext, hafter⟩ := ih _ hps h
    refine ⟨b :: before, text, after, rfl, ?_, .blank hb hbefore, htext, hafter⟩
    rw [hoffset, byteCount_cons, Nat.add_assoc]
  | case3 => cases h
  | case4 offset rest inner after hclose _ ih =>
    obtain ⟨ps, hscan, rfl⟩ := map_cons_eq_ok h
    obtain ⟨hinner, rfl⟩ := eq_of_closeSpecifier? hclose
    cases front with
    | nil =>
      obtain ⟨rfl, rfl⟩ := List.cons.inj hps
      exact ⟨[], '(' :: (inner ++ [')']), after, by simp, rfl, .nil, .specifier hinner,
        splits_of_scanFrom hscan⟩
    | cons first front =>
      obtain ⟨rfl, htail⟩ := List.cons.inj hps
      obtain ⟨before, text, after, rfl, hoffset, hbefore, htext, hafter⟩ := ih _ htail hscan
      refine ⟨'(' :: (inner ++ ')' :: before), text, after, by simp, ?_, .specifier hinner hbefore, htext,
        hafter⟩
      rw [hoffset, byteCount_specifier, ← Nat.add_assoc, ← Nat.add_assoc]
  | case5 offset c rest _ _ hname run =>
    rename_i ih
    obtain ⟨ps, hscan, rfl⟩ := map_cons_eq_ok h
    have hrun : IsRun run (rest.dropWhile isNameChar) := isRun_takeWhile hname rest
    rw [run_append c rest]
    cases front with
    | nil =>
      obtain ⟨rfl, rfl⟩ := List.cons.inj hps
      exact ⟨[], run, _, rfl, rfl, .nil, .name hrun.ne_nil hrun.chars, splits_of_scanFrom hscan⟩
    | cons first front =>
      obtain ⟨rfl, hrest⟩ := List.cons.inj hps
      obtain ⟨before, text, after, hafter, hoffset, hbefore, htext, hsplits⟩ := ih _ hrest hscan
      rw [hafter] at hrun
      refine ⟨run ++ before, text, after, by rw [hafter, List.append_assoc], ?_,
        hrun.left.splits hbefore, htext, hsplits⟩
      rw [hoffset, byteCount_append, Nat.add_assoc]
  | case6 offset c rest _ _ _ lexeme hc ih =>
    obtain ⟨ps, hscan, rfl⟩ := map_cons_eq_ok h
    cases front with
    | nil =>
      obtain ⟨rfl, rfl⟩ := List.cons.inj hps
      exact ⟨[], [c], rest, rfl, rfl, .nil, textOf_of_ofSymbol? hc, splits_of_scanFrom hscan⟩
    | cons first front =>
      obtain ⟨rfl, htail⟩ := List.cons.inj hps
      obtain ⟨before, text, after, rfl, hoffset, hbefore, htext, hafter⟩ := ih _ htail hscan
      refine ⟨c :: before, text, after, rfl, ?_, splits_of_ofSymbol? hc hbefore, htext, hafter⟩
      rw [hoffset, byteCount_cons, Nat.add_assoc]
  | case7 => cases h

/-- Every lexeme of a text stands at its offset. -/
theorem placement_of_scan {source : String} {front back : List Placed} {placed : Placed}
    (h : scan source = .ok (front ++ placed :: back)) :
    ∃ before text after, byteCount before = placed.offset ∧
      Placement source (front.map Placed.lexeme) placed.lexeme (back.map Placed.lexeme) before text after := by
  obtain ⟨before, text, after, heq, hoffset, hbefore, htext, hafter⟩ := exists_of_scanFrom h
  have hsplits := splits_of_scanFrom h
  rw [List.map_append, List.map_cons] at hsplits
  exact ⟨before, text, after, by rw [hoffset, Nat.zero_add], heq, hsplits, hbefore, htext, hafter⟩

/-! ## Places without a lexeme -/

/-- Where no lexeme begins, and what is reported there: a character that neither is a blank nor begins the
text of a lexeme, or an opening parenthesis without a closing one after it. -/
inductive Stuck (offset : Nat) : List Char → SignatureError → Prop
  | char {c after} (hblank : isBlank c = false) (hnone : ∀ text lexeme, ¬ TextOf (c :: text) lexeme) :
      Stuck offset (c :: after) (.unexpectedChar c offset)
  | unclosed {after} (h : ')' ∉ after) : Stuck offset ('(' :: after) (.unclosedSpecifier offset)

/-- A character that begins no lexeme is none of those that do. -/
theorem not_textOf {c : Char} (hparen : c ≠ '(') (hname : isNameChar c = false)
    (hsymbol : ofSymbol? c = none) (text : List Char) (lexeme : Lexeme) : ¬ TextOf (c :: text) lexeme := by
  intro h
  generalize hcs : c :: text = cs at h
  cases h with
  | opening b =>
    obtain ⟨rfl, -⟩ := List.cons.inj hcs
    rw [ofSymbol?_opener] at hsymbol
    cases hsymbol
  | closing b =>
    obtain ⟨rfl, -⟩ := List.cons.inj hcs
    rw [ofSymbol?_closer] at hsymbol
    cases hsymbol
  | operator op =>
    obtain ⟨rfl, -⟩ := List.cons.inj hcs
    rw [ofSymbol?_symbol] at hsymbol
    cases hsymbol
  | specifier _ => exact hparen (List.cons.inj hcs).1
  | name _ hrun =>
    rw [hrun c (hcs ▸ List.mem_cons_self)] at hname
    cases hname

theorem not_mem_of_closeSpecifier? {cs : List Char} (h : closeSpecifier? cs = none) : ')' ∉ cs := by
  intro hmem
  unfold closeSpecifier? at h
  split at h
  · next hdrop =>
    have hall := List.dropWhile_eq_nil_iff.1 hdrop ')' hmem
    exact absurd hall (by decide)
  · cases h

theorem map_cons_eq_error {x : Except SignatureError (List Placed)} {placed : Placed} {e : SignatureError}
    (h : x.map (placed :: ·) = .error e) : x = .error e := by
  cases x with
  | error e' => exact h
  | ok rest => cases h

/-- Scanning fails only where no lexeme begins, after a text that splits into lexemes. -/
theorem stuck_of_scanFrom {offset : Nat} {cs : List Char} {e : SignatureError}
    (h : scanFrom offset cs = .error e) :
    ∃ before rest ls, cs = before ++ rest ∧ Splits before ls ∧ Stuck (offset + byteCount before) rest e := by
  fun_induction scanFrom offset cs with
  | case1 => cases h
  | case2 offset b rest hb ih =>
    obtain ⟨before, rest, ls, rfl, hbefore, hstuck⟩ := ih h
    refine ⟨b :: before, rest, ls, rfl, .blank hb hbefore, ?_⟩
    rwa [byteCount_cons, ← Nat.add_assoc]
  | case3 offset rest hclose =>
    cases h
    exact ⟨[], _, [], rfl, .nil, .unclosed (not_mem_of_closeSpecifier? hclose)⟩
  | case4 offset rest inner after hclose _ ih =>
    obtain ⟨hinner, rfl⟩ := eq_of_closeSpecifier? hclose
    obtain ⟨before, rest, ls, rfl, hbefore, hstuck⟩ := ih (map_cons_eq_error h)
    refine ⟨'(' :: (inner ++ ')' :: before), rest, _, by simp, .specifier hinner hbefore, ?_⟩
    rwa [byteCount_specifier, ← Nat.add_assoc, ← Nat.add_assoc]
  | case5 offset c rest _ _ hname run =>
    rename_i ih
    obtain ⟨before, back, ls, hafter, hbefore, hstuck⟩ := ih (map_cons_eq_error h)
    have hrun : IsRun run (rest.dropWhile isNameChar) := isRun_takeWhile hname rest
    rw [hafter] at hrun
    refine ⟨run ++ before, back, _, by rw [run_append c rest, hafter, List.append_assoc],
      hrun.left.splits hbefore, ?_⟩
    rwa [byteCount_append, ← Nat.add_assoc]
  | case6 offset c rest _ _ _ lexeme hc ih =>
    obtain ⟨before, rest, ls, rfl, hbefore, hstuck⟩ := ih (map_cons_eq_error h)
    refine ⟨c :: before, rest, _, rfl, splits_of_ofSymbol? hc hbefore, ?_⟩
    rwa [byteCount_cons, ← Nat.add_assoc]
  | case7 offset c rest hblank hparen hname hsymbol =>
    cases h
    exact ⟨[], _, [], rfl, .nil,
      .char (by simpa using hblank) (not_textOf hparen (by simpa using hname) hsymbol)⟩

end Lexeme

end Invocation
