/-
  Tokens and the texts they are written as.

  * `Token.text_classify`: a word is what its token is written as;
    `Token.name_of_classify`: the name of a keyword is not empty and holds no
    equals sign;
  * `Token.tokenize_append`: a blank separates, whatever stands on its sides;
    `Token.tokenize_intercalate`: the tokens of texts that are joined by single
    spaces are the tokens of each text;
  * `Token.tokenize_keyword`: a keyword without blanks and with such a name is
    the token of what it is written as; `Signature.Named.resolve_word`: it
    resolves to the argument that has the name;
  * `Token.tokenize_lossless`: nothing of a line is lost but its blanks.
-/
import Invocation.Matching.Keywords
import Invocation.Proofs.Signature.Names
import Invocation.Proofs.Text.Blank
import Mathlib

namespace Invocation

open Invocation.Text

namespace Token

/-! ## Words and their tokens -/

theorem not_mem_splitAssignment (cs : List Char) : '=' ∉ (splitAssignment cs).1 := by
  intro h
  simpa using List.mem_takeWhile_imp h

/-- The two parts of an assignment, joined again. -/
def joinAssignment : List Char × Option (List Char) → List Char
  | (name, none) => name
  | (name, some value) => name ++ '=' :: value

theorem joinAssignment_splitAssignment (cs : List Char) : joinAssignment (splitAssignment cs) = cs := by
  have hsplit := List.takeWhile_append_dropWhile (p := (· != '=')) (l := cs)
  rw [splitAssignment]
  cases hrest : cs.dropWhile (· != '=') with
  | nil =>
    rw [hrest, List.append_nil] at hsplit
    exact hsplit
  | cons c value =>
    have hc := List.head?_dropWhile_not (· != '=') cs
    rw [hrest] at hc
    obtain rfl : c = '=' := by simpa using hc
    rw [hrest] at hsplit
    exact hsplit

theorem splitAssignment_of_not_mem {name : List Char} (h : '=' ∉ name) :
    splitAssignment name = (name, none) := by
  have hall : ∀ c ∈ name, (c != '=') = true := fun c hc => bne_iff_ne.2 fun heq => h (heq ▸ hc)
  rw [splitAssignment, List.takeWhile_eq_self_iff.2 hall, List.dropWhile_eq_nil_iff.2 hall]

theorem splitAssignment_append {name : List Char} (h : '=' ∉ name) (value : List Char) :
    splitAssignment (name ++ '=' :: value) = (name, some value) := by
  have hall : ∀ c ∈ name, (c != '=') = true := fun c hc => bne_iff_ne.2 fun heq => h (heq ▸ hc)
  rw [splitAssignment, List.takeWhile_append_of_pos hall, List.dropWhile_append_of_pos hall]
  simp

/-- What a word is: it has no marker, no name after the marker, or both. -/
theorem classify_cases (raw : String) :
    classify raw = positional raw ∨
      ∃ rest, raw.toList = '-' :: '-' :: rest ∧ (splitAssignment rest).1 ≠ [] ∧
        classify raw = keyword (String.ofList (splitAssignment rest).1)
          ((splitAssignment rest).2.map String.ofList) := by
  rw [classify]
  split
  · next rest hraw =>
    dsimp only
    split
    · exact Or.inl rfl
    · next hname => exact Or.inr ⟨rest, hraw, by simpa using hname, rfl⟩
  · exact Or.inl rfl

/-- A word is what its token is written as. -/
theorem text_classify (raw : String) : (classify raw).text = raw := by
  rcases classify_cases raw with h | ⟨rest, hraw, -, h⟩
  · rw [h, text]
  · rw [h, ← String.toList_inj, hraw]
    conv_rhs => rw [← joinAssignment_splitAssignment rest]
    obtain ⟨name, _ | value⟩ := splitAssignment rest <;> simp [text, joinAssignment]

/-- The name of a keyword is not empty and holds no equals sign. -/
theorem name_of_classify {raw name : String} {value : Option String} (h : classify raw = keyword name value) :
    name ≠ "" ∧ '=' ∉ name.toList := by
  rcases classify_cases raw with h' | ⟨rest, -, hne, h'⟩
  · rw [h'] at h
    cases h
  · rw [h'] at h
    cases h
    rw [String.toList_ofList]
    refine ⟨fun hempty => hne ?_, not_mem_splitAssignment rest⟩
    rwa [← String.toList_eq_nil_iff, String.toList_ofList] at hempty

/-! ## Lines -/

/-- A blank separates, whatever stands on its sides. -/
theorem tokenize_append {b : Char} (hb : isBlank b = true) (x y : String) :
    tokenize (x ++ String.singleton b ++ y) = tokenize x ++ tokenize y := by
  have hline : x ++ String.singleton b ++ y = String.ofList (x.toList ++ b :: y.toList) := by
    rw [← String.toList_inj]
    simp
  rw [hline, tokenize_append_blank hb, String.ofList_toList, String.ofList_toList]

/-- The tokens of texts that are joined by single spaces are the tokens of each text. -/
theorem tokenize_intercalate (texts : List String) :
    tokenize (" ".intercalate texts) = texts.flatMap tokenize := by
  induction texts with
  | nil => rfl
  | cons x rest ih =>
    -- no space follows the last text
    cases rest with
    | nil => simp
    | cons y rest =>
      have hspace : tokenize (x ++ " " ++ " ".intercalate (y :: rest)) =
          tokenize x ++ tokenize (" ".intercalate (y :: rest)) :=
        tokenize_append (b := ' ') (by decide) x _
      rw [String.intercalate_cons_cons, hspace, ih, ← List.flatMap_cons]

/-- A word is one token. -/
theorem tokenize_word {word : String} (hne : word ≠ "") (hblank : ∀ c ∈ word.toList, isBlank c = false) :
    tokenize word = [classify word] := by
  have hne : word.toList ≠ [] := fun h => hne (String.toList_eq_nil_iff.1 h)
  rw [tokenize, words, wordsOfChars_of_not_blank hblank hne]
  simp

/-- The words of a line are what its tokens are written as. -/
theorem map_text_tokenize (line : String) : (tokenize line).map text = words line := by
  rw [tokenize, List.map_map]
  exact List.map_id'' text_classify _

/-- The tokens of a line, written with single spaces between them, have these tokens. -/
theorem tokenize_text (line : String) :
    tokenize (" ".intercalate ((tokenize line).map text)) = tokenize line := by
  have hword : ∀ w ∈ words line, tokenize w = [classify w] := by
    intro w hw
    obtain ⟨hne, hblank⟩ := mem_words hw
    exact tokenize_word (fun h => hne (String.toList_eq_nil_iff.2 h)) hblank
  rw [tokenize_intercalate, map_text_tokenize, List.flatMap_congr hword, ← List.map_eq_flatMap, tokenize]

/-! ## Words that give a name -/

/-- A keyword is the token of what it is written as, if its name is not empty and holds no equals sign. -/
theorem classify_text {name : String} (value : Option String) (hne : name ≠ "") (heq : '=' ∉ name.toList) :
    classify (keyword name value).text = keyword name value := by
  have hname : ¬ name.toList.isEmpty = true := by
    rwa [List.isEmpty_iff, String.toList_eq_nil_iff]
  cases value with
  | none =>
    have hraw : (text (keyword name none)).toList = '-' :: '-' :: name.toList := String.toList_append
    simp only [classify, hraw, splitAssignment_of_not_mem heq, if_neg hname, String.ofList_toList,
      Option.map_none]
  | some value =>
    have hraw : (text (keyword name (some value))).toList =
        '-' :: '-' :: (name.toList ++ '=' :: value.toList) := by
      simp [text]
    simp only [classify, hraw, splitAssignment_append heq, if_neg hname, String.ofList_toList,
      Option.map_some]

/-- Such a keyword without blanks is the only token of the line it is written as. -/
theorem tokenize_keyword {name : String} {value : Option String} (hne : name ≠ "") (heq : '=' ∉ name.toList)
    (hname : ∀ c ∈ name.toList, isBlank c = false) (hvalue : ∀ v ∈ value, ∀ c ∈ v.toList, isBlank c = false) :
    tokenize (keyword name value).text = [keyword name value] := by
  have hmarks : isBlank '-' = false ∧ isBlank '=' = false := by decide
  have hmarker : ∀ c ∈ "--".toList, isBlank c = false := by simp [hmarks]
  have hequals : ∀ c ∈ "=".toList, isBlank c = false := by simp [hmarks]
  have hblank : ∀ c ∈ (keyword name value).text.toList, isBlank c = false := by
    cases value with
    | none =>
      rw [text, String.toList_append, List.forall_mem_append]
      exact ⟨hmarker, hname⟩
    | some value =>
      simp only [text, String.toList_append, List.forall_mem_append]
      exact ⟨⟨⟨hmarker, hname⟩, hequals⟩, hvalue value rfl⟩
  have hwritten : (keyword name value).text ≠ "" := by
    cases value <;> simp [text]
  rw [tokenize_word hwritten hblank, classify_text value hne heq]

end Token

/-- An identifier can be the name of a keyword: it is not empty and holds neither equals signs nor blanks. -/
theorem Text.word_of_isIdentifier {name : String} (h : isIdentifier name = true) :
    name ≠ "" ∧ '=' ∉ name.toList ∧ ∀ c ∈ name.toList, isBlank c = false := by
  have hchars := List.all_eq_true.1 (all_isNameChar_of_isIdentifierChars h)
  refine ⟨?_, fun hmem => ?_, fun c hc => isBlank_of_isNameChar (hchars c hc)⟩
  · rintro rfl
    cases h
  · exact absurd (hchars '=' hmem) (by decide)

namespace Signature

variable {s : Signature} {index : Nat} {a : Argument} {name : String}

/-- A name or alias of a keyword argument, written with or without a value, is a keyword that resolves to the
argument and has the value. -/
theorem Named.resolve_word (h : s.Named) (ha : s.arguments[index]? = some a) (hkind : a.kind = .keyword)
    (hname : name ∈ a.name :: a.aliases) (value : Option String)
    (hvalue : ∀ v ∈ value, ∀ c ∈ v.toList, isBlank c = false) :
    Token.classify (Token.keyword name value).text = .keyword name value ∧
      Keywords.resolve s (Input.ofLine (Token.keyword name value).text).keywords = ⟨[(index, value)], []⟩ := by
  have hnames : name ∈ s.names := List.mem_flatMap.2 ⟨a, List.mem_of_getElem? ha, hname⟩
  obtain ⟨hne, heq, hblank⟩ := word_of_isIdentifier (h.identifiers name hnames)
  refine ⟨Token.classify_text value hne heq, ?_⟩
  have hindex : s.keywordIndex? name = some index := by
    rw [keywordIndex?, (h.resolve?_eq_some_iff name index).2 ⟨a, ha, List.mem_cons.1 hname⟩]
    simp [ha, hkind]
  rw [Input.ofLine, Token.tokenize_keyword hne heq hblank hvalue]
  simp [Input.ofTokens, Input.keyword?, Keywords.resolve, hindex]

end Signature

/-- **Nothing of a line is lost but its blanks.** A word is what its token is written as, and the name of a
keyword is never empty and never holds an equals sign. The tokens of two lines with a blank between them are
those of the first followed by those of the second, so the tokens of a line, written with single spaces between
them, have the same tokens. Every name and alias of a keyword argument, behind the marker and with or without
an equals sign and a value, is a keyword token that resolves to the argument and has the value. -/
theorem Token.tokenize_lossless :
    (∀ word, (classify word).text = word) ∧
    (∀ word name value, classify word = .keyword name value → name ≠ "" ∧ '=' ∉ name.toList) ∧
    (∀ x b y, isBlank b = true → tokenize (x ++ String.singleton b ++ y) = tokenize x ++ tokenize y) ∧
    (∀ line, tokenize (" ".intercalate ((tokenize line).map text)) = tokenize line) ∧
    ∀ s : Signature, s.Compiled → ∀ index a, s.arguments[index]? = some a → a.kind = .keyword →
      ∀ name ∈ a.name :: a.aliases,
        (classify ("--" ++ name) = .keyword name none ∧
          Keywords.resolve s (Input.ofLine ("--" ++ name)).keywords = ⟨[(index, none)], []⟩) ∧
        ∀ value : String, (∀ c ∈ value.toList, isBlank c = false) →
          classify ("--" ++ name ++ "=" ++ value) = .keyword name (some value) ∧
          Keywords.resolve s (Input.ofLine ("--" ++ name ++ "=" ++ value)).keywords =
            ⟨[(index, some value)], []⟩ := by
  refine ⟨text_classify, fun _ _ _ => name_of_classify, fun x b y hb => tokenize_append hb x y, tokenize_text,
    fun s hs index a ha hkind name hname => ⟨?_, fun value hvalue => ?_⟩⟩
  · exact hs.named.resolve_word ha hkind hname none (by simp)
  · exact hs.named.resolve_word ha hkind hname (some value) (by simpa using hvalue)

set_option maxRecDepth 2000 in
/-- An alias beside a name beyond ASCII, an ideographic space, and values with an equals sign and without
characters. -/
theorem Token.tokenize_lossless_alias :
    ∃ s a, Metadata.compile (({} : Metadata).addAlias "größe" "--g") {} "x --größe" = .ok s ∧ s.Compiled ∧
      s.arguments[1]? = some a ∧ a.kind = .keyword ∧ "g" ∈ a.name :: a.aliases ∧
      classify "--größe=" = .keyword "größe" (some "") ∧
      Keywords.resolve s (Input.ofLine "--g=a=b").keywords = ⟨[(1, some "a=b")], []⟩ ∧
      tokenize ("-- --=x" ++ String.singleton (Char.ofNat 0x3000) ++ "--g") =
        [.positional "--", .positional "--=x", .keyword "g" none] := by
  obtain ⟨-, -, happend, -, hresolve⟩ := tokenize_lossless
  let x : Argument := { name := "x", kind := .positional, type := .any, shape := .scalar }
  let size : Argument :=
    { name := "größe", kind := .keyword, type := .native .bool, shape := .scalar, aliases := ["g"] }
  have hs : Metadata.compile (({} : Metadata).addAlias "größe" "--g") {} "x --größe" =
      .ok ⟨"x --größe", ⟨[.leaf 0, .leaf 1], .and, true⟩, [x, size], [("x", 0), ("größe", 1), ("g", 1)]⟩ := by
    cbv
  have hcompiled := Signature.Compiled.command hs
  have hwords := hresolve _ hcompiled 1 size rfl rfl
  refine ⟨_, size, hs, hcompiled, rfl, rfl, by decide, ?_, ?_, ?_⟩
  · exact ((hwords "größe" (by decide)).2 "" (by simp)).1
  · have hvalue : ∀ c ∈ "a=b".toList, isBlank c = false := by
      simpa using (by decide : isBlank 'a' = false ∧ isBlank '=' = false ∧ isBlank 'b' = false)
    exact ((hwords "g" (by decide)).2 "a=b" hvalue).2
  · rw [happend _ _ _ (by decide)]
    cbv

end Invocation
