/-
  How an argument is written as it is declared.

  * `Specifier.spells_text`: a type and a shape that some text declares are
    declared by their own text;
  * `Declares.usage`: the words of the usage of an argument are lexemes that
    declare it again.
-/
import Invocation.Proofs.Signature.Grammar
import Invocation.Signature.Render

namespace Invocation

open Invocation.Text Invocation.Decimal

/-! ## Types and shapes -/

theorem name_mem_builtIns {name : String} {type : ArgumentType} (h : (name, type) ∈ builtIns) :
    (type.name, type) ∈ builtIns := by
  have hall : ∀ entry ∈ builtIns, (entry.2.name, entry.2) ∈ builtIns := by decide
  exact hall _ h

theorem isDigit_of_mem_toDigits {count : Nat} {c : Char} (h : c ∈ Nat.toDigits 10 count) :
    isDigit c = true := by
  have hdigit := Nat.isDigit_of_mem_toDigits (by decide) (by decide) h
  simpa [Char.isDigit, isDigit, Char.le_def] using hdigit

/-- A size is written in square brackets. -/
theorem Shape.Sizes.exists_text {size : List Char} {shape : Shape} (h : Shape.Sizes size shape) :
    ∃ digits, Shape.Sizes digits shape ∧ shape.text.toList = '[' :: (digits ++ [']']) := by
  cases h with
  | greedy => exact ⟨[], .greedy, rfl⟩
  | @fixed _ count _ _ _ hpos hlt =>
    refine ⟨Nat.toDigits 10 count, ?_, ?_⟩
    · exact .fixed Nat.toDigits_ne_nil (fun c hc => isDigit_of_mem_toDigits hc)
        (Nat.ofDigitChars_toDigits (by decide) (by decide)) hpos hlt
    · simp only [Shape.text, String.toList_append, toString, Nat.repr, String.toList_ofList]
      rfl

namespace Specifier

/-- The text of a specifier: the name of the type and the shape. -/
def text (s : Specifier) : List Char := s.type.name.toList ++ s.shape.text.toList

theorem text_scalar (type : ArgumentType) : text ⟨type, .scalar⟩ = type.name.toList :=
  List.append_nil _

/-- What a text declares, the text of the type and the shape declares too, and it has neither blanks nor
parentheses. -/
theorem spells_text {cs : List Char} {s : Specifier} (h : Spells cs s) :
    Spells s.text s ∧ ∀ c ∈ s.text, isBlank c = false ∧ c ≠ ')' := by
  have hplain : ∀ {c : Char}, isNameChar c = true → isBlank c = false ∧ c ≠ ')' := fun hc =>
    ⟨isBlank_of_isNameChar hc, by rintro rfl; exact absurd hc (by decide)⟩
  cases h with
  | @scalar _ type _ _ htype _ _ =>
    have htype := name_mem_builtIns htype
    rw [text_scalar]
    refine ⟨?_, fun c hc => hplain (isNameChar_of_mem_builtIns htype c hc)⟩
    have hspells := Spells.scalar htype blanks_nil blanks_nil
    rwa [List.nil_append, List.append_nil] at hspells
  | @array _ type _ shape _ _ _ _ _ htype hsize _ _ _ _ _ =>
    have htype := name_mem_builtIns htype
    obtain ⟨digits, hdigits, hshape⟩ := hsize.exists_text
    rw [text, hshape]
    refine ⟨?_, fun c hc => ?_⟩
    · have hspells := Spells.array htype hdigits blanks_nil blanks_nil blanks_nil blanks_nil blanks_nil
      simpa using hspells
    · rcases List.mem_append.1 hc with hc | hc
      · exact hplain (isNameChar_of_mem_builtIns htype c hc)
      · rw [List.mem_cons, List.mem_append, List.mem_singleton] at hc
        rcases hc with rfl | hc | rfl
        · decide
        · exact hplain (hdigits.isNameChar c hc)
        · decide
  | @custom name _ _ hid hnot _ _ =>
    have hchars := List.all_eq_true.1 (all_isNameChar_of_isIdentifierChars hid)
    rw [text_scalar]
    refine ⟨?_, fun c hc => hplain (hchars c hc)⟩
    have hspells := Spells.custom hid hnot blanks_nil blanks_nil
    rwa [List.nil_append, List.append_nil] at hspells

theorem spells_default (kind : Kind) : Spells (default kind).text (default kind) := by
  cases kind with
  | positional =>
    have hany : ("any", .any) ∈ builtIns := by decide
    exact .scalar hany blanks_nil blanks_nil
  | keyword =>
    have hbool : ("bool", .native .bool) ∈ builtIns := by decide
    exact .scalar hbool blanks_nil blanks_nil

end Specifier

/-! ## Arguments -/

/-- The name with its marker is a run of name characters. -/
theorem Names.eq_append {run : List Char} {kind : Kind} {name : String} (h : Names run kind name) :
    run = kind.marker.toList ++ name.toList := by
  cases h <;> rfl

theorem Names.isNameChar {run : List Char} {kind : Kind} {name : String} (h : Names run kind name) :
    run ≠ [] ∧ ∀ c ∈ run, isNameChar c = true := by
  have hname := List.all_eq_true.1 (all_isNameChar_of_isIdentifierChars h.isIdentifierChars)
  cases h with
  | positional hid =>
    refine ⟨fun hnil => ?_, hname⟩
    rw [isIdentifier, hnil] at hid
    cases hid
  | keyword _ =>
    have hhyphen : Text.isNameChar '-' = true := by decide
    simpa [hhyphen] using hname

theorem usage_toList (a : Argument) :
    a.usage.toList =
      '(' :: (Specifier.text ⟨a.type, a.shape⟩ ++ [')']) ++
        ' ' :: (a.kind.marker.toList ++ a.name.toList) := by
  simp [Argument.usage, Specifier.text, toString]

/-- What a declaration declares: a kind and a name, and a type and a shape that have a text. -/
theorem Declares.exists_specifier {ls : List Lexeme} {a : Argument} (h : Declares ls a) :
    ∃ run kind name specifier, Names run kind name ∧ Specifier.Spells specifier.text specifier ∧
      a = { name, kind, type := specifier.type, shape := specifier.shape } := by
  cases h with
  | any h => exact ⟨_, _, _, .default .positional, h, Specifier.spells_default _, rfl⟩
  | switch h => exact ⟨_, _, _, .default .keyword, h, Specifier.spells_default _, rfl⟩
  | specified hs h => exact ⟨_, _, _, _, h, (Specifier.spells_text hs).1, rfl⟩

/-- The words of the usage of a declared argument are lexemes that declare it again. -/
theorem Declares.usage {ls : List Lexeme} {a : Argument} (h : Declares ls a) :
    ∃ ls', List.Forall₂ Lexeme.TextOf (wordsOfChars a.usage.toList) ls' ∧ Declares ls' a := by
  obtain ⟨run, kind, name, specifier, hnames, hspells, rfl⟩ := h.exists_specifier
  obtain ⟨-, hchars⟩ := Specifier.spells_text hspells
  obtain ⟨hne, hrun⟩ := hnames.isNameChar
  have hwords : wordsOfChars _ = ['(' :: (specifier.text ++ [')']), run] :=
    wordsOfChars_of_two (b := ' ') (by decide) (fun c hc => ?_)
      (fun c hc => isBlank_of_isNameChar (hrun c hc)) (List.cons_ne_nil _ _) hne
  · rw [usage_toList, ← hnames.eq_append, hwords]
    have htrim : trimChars specifier.text = specifier.text := by
      have h := trimChars_append blanks_nil blanks_nil fun c hc => (hchars c hc).1
      rwa [List.nil_append, List.append_nil] at h
    refine ⟨[.specifier (trimChars specifier.text), .name run], ?_, ?_⟩
    · exact .cons (.specifier fun hc => (hchars _ hc).2 rfl) (.cons (.name hne hrun) .nil)
    · rw [htrim]
      exact .specified hspells hnames
  · rw [List.mem_cons, List.mem_append, List.mem_singleton] at hc
    rcases hc with rfl | hc | rfl
    · decide
    · exact (hchars c hc).1
    · decide

end Invocation
