/-
  The symbols of custom types.

  * `Declares.symbol`: a custom type that is declared for an argument has an
    identifier as its symbol, and not the name of a built-in type;
  * `Signature.mention`: a text that declares one argument of a custom type;
    `Signature.compile_mention`: it compiles if the symbol is such an
    identifier;
  * `TypeRegistry.exists_register_iff_mention`: these are the symbols that can
    be registered.
-/
import Invocation.Proofs.Dispatcher.Registration
import Invocation.Proofs.TypeRegistry

namespace Invocation

open Invocation.Text

/-! ## Symbols that are declared -/

theorem mem_reservedSymbols {symbol : String} :
    symbol ∈ reservedSymbols ↔ ∃ type, (symbol, type) ∈ builtIns := by
  have hnames : reservedSymbols = builtIns.map Prod.fst := rfl
  rw [hnames, List.mem_map]
  constructor
  · rintro ⟨⟨_, type⟩, hmem, rfl⟩
    exact ⟨type, hmem⟩
  · rintro ⟨type, hmem⟩
    exact ⟨_, hmem, rfl⟩

theorem Specifier.Spells.symbol {text : List Char} {specifier : Specifier} {symbol : String}
    (h : Spells text specifier) (htype : specifier.type = .custom symbol) :
    isIdentifier symbol = true ∧ symbol ∉ reservedSymbols := by
  have hbuiltIn : ∀ {name type}, (name, type) ∈ builtIns → type ≠ .custom symbol := by
    rintro name type hmem rfl
    rcases mem_builtIns.1 hmem with ⟨-, h⟩ | ⟨native, -, h⟩ <;> cases h
  cases h with
  | scalar hmem _ _ => exact absurd htype (hbuiltIn hmem)
  | array hmem _ _ _ _ _ _ => exact absurd htype (hbuiltIn hmem)
  | custom hidentifier hnot _ _ =>
    cases htype
    exact ⟨hidentifier, fun hmem => (mem_reservedSymbols.1 hmem).elim hnot⟩

theorem Declares.symbol {ls : List Lexeme} {a : Argument} {symbol : String} (h : Declares ls a)
    (htype : a.type = .custom symbol) : isIdentifier symbol = true ∧ symbol ∉ reservedSymbols := by
  cases h with
  | any _ | switch _ => cases htype
  | specified hs _ => exact hs.symbol htype

/-! ## Texts with one custom type -/

namespace Signature

/-- The text that declares an argument `x` of the type with a symbol. -/
def mention (symbol : String) : String := "(" ++ symbol ++ ") x"

theorem toList_mention (symbol : String) :
    (mention symbol).toList = '(' :: (symbol.toList ++ ')' :: ' ' :: (['x'] ++ [])) := by
  simp [mention]

/-- The lexemes of the text, if the symbol is an identifier. -/
theorem splits_mention {symbol : String} (h : isIdentifier symbol = true) :
    Lexeme.Splits (mention symbol).toList [.specifier symbol.toList, .name ['x']] := by
  have hname := List.all_eq_true.1 (all_isNameChar_of_isIdentifierChars h)
  have htrim : trimChars symbol.toList = symbol.toList := by
    simpa using trimChars_append_of_isNameChar blanks_nil blanks_nil hname
  have hx : Lexeme.Splits (' ' :: (['x'] ++ [])) [.name ['x']] :=
    .blank (by decide) (.name (by decide) (List.forall_mem_singleton.2 (by decide)) (by simp) .nil)
  have hspecifier := Lexeme.Splits.specifier (Specifier.not_mem_of_nameChars hname) hx
  rwa [htrim, ← toList_mention] at hspecifier

/-- The text compiles if the symbol is an identifier and not the name of a built-in type. Its only argument
has the custom type with this symbol. -/
theorem compile_mention {symbol : String} (hidentifier : isIdentifier symbol = true)
    (hnot : symbol ∉ reservedSymbols) :
    ∃ s, compile (mention symbol) = .ok s ∧
      s.arguments = [{ name := "x", kind := .positional, type := .custom symbol, shape := .scalar }] := by
  have hspells : Specifier.Spells ([] ++ symbol.toList ++ []) ⟨.custom symbol, .scalar⟩ :=
    .custom hidentifier (fun type hmem => hnot (mem_reservedSymbols.2 ⟨type, hmem⟩)) blanks_nil blanks_nil
  rw [List.nil_append, List.append_nil] at hspells
  have hx : Names "x".toList .positional "x" := .positional (by decide)
  have hderives : Derives .chain 0 [.specifier symbol.toList, .name ['x']] _ [.leaf 0] :=
    .operand (.single (.more .none (.leaf 0 (.specified hspells hx))))
  exact ⟨_, compile_of_derives (splits_mention hidentifier) hderives (List.nodup_singleton _), rfl⟩

end Signature

/-! ## Registering and naming types -/

namespace TypeRegistry

/-- **Types can be registered just if signatures can name them.** A type is accepted by the empty registry
exactly if the text that declares one argument of its symbol compiles to an argument of this custom type.
So every registered type can be named, in a command of the registry, and every custom symbol that stands in
a signature can be registered where it is not registered yet. -/
theorem exists_register_iff_mention (t : CustomType) :
    ((∃ r, register {} t = .ok r) ↔
      ∃ s, Signature.compile (Signature.mention t.symbol) = .ok s ∧
        s.arguments.map Argument.type = [.custom t.symbol]) ∧
    (∀ r, Registered r → t ∈ r.types →
      ∃ s, Metadata.compile {} r (Signature.mention t.symbol) = .ok s ∧
        s.arguments.map Argument.type = [.custom t.symbol]) ∧
    (∀ source s, Signature.compile source = .ok s → .custom t.symbol ∈ s.arguments.map Argument.type →
      ∀ r : TypeRegistry, t.symbol ∉ r.symbols → ∃ r', r.register t = .ok r') := by
  have hdeclared : ∀ {source s}, Signature.compile source = .ok s →
      .custom t.symbol ∈ s.arguments.map Argument.type →
        isIdentifier t.symbol = true ∧ t.symbol ∉ reservedSymbols := by
    intro source s hs hmem
    obtain ⟨a, ha, htype⟩ := List.mem_map.1 hmem
    obtain ⟨ls, hls⟩ := (Signature.declares_of_compile hs).1 a ha
    exact hls.symbol htype
  refine ⟨⟨?_, ?_⟩, ?_, ?_⟩
  · intro h
    obtain ⟨hidentifier, hnot, -⟩ := exists_register_iff.1 h
    obtain ⟨s, hs, harguments⟩ := Signature.compile_mention hidentifier hnot
    exact ⟨s, hs, by rw [harguments]; rfl⟩
  · rintro ⟨s, hs, htypes⟩
    obtain ⟨hidentifier, hnot⟩ := hdeclared hs (htypes ▸ List.mem_singleton_self _)
    exact exists_register_iff.2 ⟨hidentifier, hnot, List.not_mem_nil⟩
  · intro r hr ht
    have hmem : t.symbol ∈ r.symbols := List.mem_map_of_mem ht
    obtain ⟨s, hs, harguments⟩ := Signature.compile_mention (hr.proper.identifiers _ hmem)
      (hr.proper.not_builtIn _ hmem)
    obtain ⟨u, hu⟩ : ∃ u, Metadata.compile {} r (Signature.mention t.symbol) = .ok u :=
      Signature.exists_compile_iff.2
        ⟨s, hs, by simpa [harguments] using hmem, rfl, by simp [harguments, Metadata.aliasesOf]⟩
    obtain ⟨s', names, hs', rfl⟩ := Signature.compile_of_command hu
    obtain rfl : s = s' := Except.ok.inj (hs.symm.trans hs')
    exact ⟨_, hu, by rw [harguments]; rfl⟩
  · intro source s hs hmem r hnew
    obtain ⟨hidentifier, hnot⟩ := hdeclared hs hmem
    exact exists_register_iff.2 ⟨hidentifier, hnot, hnew⟩

set_option maxRecDepth 2000 in
/-- A symbol of letters beyond ASCII, an underscore and a digit, in a registry with another type. -/
theorem exists_register_iff_mention_shade :
    ∃ r₁ r s u, register {} ⟨"int_", fun _ => true, fun token => .ok (.text token)⟩ = .ok r₁ ∧
      r₁.register ⟨"größe_2", fun _ => true, fun token => .ok (.text token)⟩ = .ok r ∧ r.Registered ∧
      Metadata.compile {} r "(größe_2) x" = .ok s ∧
      s.arguments.map Argument.type = [.custom "größe_2"] ∧
      Signature.compile "(größe_2) x" = .ok u ∧ "größe_2" ∉ r₁.symbols ∧
      .custom "größe_2" ∈ u.arguments.map Argument.type := by
  let first : CustomType := ⟨"int_", fun _ => true, fun token => .ok (.text token)⟩
  let shade : CustomType := ⟨"größe_2", fun _ => true, fun token => .ok (.text token)⟩
  have h₁ : register {} first = .ok ⟨[first]⟩ := by cbv
  have hr₁ : Registered ⟨[first]⟩ := .register .empty h₁
  have hnew : shade.symbol ∉ ({ types := [first] } : TypeRegistry).symbols := by decide
  obtain ⟨halone, hnamed, hregisters⟩ := exists_register_iff_mention shade
  obtain ⟨u, hu, htypes⟩ := halone.1 ⟨⟨[shade]⟩, by cbv⟩
  have hmem : .custom shade.symbol ∈ u.arguments.map Argument.type := htypes ▸ List.mem_singleton_self _
  obtain ⟨r, h⟩ := hregisters _ u hu hmem ⟨[first]⟩ hnew
  have hr : Registered r := .register hr₁ h
  have hshade : shade ∈ r.types := by
    obtain ⟨-, -, -, rfl⟩ := register_eq_ok h
    exact List.mem_append_right _ (List.mem_singleton_self shade)
  obtain ⟨s, hs, hs'⟩ := hnamed r hr hshade
  exact ⟨_, r, s, u, h₁, h, hr, hs, hs', hu, hnew, hmem⟩

end TypeRegistry

end Invocation
