/-
  When registrations are accepted, and what comes of them.

  * `Signature.exists_compile_iff`, `Declaration.exists_build_iff`: when the
    signatures of a declaration compile with its aliases;
  * `TypeRegistry.exists_register_iff`, `Dispatcher.exists_register_iff`:
    when a type and when a command is registered;
  * `Dispatcher.file_of_register`: what a registered command changes;
    `Dispatcher.foldlM_attempt_cons`: registrations one after the other, all
    of which are accepted;
  * `Dispatcher.eq_of_command?`: a dispatcher is made of its types, its
    settings and the commands under their names.
-/
import Invocation.Proofs.Dispatcher.Appending
import Invocation.Proofs.Dispatcher.Consistency

namespace Invocation

open Invocation.Text

/-! ## Signatures -/

namespace Signature

/-- When a text compiles with what a command declares: it compiles alone, its custom types are registered,
all aliases are identifiers, and no name or alias stands for two arguments. -/
theorem exists_compile_iff {m : Metadata} {types : TypeRegistry} {source : String} :
    (∃ s, m.compile types source = .ok s) ↔
      ∃ t, compile source = .ok t ∧
        (∀ a ∈ t.arguments, ∀ symbol, a.type = .custom symbol → symbol ∈ types.symbols) ∧
        m.invalidAlias? = none ∧ (t.arguments.flatMap fun a => a.name :: m.aliasesOf a.name).Nodup := by
  constructor
  · rintro ⟨s, h⟩
    have hnodup := (named_of_command h).nodup
    obtain ⟨t, names, ht, hunknown, hinvalid, -, rfl⟩ := compile_eq_ok h
    have hbare : ∀ a ∈ t.arguments, a.aliases = [] := fun a ha =>
      ((declares_of_compile ht).1 a ha).elim fun _ hls => (isIdentifier_of_declares hls).2
    rw [Signature.names, names_decorate hbare] at hnodup
    exact ⟨t, ht, unknownType?_eq_none_iff.1 hunknown, hinvalid, hnodup⟩
  · rintro ⟨t, ht, htypes, hinvalid, hnodup⟩
    have hnew : (t.lookup.map Prod.fst ++ t.arguments.flatMap fun a => m.aliasesOf a.name).Nodup := by
      rw [(declares_of_compile ht).2, map_fst_nameTable]
      exact (List.map_append_flatMap_perm t.arguments _ _).symm.nodup hnodup
    obtain ⟨names, hnames⟩ := exists_addAllAliasNames 0 hnew
    exact ⟨{ t with arguments := t.arguments.map m.decorate, lookup := names }, by
      simp only [Metadata.compile, ht, unknownType?_eq_none_iff.2 htypes, hinvalid, hnames]
      rfl⟩

end Signature

/-! ## Commands -/

theorem Command.exists_addSignatures_iff {c : Command} {types : TypeRegistry} {sources : List String} :
    (∃ c', c.addSignatures types sources = .ok c') ↔
      ∀ source ∈ sources, ∃ s, c.metadata.compile types source = .ok s := by
  induction sources generalizing c with
  | nil => simp [addSignatures]
  | cons source rest ih =>
    rw [addSignatures, List.forall_mem_cons]
    cases hs : c.metadata.compile types source with
    | error e => simp [addSignature, hs]
    | ok s =>
      have hadd : c.addSignature types source = .ok { c with signatures := c.signatures ++ [s] } := by
        rw [addSignature, hs]
      simp only [hadd, Except.ok.injEq, exists_eq', true_and]
      exact ih

theorem Declaration.exists_build_iff {declaration : Declaration} {types : TypeRegistry} :
    (∃ c, declaration.build types = .ok c) ↔
      ∀ source ∈ declaration.sources, ∃ s, declaration.metadata.compile types source = .ok s :=
  Command.exists_addSignatures_iff

/-! ## Types -/

theorem TypeRegistry.exists_register_iff {r : TypeRegistry} {t : CustomType} :
    (∃ r', r.register t = .ok r') ↔
      isIdentifier t.symbol = true ∧ t.symbol ∉ reservedSymbols ∧ t.symbol ∉ r.symbols := by
  constructor
  · rintro ⟨r', h⟩
    obtain ⟨hreserved, hidentifier, hnew, -⟩ := register_eq_ok h
    exact ⟨hidentifier, hreserved, hnew⟩
  · rintro ⟨hidentifier, hreserved, hnew⟩
    have hcontains : r.contains t.symbol = false := by
      rw [← Bool.not_eq_true, contains_iff]
      exact hnew
    exact ⟨_, by
      rw [register, if_neg (by simpa using hreserved), if_neg (by simp [hidentifier]),
        if_neg (by simp [hcontains])]⟩

/-! ## Dispatchers -/

namespace Dispatcher

variable {d d' : Dispatcher}

theorem exists_registerType_iff {t : CustomType} :
    (∃ d', d.registerType t = .ok d') ↔
      isIdentifier t.symbol = true ∧ t.symbol ∉ reservedSymbols ∧ t.symbol ∉ d.types.symbols := by
  rw [← TypeRegistry.exists_register_iff, registerType]
  cases d.types.register t with
  | error e => simp [Except.map]
  | ok r => simp [Except.map]

theorem exists_register_iff {declaration : Declaration} :
    (∃ d', d.register declaration = .ok d') ↔
      (∃ c, declaration.build d.types = .ok c) ∧ d.command? declaration.name = none := by
  constructor
  · rintro ⟨d', h⟩
    obtain ⟨c, hc, -, -⟩ := register_eq_ok h
    exact ⟨⟨c, hc⟩, command?_of_register h⟩
  · rintro ⟨⟨c, hc⟩, hnew⟩
    exact ⟨d.file declaration.name c, by rw [register_of_new hnew, hc]; rfl⟩

/-- What a registered command changes: it stands under its name. -/
theorem file_of_register {declaration : Declaration} (h : d.register declaration = .ok d') :
    ∃ c, declaration.build d.types = .ok c ∧ d' = d.file declaration.name c := by
  obtain ⟨c, hc, -, rfl⟩ := register_eq_ok h
  exact ⟨c, hc, by rw [(soundCommand_of_build hc).name_eq]⟩

theorem foldlM_attempt_cons {operation : Operation} {operations : List Operation} :
    (operation :: operations).foldlM attempt d = .ok d' ↔
      ∃ d₁, d.attempt operation = .ok d₁ ∧ operations.foldlM attempt d₁ = .ok d' := by
  rw [List.foldlM_cons]
  cases d.attempt operation with
  | error e => simp [bind, Except.bind]
  | ok d₁ => simp [bind, Except.bind]

theorem Reachable.foldlM_attempt {operations : List Operation} (hd : d.Reachable)
    (h : operations.foldlM Dispatcher.attempt d = .ok d') : d'.Reachable := by
  induction operations generalizing d with
  | nil =>
    cases h
    exact hd
  | cons operation rest ih =>
    obtain ⟨d₁, hfirst, hrest⟩ := foldlM_attempt_cons.1 h
    exact ih (hd.attempt hfirst) hrest

/-- Two dispatchers are equal if they have the same types, settings and commands. -/
theorem eq_of_command? (htypes : d'.types = d.types) (hsettings : d'.settings = d.settings)
    (hd : d.Reachable) (hd' : d'.Reachable) (h : ∀ name, d'.command? name = d.command? name) : d' = d := by
  have hcommands : d'.commands = d.commands :=
    eq_of_lookup_eq hd'.consistent.ascending hd.consistent.ascending h
  obtain ⟨types, settings, commands⟩ := d
  obtain ⟨types', settings', commands'⟩ := d'
  cases htypes
  cases hsettings
  cases hcommands
  rfl

end Dispatcher

end Invocation
