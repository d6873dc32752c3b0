/-
  What a configuration builds.

  * `CommandEntry.aliasesFor`: the aliases that an entry lists for an
    argument; `CommandEntry.aliasesOf_metadata`: they are what its commands
    declare;
  * `CommandEntry.Compiles`: a text compiles with the aliases of an entry and
    uses listed types only; `CommandEntry.exists_build_iff`;
  * `registerTypes_eq_ok_iff`, `registerCommands_eq_ok_iff`: the loops over
    types and commands are registrations by hand;
  * `exists_registerTypes_iff`, `exists_registerCommands_iff`: when these
    loops come to their end; `command?_of_registerCommands`: which commands
    there are then; `registerCommands_perm`: their order does not count;
  * `Config.Buildable`: what is needed of a configuration;
    `Config.dispatcher_perm`: it is what building needs, in every order of the
    commands, and all orders build the same dispatcher.
-/
import Invocation.Config.Build
import Invocation.Proofs.Dispatcher.Registration
import Invocation.Standard

namespace Invocation

open Invocation.Text

/-! ## Aliases -/

namespace Metadata

variable {m : Metadata}

/-- The aliases of arguments, added one argument after the other. -/
def withAliases (m : Metadata) (entries : List (String × List String)) : Metadata :=
  entries.foldl (fun m entry => m.addAliases entry.1 entry.2) m

theorem aliasesOf_withAliases (m : Metadata) (entries : List (String × List String)) (argument : String) :
    (m.withAliases entries).aliasesOf argument = m.aliasesOf argument ++
      (entries.filter (·.1 == argument)).flatMap fun entry => entry.2.map dropMarker := by
  induction entries generalizing m with
  | nil => exact (List.append_nil _).symm
  | cons entry rest ih =>
    have hrest := ih (m.addAliases entry.1 entry.2)
    rw [withAliases] at hrest ⊢
    rw [List.foldl_cons, hrest, aliasesOf_addAliases, List.append_assoc, List.filter_cons]
    by_cases h : entry.1 = argument
    · simp [h]
    · simp [h]

theorem ascending_withAliases (h : (m.aliases.map Prod.fst).Pairwise (· < ·))
    (entries : List (String × List String)) :
    ((m.withAliases entries).aliases.map Prod.fst).Pairwise (· < ·) := by
  induction entries generalizing m with
  | nil => exact h
  | cons entry rest ih => exact ih (ascending_addAliases h entry.2)

end Metadata

namespace Config

namespace CommandEntry

/-- The aliases that an entry lists for an argument, in order, without the marker of keywords. -/
def aliasesFor (e : CommandEntry) (argument : String) : List String :=
  (e.aliases.filter (·.1 == argument)).flatMap fun (_, names) => names.map dropMarker

/-- Descriptions leave the aliases as they are. -/
theorem aliases_metadata (e : CommandEntry) :
    e.metadata.aliases = (({} : Metadata).withAliases e.aliases).aliases := by
  rw [metadata]
  generalize ({} : Metadata) = m
  change (e.descriptions.foldl _ (m.withAliases e.aliases)).aliases = _
  generalize m.withAliases e.aliases = m
  induction e.descriptions generalizing m with
  | nil => rfl
  | cons _ rest ih => exact ih _

theorem aliasesOf_metadata (e : CommandEntry) (argument : String) :
    e.metadata.aliasesOf argument = e.aliasesFor argument := by
  rw [Metadata.aliasesOf, aliases_metadata]
  exact Metadata.aliasesOf_withAliases {} e.aliases argument

theorem ascending_metadata (e : CommandEntry) : (e.metadata.aliases.map Prod.fst).Pairwise (· < ·) := by
  rw [aliases_metadata]
  exact Metadata.ascending_withAliases List.Pairwise.nil e.aliases

/-- A text compiles as a signature of an entry: it compiles alone, its custom types are among the given
symbols, the aliases of the entry are identifiers, and no name or alias stands for two arguments. -/
def Compiles (e : CommandEntry) (symbols : List String) (source : String) : Prop :=
  ∃ s, Signature.compile source = .ok s ∧
    (∀ a ∈ s.arguments, ∀ symbol, a.type = .custom symbol → symbol ∈ symbols) ∧
    (∀ argument, ∀ byname ∈ e.aliasesFor argument, isIdentifier byname = true) ∧
    (s.arguments.flatMap fun a => a.name :: e.aliasesFor a.name).Nodup

theorem exists_compile_iff {e : CommandEntry} {types : TypeRegistry} {source : String} :
    (∃ s, e.metadata.compile types source = .ok s) ↔ e.Compiles types.symbols source := by
  have hnodup := e.ascending_metadata.imp String.ne_of_lt
  rw [Signature.exists_compile_iff, Metadata.invalidAlias?_eq_none_iff hnodup, Compiles]
  simp only [aliasesOf_metadata]

/-- An entry gives a command if all of its texts compile. -/
theorem exists_build_iff {e : CommandEntry} {types : TypeRegistry} :
    (∃ c, e.declaration.build types = .ok c) ↔
      ∀ source ∈ e.signatures, e.Compiles types.symbols source := by
  simp only [← exists_compile_iff]
  exact Declaration.exists_build_iff

end CommandEntry

/-! ## Registering types -/

section

variable {libs : Libraries} {d d' : Dispatcher} {t : TypeEntry} {type : CustomType}

theorem TypeEntry.exists_build_iff :
    (∃ type, t.build libs = .ok type) ↔ ∃ m, libs.compile t.pattern = .ok m := by
  rw [build]
  cases libs.compile t.pattern with
  | error reason => simp
  | ok m => simp

theorem TypeEntry.symbol_of_build (h : t.build libs = .ok type) : type.symbol = t.symbol := by
  obtain ⟨m, hm⟩ := TypeEntry.exists_build_iff.1 ⟨type, h⟩
  simp only [build, hm, Except.ok.injEq] at h
  rw [← h]

theorem registerTypes_cons {rest : List TypeEntry} :
    registerTypes libs d (t :: rest) = .ok d' ↔
      ∃ type d₁, t.build libs = .ok type ∧ d.registerType type = .ok d₁ ∧
        registerTypes libs d₁ rest = .ok d' := by
  rw [registerTypes]
  cases t.build libs with
  | error e => simp
  | ok type =>
    cases htype : d.registerType type with
    | error e => simp [htype]
    | ok d₁ => simp [htype]

theorem symbols_of_registerType (h : d.registerType type = .ok d') :
    d'.types.symbols = d.types.symbols ++ [type.symbol] := by
  obtain ⟨types, ht, rfl⟩ := Dispatcher.registerType_eq_ok h
  obtain ⟨-, -, -, rfl⟩ := TypeRegistry.register_eq_ok ht
  simp [TypeRegistry.symbols]

/-- Registering the types of entries is registering their types by hand. -/
theorem registerTypes_eq_ok_iff {ts : List TypeEntry} :
    registerTypes libs d ts = .ok d' ↔
      ∃ types, List.Forall₂ (fun t type => t.build libs = .ok type) ts types ∧
        (types.map Operation.registerType).foldlM Dispatcher.attempt d = .ok d' := by
  induction ts generalizing d with
  | nil =>
    simp only [List.forall₂_nil_left_iff, exists_eq_left, registerTypes, List.map_nil, List.foldlM_nil,
      pure, Except.pure, Except.ok.injEq]
  | cons t rest ih =>
    simp only [registerTypes_cons, ih, List.forall₂_cons_left_iff]
    constructor
    · rintro ⟨type, d₁, hbuild, htype, types, hrest, hall⟩
      exact ⟨type :: types, ⟨type, types, hbuild, hrest, rfl⟩,
        Dispatcher.foldlM_attempt_cons.2 ⟨d₁, htype, hall⟩⟩
    · rintro ⟨_, ⟨type, types, hbuild, hrest, rfl⟩, h⟩
      obtain ⟨d₁, htype, hall⟩ := Dispatcher.foldlM_attempt_cons.1 h
      exact ⟨type, d₁, hbuild, htype, types, hrest, hall⟩

/-- Types leave settings and commands as they are. -/
theorem registerTypes_eq_ok {ts : List TypeEntry} (h : registerTypes libs d ts = .ok d') :
    d'.settings = d.settings ∧ d'.commands = d.commands ∧
      d'.types.symbols = d.types.symbols ++ ts.map TypeEntry.symbol := by
  induction ts generalizing d with
  | nil =>
    cases h
    exact ⟨rfl, rfl, (List.append_nil _).symm⟩
  | cons t rest ih =>
    obtain ⟨type, d₁, hbuild, htype, hrest⟩ := registerTypes_cons.1 h
    obtain ⟨hsettings, hcommands, hsymbols⟩ := ih hrest
    have hfirst := symbols_of_registerType htype
    obtain ⟨types, -, rfl⟩ := Dispatcher.registerType_eq_ok htype
    refine ⟨hsettings, hcommands, ?_⟩
    rw [hsymbols, hfirst, TypeEntry.symbol_of_build hbuild, List.map_cons, ← List.append_cons]

/-- When all types of entries are registered. -/
theorem exists_registerTypes_iff {ts : List TypeEntry} (hd : d.types.symbols.Nodup) :
    (∃ d', registerTypes libs d ts = .ok d') ↔
      (∀ t ∈ ts, ∃ m, libs.compile t.pattern = .ok m) ∧
        (∀ t ∈ ts, isIdentifier t.symbol = true ∧ t.symbol ∉ reservedSymbols) ∧
        (d.types.symbols ++ ts.map TypeEntry.symbol).Nodup := by
  induction ts generalizing d with
  | nil => simp [registerTypes, hd]
  | cons t rest ih =>
    rw [List.forall_mem_cons, List.forall_mem_cons, List.map_cons, List.append_cons]
    constructor
    · rintro ⟨d', h⟩
      obtain ⟨type, d₁, hbuild, htype, hrest⟩ := registerTypes_cons.1 h
      have hsymbol := TypeEntry.symbol_of_build hbuild
      obtain ⟨hidentifier, hreserved, hnew⟩ := Dispatcher.exists_registerType_iff.1 ⟨d₁, htype⟩
      have hsymbols := symbols_of_registerType htype
      have hnodup : d₁.types.symbols.Nodup := by
        rw [hsymbols]
        exact List.concat_eq_append ▸ hd.concat hnew
      obtain ⟨hpatterns, hsound, hall⟩ := (ih hnodup).1 ⟨d', hrest⟩
      rw [hsymbol] at hidentifier hreserved
      rw [hsymbols, hsymbol] at hall
      exact ⟨⟨TypeEntry.exists_build_iff.1 ⟨type, hbuild⟩, hpatterns⟩, ⟨⟨hidentifier, hreserved⟩, hsound⟩,
        hall⟩
    · rintro ⟨⟨hpattern, hpatterns⟩, ⟨hsound, hsounds⟩, hall⟩
      have hfirst : (d.types.symbols ++ [t.symbol]).Nodup := (List.nodup_append.1 hall).1
      obtain ⟨type, hbuild⟩ := TypeEntry.exists_build_iff.2 hpattern
      have hsymbol := TypeEntry.symbol_of_build hbuild
      have hnew : t.symbol ∉ d.types.symbols := fun hmem =>
        (List.nodup_append.1 hfirst).2.2 _ hmem _ (List.mem_singleton_self _) rfl
      obtain ⟨d₁, htype⟩ := Dispatcher.exists_registerType_iff.2
        ⟨hsymbol ▸ hsound.1, hsymbol ▸ hsound.2, hsymbol ▸ hnew⟩
      have hsymbols := symbols_of_registerType htype
      rw [hsymbol] at hsymbols
      obtain ⟨d', hrest⟩ := (ih (hsymbols ▸ hfirst)).2 ⟨hpatterns, hsounds, hsymbols ▸ hall⟩
      exact ⟨d', registerTypes_cons.2 ⟨type, d₁, hbuild, htype, hrest⟩⟩

end

/-! ## Registering commands -/

section

variable {d d' : Dispatcher} {e : CommandEntry} {es : List CommandEntry}

theorem registerCommands_cons :
    registerCommands d (e :: es) = .ok d' ↔
      ∃ d₁, d.register e.declaration = .ok d₁ ∧ registerCommands d₁ es = .ok d' := by
  rw [registerCommands]
  cases d.register e.declaration with
  | error e => simp
  | ok d₁ => simp

/-- Registering the commands of entries is registering them by hand. -/
theorem registerCommands_eq_ok_iff :
    registerCommands d es = .ok d' ↔
      (es.map fun e => Operation.register e.declaration).foldlM Dispatcher.attempt d = .ok d' := by
  induction es generalizing d with
  | nil => simp only [registerCommands, List.map_nil, List.foldlM_nil, pure, Except.pure, Except.ok.injEq]
  | cons e rest ih =>
    rw [registerCommands_cons, List.map_cons, Dispatcher.foldlM_attempt_cons]
    simp only [ih]
    rfl

/-- The names that are free after a command was filed. -/
theorem command?_file_eq_none_iff {c : Command} {name : String} :
    (∀ e ∈ es, (d.file name c).command? e.name = none) ↔
      (∀ e ∈ es, d.command? e.name = none) ∧ name ∉ es.map CommandEntry.name := by
  have hother : ∀ other, (d.file name c).command? other = none ↔ other ≠ name ∧ d.command? other = none := by
    intro other
    by_cases h : other = name
    · simp [h]
    · simp [h, Dispatcher.command?_file_of_ne h]
  simp only [hother, List.mem_map, not_exists, not_and]
  exact ⟨fun h => ⟨fun e he => (h e he).2, fun e he => (h e he).1⟩, fun h e he => ⟨h.2 e he, h.1 e he⟩⟩

/-- When all commands of entries are registered. -/
theorem exists_registerCommands_iff :
    (∃ d', registerCommands d es = .ok d') ↔
      (∀ e ∈ es, ∀ source ∈ e.signatures, e.Compiles d.types.symbols source) ∧
        (∀ e ∈ es, d.command? e.name = none) ∧ (es.map CommandEntry.name).Nodup := by
  induction es generalizing d with
  | nil => simp [registerCommands]
  | cons e rest ih =>
    rw [List.forall_mem_cons, List.forall_mem_cons, List.map_cons, List.nodup_cons]
    constructor
    · rintro ⟨d', h⟩
      obtain ⟨d₁, hfirst, hrest⟩ := registerCommands_cons.1 h
      obtain ⟨hbuild, hnew⟩ := Dispatcher.exists_register_iff.1 ⟨d₁, hfirst⟩
      obtain ⟨c, -, rfl⟩ := Dispatcher.file_of_register hfirst
      obtain ⟨hcompile, hnone, hnodup⟩ := ih.1 ⟨d', hrest⟩
      obtain ⟨hnone, hnot⟩ := command?_file_eq_none_iff.1 hnone
      exact ⟨⟨CommandEntry.exists_build_iff.1 hbuild, hcompile⟩, ⟨hnew, hnone⟩, hnot, hnodup⟩
    · rintro ⟨⟨hbuild, hcompile⟩, ⟨hnew, hnone⟩, hnot, hnodup⟩
      obtain ⟨d₁, hfirst⟩ := Dispatcher.exists_register_iff.2
        ⟨CommandEntry.exists_build_iff.2 hbuild, hnew⟩
      obtain ⟨c, -, rfl⟩ := Dispatcher.file_of_register hfirst
      obtain ⟨d', hrest⟩ := (ih (d := d.file e.name c)).2
        ⟨hcompile, command?_file_eq_none_iff.2 ⟨hnone, hnot⟩, hnodup⟩
      exact ⟨d', registerCommands_cons.2 ⟨_, hfirst, hrest⟩⟩

/-- The commands after those of entries were registered: the commands of the entries, and the commands that
there were. -/
theorem command?_of_registerCommands (h : registerCommands d es = .ok d') :
    d'.types = d.types ∧ d'.settings = d.settings ∧
      ∀ name c, d'.command? name = some c ↔
        (∃ e ∈ es, e.name = name ∧ e.declaration.build d.types = .ok c) ∨ d.command? name = some c := by
  induction es generalizing d with
  | nil =>
    cases h
    simp
  | cons e rest ih =>
    obtain ⟨d₁, hfirst, hrest⟩ := registerCommands_cons.1 h
    have hnew : d.command? e.name = none := Dispatcher.command?_of_register hfirst
    obtain ⟨c₁, hbuild, rfl⟩ : ∃ c, e.declaration.build d.types = .ok c ∧ d₁ = d.file e.name c :=
      Dispatcher.file_of_register hfirst
    obtain ⟨htypes, hsettings, hcommands⟩ := ih hrest
    refine ⟨htypes, hsettings, fun name c => ?_⟩
    have hfile : (d.file e.name c₁).command? name = some c ↔
        (e.name = name ∧ e.declaration.build d.types = .ok c) ∨ d.command? name = some c := by
      by_cases hname : name = e.name
      · subst hname
        simp [hnew, hbuild]
      · rw [Dispatcher.command?_file_of_ne hname]
        simp [Ne.symm hname]
    simp only [hcommands, hfile, List.mem_cons, or_and_right, exists_or, exists_eq_left, or_left_comm,
      or_assoc]
    rfl

/-- Commands can be registered in any order. -/
theorem registerCommands_perm {es' : List CommandEntry} (hperm : es'.Perm es) (hd : d.Reachable)
    (h : registerCommands d es = .ok d') : registerCommands d es' = .ok d' := by
  obtain ⟨hcompile, hnone, hnodup⟩ := exists_registerCommands_iff.1 ⟨d', h⟩
  obtain ⟨d'', h'⟩ := exists_registerCommands_iff.2 ⟨fun e he => hcompile e (hperm.mem_iff.1 he),
    fun e he => hnone e (hperm.mem_iff.1 he), (hperm.map _).nodup_iff.2 hnodup⟩
  obtain ⟨htypes, hsettings, hcommands⟩ := command?_of_registerCommands h
  obtain ⟨htypes', hsettings', hcommands'⟩ := command?_of_registerCommands h'
  have heq : d'' = d' := by
    refine Dispatcher.eq_of_command? (htypes'.trans htypes.symm) (hsettings'.trans hsettings.symm)
      (hd.foldlM_attempt (registerCommands_eq_ok_iff.1 h))
      (hd.foldlM_attempt (registerCommands_eq_ok_iff.1 h')) fun name => ?_
    refine Option.ext fun c => ?_
    rw [hcommands, hcommands']
    simp only [hperm.mem_iff]
  rw [h', heq]

end

/-! ## Dispatchers -/

/-- What a configuration needs to give a dispatcher. -/
structure Buildable (libs : Libraries) (c : Config) : Prop where
  patterns : ∀ t ∈ c.types, ∃ m, libs.compile t.pattern = .ok m
  symbols : ∀ t ∈ c.types, isIdentifier t.symbol = true ∧ t.symbol ∉ reservedSymbols
  nodup_symbols : (c.types.map TypeEntry.symbol).Nodup
  nodup_names : (c.commands.map CommandEntry.name).Nodup
  compiles : ∀ e ∈ c.commands, ∀ source ∈ e.signatures, e.Compiles (c.types.map TypeEntry.symbol) source

variable {libs : Libraries} {c : Config} {d : Dispatcher}

theorem dispatcher_eq_ok_iff :
    c.dispatcher libs = .ok d ↔
      ∃ d₁, registerTypes libs { settings := c.settings } c.types = .ok d₁ ∧
        registerCommands d₁ c.commands = .ok d := by
  rw [dispatcher]
  cases registerTypes libs { settings := c.settings } c.types with
  | error e => simp
  | ok d₁ => simp

theorem exists_dispatcher_iff : (∃ d, c.dispatcher libs = .ok d) ↔ c.Buildable libs := by
  simp only [dispatcher_eq_ok_iff]
  rw [exists_comm]
  have hempty : ({ settings := c.settings } : Dispatcher).types.symbols = [] := rfl
  have htypes : (∃ d, registerTypes libs { settings := c.settings } c.types = .ok d) ↔ _ :=
    exists_registerTypes_iff List.nodup_nil
  rw [hempty, List.nil_append] at htypes
  constructor
  · rintro ⟨d₁, d, h₁, h⟩
    obtain ⟨hpatterns, hsymbols, hnodup⟩ := htypes.1 ⟨d₁, h₁⟩
    obtain ⟨hcompile, -, hnames⟩ := exists_registerCommands_iff.1 ⟨d, h⟩
    obtain ⟨-, -, hall⟩ := registerTypes_eq_ok h₁
    rw [hempty, List.nil_append] at hall
    exact ⟨hpatterns, hsymbols, hnodup, hnames, hall ▸ hcompile⟩
  · rintro ⟨hpatterns, hsymbols, hnodup, hnames, hcompile⟩
    obtain ⟨d₁, h₁⟩ := htypes.2 ⟨hpatterns, hsymbols, hnodup⟩
    obtain ⟨-, hcommands, hall⟩ := registerTypes_eq_ok h₁
    rw [hempty, List.nil_append] at hall
    have hnone : ∀ e ∈ c.commands, d₁.command? e.name = none := by
      intro e _
      rw [Dispatcher.command?, hcommands]
      rfl
    obtain ⟨d, h⟩ := exists_registerCommands_iff.2 ⟨hall.symm ▸ hcompile, hnone, hnames⟩
    exact ⟨d₁, d, h₁, h⟩

theorem Buildable.of_perm {commands : List CommandEntry} (h : commands.Perm c.commands)
    (hc : c.Buildable libs) : ({ c with commands } : Config).Buildable libs where
  patterns := hc.patterns
  symbols := hc.symbols
  nodup_symbols := hc.nodup_symbols
  nodup_names := (h.map _).nodup_iff.2 hc.nodup_names
  compiles e he := hc.compiles e (h.mem_iff.1 he)

theorem dispatcher_of_perm {commands : List CommandEntry} (h : commands.Perm c.commands)
    (hd : c.dispatcher libs = .ok d) : ({ c with commands } : Config).dispatcher libs = .ok d := by
  obtain ⟨d₁, h₁, hcommands⟩ := dispatcher_eq_ok_iff.1 hd
  obtain ⟨types, -, htypes⟩ := registerTypes_eq_ok_iff.1 h₁
  have hreachable : d₁.Reachable := (Dispatcher.Reachable.empty.settings c.settings).foldlM_attempt htypes
  exact dispatcher_eq_ok_iff.2 ⟨d₁, h₁, registerCommands_perm h hreachable hcommands⟩

/-- The dispatcher of a configuration is the one on which its settings are set and its types and commands
are registered by hand. -/
theorem foldlM_attempt_of_dispatcher (hd : c.dispatcher libs = .ok d) :
    ∃ types, List.Forall₂ (fun t type => t.build libs = .ok type) c.types types ∧
      (Operation.setSettings c.settings :: (types.map Operation.registerType ++
        c.commands.map fun e => Operation.register e.declaration)).foldlM Dispatcher.attempt {} = .ok d := by
  obtain ⟨d₁, h₁, hcommands⟩ := dispatcher_eq_ok_iff.1 hd
  obtain ⟨types, htypes, hall⟩ := registerTypes_eq_ok_iff.1 h₁
  refine ⟨types, htypes, Dispatcher.foldlM_attempt_cons.2 ⟨{ settings := c.settings }, rfl, ?_⟩⟩
  rw [List.foldlM_append, hall]
  exact registerCommands_eq_ok_iff.1 hcommands

/-- **The order of the commands of a configuration does not count.** Whatever order they are in, a
configuration gives a dispatcher if and only if it is buildable. All orders give one dispatcher, so that it
lists the same commands and gives the same results, and it is the one on which the settings are set and the
types and then the commands are registered by hand. -/
theorem dispatcher_perm (libs : Libraries) (c : Config) (commands : List CommandEntry)
    (h : commands.Perm c.commands) :
    ((∃ d, c.dispatcher libs = .ok d) ↔ c.Buildable libs) ∧
      ((∃ d, ({ c with commands } : Config).dispatcher libs = .ok d) ↔ c.Buildable libs) ∧
      ∀ d, c.dispatcher libs = .ok d →
        ({ c with commands } : Config).dispatcher libs = .ok d ∧
          ∃ types, List.Forall₂ (fun t type => t.build libs = .ok type) c.types types ∧
            (Operation.setSettings c.settings :: (types.map Operation.registerType ++
              commands.map fun e => Operation.register e.declaration)).foldlM Dispatcher.attempt {} =
                .ok d := by
  refine ⟨exists_dispatcher_iff, exists_dispatcher_iff.trans ⟨fun hc => ?_, Buildable.of_perm h⟩,
    fun d hd => ?_⟩
  · exact hc.of_perm (c := { c with commands }) h.symm
  · have hperm := dispatcher_of_perm h hd
    exact ⟨hperm, foldlM_attempt_of_dispatcher hperm⟩

/-- A custom type and two commands, one of which uses the type and lists an alias. -/
def canvas : Config where
  types := [⟨"hex", "^0x"⟩]
  commands := [
    { name := "paint", signatures := ["(hex) --color"], aliases := [("color", ["--c"])] },
    { name := "erase", signatures := ["--all"] }]

theorem dispatcher_canvas_reverse :
    canvas.commands.reverse.Perm canvas.commands ∧ canvas.Buildable .standard ∧
      ∃ d, canvas.dispatcher .standard = .ok d ∧
        ({ canvas with commands := canvas.commands.reverse } : Config).dispatcher .standard = .ok d := by
  have hperm := canvas.commands.reverse_perm
  have hok : ∃ d, canvas.dispatcher .standard = .ok d := by
    have hbool : (canvas.dispatcher .standard).toBool = true := by decide +kernel
    cases hd : canvas.dispatcher .standard with
    | error e =>
      rw [hd] at hbool
      cases hbool
    | ok d => exact ⟨d, rfl⟩
  obtain ⟨hbuildable, -, hsame⟩ := dispatcher_perm .standard canvas canvas.commands.reverse hperm
  obtain ⟨d, hd⟩ := hok
  exact ⟨hperm, hbuildable.1 ⟨d, hd⟩, d, hd, (hsame d hd).1⟩

end Config

end Invocation
