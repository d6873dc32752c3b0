/-
  The names and aliases of the arguments of a signature.

  The table of names of a text holds the names of its arguments. What a
  command declares adds the aliases, argument by argument, as long as none of
  them stands in the table already.

  * `addAliasNames_eq_ok`, `addAllAliasNames_eq_ok`: what the table then
    holds, and that no key of it stands there twice; `exists_addAllAliasNames`:
    aliases that are new and distinct can be added;
  * `Signature.names`: the names and aliases of all arguments;
  * `Signature.Named`: they are identifiers, no two of them are equal, and
    each of them and nothing else resolves to its argument;
    `Signature.Compiled.named`: this holds of the signatures of texts, alone
    and in commands.
-/
import Invocation.Proofs.Ordered
import Invocation.Proofs.Signature.Grammar
import Mathlib.Data.List.Perm.Basic

namespace Invocation

open Invocation.Text

/-! ## The table of names -/

theorem addAliasNames_eq_ok {argument : String} {index : Nat} {names names' : List (String × Nat)}
    {aliases : List String} (h : addAliasNames argument index names aliases = .ok names')
    (hnames : (names.map Prod.fst).Nodup) :
    names' = names ++ aliases.map (·, index) ∧ (names'.map Prod.fst).Nodup := by
  induction aliases generalizing names with
  | nil =>
    cases h
    exact ⟨(List.append_nil _).symm, hnames⟩
  | cons byname rest ih =>
    rw [addAliasNames] at h
    split at h
    · cases h
    · next hnew =>
      have hnot : byname ∉ names.map Prod.fst := by
        intro hmem
        obtain ⟨pair, hpair, rfl⟩ := List.mem_map.1 hmem
        exact hnew (List.lookup_isSome_iff.2 ⟨pair, hpair, beq_self_eq_true _⟩)
      have hadded : ((names ++ [(byname, index)]).map Prod.fst).Nodup := by
        rw [List.map_append, List.map_singleton, List.nodup_append]
        refine ⟨hnames, List.nodup_singleton _, ?_⟩
        rintro key hkey _ hbyname rfl
        obtain rfl : key = byname := List.mem_singleton.1 hbyname
        exact hnot hkey
      obtain ⟨rfl, hnodup⟩ := ih h hadded
      exact ⟨by simp, hnodup⟩

theorem addAllAliasNames_eq_ok {m : Metadata} {names names' : List (String × Nat)} {index : Nat}
    {arguments : List Argument} (h : addAllAliasNames m names index arguments = .ok names')
    (hnames : (names.map Prod.fst).Nodup) :
    names' = names ++ (arguments.zipIdx index).flatMap (fun (a, i) => (m.aliasesOf a.name).map (·, i)) ∧
      (names'.map Prod.fst).Nodup := by
  induction arguments generalizing names index with
  | nil =>
    cases h
    exact ⟨(List.append_nil _).symm, hnames⟩
  | cons a rest ih =>
    rw [addAllAliasNames] at h
    split at h
    · next added hadd =>
      obtain ⟨rfl, hadded⟩ := addAliasNames_eq_ok hadd hnames
      obtain ⟨rfl, hnodup⟩ := ih h hadded
      exact ⟨by simp [List.zipIdx_cons], hnodup⟩
    · cases h

/-- Aliases that are new and distinct can be added. -/
theorem exists_addAliasNames (argument : String) (index : Nat) {names : List (String × Nat)}
    {aliases : List String} (h : (names.map Prod.fst ++ aliases).Nodup) :
    ∃ names', addAliasNames argument index names aliases = .ok names' := by
  induction aliases generalizing names with
  | nil => exact ⟨names, rfl⟩
  | cons byname rest ih =>
    have hnew : (names.lookup byname).isSome = false := by
      rw [Option.isSome_eq_false_iff, Option.isNone_iff_eq_none, List.lookup_eq_none_iff]
      rintro ⟨name, i⟩ hpair
      have hne := (List.nodup_append.1 h).2.2 name (List.mem_map_of_mem hpair) byname List.mem_cons_self
      exact bne_iff_ne.2 hne.symm
    have hrest : ((names ++ [(byname, index)]).map Prod.fst ++ rest).Nodup := by simpa using h
    obtain ⟨names', hnames'⟩ := ih hrest
    exact ⟨names', by rw [addAliasNames, hnew, if_neg Bool.false_ne_true, hnames']⟩

/-- Where the aliases of all arguments are new and distinct, they can be added. -/
theorem exists_addAllAliasNames {m : Metadata} (index : Nat) {names : List (String × Nat)}
    {arguments : List Argument}
    (h : (names.map Prod.fst ++ arguments.flatMap fun a => m.aliasesOf a.name).Nodup) :
    ∃ names', addAllAliasNames m names index arguments = .ok names' := by
  induction arguments generalizing names index with
  | nil => exact ⟨names, rfl⟩
  | cons a rest ih =>
    rw [List.flatMap_cons, ← List.append_assoc] at h
    have hfirst := (List.nodup_append.1 h).1
    obtain ⟨added, hadded⟩ := exists_addAliasNames a.name index hfirst
    obtain ⟨rfl, -⟩ := addAliasNames_eq_ok hadded (List.nodup_append.1 hfirst).1
    have hrest : ((names ++ (m.aliasesOf a.name).map (·, index)).map Prod.fst ++
        rest.flatMap fun a => m.aliasesOf a.name).Nodup := by
      simpa [Function.comp_def] using h
    obtain ⟨names', hnames'⟩ := ih (index + 1) hrest
    exact ⟨names', by rw [addAllAliasNames, hadded]; exact hnames'⟩

/-! ## Aliases that are declared -/

namespace Metadata

variable {m : Metadata}

theorem isIdentifier_of_mem_aliasesOf (h : m.invalidAlias? = none) {argument byname : String}
    (hmem : byname ∈ m.aliasesOf argument) : isIdentifier byname = true := by
  rw [aliasesOf] at hmem
  cases hlookup : m.aliases.lookup argument with
  | none => simp [hlookup] at hmem
  | some aliases =>
    rw [hlookup, Option.getD_some] at hmem
    have hall : byname ∈ m.aliases.flatMap Prod.snd :=
      List.mem_flatMap.2 ⟨(argument, aliases), mem_of_lookup_eq_some hlookup, hmem⟩
    simpa using List.find?_eq_none.1 h byname hall

theorem aliasesOf_addAlias (m : Metadata) (argument byname other : String) :
    (m.addAlias argument byname).aliasesOf other =
      m.aliasesOf other ++ if argument = other then [dropMarker byname] else [] := by
  by_cases h : argument = other
  · subst h
    simp [addAlias, aliasesOf, lookup_setKey_self]
  · simp [addAlias, aliasesOf, lookup_setKey_of_ne (Ne.symm h), h]

theorem ascending_addAlias (h : (m.aliases.map Prod.fst).Pairwise (· < ·)) (argument byname : String) :
    ((m.addAlias argument byname).aliases.map Prod.fst).Pairwise (· < ·) :=
  pairwise_setKey h

theorem aliasesOf_addAliases (m : Metadata) (argument other : String) (names : List String) :
    (m.addAliases argument names).aliasesOf other =
      m.aliasesOf other ++ if argument = other then names.map dropMarker else [] := by
  induction names generalizing m with
  | nil => simp [addAliases]
  | cons byname rest ih =>
    have hrest := ih (m.addAlias argument byname)
    rw [addAliases] at hrest ⊢
    rw [List.foldl_cons, hrest, aliasesOf_addAlias, List.append_assoc]
    split <;> rfl

theorem ascending_addAliases {argument : String} (h : (m.aliases.map Prod.fst).Pairwise (· < ·))
    (names : List String) : ((m.addAliases argument names).aliases.map Prod.fst).Pairwise (· < ·) := by
  induction names generalizing m with
  | nil => exact h
  | cons byname rest ih => exact ih (ascending_addAlias h argument byname)

theorem invalidAlias?_eq_none_iff (h : (m.aliases.map Prod.fst).Nodup) :
    m.invalidAlias? = none ↔
      ∀ argument, ∀ byname ∈ m.aliasesOf argument, isIdentifier byname = true := by
  constructor
  · exact fun hvalid argument byname => isIdentifier_of_mem_aliasesOf hvalid
  · intro hall
    refine List.find?_eq_none.2 fun byname hbyname => ?_
    obtain ⟨⟨argument, names⟩, hpair, hbyname⟩ := List.mem_flatMap.1 hbyname
    have haliases : m.aliasesOf argument = names := by
      rw [aliasesOf, (lookup_eq_some_iff_mem h).2 hpair, Option.getD_some]
    simp [hall argument byname (haliases ▸ hbyname)]

end Metadata

/-! ## Names of signatures -/

namespace Signature

/-- The names of the arguments of a signature, each with its aliases. -/
def names (s : Signature) : List String := s.arguments.flatMap fun a => a.name :: a.aliases

/-- The names and aliases of a signature are identifiers, no two of them are equal, and each of them and
nothing else resolves to its argument. -/
structure Named (s : Signature) : Prop where
  identifiers : ∀ name ∈ s.names, isIdentifier name = true
  nodup : s.names.Nodup
  resolve?_eq_some_iff : ∀ name index, s.resolve? name = some index ↔
    ∃ a, s.arguments[index]? = some a ∧ (name = a.name ∨ name ∈ a.aliases)

variable {source : String} {s : Signature}

/-- An argument that is read from a text has an identifier as its name and no aliases. -/
theorem isIdentifier_of_declares {ls : List Lexeme} {a : Argument} (h : Declares ls a) :
    isIdentifier a.name = true ∧ a.aliases = [] := by
  cases h with
  | any h | switch h | specified _ h => exact ⟨h.isIdentifierChars, rfl⟩

theorem map_fst_nameTable (arguments : List Argument) :
    (nameTable arguments).map Prod.fst = arguments.map Argument.name := by
  rw [nameTable, List.map_map]
  conv_rhs => rw [← List.zipIdx_map_fst 0 arguments, List.map_map]
  rfl

/-- The names of arguments that a command declares aliases for. -/
theorem names_decorate {m : Metadata} {arguments : List Argument} (h : ∀ a ∈ arguments, a.aliases = []) :
    ((arguments.map m.decorate).flatMap fun a => a.name :: a.aliases) =
      arguments.flatMap fun a => a.name :: m.aliasesOf a.name := by
  rw [List.flatMap_map]
  refine List.flatMap_congr fun a ha => ?_
  simp only [Metadata.decorate, h a ha, List.nil_append]

/-- The names and aliases of the arguments of a text in a command are the keys of the table. -/
theorem perm_names {m : Metadata} {arguments : List Argument} (h : ∀ a ∈ arguments, a.aliases = []) :
    ((nameTable arguments ++
        arguments.zipIdx.flatMap fun (a, i) => (m.aliasesOf a.name).map (·, i)).map Prod.fst).Perm
      ((arguments.map m.decorate).flatMap fun a => a.name :: a.aliases) := by
  have hkeys : (arguments.zipIdx.flatMap fun (a, i) => (m.aliasesOf a.name).map (·, i)).map Prod.fst =
      arguments.flatMap fun a => m.aliasesOf a.name := by
    conv_rhs => rw [← List.zipIdx_map_fst 0 arguments, List.flatMap_map]
    rw [List.map_flatMap]
    refine List.flatMap_congr fun (a, i) _ => ?_
    rw [List.map_map]
    exact List.map_id _
  rw [names_decorate h, List.map_append, map_fst_nameTable, hkeys]
  exact List.map_append_flatMap_perm arguments Argument.name fun a => m.aliasesOf a.name

theorem mem_nameTable {arguments : List Argument} {name : String} {index : Nat} :
    (name, index) ∈ nameTable arguments ↔ ∃ a, arguments[index]? = some a ∧ name = a.name := by
  simp only [nameTable, List.mem_map, Prod.exists, Prod.mk.injEq]
  constructor
  · rintro ⟨a, i, hmem, rfl, rfl⟩
    exact ⟨a, List.mem_zipIdx_iff_getElem?.1 hmem, rfl⟩
  · rintro ⟨a, ha, rfl⟩
    exact ⟨a, index, List.mem_zipIdx_iff_getElem?.2 ha, rfl, rfl⟩

theorem mem_aliasTable {m : Metadata} {arguments : List Argument} {name : String} {index : Nat} :
    (name, index) ∈ arguments.zipIdx.flatMap (fun (a, i) => (m.aliasesOf a.name).map (·, i)) ↔
      ∃ a, arguments[index]? = some a ∧ name ∈ m.aliasesOf a.name := by
  simp only [List.mem_flatMap, Prod.exists, List.mem_map, Prod.mk.injEq]
  constructor
  · rintro ⟨a, i, hmem, byname, hbyname, rfl, rfl⟩
    exact ⟨a, List.mem_zipIdx_iff_getElem?.1 hmem, hbyname⟩
  · rintro ⟨a, ha, hname⟩
    exact ⟨a, index, List.mem_zipIdx_iff_getElem?.2 ha, name, hname, rfl, rfl⟩

/-- The names and aliases of a signature of a command resolve to their arguments. -/
theorem named_of_command {m : Metadata} {types : TypeRegistry} (h : m.compile types source = .ok s) :
    s.Named := by
  obtain ⟨t, names, ht, -, hinvalid, hadd, rfl⟩ := compile_eq_ok h
  obtain ⟨hdeclared, hlookup⟩ := declares_of_compile ht
  have hread : ∀ a ∈ t.arguments, isIdentifier a.name = true ∧ a.aliases = [] := by
    intro a ha
    obtain ⟨ls, hls⟩ := hdeclared a ha
    exact isIdentifier_of_declares hls
  rw [hlookup] at hadd
  obtain ⟨rfl, hnodup⟩ := addAllAliasNames_eq_ok hadd
    (by rw [map_fst_nameTable]; exact (numbered_of_compile ht).2)
  refine ⟨?_, (perm_names fun a ha => (hread a ha).2).nodup hnodup, fun name index => ?_⟩
  · intro name hname
    obtain ⟨_, hdecorated, hname⟩ := List.mem_flatMap.1 hname
    obtain ⟨a, ha, rfl⟩ := List.mem_map.1 hdecorated
    rcases List.mem_cons.1 hname with rfl | hname
    · exact (hread a ha).1
    · rw [Metadata.decorate, (hread a ha).2, List.nil_append] at hname
      exact Metadata.isIdentifier_of_mem_aliasesOf hinvalid hname
  · rw [resolve?, lookup_eq_some_iff_mem hnodup, List.mem_append, mem_nameTable, mem_aliasTable]
    constructor
    · rintro (⟨a, ha, rfl⟩ | ⟨a, ha, hname⟩)
      · exact ⟨m.decorate a, by rw [List.getElem?_map, ha, Option.map_some], Or.inl rfl⟩
      · exact ⟨m.decorate a, by rw [List.getElem?_map, ha, Option.map_some],
          Or.inr (List.mem_append_right _ hname)⟩
    · rintro ⟨_, ha, hname⟩
      rw [List.getElem?_map, Option.map_eq_some_iff] at ha
      obtain ⟨a, ha, rfl⟩ := ha
      rcases hname with rfl | hname
      · exact Or.inl ⟨a, ha, rfl⟩
      · rw [Metadata.decorate, (hread a (List.mem_of_getElem? ha)).2, List.nil_append] at hname
        exact Or.inr ⟨a, ha, hname⟩

/-- The names of a signature that is compiled alone resolve to their arguments. There are no aliases. -/
theorem named_of_compile (h : compile source = .ok s) : s.Named := by
  obtain ⟨hdeclared, hlookup⟩ := declares_of_compile h
  have hread : ∀ a ∈ s.arguments, isIdentifier a.name = true ∧ a.aliases = [] := by
    intro a ha
    obtain ⟨ls, hls⟩ := hdeclared a ha
    exact isIdentifier_of_declares hls
  have hnames : s.names = s.arguments.map Argument.name := by
    rw [names, List.flatMap_congr fun a ha => congrArg (a.name :: ·) (hread a ha).2, List.map_eq_flatMap]
  have hnodup : (s.arguments.map Argument.name).Nodup := (numbered_of_compile h).2
  refine ⟨fun name hname => ?_, hnames ▸ hnodup, fun name index => ?_⟩
  · rw [hnames, List.mem_map] at hname
    obtain ⟨a, ha, rfl⟩ := hname
    exact (hread a ha).1
  · rw [resolve?, hlookup, lookup_eq_some_iff_mem (by rwa [map_fst_nameTable]), mem_nameTable]
    refine exists_congr fun a => and_congr_right fun ha => ?_
    rw [(hread a (List.mem_of_getElem? ha)).2, or_iff_left List.not_mem_nil]

theorem Compiled.named (h : s.Compiled) : s.Named := by
  cases h with
  | text h => exact named_of_compile h
  | command h => exact named_of_command h

end Signature

end Invocation
