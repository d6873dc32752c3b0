/-
  The order in which aliases are declared.

  * `DeclarationCall`: a call that adds to a declaration; `Declaration.ofCalls`:
    what calls declare, one after the other;
  * `DeclarationCall.Reordered`: calls that differ in the order of aliases only;
    `Metadata.Reordered`: what they declare is the same but for the order of
    the aliases of an argument;
  * `Signature.Interchangeable`: signatures that resolve all names alike;
    `Search.solve?_of_interchangeable`: they match alike;
  * `Metadata.compile_reordered`, `Command.addSignatures_reordered`: whether a
    text and a command compile does not depend on this order;
  * `Declaration.build_reordered`: what then decides.
-/
import Invocation.Proofs.Dispatcher.Registration
import Invocation.Proofs.Matching.Regrouping

namespace Invocation

open Invocation.Text

/-! ## Declarations, call by call -/

/-- A call that adds to a declaration. -/
inductive DeclarationCall where
  | signature (source : String)
  /-- An alias of an argument. -/
  | byname (argument text : String)
  /-- Several aliases of an argument. -/
  | bynames (argument : String) (texts : List String)
  | validator (argument : String) (validator : Validator)
  | description (argument text : String)
  | settings (layer : Settings)

/-- The declaration after a call. -/
def Declaration.perform (d : Declaration) : DeclarationCall → Declaration
  | .signature source => { d with sources := d.sources ++ [source] }
  | .byname argument text => { d with metadata := d.metadata.addAlias argument text }
  | .bynames argument texts => { d with metadata := d.metadata.addAliases argument texts }
  | .validator argument validator => { d with metadata := d.metadata.setValidator argument validator }
  | .description argument text => { d with metadata := d.metadata.setDescription argument text }
  | .settings layer => { d with settings := some layer }

/-- What calls declare under a name. -/
def Declaration.ofCalls (name : String) (calls : List DeclarationCall) : Declaration :=
  calls.foldl Declaration.perform { name }

namespace DeclarationCall

/-- The aliases that a call adds, each with its argument. -/
def aliases : DeclarationCall → List (String × String)
  | byname argument text => [(argument, text)]
  | bynames argument texts => texts.map (argument, ·)
  | _ => []

/-- Whether a call adds something else than aliases. -/
def isOther : DeclarationCall → Bool
  | byname _ _ | bynames _ _ => false
  | _ => true

/-- Calls that add the same aliases in any order, and everything else in the same order. -/
structure Reordered (calls calls' : List DeclarationCall) : Prop where
  aliases : (calls.flatMap aliases).Perm (calls'.flatMap DeclarationCall.aliases)
  others : calls.filter isOther = calls'.filter isOther

/-- The aliases that calls add for an argument, in order. -/
def aliasesFor (calls : List DeclarationCall) (argument : String) : List String :=
  ((calls.flatMap aliases).filter (·.1 == argument)).map fun pair => dropMarker pair.2

/-- The aliases that calls add for the arguments of a signature. -/
def aliasesIn (calls : List DeclarationCall) (s : Signature) : List String :=
  ((calls.flatMap aliases).filter (·.1 ∈ s.arguments.map Argument.name)).map fun pair => dropMarker pair.2

theorem mem_aliasesFor {calls : List DeclarationCall} {argument byname : String} :
    byname ∈ aliasesFor calls argument ↔
      ∃ text, (argument, text) ∈ calls.flatMap aliases ∧ byname = dropMarker text := by
  simp only [aliasesFor, List.mem_map, List.mem_filter, beq_iff_eq]
  constructor
  · rintro ⟨⟨_, text⟩, ⟨hmem, rfl⟩, rfl⟩
    exact ⟨text, hmem, rfl⟩
  · rintro ⟨text, hmem, rfl⟩
    exact ⟨(argument, text), ⟨hmem, rfl⟩, rfl⟩

end DeclarationCall

namespace Declaration

open DeclarationCall

variable {calls calls' : List DeclarationCall}

theorem aliasesOf_perform (d : Declaration) (call : DeclarationCall) (argument : String) :
    (d.perform call).metadata.aliasesOf argument =
      d.metadata.aliasesOf argument ++ aliasesFor [call] argument := by
  cases call with
  | byname a text =>
    rw [perform, Metadata.aliasesOf_addAlias]
    by_cases h : a = argument <;> simp [aliasesFor, aliases, h]
  | bynames a texts =>
    rw [perform, Metadata.aliasesOf_addAliases]
    by_cases h : a = argument <;> simp [aliasesFor, aliases, h, List.filter_map, Function.comp_def]
  | signature | validator | description | settings => exact (List.append_nil _).symm

theorem ascending_perform {d : Declaration} (h : (d.metadata.aliases.map Prod.fst).Pairwise (· < ·))
    (call : DeclarationCall) : ((d.perform call).metadata.aliases.map Prod.fst).Pairwise (· < ·) := by
  cases call with
  | byname a text => exact Metadata.ascending_addAlias h a text
  | bynames a texts => exact Metadata.ascending_addAliases h texts
  | signature | validator | description | settings => exact h

/-- The aliases that calls have declared for an argument. -/
theorem aliasesOf_ofCalls (name : String) (calls : List DeclarationCall) (argument : String) :
    (ofCalls name calls).metadata.aliasesOf argument = aliasesFor calls argument := by
  -- for every declaration that the calls start from, since each call changes it
  suffices h : ∀ d : Declaration, (calls.foldl perform d).metadata.aliasesOf argument =
      d.metadata.aliasesOf argument ++ aliasesFor calls argument from h { name }
  intro d
  induction calls generalizing d with
  | nil => exact (List.append_nil _).symm
  | cons call rest ih =>
    rw [List.foldl_cons, ih, aliasesOf_perform, List.append_assoc]
    simp [aliasesFor]

theorem ascending_ofCalls (name : String) (calls : List DeclarationCall) :
    ((ofCalls name calls).metadata.aliases.map Prod.fst).Pairwise (· < ·) := by
  suffices h : ∀ d : Declaration, (d.metadata.aliases.map Prod.fst).Pairwise (· < ·) →
      ((calls.foldl perform d).metadata.aliases.map Prod.fst).Pairwise (· < ·) from
    h { name } List.Pairwise.nil
  intro d hd
  induction calls generalizing d with
  | nil => exact hd
  | cons call rest ih => exact ih _ (ascending_perform hd call)

theorem invalidAlias?_ofCalls (name : String) {calls : List DeclarationCall} :
    (ofCalls name calls).metadata.invalidAlias? = none ↔
      ∀ pair ∈ calls.flatMap aliases, isIdentifier (dropMarker pair.2) = true := by
  rw [Metadata.invalidAlias?_eq_none_iff ((ascending_ofCalls name calls).imp String.ne_of_lt)]
  simp only [aliasesOf_ofCalls, mem_aliasesFor]
  constructor
  · exact fun h pair hpair => h pair.1 _ ⟨pair.2, hpair, rfl⟩
  · rintro h argument _ ⟨text, hmem, rfl⟩
    exact h (argument, text) hmem

/-- A declaration without its aliases. -/
def bare (d : Declaration) : Declaration := { d with metadata := { d.metadata with aliases := [] } }

theorem bare_perform (d : Declaration) (call : DeclarationCall) :
    (d.perform call).bare = if call.isOther then d.bare.perform call else d.bare := by
  cases call with
  | bynames a texts =>
    have hmetadata : ∀ m : Metadata,
        { m.addAliases a texts with aliases := [] } = { m with aliases := [] } := by
      intro m
      induction texts generalizing m with
      | nil => rfl
      | cons text rest ih => exact ih (m.addAlias a text)
    simp only [perform, bare, isOther, hmetadata, Bool.false_eq_true, if_false]
  | signature | byname | validator | description | settings => rfl

/-- What calls declare besides aliases does not depend on aliases. -/
theorem bare_ofCalls (name : String) (calls : List DeclarationCall) :
    (ofCalls name calls).bare = ofCalls name (calls.filter isOther) := by
  suffices h : ∀ d : Declaration,
      (calls.foldl perform d).bare = (calls.filter isOther).foldl perform d.bare from h { name }
  intro d
  induction calls generalizing d with
  | nil => rfl
  | cons call rest ih =>
    rw [List.foldl_cons, ih, bare_perform, List.filter_cons]
    split <;> rfl

end Declaration

/-! ## Signatures -/

/-- Errors of one variant. They differ, if at all, in the alias that they name. -/
inductive SignatureError.Alike : SignatureError → SignatureError → Prop
  | refl (e) : Alike e e
  | invalidName (byname byname' : String) : Alike (.invalidName byname 0) (.invalidName byname' 0)
  | duplicateAlias (byname argument byname' argument' : String) :
      Alike (.duplicateAlias byname argument) (.duplicateAlias byname' argument')

/-- Results that are both errors or both not, and then have something in common. -/
inductive SameOutcome {ε α : Type} (sameError : ε → ε → Prop) (same : α → α → Prop) :
    Except ε α → Except ε α → Prop
  | ok {a b} (h : same a b) : SameOutcome sameError same (.ok a) (.ok b)
  | error {e f} (h : sameError e f) : SameOutcome sameError same (.error e) (.error f)

theorem SameOutcome.imp {ε α : Type} {sameError : ε → ε → Prop} {same same' : α → α → Prop} {x y : Except ε α}
    (h : SameOutcome sameError same x y) (himp : ∀ a b, same a b → same' a b) :
    SameOutcome sameError same' x y := by
  cases h with
  | ok h => exact .ok (himp _ _ h)
  | error h => exact .error h

/-- Signatures of one text that resolve every name alike. Their arguments differ, if at all, in the order of
their aliases. -/
structure Signature.Interchangeable (s s' : Signature) : Prop where
  source : s.source = s'.source
  root : s.root = s'.root
  arguments : s.arguments.map (fun a => { a with aliases := [] }) =
    s'.arguments.map fun a => { a with aliases := [] }
  resolve? : ∀ name, s.resolve? name = s'.resolve? name

theorem Signature.Interchangeable.forms {s s' : Signature} (h : s.Interchangeable s') :
    s.arguments.map Argument.form = s'.arguments.map Argument.form := by
  have hforms := congrArg (List.map Argument.form) h.arguments
  rw [List.map_map, List.map_map] at hforms
  exact hforms

theorem Signature.Interchangeable.keywordIndex? {s s' : Signature} (h : s.Interchangeable s') :
    s.keywordIndex? = s'.keywordIndex? := by
  funext name
  have hkind : ∀ index : Nat, (s.arguments[index]?).any (·.kind == .keyword) =
      (s'.arguments[index]?).any (·.kind == .keyword) := by
    intro index
    have hform := congrArg (·[index]?.any fun form => form.1 == .keyword) h.forms
    simp only [List.getElem?_map, Option.any_map] at hform
    exact hform
  rw [Signature.keywordIndex?, Signature.keywordIndex?, h.resolve?]
  simp only [hkind]

/-- Interchangeable signatures match alike. -/
theorem Search.solve?_of_interchangeable {s s' : Signature} (h : s.Interchangeable s') (input : Input)
    (types : TypeRegistry) (settings : EffectiveSettings) :
    (Search.of s input types settings).solve? = (Search.of s' input types settings).solve? := by
  have hkeywords : Keywords.resolve s input.keywords = Keywords.resolve s' input.keywords :=
    Keywords.resolve_congr fun name _ _ => congrFun h.keywordIndex? name
  have hlength : s.arguments.length = s'.arguments.length := by
    simpa using congrArg List.length h.forms
  refine Search.solve?_of_trail (congrArg Keywords.stray hkeywords) ?trail ?complete
  case trail =>
    have hform : ∀ i : Nat, s.arguments[i]?.map Argument.form = s'.arguments[i]?.map Argument.form := by
      intro i
      simpa using congrArg (·[i]?) h.forms
    have htrail : (Search.of s input types settings).trail s.root.toNode =
        (Search.of s' input types settings).trail s.root.toNode :=
      Search.trail_congr fun i _ => Search.leaf_congr_of_form (hform i) rfl
        (congrArg (·.occurrences i) hkeywords) rfl rfl
    have hroot : (Search.of s' input types settings).signature.root = s.root := h.root.symm
    rw [hroot]
    exact congrFun (congrFun htrail {}) false
  case complete =>
    funext p
    simp only [Search.isComplete, Search.of, hkeywords, hlength]

/-- The same is declared but for the order of the aliases of an argument. -/
structure Metadata.Reordered (m m' : Metadata) : Prop where
  aliasesOf : ∀ argument, (m.aliasesOf argument).Perm (m'.aliasesOf argument)
  ascending : (m.aliases.map Prod.fst).Pairwise (· < ·)
  ascending' : (m'.aliases.map Prod.fst).Pairwise (· < ·)
  validators : m.validators = m'.validators
  descriptions : m.descriptions = m'.descriptions

theorem addAliasNames_eq_error {argument : String} {index : Nat} {names : List (String × Nat)}
    {aliases : List String} {e : SignatureError} (h : addAliasNames argument index names aliases = .error e) :
    ∃ byname, e = .duplicateAlias byname argument := by
  induction aliases generalizing names with
  | nil => cases h
  | cons byname rest ih =>
    rw [addAliasNames] at h
    split at h
    · cases h
      exact ⟨byname, rfl⟩
    · exact ih h

/-- Aliases can be refused for one reason only. -/
theorem addAllAliasNames_eq_error {m : Metadata} {names : List (String × Nat)} {index : Nat}
    {arguments : List Argument} {e : SignatureError}
    (h : addAllAliasNames m names index arguments = .error e) :
    ∃ byname argument, e = .duplicateAlias byname argument := by
  induction arguments generalizing names index with
  | nil => cases h
  | cons a rest ih =>
    rw [addAllAliasNames] at h
    split at h
    · exact ih h
    · next hfirst =>
      cases h
      obtain ⟨byname, he⟩ := addAliasNames_eq_error hfirst
      exact ⟨byname, a.name, he⟩

namespace Metadata

variable {m m' : Metadata} {types : TypeRegistry} {source : String} {s s' t : Signature}

/-- What resolves to an argument: its name, and the aliases that are declared for it. -/
theorem resolve?_of_compile (h : m.compile types source = .ok s) (ht : Signature.compile source = .ok t)
    (name : String) (index : Nat) : s.resolve? name = some index ↔
      ∃ a, t.arguments[index]? = some a ∧ (name = a.name ∨ name ∈ m.aliasesOf a.name) := by
  have hnamed := Signature.named_of_command h
  obtain ⟨u, names, hu, -, -, -, rfl⟩ := Signature.compile_eq_ok h
  obtain rfl : u = t := Except.ok.inj (hu.symm.trans ht)
  have hbare : ∀ {a}, u.arguments[index]? = some a → (m.decorate a).aliases = m.aliasesOf a.name := by
    intro a ha
    obtain ⟨ls, hls⟩ := (Signature.declares_of_compile hu).1 a (List.mem_of_getElem? ha)
    rw [decorate, (Signature.isIdentifier_of_declares hls).2, List.nil_append]
  rw [hnamed.resolve?_eq_some_iff]
  simp only [List.getElem?_map, Option.map_eq_some_iff]
  constructor
  · rintro ⟨_, ⟨a, ha, rfl⟩, hname⟩
    exact ⟨a, ha, hbare ha ▸ hname⟩
  · rintro ⟨a, ha, hname⟩
    exact ⟨m.decorate a, ⟨a, ha, rfl⟩, by rwa [hbare ha]⟩

theorem Reordered.invalidAlias?_congr (h : m.Reordered m') :
    m.invalidAlias? = none ↔ m'.invalidAlias? = none := by
  rw [invalidAlias?_eq_none_iff (h.ascending.imp String.ne_of_lt),
    invalidAlias?_eq_none_iff (h.ascending'.imp String.ne_of_lt)]
  simp only [(h.aliasesOf _).mem_iff]

theorem Reordered.exists_compile_iff (h : m.Reordered m') :
    (∃ s, m.compile types source = .ok s) ↔ ∃ s, m'.compile types source = .ok s := by
  rw [Signature.exists_compile_iff, Signature.exists_compile_iff, h.invalidAlias?_congr]
  refine exists_congr fun t => and_congr_right fun _ => and_congr_right fun _ => and_congr_right fun _ => ?_
  exact (List.Perm.flatMap_left _ fun a _ => (h.aliasesOf a.name).cons a.name).nodup_iff

theorem Reordered.interchangeable (h : m.Reordered m') (hs : m.compile types source = .ok s)
    (hs' : m'.compile types source = .ok s') : s.Interchangeable s' := by
  obtain ⟨t, names, ht, -, -, -, rfl⟩ := Signature.compile_eq_ok hs
  obtain ⟨t', names', ht', -, -, -, rfl⟩ := Signature.compile_eq_ok hs'
  obtain rfl : t = t' := Except.ok.inj (ht.symm.trans ht')
  refine ⟨rfl, rfl, ?_, fun name => Option.ext fun index => ?_⟩
  · simp only [List.map_map, Function.comp_def, decorate, h.validators, h.descriptions]
  · rw [resolve?_of_compile hs ht, resolve?_of_compile hs' ht]
    simp only [(h.aliasesOf _).mem_iff]

/-- What a signature is depends on what is declared for its own arguments. -/
theorem compile_of_aliasesOf (h : m.compile types source = .ok s) (hinvalid : m'.invalidAlias? = none)
    (haliases : ∀ a ∈ s.arguments, m'.aliasesOf a.name = m.aliasesOf a.name)
    (hvalidators : m'.validators = m.validators) (hdescriptions : m'.descriptions = m.descriptions) :
    m'.compile types source = .ok s := by
  obtain ⟨t, names, ht, hunknown, -, hadd, rfl⟩ := Signature.compile_eq_ok h
  have haliases : ∀ a ∈ t.arguments, m'.aliasesOf a.name = m.aliasesOf a.name := fun a ha =>
    haliases (m.decorate a) (List.mem_map_of_mem ha)
  have hadd' : ∀ {arguments index names}, (∀ a ∈ arguments, m'.aliasesOf a.name = m.aliasesOf a.name) →
      addAllAliasNames m' names index arguments = addAllAliasNames m names index arguments := by
    intro arguments index names hall
    induction arguments generalizing index names with
    | nil => rfl
    | cons a rest ih =>
      obtain ⟨ha, hrest⟩ := List.forall_mem_cons.1 hall
      rw [addAllAliasNames, addAllAliasNames, ha]
      simp only [ih hrest]
  have hdecorate : t.arguments.map m'.decorate = t.arguments.map m.decorate :=
    List.map_congr_left fun a ha => by
      rw [decorate, decorate, haliases a ha, hvalidators, hdescriptions]
  simp only [compile, ht, hunknown, hinvalid, hadd' haliases, hadd, hdecorate]
  rfl

/-- If a text compiles alone and neither its types nor any alias is at fault, two names are. -/
theorem duplicateAlias_of_compile {e : SignatureError} (ht : Signature.compile source = .ok t)
    (hunknown : unknownType? types t.arguments = none) (hinvalid : m.invalidAlias? = none)
    (h : m.compile types source = .error e) : ∃ byname argument, e = .duplicateAlias byname argument := by
  simp only [compile, ht, hunknown, hinvalid] at h
  cases hadd : addAllAliasNames m t.lookup 0 t.arguments with
  | ok names =>
    rw [hadd] at h
    cases h
  | error e' =>
    rw [hadd] at h
    cases h
    exact addAllAliasNames_eq_error hadd

/-- A text compiles with the one or fails with the other in the same way. -/
theorem compile_reordered (h : m.Reordered m') (types : TypeRegistry) (source : String) :
    SameOutcome SignatureError.Alike Signature.Interchangeable (m.compile types source)
      (m'.compile types source) := by
  -- The checks one after the other. Only the last one runs along the aliases in their order: what it
  -- leaves behind differs, but `exists_compile_iff` tells whether it fails without this order.
  cases hsource : Signature.compile source with
  | error e =>
    simp only [compile, hsource]
    exact .error (.refl e)
  | ok t =>
    cases hunknown : unknownType? types t.arguments with
    | some symbol =>
      simp only [compile, hsource, hunknown]
      exact .error (.refl _)
    | none =>
      cases hinvalid : m.invalidAlias? with
      | some byname =>
        obtain ⟨byname', hinvalid'⟩ := Option.ne_none_iff_exists'.1
          (mt h.invalidAlias?_congr.2 (by simp [hinvalid]))
        simp only [compile, hsource, hunknown, hinvalid, hinvalid']
        exact .error (.invalidName byname byname')
      | none =>
        have hinvalid' := h.invalidAlias?_congr.1 hinvalid
        cases hs : m.compile types source with
        | ok s =>
          obtain ⟨s', hs'⟩ := h.exists_compile_iff.1 ⟨s, hs⟩
          rw [hs']
          exact .ok (h.interchangeable hs hs')
        | error e =>
          cases hs' : m'.compile types source with
          | ok s' =>
            obtain ⟨s, hok⟩ := h.exists_compile_iff.2 ⟨s', hs'⟩
            cases hs.symm.trans hok
          | error e' =>
            obtain ⟨byname, argument, rfl⟩ := duplicateAlias_of_compile hsource hunknown hinvalid hs
            obtain ⟨byname', argument', rfl⟩ := duplicateAlias_of_compile hsource hunknown hinvalid' hs'
            exact .error (.duplicateAlias byname argument byname' argument')

end Metadata

/-! ## Commands -/

/-- Errors of one signature of a command, of one variant. -/
inductive RegistrationError.Alike : RegistrationError → RegistrationError → Prop
  | invalidSignature {command source : String} {e e' : SignatureError} (h : e.Alike e') :
      Alike (.invalidSignature command source e) (.invalidSignature command source e')

/-- Commands that differ, if at all, in the order of aliases. -/
structure Command.Interchangeable (c c' : Command) : Prop where
  name : c.name = c'.name
  signatures : List.Forall₂ Signature.Interchangeable c.signatures c'.signatures
  settings : c.settings = c'.settings
  metadata : c.metadata.Reordered c'.metadata

theorem Command.addSignatures_reordered {c c' : Command} (h : c.Interchangeable c') (types : TypeRegistry)
    (sources : List String) :
    SameOutcome RegistrationError.Alike Command.Interchangeable (c.addSignatures types sources)
      (c'.addSignatures types sources) := by
  induction sources generalizing c c' with
  | nil => exact .ok h
  | cons source rest ih =>
    have hfirst := Metadata.compile_reordered h.metadata types source
    rw [addSignatures, addSignatures, addSignature, addSignature]
    generalize c.metadata.compile types source = outcome,
      c'.metadata.compile types source = outcome' at hfirst
    cases hfirst with
    | ok hs => exact ih { h with signatures := List.rel_append h.signatures (.cons hs .nil) }
    | error he =>
      rw [h.name]
      exact .error (.invalidSignature he)

/-- The signatures that are added are those of the texts. -/
theorem Command.signatures_of_addSignatures {c c' : Command} {types : TypeRegistry} {sources : List String}
    (h : c.addSignatures types sources = .ok c') :
    ∃ added, c'.signatures = c.signatures ++ added ∧
      List.Forall₂ (fun source s => c.metadata.compile types source = .ok s) sources added := by
  induction sources generalizing c with
  | nil =>
    cases h
    exact ⟨[], (List.append_nil _).symm, .nil⟩
  | cons source rest ih =>
    rw [addSignatures] at h
    split at h
    · next hadd =>
      obtain ⟨s, hs, rfl⟩ := addSignature_eq_ok hadd
      obtain ⟨added, hadded, hrest⟩ := ih h
      exact ⟨s :: added, by rw [hadded, List.append_assoc, List.singleton_append], .cons hs hrest⟩
    · cases h

namespace Declaration

open DeclarationCall

variable {calls calls' : List DeclarationCall}

/-- Calls in another order declare the same sources and settings, and the same for arguments but for the order
of aliases. -/
theorem ofCalls_reordered (h : Reordered calls calls') (name : String) :
    (ofCalls name calls).name = (ofCalls name calls').name ∧
      (ofCalls name calls).sources = (ofCalls name calls').sources ∧
      (ofCalls name calls).settings = (ofCalls name calls').settings ∧
      (ofCalls name calls).metadata.Reordered (ofCalls name calls').metadata := by
  have hbare : (ofCalls name calls).bare = (ofCalls name calls').bare := by
    rw [bare_ofCalls, bare_ofCalls, h.others]
  refine ⟨(congrArg Declaration.name hbare :), (congrArg sources hbare :), (congrArg settings hbare :), ?_,
    ascending_ofCalls name calls, ascending_ofCalls name calls', congrArg (·.metadata.validators) hbare,
    congrArg (·.metadata.descriptions) hbare⟩
  intro argument
  rw [aliasesOf_ofCalls, aliasesOf_ofCalls]
  exact (h.aliases.filter _).map _

/-- Pairs by their keys, key by key. -/
theorem perm_flatMap_filter {names : List String} (h : names.Nodup) (pairs : List (String × String)) :
    (names.flatMap fun name => pairs.filter (·.1 == name)).Perm (pairs.filter (·.1 ∈ names)) := by
  induction names with
  | nil => simp
  | cons name rest ih =>
    obtain ⟨hname, hrest⟩ := List.nodup_cons.1 h
    have hfirst : (pairs.filter (·.1 ∈ name :: rest)).filter (·.1 == name) = pairs.filter (·.1 == name) := by
      rw [List.filter_filter]
      exact List.filter_congr fun pair _ => by simpa using Or.inl
    have hothers : (pairs.filter (·.1 ∈ name :: rest)).filter (fun pair => !(pair.1 == name)) =
        pairs.filter (·.1 ∈ rest) := by
      rw [List.filter_filter]
      refine List.filter_congr fun pair _ => ?_
      by_cases hpair : pair.1 = name
      · simp [hpair, hname]
      · simp [hpair]
    rw [List.flatMap_cons]
    refine ((ih hrest).append_left _).trans ?_
    rw [← hfirst, ← hothers]
    exact List.filter_append_perm _ _

/-- No name or alias stands for two arguments just if the aliases of all arguments are distinct and none of
them is the name of an argument. -/
theorem nodup_names_iff {t : Signature} {source : String} (ht : Signature.compile source = .ok t) :
    (t.arguments.flatMap fun a => a.name :: aliasesFor calls a.name).Nodup ↔
      (aliasesIn calls t).Nodup ∧ ∀ a ∈ t.arguments, a.name ∉ aliasesIn calls t := by
  have hnames : (t.arguments.map Argument.name).Nodup := (Signature.numbered_of_compile ht).2
  have hperm : (t.arguments.flatMap fun a => aliasesFor calls a.name).Perm (aliasesIn calls t) := by
    have hbyname : (t.arguments.flatMap fun a => aliasesFor calls a.name) =
        ((t.arguments.map Argument.name).flatMap fun name =>
          (calls.flatMap aliases).filter (·.1 == name)).map fun pair => dropMarker pair.2 := by
      rw [List.map_flatMap, List.flatMap_map]
      rfl
    rw [hbyname]
    exact (perm_flatMap_filter hnames _).map _
  have hall := (List.map_append_flatMap_perm t.arguments Argument.name fun a => aliasesFor calls a.name).symm
  rw [(hall.trans (hperm.append_left _)).nodup_iff, List.nodup_append, and_iff_right hnames]
  refine and_congr_right fun _ => ?_
  simp only [List.forall_mem_map]
  exact forall₂_congr fun a _ => ⟨fun h hmem => h _ hmem rfl, fun h b hb heq => h (heq ▸ hb)⟩

/-- When a command is built from texts that compile and types that are registered. -/
theorem exists_build_iff_of_compile {name : String} {types : TypeRegistry}
    (hsources : ∀ source ∈ (ofCalls name calls).sources, ∃ t, Signature.compile source = .ok t ∧
      ∀ a ∈ t.arguments, ∀ symbol, a.type = .custom symbol → symbol ∈ types.symbols) :
    (∃ c, (ofCalls name calls).build types = .ok c) ↔
      ((ofCalls name calls).sources = [] ∨
        ∀ pair ∈ calls.flatMap aliases, isIdentifier (dropMarker pair.2) = true) ∧
      ∀ source ∈ (ofCalls name calls).sources, ∀ t, Signature.compile source = .ok t →
        (aliasesIn calls t).Nodup ∧ ∀ a ∈ t.arguments, a.name ∉ aliasesIn calls t := by
  rw [Declaration.exists_build_iff]
  constructor
  · intro h
    refine ⟨?_, fun source hsource t ht => ?_⟩
    · -- aliases are checked when a text is compiled, and not at all without one
      rcases List.eq_nil_or_concat (ofCalls name calls).sources with hnil | ⟨before, source, hconcat⟩
      · exact Or.inl hnil
      · obtain ⟨t, -, -, hinvalid, -⟩ := Signature.exists_compile_iff.1 (h source (by simp [hconcat]))
        exact Or.inr ((invalidAlias?_ofCalls name).1 hinvalid)
    · obtain ⟨u, hu, -, -, hnodup⟩ := Signature.exists_compile_iff.1 (h source hsource)
      obtain rfl : u = t := Except.ok.inj (hu.symm.trans ht)
      simp only [aliasesOf_ofCalls] at hnodup
      exact (nodup_names_iff ht).1 hnodup
  · rintro ⟨hvalid, hdistinct⟩ source hsource
    obtain ⟨t, ht, htypes⟩ := hsources source hsource
    have hinvalid := (invalidAlias?_ofCalls name).2 (hvalid.resolve_left (List.ne_nil_of_mem hsource))
    refine Signature.exists_compile_iff.2 ⟨t, ht, htypes, hinvalid, ?_⟩
    simp only [aliasesOf_ofCalls]
    exact (nodup_names_iff ht).2 (hdistinct source hsource t ht)

/-- What the signatures of a command resolve: the names of arguments, and the aliases of these arguments. -/
theorem resolve?_of_build {name : String} {types : TypeRegistry} {c : Command}
    (h : (ofCalls name calls).build types = .ok c) :
    List.Forall₂ (fun source s => ∃ t, Signature.compile source = .ok t ∧ ∀ text index,
        s.resolve? text = some index ↔ ∃ a, t.arguments[index]? = some a ∧
          (text = a.name ∨ ∃ byname, (a.name, byname) ∈ calls.flatMap aliases ∧ text = dropMarker byname))
      (ofCalls name calls).sources c.signatures := by
  obtain ⟨added, hadded, hall⟩ := Command.signatures_of_addSignatures h
  rw [hadded, List.nil_append]
  refine hall.imp fun source s hs => ?_
  obtain ⟨t, names, ht, -⟩ := Signature.compile_of_command hs
  refine ⟨t, ht, fun text index => ?_⟩
  rw [Metadata.resolve?_of_compile hs ht]
  simp only [aliasesOf_ofCalls, mem_aliasesFor]

/-- Aliases of arguments that a signature does not declare do not count, as long as they are identifiers. -/
theorem compile_of_undeclared {before after : List DeclarationCall} {name argument text source : String}
    {types : TypeRegistry} {s : Signature} (h : argument ∉ s.arguments.map Argument.name) :
    (ofCalls name (before ++ .byname argument text :: after)).metadata.compile types source = .ok s ↔
      isIdentifier (dropMarker text) = true ∧
        (ofCalls name (before ++ after)).metadata.compile types source = .ok s := by
  have hflat : (before ++ .byname argument text :: after).flatMap aliases =
      before.flatMap aliases ++ (argument, text) :: after.flatMap aliases := by
    simp [aliases]
  have hinvalid : (ofCalls name (before ++ .byname argument text :: after)).metadata.invalidAlias? = none ↔
      isIdentifier (dropMarker text) = true ∧
        (ofCalls name (before ++ after)).metadata.invalidAlias? = none := by
    rw [invalidAlias?_ofCalls, invalidAlias?_ofCalls, hflat, List.flatMap_append]
    simp only [List.forall_mem_append, List.forall_mem_cons]
    exact and_left_comm
  have haliases : ∀ a ∈ s.arguments,
      (ofCalls name (before ++ .byname argument text :: after)).metadata.aliasesOf a.name =
        (ofCalls name (before ++ after)).metadata.aliasesOf a.name := by
    intro a ha
    have hne : (argument == a.name) = false :=
      beq_false_of_ne fun heq => h (List.mem_map.2 ⟨a, ha, heq.symm⟩)
    rw [aliasesOf_ofCalls, aliasesOf_ofCalls, aliasesFor, hflat, aliasesFor, List.flatMap_append,
      List.filter_append, List.filter_cons_of_neg (by simp [hne]), List.filter_append]
  have hbare : (ofCalls name (before ++ .byname argument text :: after)).bare =
      (ofCalls name (before ++ after)).bare := by
    rw [bare_ofCalls, bare_ofCalls, List.filter_append, List.filter_append]
    rfl
  have hvalidators := congrArg (·.metadata.validators) hbare
  have hdescriptions := congrArg (·.metadata.descriptions) hbare
  constructor
  · intro hs
    obtain ⟨-, -, -, -, hvalid, -⟩ := Signature.compile_eq_ok hs
    obtain ⟨hidentifier, hvalid⟩ := hinvalid.1 hvalid
    exact ⟨hidentifier, Metadata.compile_of_aliasesOf hs hvalid (fun a ha => (haliases a ha).symm)
      hvalidators.symm hdescriptions.symm⟩
  · rintro ⟨hidentifier, hs⟩
    obtain ⟨-, -, -, -, hvalid, -⟩ := Signature.compile_eq_ok hs
    exact Metadata.compile_of_aliasesOf hs (hinvalid.2 ⟨hidentifier, hvalid⟩) haliases hvalidators
      hdescriptions

/-- **The order of aliases does not count.** Two declarations that differ in the order of their aliases only
give commands whose signatures resolve every name alike and match every input alike, or they fail with
errors of one variant at the same signature. Given texts that compile and types that are registered, a
command is built exactly if its aliases are identifiers, or it has no signatures, and if in each signature the
aliases of its arguments are distinct and none of them is the name of an argument. A signature resolves the
names and aliases of its own arguments and nothing else, so that an alias of another argument does not
change it. -/
theorem build_reordered (h : Reordered calls calls') (name : String) (types : TypeRegistry) :
    SameOutcome RegistrationError.Alike
      (fun c c' => List.Forall₂ (fun s s' => s.source = s'.source ∧
          (∀ text, s.resolve? text = s'.resolve? text) ∧
          ∀ input registry settings, (Search.of s input registry settings).solve? =
            (Search.of s' input registry settings).solve?) c.signatures c'.signatures)
      ((ofCalls name calls).build types) ((ofCalls name calls').build types) ∧
    ((∀ source ∈ (ofCalls name calls).sources, ∃ t, Signature.compile source = .ok t ∧
        ∀ a ∈ t.arguments, ∀ symbol, a.type = .custom symbol → symbol ∈ types.symbols) →
      ((∃ c, (ofCalls name calls).build types = .ok c) ↔
        ((ofCalls name calls).sources = [] ∨
          ∀ pair ∈ calls.flatMap aliases, isIdentifier (dropMarker pair.2) = true) ∧
        ∀ source ∈ (ofCalls name calls).sources, ∀ t, Signature.compile source = .ok t →
          (aliasesIn calls t).Nodup ∧ ∀ a ∈ t.arguments, a.name ∉ aliasesIn calls t)) ∧
    (∀ c, (ofCalls name calls).build types = .ok c →
      List.Forall₂ (fun source s => ∃ t, Signature.compile source = .ok t ∧ ∀ text index,
          s.resolve? text = some index ↔ ∃ a, t.arguments[index]? = some a ∧
            (text = a.name ∨
              ∃ byname, (a.name, byname) ∈ calls.flatMap aliases ∧ text = dropMarker byname))
        (ofCalls name calls).sources c.signatures) ∧
    ∀ before argument text after source s, calls = before ++ .byname argument text :: after →
      argument ∉ s.arguments.map Argument.name →
        ((ofCalls name calls).metadata.compile types source = .ok s ↔
          isIdentifier (dropMarker text) = true ∧
            (ofCalls name (before ++ after)).metadata.compile types source = .ok s) := by
  obtain ⟨hname, hsources, hsettings, hmetadata⟩ := ofCalls_reordered h name
  refine ⟨?_, exists_build_iff_of_compile, fun c => resolve?_of_build, ?_⟩
  · have hempty : Command.Interchangeable
        ⟨(ofCalls name calls).name, [], (ofCalls name calls).settings, (ofCalls name calls).metadata⟩
        ⟨(ofCalls name calls').name, [], (ofCalls name calls').settings, (ofCalls name calls').metadata⟩ :=
      ⟨hname, .nil, hsettings, hmetadata⟩
    have hbuild := Command.addSignatures_reordered hempty types (ofCalls name calls).sources
    rw [Declaration.build, Declaration.build, ← hsources]
    exact hbuild.imp fun c c' hc => hc.signatures.imp fun s s' hs =>
      ⟨hs.source, hs.resolve?, Search.solve?_of_interchangeable hs⟩
  · rintro before argument text after source s rfl hargument
    exact compile_of_undeclared hargument

/-- Aliases of two arguments that the signature declares, and of one that it does not. -/
def copyCalls : List DeclarationCall :=
  [.byname "all" "d", .signature "src --dst", .bynames "src" ["s", "from"], .byname "dst" "--d"]

/-- The same aliases in another order. -/
def copyCallsReordered : List DeclarationCall :=
  [.byname "dst" "--d", .byname "src" "from", .signature "src --dst", .byname "src" "s", .byname "all" "d"]

set_option maxRecDepth 2000 in
theorem build_reordered_copy :
    Reordered copyCalls copyCallsReordered ∧ ∃ c c',
      (ofCalls "copy" copyCalls).build {} = .ok c ∧ (ofCalls "copy" copyCallsReordered).build {} = .ok c' ∧
      c.signatures.map (·.resolve? "d") = [some 1] ∧ c'.signatures.map (·.resolve? "d") = [some 1] ∧
      ∃ s, "all" ∉ s.arguments.map Argument.name ∧
        (ofCalls "copy" copyCalls).metadata.compile {} "src --dst" = .ok s ∧
        (ofCalls "copy" (copyCalls.drop 1)).metadata.compile {} "src --dst" = .ok s := by
  have h : Reordered copyCalls copyCallsReordered := ⟨by decide, rfl⟩
  obtain ⟨hsame, hexists, hresolve, hundeclared⟩ := build_reordered h "copy" {}
  let src : Argument := { name := "src", kind := .positional, type := .any, shape := .scalar }
  let dst : Argument := { name := "dst", kind := .keyword, type := .native .bool, shape := .scalar }
  have ht : Signature.compile "src --dst" =
      .ok ⟨"src --dst", ⟨[.leaf 0, .leaf 1], .and, true⟩, [src, dst], [("src", 0), ("dst", 1)]⟩ := by cbv
  have hsources : (ofCalls "copy" copyCalls).sources = ["src --dst"] := rfl
  rw [hsources] at hexists hresolve
  have htypes : ∀ a ∈ [src, dst], ∀ symbol, a.type = .custom symbol →
      symbol ∈ ({} : TypeRegistry).symbols := by simp [src, dst]
  obtain ⟨c, hc⟩ := (hexists (List.forall_mem_singleton.2 ⟨_, ht, htypes⟩)).2
    ⟨Or.inr (by decide), List.forall_mem_singleton.2 fun t ht' => by
      obtain rfl := Except.ok.inj (ht.symm.trans ht')
      exact ⟨by decide, by decide⟩⟩
  obtain ⟨s, rest, ⟨t, ht', hs⟩, hrest, hsignatures⟩ := List.forall₂_cons_left_iff.1 (hresolve c hc)
  obtain rfl := Except.ok.inj (ht.symm.trans ht')
  obtain rfl := List.forall₂_nil_left_iff.1 hrest
  have hd : s.resolve? "d" = some 1 := (hs "d" 1).2 ⟨dst, rfl, Or.inr ⟨"--d", by decide, by decide⟩⟩
  generalize hc' : (ofCalls "copy" copyCallsReordered).build {} = outcome at hsame
  rw [hc] at hsame
  cases hsame with
  | @ok _ c' hsame =>
    rw [hsignatures] at hsame
    obtain ⟨s', rest', ⟨-, hlookup, -⟩, hrest', hsignatures'⟩ := List.forall₂_cons_left_iff.1 hsame
    obtain rfl := List.forall₂_nil_left_iff.1 hrest'
    let arguments : List Argument := [{ src with aliases := ["s", "from"] }, { dst with aliases := ["d"] }]
    have hwithout : (ofCalls "copy" (copyCalls.drop 1)).metadata.compile {} "src --dst" =
        .ok ⟨"src --dst", ⟨[.leaf 0, .leaf 1], .and, true⟩, arguments,
          [("src", 0), ("dst", 1), ("s", 0), ("from", 0), ("d", 1)]⟩ := by cbv
    have hnot : "all" ∉ arguments.map Argument.name := by decide
    refine ⟨h, c, c', hc, rfl, by rw [hsignatures, List.map_singleton, hd], ?_, _, hnot, ?_, hwithout⟩
    · rw [hsignatures', List.map_singleton, ← hlookup, hd]
    · exact (hundeclared [] "all" "d" (copyCalls.drop 1) "src --dst" _ rfl hnot).2 ⟨by decide, hwithout⟩

end Declaration

end Invocation
