/-
  Which signature of a command answers a call.

  The signatures are tried in order. The first that matches is the only one
  whose validators are called, and no other is tried after it, whatever the
  validators find.

  * `Check` is a call of a validator that is due; `Signature.checks` lists
    them for the values that a signature is bound to, `Check.Accepts` and
    `Check.Rejects` tell what becomes of one;
  * `Signature.Keyed`: a table holds values by the names of arguments;
  * `Dispatcher.Resolves`: what a call comes to; `resolves_of_reachable`:
    this is what every dispatcher that can come about answers.
-/
import Invocation.Proofs.Dispatcher.Reachable
import Invocation.Proofs.Matching.Path
import Invocation.Proofs.Matching.Tokens
import Invocation.Proofs.Ordered

namespace Invocation

/-! ## Checks -/

/-- A call of the validator of an argument on the value bound to it. -/
structure Check where
  argument : String
  validator : Validator
  value : Value

namespace Check

/-- The validator finds nothing wrong. -/
def Accepts (k : Check) : Prop := k.validator.check k.value = .ok true

/-- The validator rejects the value, for a reason. -/
inductive Rejects (k : Check) : String → Prop
  /-- It gives no reason of its own. -/
  | refused (h : k.validator.check k.value = .ok false) : Rejects k s!"value {k.value.text} was rejected"
  | failed {reason} (h : k.validator.check k.value = .error reason) : Rejects k reason

/-- The event that a check is. -/
def event (k : Check) : Event := .validated k.argument k.value

theorem accepts_or_rejects (k : Check) :
    k.Accepts ∧ k.validator.rejection? k.value = none ∨
      ∃ reason, k.Rejects reason ∧ k.validator.rejection? k.value = some reason := by
  unfold Validator.rejection?
  split
  · next h => exact Or.inl ⟨h, rfl⟩
  · next h => exact Or.inr ⟨_, .refused h, rfl⟩
  · next h => exact Or.inr ⟨_, .failed h, rfl⟩

end Check

/-- The checks on a table of values, in the order of the arguments. -/
def checksOf (table : List (String × Value)) (arguments : List Argument) : List Check :=
  arguments.filterMap fun a => do
    let validator ← a.validator
    let value ← table.lookup a.name
    some ⟨a.name, validator, value⟩

/-- Checks are made in order. Either all accept, or those before the first that rejects do, and none
after it is made. -/
theorem validate_cases (command : String) (table : List (String × Value)) (arguments : List Argument) :
    ((∀ k ∈ checksOf table arguments, k.Accepts) ∧
      validate command table arguments =
        ⟨(checksOf table arguments).map fun k => (k.argument, k.value), none⟩) ∨
    ∃ accepted k later reason, checksOf table arguments = accepted ++ k :: later ∧
      (∀ k ∈ accepted, k.Accepts) ∧ k.Rejects reason ∧
      validate command table arguments =
        ⟨(accepted ++ [k]).map fun k => (k.argument, k.value),
          some (.validation command k.argument reason)⟩ := by
  induction arguments with
  | nil => exact Or.inl ⟨fun _ hk => absurd hk List.not_mem_nil, rfl⟩
  | cons a rest ih =>
    -- an argument without validator or value adds nothing
    cases hv : a.validator with
    | none => simpa [checksOf, validate, hv] using ih
    | some validator =>
    cases hx : table.lookup a.name with
    | none => simpa [checksOf, validate, hv, hx] using ih
    | some value =>
    have hchecks : checksOf table (a :: rest) = ⟨a.name, validator, value⟩ :: checksOf table rest := by
      simp [checksOf, hv, hx]
    simp only [hchecks, validate, hv, hx]
    rcases Check.accepts_or_rejects ⟨a.name, validator, value⟩ with ⟨hacc, hrej⟩ | ⟨reason, hrej', hrej⟩
    · simp only [hrej]
      rcases ih with ⟨hall, hval⟩ | ⟨accepted, k, later, reason, hsplit, hall, hk, hval⟩
      · exact Or.inl ⟨List.forall_mem_cons.2 ⟨hacc, hall⟩, by rw [hval]; rfl⟩
      · refine Or.inr ⟨⟨a.name, validator, value⟩ :: accepted, k, later, reason, ?_,
          List.forall_mem_cons.2 ⟨hacc, hall⟩, hk, ?_⟩
        · rw [hsplit, List.cons_append]
        · rw [hval]
          rfl
    · simp only [hrej]
      exact Or.inr ⟨[], _, checksOf table rest, reason, rfl, fun _ hk => absurd hk List.not_mem_nil, hrej',
        rfl⟩

/-! ## Values by name -/

namespace Signature

/-- The checks on the values that the arguments of a signature are bound to, in the order of
declaration. -/
def checks (s : Signature) (values : List (Nat × Value)) : List Check :=
  s.arguments.zipIdx.filterMap fun (a, index) => do
    let validator ← a.validator
    let value ← values.lookup index
    some ⟨a.name, validator, value⟩

/-- A table holds values by the names of their arguments, in the order of the names. -/
structure Keyed (s : Signature) (values : List (Nat × Value)) (table : List (String × Value)) :
    Prop where
  ascending : (table.map Prod.fst).Pairwise (· < ·)
  mem_iff : ∀ name value, (name, value) ∈ table ↔
    ∃ index a, (index, value) ∈ values ∧ s.arguments[index]? = some a ∧ a.name = name

variable {s : Signature} {values : List (Nat × Value)}

theorem nodup_names_of_bound (hs : s.Compiled)
    (h : (values.map Prod.fst).Sublist (List.range s.arguments.length)) :
    ((values.map fun (index, value) => (s.nameAt index, value)).map Prod.fst).Nodup := by
  have hnames := (h.map s.nameAt).nodup (s.map_nameAt_range ▸ hs.nodup_names)
  rwa [List.map_map] at hnames ⊢

theorem keyed_named (hs : s.Compiled)
    (h : (values.map Prod.fst).Sublist (List.range s.arguments.length)) :
    s.Keyed values (Binding.named s values) where
  ascending := pairwise_keyTable _
  mem_iff name value := by
    rw [Binding.named, mem_keyTable (nodup_names_of_bound hs h), List.mem_map]
    constructor
    · rintro ⟨⟨index, value'⟩, hmem, heq⟩
      cases heq
      have hlt := List.mem_range.1 (h.mem (List.mem_map.2 ⟨_, hmem, rfl⟩))
      exact ⟨index, s.arguments[index], hmem, List.getElem?_eq_getElem hlt, by simp [nameAt, hlt]⟩
    · rintro ⟨index, a, hmem, ha, rfl⟩
      exact ⟨(index, value), hmem, by simp [nameAt, ha]⟩

/-- In a table by names stands what is bound to the argument at its index. -/
theorem Keyed.lookup_eq {table : List (String × Value)} (htable : s.Keyed values table)
    (hs : s.Compiled) (h : (values.map Prod.fst).Sublist (List.range s.arguments.length))
    {a : Argument} {index : Nat} (ha : s.arguments[index]? = some a) :
    table.lookup a.name = values.lookup index := by
  have hkeys : (table.map Prod.fst).Nodup := by
    refine List.Pairwise.imp ?_ htable.ascending
    rintro k _ hlt rfl
    exact String.lt_irrefl k hlt
  refine Option.ext fun value => ?_
  rw [lookup_eq_some_iff_mem hkeys, lookup_eq_some_iff_mem (h.nodup List.nodup_range), htable.mem_iff]
  constructor
  · rintro ⟨other, b, hmem, hb, hname⟩
    -- no two arguments have one name
    obtain ⟨hlt, -⟩ := List.getElem?_eq_some_iff.1 hb
    have hindex : other = index :=
      (List.getElem?_inj (by rwa [List.length_map]) hs.nodup_names).1
        (by rw [List.getElem?_map, List.getElem?_map, ha, hb, Option.map_some, Option.map_some, hname])
    exact hindex ▸ hmem
  · exact fun hmem => ⟨index, a, hmem, ha, rfl⟩

theorem checksOf_eq_checks {table : List (String × Value)} (htable : s.Keyed values table)
    (hs : s.Compiled) (h : (values.map Prod.fst).Sublist (List.range s.arguments.length)) :
    checksOf table s.arguments = s.checks values := by
  have hzip : s.arguments = s.arguments.zipIdx.map Prod.fst := (List.zipIdx_map_fst 0 _).symm
  rw [checksOf, checks]
  conv_lhs => rw [hzip]
  rw [List.filterMap_map]
  refine List.filterMap_congr fun (a, index) hmem => ?_
  have ha : s.arguments[index]? = some a := List.mem_zipIdx_iff_getElem?.1 hmem
  simp only [Function.comp_apply, htable.lookup_eq hs h ha]

end Signature

/-! ## Calls -/

namespace Dispatcher

/-- What the signatures that are tried first do: all fail, or one matches after some that fail. -/
theorem firstMatch?_cases (types : TypeRegistry) (settings : EffectiveSettings) (input : Input)
    (index : Nat) (signatures : List Signature) :
    ((∀ s ∈ signatures, (Search.of s input types settings).solve? = none) ∧
      firstMatch? types settings input index signatures = none) ∨
    ∃ before s after values, signatures = before ++ s :: after ∧
      (∀ t ∈ before, (Search.of t input types settings).solve? = none) ∧
      (Search.of s input types settings).solve? = some values ∧
      firstMatch? types settings input index signatures = some (index + before.length, s, values) := by
  induction signatures generalizing index with
  | nil => exact Or.inl ⟨fun _ hs => absurd hs List.not_mem_nil, rfl⟩
  | cons s rest ih =>
    cases hs : (Search.of s input types settings).solve? with
    | some values =>
      refine Or.inr ⟨[], s, rest, values, rfl, fun _ ht => absurd ht List.not_mem_nil, hs, ?_⟩
      simp only [firstMatch?, hs, List.length_nil, Nat.add_zero]
    | none =>
      simp only [firstMatch?, hs]
      rcases ih (index + 1) with ⟨hall, hfirst⟩ | ⟨before, t, after, values, rfl, hall, ht, hfirst⟩
      · exact Or.inl ⟨List.forall_mem_cons.2 ⟨hs, hall⟩, hfirst⟩
      · refine Or.inr ⟨s :: before, t, after, values, rfl, List.forall_mem_cons.2 ⟨hs, hall⟩, ht, ?_⟩
        rw [hfirst, List.length_cons, Nat.add_assoc, Nat.add_comm 1]

/-- The values that a signature of a command is bound to by a line, under the settings in force for the
command. -/
def solve? (d : Dispatcher) (c : Command) (line : String) (s : Signature) : Option (List (Nat × Value)) :=
  (Search.of s (Input.ofLine line) d.types (d.effective c)).solve?

/-- What a call comes to, and what is called for it. -/
inductive Resolves (d : Dispatcher) (name line : String) : Outcome Binding → Prop
  /-- There is no command with the name. -/
  | unknown (hc : d.command? name = none) : Resolves d name line ⟨.error (.unknownCommand name), []⟩
  /-- No signature matches; all of them are listed in the order of their registration. -/
  | noMatch {c} (hc : d.command? name = some c) (hnone : ∀ s ∈ c.signatures, d.solve? c line s = none) :
      Resolves d name line ⟨.error (.noMatch name (c.signatures.map Signature.source)), []⟩
  /-- A validator rejects a value that the first signature that matches is bound to. -/
  | rejected {c before s after values accepted k later reason} (hc : d.command? name = some c)
      (hs : c.signatures = before ++ s :: after) (hbefore : ∀ t ∈ before, d.solve? c line t = none)
      (hvalues : d.solve? c line s = some values) (hchecks : s.checks values = accepted ++ k :: later)
      (haccepted : ∀ k ∈ accepted, k.Accepts) (hk : k.Rejects reason) :
      Resolves d name line
        ⟨.error (.validation name k.argument reason), (accepted ++ [k]).map Check.event⟩
  /-- The first signature that matches is bound to values that all validators accept. -/
  | bound {c before s after values table} (hc : d.command? name = some c)
      (hs : c.signatures = before ++ s :: after) (hbefore : ∀ t ∈ before, d.solve? c line t = none)
      (hvalues : d.solve? c line s = some values) (haccepted : ∀ k ∈ s.checks values, k.Accepts)
      (htable : s.Keyed values table) :
      Resolves d name line
        ⟨.ok ⟨name, before.length, s.source, table⟩, (s.checks values).map Check.event⟩

theorem resolves_of_resolve {d : Dispatcher} (hd : d.Sound) (name line : String) :
    d.Resolves name line (d.resolve name line) := by
  cases hc : d.command? name with
  | none =>
    simp only [resolve, hc]
    exact .unknown hc
  | some c =>
  obtain ⟨rfl, hcompiled⟩ := hd name c hc
  simp only [resolve, resolveWith, hc]
  rcases firstMatch?_cases d.types (d.effective c) (Input.ofLine line) 0 c.signatures with
    ⟨hnone, hfirst⟩ | ⟨before, s, after, values, hs, hbefore, hvalues, hfirst⟩
  · simp only [hfirst]
    exact .noMatch hc hnone
  have hsc : s.Compiled := hcompiled s (hs ▸ List.mem_append_right _ List.mem_cons_self)
  have hsub := (Search.exhausts_of_solve? hsc hvalues).order
  have htable := Signature.keyed_named hsc hsub
  have hchecks := Signature.checksOf_eq_checks htable hsc hsub
  simp only [hfirst, Nat.zero_add]
  rcases validate_cases c.name (Binding.named s values) s.arguments with
    ⟨hall, hval⟩ | ⟨accepted, k, later, reason, hsplit, hall, hk, hval⟩
  · rw [hchecks] at hall hval
    simp only [hval, List.map_map]
    exact .bound hc hs hbefore hvalues hall htable
  · rw [hchecks] at hsplit
    simp only [hval, List.map_map]
    exact .rejected hc hs hbefore hvalues hsplit hall hk

/-- **The first match wins, and only its values are validated.** In a dispatcher that can come about,
every call comes to what `Resolves` says, and an error names the command that was called. -/
theorem resolves_of_reachable {d : Dispatcher} (hd : d.Reachable) (name line : String) :
    d.Resolves name line (d.resolve name line) ∧
      ∀ e, (d.resolve name line).result = .error e → e.command = name := by
  have hresolves := resolves_of_resolve hd.sound name line
  refine ⟨hresolves, fun e he => ?_⟩
  generalize d.resolve name line = outcome at hresolves he
  cases hresolves with
  | unknown | noMatch | rejected => cases he; rfl
  | bound => cases he

/-- A throw of dice: how many and with how many sides, or the sides alone, or a text. -/
def rollDeclaration : Declaration where
  name := "roll"
  sources := ["(int) count (int) sides", "(int) sides", "(str) text"]
  metadata := Metadata.setValidator {} "sides" ⟨0, fun value => .ok (value.int?.any (0 < ·))⟩

set_option maxRecDepth 4000 in
/-- The second signature matches and its value is rejected; the third is not tried, although it has no
validator. -/
theorem resolves_of_rejected_number :
    ∃ d, register {} rollDeclaration = .ok d ∧ d.Reachable ∧
      d.resolve "roll" "-3" =
        ⟨.error (.validation "roll" "sides" "value -3 was rejected"),
          [.validated "sides" (.int (-3))]⟩ ∧
      d.Resolves "roll" "-3" (d.resolve "roll" "-3") := by
  have hline : Input.ofLine "-3" = ⟨["-3"], []⟩ := by cbv
  obtain ⟨d, hregister, houtcome⟩ : ∃ d, register {} rollDeclaration = .ok d ∧
      d.resolve "roll" "-3" =
        ⟨.error (.validation "roll" "sides" "value -3 was rejected"),
          [.validated "sides" (.int (-3))]⟩ := by
    refine ⟨_, by cbv, ?_⟩
    simp only [resolve, resolveWith, hline]
    rfl
  have hd : d.Reachable := .command .empty hregister
  exact ⟨d, hregister, hd, houtcome, (resolves_of_reachable hd "roll" "-3").1⟩

end Dispatcher

end Invocation
