/-
  Registrations that write in place.

  A registration is here a program that changes a dispatcher step by step, and
  may be refused after any of its steps; what it has written by then stays
  written. Two kinds of places are told apart: the types and the commands of
  the dispatcher, and what a registration makes for itself first, which is
  dropped when it is refused.

  * `Dispatcher.execute`: the program of an operation. A signature gets its
    aliases one after the other (`Signature.write`), a command its signatures
    (`Command.writeSignature`), and a command that is registered already is
    changed where it stands (`Dispatcher.onCommand`);
  * `exists_run_execute`: every operation writes all that it has to write, or
    nothing; `run_execute`: it comes to what `Dispatcher.attempt` gives;
  * `Dispatcher.after`, `Dispatcher.accepted`: the dispatcher after
    operations, and those of them that are not refused;
  * `refused_leaves_no_trace`: a refused operation leaves the dispatcher as
    it was, and operations come to what the accepted ones come to alone.
-/
import Invocation.Proofs.Dispatcher.Consistency
import Mathlib

namespace Invocation

open Invocation.Text

/-! ## Programs that write in place -/

/-- What is kept of a state that only the program itself can see: it is dropped where the program is
refused. -/
def kept {ε σ : Type} : EStateM.Result ε σ Unit → Except ε σ
  | .ok _ s => .ok s
  | .error e _ => .error e

theorem kept_bind {ε σ : Type} (p q : EStateM ε σ Unit) (s : σ) :
    kept ((do p; q).run s) = (kept (p.run s)).bind fun s' => kept (q.run s') := by
  rw [EStateM.run_bind]
  cases p.run s with
  | ok _ s' => rfl
  | error e s' => rfl

/-- What a program comes to that writes nothing where it is refused. -/
def allOrNothing {ε σ : Type} (s : σ) : Except ε σ → EStateM.Result ε σ Unit
  | .ok s' => .ok () s'
  | .error e => .error e s

theorem kept_allOrNothing {ε σ : Type} (s : σ) (r : Except ε σ) : kept (allOrNothing s r) = r := by
  cases r <;> rfl

theorem eq_of_allOrNothing {ε σ : Type} {s s' : σ} {r : Except ε σ} {e : ε}
    (h : allOrNothing s r = .error e s') : s' = s := by
  cases r with
  | ok s'' => cases h
  | error e' =>
    cases h
    rfl

/-! ## Signatures -/

namespace Signature

/-- Writes an alias of the argument at an index into the table of names and into the argument. -/
def writeAlias (argument : String) (index : Nat) (byname : String) :
    EStateM SignatureError Signature Unit := do
  if ((← get).resolve? byname).isSome then throw (.duplicateAlias byname argument)
  modify fun s =>
    { s with
      lookup := s.lookup ++ [(byname, index)]
      arguments := s.arguments.modify index fun a => { a with aliases := a.aliases ++ [byname] } }

/-- Writes what is declared for the argument at an index. -/
def writeArgument (m : Metadata) (index : Nat) : EStateM SignatureError Signature Unit := do
  let name := (← get).nameAt index
  (m.aliasesOf name).forM (writeAlias name index)
  modify fun s =>
    { s with
      arguments := s.arguments.modify index fun a =>
        { a with
          validator := m.validators.lookup name
          description := (m.descriptions.lookup name).getD a.description } }

/-- Writes what is declared for the arguments, one after the other. -/
def write (m : Metadata) : EStateM SignatureError Signature Unit := do
  (List.range (← get).arguments.length).forM (writeArgument m)

theorem modify_append {α : Type} (xs ys : List α) (a : α) (f : α → α) :
    (xs ++ a :: ys).modify xs.length f = xs ++ f a :: ys := by
  induction xs with
  | nil => rfl
  | cons x xs ih => rw [List.cons_append, List.length_cons, List.modify_succ_cons, ih, List.cons_append]

variable {m : Metadata} {s : Signature}

theorem kept_writeAlias (s : Signature) (argument : String) (index : Nat) (byname : String) :
    kept ((writeAlias argument index byname).run s) =
      if (s.lookup.lookup byname).isSome then .error (.duplicateAlias byname argument)
      else .ok { s with
        lookup := s.lookup ++ [(byname, index)]
        arguments := s.arguments.modify index fun a => { a with aliases := a.aliases ++ [byname] } } := by
  rw [writeAlias, EStateM.run_bind]
  by_cases h : (s.lookup.lookup byname).isSome = true
  · simp only [EStateM.run_get, resolve?, h, if_true]
    rfl
  · simp only [EStateM.run_get, resolve?, h]
    rfl

/-- The aliases of an argument are written in order, up to the first that stands in the table already. -/
theorem kept_writeAliases {done rest : List Argument} {a : Argument} (h : s.arguments = done ++ a :: rest)
    (argument : String) (aliases : List String) :
    kept ((aliases.forM (writeAlias argument done.length)).run s) =
      (addAliasNames argument done.length s.lookup aliases).map fun names =>
        { s with
          lookup := names
          arguments := done ++ { a with aliases := a.aliases ++ aliases } :: rest } := by
  induction aliases generalizing s a with
  | nil =>
    have hargument : { a with aliases := a.aliases ++ [] } = a := by rw [List.append_nil]
    rw [hargument, ← h]
    rfl
  | cons byname aliases ih =>
    have hcons : (byname :: aliases).forM (writeAlias argument done.length) =
        (do writeAlias argument done.length byname; aliases.forM (writeAlias argument done.length)) := rfl
    rw [hcons, kept_bind, kept_writeAlias, addAliasNames]
    by_cases hknown : (s.lookup.lookup byname).isSome = true
    · rw [if_pos hknown, if_pos hknown]
      rfl
    · have harguments :
          s.arguments.modify done.length (fun a => { a with aliases := a.aliases ++ [byname] }) =
            done ++ { a with aliases := a.aliases ++ [byname] } :: rest := by
        rw [h, modify_append]
      rw [if_neg hknown, if_neg hknown, harguments, Except.bind]
      refine (ih rfl).trans ?_
      simp only [List.append_assoc, List.singleton_append]

/-- What is declared for an argument is found by its name, which writing does not change. -/
theorem kept_writeArgument {done rest : List Argument} {a : Argument} (h : s.arguments = done ++ a :: rest) :
    kept ((writeArgument m done.length).run s) =
      (addAliasNames a.name done.length s.lookup (m.aliasesOf a.name)).map fun names =>
        { s with lookup := names, arguments := done ++ m.decorate a :: rest } := by
  have hname : s.nameAt done.length = a.name := by
    rw [nameAt, h, List.getElem?_append_right (Nat.le_refl _), Nat.sub_self]
    rfl
  rw [writeArgument, EStateM.run_bind]
  simp only [EStateM.run_get, hname]
  rw [kept_bind, kept_writeAliases h]
  cases addAliasNames a.name done.length s.lookup (m.aliasesOf a.name) with
  | error e => rfl
  | ok names =>
    have hmodify := modify_append done rest { a with aliases := a.aliases ++ m.aliasesOf a.name } fun a' =>
      { a' with
        validator := m.validators.lookup a.name
        description := (m.descriptions.lookup a.name).getD a'.description }
    exact congrArg (fun arguments => Except.ok { s with lookup := names, arguments }) hmodify

/-- The arguments before an index are decorated, and those from it on are still as they were read. -/
theorem kept_writeArguments {done rest : List Argument} (h : s.arguments = done ++ rest) :
    kept (((List.range' done.length rest.length).forM (writeArgument m)).run s) =
      (addAllAliasNames m s.lookup done.length rest).map fun names =>
        { s with lookup := names, arguments := done ++ rest.map m.decorate } := by
  induction rest generalizing s done with
  | nil =>
    rw [List.map_nil, ← h]
    rfl
  | cons a rest ih =>
    have hcons : (List.range' done.length (rest.length + 1)).forM (writeArgument m) =
        (do
          writeArgument m done.length
          (List.range' (done.length + 1) rest.length).forM (writeArgument m)) := rfl
    rw [List.length_cons, hcons, kept_bind, kept_writeArgument h, addAllAliasNames]
    cases addAliasNames a.name done.length s.lookup (m.aliasesOf a.name) with
    | error e => rfl
    | ok names =>
      have hdone : done ++ m.decorate a :: rest = (done ++ [m.decorate a]) ++ rest := by simp
      have hlength : (done ++ [m.decorate a]).length = done.length + 1 := by simp
      have hrest := ih (s := { s with lookup := names, arguments := done ++ m.decorate a :: rest }) hdone
      rw [hlength] at hrest
      refine hrest.trans ?_
      simp only [List.map_cons, List.append_assoc, List.singleton_append]

/-- Writing what is declared argument by argument comes to decorating all arguments at once. -/
theorem kept_write (m : Metadata) (s : Signature) :
    kept ((write m).run s) =
      (addAllAliasNames m s.lookup 0 s.arguments).map fun names =>
        { s with arguments := s.arguments.map m.decorate, lookup := names } := by
  rw [write, EStateM.run_bind]
  simp only [EStateM.run_get, List.range_eq_range']
  exact @kept_writeArguments m s [] s.arguments rfl

/-- Where the alias of the second flag is refused, that of the first stays written. -/
example : ∃ s s', compile "[--force] [--fast]" = .ok s ∧
    (write ((Metadata.addAlias {} "force" "f").addAlias "fast" "f")).run s =
      .error (.duplicateAlias "f" "fast") s' ∧
    s'.lookup = [("force", 0), ("fast", 1), ("f", 0)] :=
  ⟨_, _, by cbv, by cbv, rfl⟩

end Signature

/-- The signature of a text, into which what is declared for its arguments is written in place. -/
def Metadata.compileInPlace (m : Metadata) (types : TypeRegistry) (source : String) :
    Except SignatureError Signature :=
  match Signature.compile source with
  | .error e => .error e
  | .ok s =>
    match unknownType? types s.arguments, m.invalidAlias? with
    | some symbol, _ => .error (.unknownType symbol)
    | none, some byname => .error (.invalidName byname 0)
    | none, none => kept ((Signature.write m).run s)

theorem Metadata.compileInPlace_eq (m : Metadata) (types : TypeRegistry) (source : String) :
    m.compileInPlace types source = m.compile types source := by
  simp only [compileInPlace, Signature.kept_write]
  rfl

/-! ## Commands -/

/-- Puts a signature at the end of a command. -/
def Command.writeSignature (types : TypeRegistry) (source : String) :
    EStateM RegistrationError Command Unit := do
  let c ← get
  match c.metadata.compileInPlace types source with
  | .error e => throw (.invalidSignature c.name source e)
  | .ok s => set { c with signatures := c.signatures ++ [s] }

/-- The command of a declaration. Its signatures are put into it one after the other; until the last of
them is, nothing else can see it. -/
def Declaration.buildInPlace (d : Declaration) (types : TypeRegistry) : Except RegistrationError Command :=
  kept ((d.sources.forM (Command.writeSignature types)).run ⟨d.name, [], d.settings, d.metadata⟩)

theorem Command.run_writeSignature (c : Command) (types : TypeRegistry) (source : String) :
    (writeSignature types source).run c = allOrNothing c (c.addSignature types source) := by
  rw [writeSignature, EStateM.run_bind]
  simp only [EStateM.run_get, Metadata.compileInPlace_eq, addSignature]
  cases c.metadata.compile types source with
  | error e => rfl
  | ok s => rfl

theorem Command.kept_writeSignatures (c : Command) (types : TypeRegistry) (sources : List String) :
    kept ((sources.forM (writeSignature types)).run c) = c.addSignatures types sources := by
  induction sources generalizing c with
  | nil => rfl
  | cons source rest ih =>
    have hcons : (source :: rest).forM (writeSignature types) =
        (do writeSignature types source; rest.forM (writeSignature types)) := rfl
    rw [hcons, kept_bind, run_writeSignature, kept_allOrNothing, addSignatures]
    cases c.addSignature types source with
    | error e => rfl
    | ok c' => exact ih c'

theorem Declaration.buildInPlace_eq (d : Declaration) (types : TypeRegistry) :
    d.buildInPlace types = d.build types :=
  Command.kept_writeSignatures _ types d.sources

/-! ## Types and entries of tables -/

/-- Puts a type after all others. -/
def TypeRegistry.write (t : CustomType) : EStateM RegistrationError TypeRegistry Unit := do
  if reservedSymbols.contains t.symbol then throw (.reservedType t.symbol)
  if !isIdentifier t.symbol then throw (.invalidTypeSymbol t.symbol)
  if (← get).contains t.symbol then throw (.duplicateType t.symbol)
  modify fun r => ⟨r.types ++ [t]⟩

theorem TypeRegistry.run_write (r : TypeRegistry) (t : CustomType) :
    (write t).run r = allOrNothing r (r.register t) := by
  unfold write register
  cases hreserved : reservedSymbols.contains t.symbol with
  | true =>
    simp only [if_true]
    rfl
  | false =>
  cases hidentifier : isIdentifier t.symbol with
  | false =>
    simp only [Bool.not_false, if_true]
    rfl
  | true =>
  simp only [Bool.false_eq_true, if_false, Bool.not_true, EStateM.run_bind, EStateM.run_get]
  cases hknown : r.contains t.symbol with
  | true => rfl
  | false => rfl

/-- Writes a value in the place of the first entry with a key. -/
def writeEntry {α : Type} (key : String) (value : α) : List (String × α) → List (String × α)
  | [] => []
  | (k, v) :: rest => if k = key then (k, value) :: rest else (k, v) :: writeEntry key value rest

theorem writeEntry_of_lookup {α : Type} {key : String} {value : α} {table : List (String × α)}
    (h : table.lookup key = some value) : writeEntry key value table = table := by
  induction table with
  | nil => rfl
  | cons first rest ih =>
    obtain ⟨k, v⟩ := first
    rw [writeEntry]
    by_cases heq : k = key
    · subst heq
      have hv : v = value := by simpa using h
      rw [if_pos rfl, hv]
    · have hne : (key == k) = false := beq_false_of_ne (Ne.symm heq)
      rw [List.lookup_cons, hne] at h
      rw [if_neg heq, ih h]

/-- Where keys ascend, writing in the place of an entry is setting its key. -/
theorem writeEntry_eq_setKey {α : Type} {key : String} {value : α} {table : List (String × α)}
    (h : (table.map Prod.fst).Pairwise (· < ·)) (hkey : key ∈ table.map Prod.fst) :
    writeEntry key value table = setKey key value table := by
  induction table with
  | nil => exact absurd hkey List.not_mem_nil
  | cons first rest ih =>
    obtain ⟨k, v⟩ := first
    obtain ⟨hfirst, hrest⟩ := List.pairwise_cons.1 h
    rw [writeEntry, setKey]
    by_cases heq : k = key
    · subst heq
      rw [if_pos rfl, if_neg (String.lt_irrefl k), if_pos rfl]
    · have hmem : key ∈ rest.map Prod.fst := (List.mem_cons.1 hkey).resolve_left (Ne.symm heq)
      have hlt : k < key := hfirst key hmem
      rw [if_neg heq, if_neg (String.lt_asymm hlt), if_neg (Ne.symm heq), ih hrest hmem]

/-! ## Operations -/

namespace Dispatcher

/-- A program on the registered types. What it writes, it writes in the dispatcher. -/
def onTypes (p : EStateM RegistrationError TypeRegistry Unit) : EStateM RegistrationError Dispatcher Unit :=
  fun d =>
    match p.run d.types with
    | .ok _ types => .ok () { d with types }
    | .error e types => .error e { d with types }

/-- A program on a registered command. What it writes, it writes in the dispatcher. -/
def onCommand (name : String) (p : EStateM RegistrationError Command Unit) :
    EStateM RegistrationError Dispatcher Unit :=
  fun d =>
    match d.command? name with
    | none => .error (.unknownCommand name) d
    | some c =>
      match p.run c with
      | .ok _ c' => .ok () { d with commands := writeEntry name c' d.commands }
      | .error e c' => .error e { d with commands := writeEntry name c' d.commands }

/-- Registers a command. -/
def writeCommand (declaration : Declaration) : EStateM RegistrationError Dispatcher Unit := do
  let d ← get
  match declaration.buildInPlace d.types with
  | .error e => throw e
  | .ok command =>
    if (d.command? command.name).isSome then throw (.duplicateCommand command.name)
    set { d with commands := setKey command.name command d.commands }

/-- The program of an operation. -/
def execute : Operation → EStateM RegistrationError Dispatcher Unit
  | .registerType t => onTypes (TypeRegistry.write t)
  | .register declaration => writeCommand declaration
  | .addSignature name source => do
    let d ← get
    onCommand name (Command.writeSignature d.types source)
  | .setSettings settings => modify fun d => { d with settings }

theorem onTypes_allOrNothing {p : EStateM RegistrationError TypeRegistry Unit} {d : Dispatcher}
    {r : Except RegistrationError TypeRegistry} (h : p.run d.types = allOrNothing d.types r) :
    (onTypes p).run d = allOrNothing d (r.map fun types => { d with types }) := by
  have hrun : (onTypes p).run d =
      match p.run d.types with
      | .ok _ types => .ok () { d with types }
      | .error e types => .error e { d with types } := rfl
  rw [hrun, h]
  cases r <;> rfl

theorem onCommand_allOrNothing {p : EStateM RegistrationError Command Unit} {d : Dispatcher} {name : String}
    {c : Command} {r : Except RegistrationError Command} (hc : d.command? name = some c)
    (h : p.run c = allOrNothing c r) :
    (onCommand name p).run d =
      allOrNothing d (r.map fun c' => { d with commands := writeEntry name c' d.commands }) := by
  have hrun : (onCommand name p).run d =
      match d.command? name with
      | none => .error (.unknownCommand name) d
      | some c =>
        match p.run c with
        | .ok _ c' => .ok () { d with commands := writeEntry name c' d.commands }
        | .error e c' => .error e { d with commands := writeEntry name c' d.commands } := rfl
  have hsame : writeEntry name c d.commands = d.commands := writeEntry_of_lookup hc
  rw [hrun, hc]
  simp only [h]
  cases r with
  | ok c' => rfl
  | error e => simp only [allOrNothing, Except.map, hsame]

theorem run_writeCommand (d : Dispatcher) (declaration : Declaration) :
    (writeCommand declaration).run d = allOrNothing d (d.register declaration) := by
  rw [writeCommand, EStateM.run_bind]
  simp only [EStateM.run_get, Declaration.buildInPlace_eq, register]
  cases declaration.build d.types with
  | error e => rfl
  | ok c =>
    cases hknown : (d.command? c.name).isSome with
    | true =>
      simp only [hknown, if_true]
      rfl
    | false =>
      simp only [hknown, Bool.false_eq_true, if_false]
      rfl

/-- Every operation writes all that it has to write, or nothing. -/
theorem exists_run_execute (d : Dispatcher) (operation : Operation) :
    ∃ r, (execute operation).run d = allOrNothing d r ∧
      ((d.commands.map Prod.fst).Pairwise (· < ·) → r = d.attempt operation) := by
  cases operation with
  | registerType t => exact ⟨_, onTypes_allOrNothing (TypeRegistry.run_write d.types t), fun _ => rfl⟩
  | register declaration => exact ⟨_, run_writeCommand d declaration, fun _ => rfl⟩
  | setSettings settings => exact ⟨.ok { d with settings }, rfl, fun _ => rfl⟩
  | addSignature name source =>
    have hrun : (execute (.addSignature name source)).run d =
        (onCommand name (Command.writeSignature d.types source)).run d := rfl
    rw [hrun]
    cases hc : d.command? name with
    | none =>
      refine ⟨.error (.unknownCommand name), ?_, fun _ => ?_⟩
      · simp only [onCommand, EStateM.run, hc, allOrNothing]
      · simp only [attempt, addSignature, hc]
    | some c =>
      refine ⟨_, onCommand_allOrNothing hc (Command.run_writeSignature c d.types source), fun hd => ?_⟩
      have hkey : name ∈ d.commands.map Prod.fst := List.mem_map_of_mem (mem_of_lookup_eq_some hc)
      simp only [attempt, addSignature, hc, writeEntry_eq_setKey hd hkey]

/-! ## Runs -/

/-- The dispatcher after operations, whether they are refused or not. -/
def after (d : Dispatcher) : List Operation → Dispatcher
  | [] => d
  | operation :: rest =>
    match (execute operation).run d with
    | .ok _ d' => d'.after rest
    | .error _ d' => d'.after rest

/-- The operations that are not refused when all of them are tried in turn. -/
def accepted (d : Dispatcher) : List Operation → List Operation
  | [] => []
  | operation :: rest =>
    match (execute operation).run d with
    | .ok _ d' => operation :: d'.accepted rest
    | .error _ d' => d'.accepted rest

variable {d d' : Dispatcher} {operation : Operation}

theorem eq_of_refused {e : RegistrationError} (h : (execute operation).run d = .error e d') : d' = d := by
  obtain ⟨r, hrun, -⟩ := exists_run_execute d operation
  rw [hrun] at h
  exact eq_of_allOrNothing h

theorem run_execute (hd : d.Reachable) (operation : Operation) :
    (execute operation).run d = allOrNothing d (d.attempt operation) := by
  obtain ⟨r, hrun, hr⟩ := exists_run_execute d operation
  rw [hrun, hr hd.consistent.ascending]

theorem accepted_sublist (d : Dispatcher) (operations : List Operation) :
    (d.accepted operations).Sublist operations := by
  induction operations generalizing d with
  | nil => exact List.Sublist.refl []
  | cons operation rest ih =>
    rw [accepted]
    cases (execute operation).run d with
    | ok _ d' => exact (ih d').cons_cons operation
    | error e d' => exact (ih d').cons operation

/-- The operations that are accepted among others are accepted alone, and come to the same. -/
theorem run_accepted (d : Dispatcher) (operations : List Operation) :
    ((d.accepted operations).forM execute).run d = .ok () (d.after operations) := by
  induction operations generalizing d with
  | nil => rfl
  | cons operation rest ih =>
    rw [accepted, after]
    cases hrun : (execute operation).run d with
    | error e d' =>
      obtain rfl := eq_of_refused hrun
      exact ih d'
    | ok _ d' =>
      have hcons : (operation :: d'.accepted rest).forM execute =
          (do execute operation; (d'.accepted rest).forM execute) := rfl
      simp only [hcons, EStateM.run_bind, hrun, ih]

theorem after_eq_foldl_perform (hd : d.Reachable) (operations : List Operation) :
    d.after operations = operations.foldl perform d := by
  induction operations generalizing d with
  | nil => rfl
  | cons operation rest ih =>
    have hrest := ih (hd.perform operation)
    rw [after, List.foldl_cons, run_execute hd, ← hrest, perform]
    cases d.attempt operation with
    | ok d' => rfl
    | error e => rfl

/-- **A registration that is refused leaves no trace.** Whatever it was refused for, and at whatever step, the
dispatcher is what it was before. So a run ends with the dispatcher that its accepted operations give
alone, in their order and without a refusal. In a dispatcher that can come about, the programs come to
what `attempt` and `perform` give. -/
theorem refused_leaves_no_trace (d : Dispatcher) (operations : List Operation) :
    (∀ operation e d', (execute operation).run d = .error e d' → d' = d) ∧
      (d.accepted operations).Sublist operations ∧
      ((d.accepted operations).forM execute).run d = .ok () (d.after operations) ∧
      (d.Reachable → d.after operations = operations.foldl perform d ∧
        ∀ operation, (execute operation).run d = allOrNothing d (d.attempt operation)) :=
  ⟨fun _ _ _ h => eq_of_refused h, accepted_sublist d operations, run_accepted d operations,
    fun hd => ⟨after_eq_foldl_perform hd operations, run_execute hd⟩⟩

/-- A command with one flag. Another flag is to get the same alias. -/
def clashingDeclaration : Declaration where
  name := "copy"
  sources := ["(str) from [--force]"]
  metadata := (Metadata.addAlias {} "force" "f").addAlias "fast" "f"

/-- Both flags in the signature that is added: it is refused after its first alias is written. -/
def clashingOperation : Operation := .addSignature "copy" "(str) from [--force] [--fast]"

theorem refused_leaves_no_trace_of_clash :
    ∃ d d', register {} clashingDeclaration = .ok d ∧ d.Reachable ∧
      (execute clashingOperation).run d =
        .error (.invalidSignature "copy" "(str) from [--force] [--fast]" (.duplicateAlias "f" "fast")) d' ∧
      d' = d ∧
      d.after [clashingOperation, .addSignature "copy" "--help"] =
        [clashingOperation, .addSignature "copy" "--help"].foldl perform d := by
  obtain ⟨d, d', hregister, hrun⟩ : ∃ d d', register {} clashingDeclaration = .ok d ∧
      (execute clashingOperation).run d =
        .error (.invalidSignature "copy" "(str) from [--force] [--fast]" (.duplicateAlias "f" "fast")) d' :=
    ⟨_, _, by cbv, by cbv⟩
  have hd : d.Reachable := .command .empty hregister
  obtain ⟨hrefused, -, -, hreachable⟩ :=
    refused_leaves_no_trace d [clashingOperation, .addSignature "copy" "--help"]
  exact ⟨d, d', hregister, hd, hrun, hrefused _ _ _ hrun, (hreachable hd).1⟩

end Dispatcher

end Invocation
