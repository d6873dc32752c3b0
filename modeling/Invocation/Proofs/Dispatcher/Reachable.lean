/-
  Dispatchers that come about by registrations.

  * `Dispatcher.registerType_eq_ok`, `Dispatcher.register_eq_ok`,
    `Dispatcher.addSignature_eq_ok`: what a registration does that is not
    refused; `Command.addSignatures_induction`: what adding one signature
    keeps, adding several keeps;
  * `Dispatcher.Reachable`: a dispatcher comes from the empty one by setting
    its settings, registering types and commands, and adding signatures;
  * `Dispatcher.Sound`: every command is filed under its own name, and its
    signatures are compiled; `Reachable.sound`: this holds of every
    dispatcher that can come about.
-/
import Invocation.Dispatcher
import Invocation.Proofs.Signature.Numbering

namespace Invocation

/-! ## Commands -/

namespace Command

variable {c c' : Command} {types : TypeRegistry}

theorem addSignature_eq_ok {source : String} (h : c.addSignature types source = .ok c') :
    ∃ s, c.metadata.compile types source = .ok s ∧ c' = { c with signatures := c.signatures ++ [s] } := by
  unfold addSignature at h
  split at h
  · next s hs => cases h; exact ⟨s, hs, rfl⟩
  · cases h

/-- What adding one signature keeps, adding several keeps. -/
theorem addSignatures_induction {P : Command → Prop}
    (hstep : ∀ c c' source, P c → c.addSignature types source = .ok c' → P c') {sources : List String}
    (hc : P c) (h : c.addSignatures types sources = .ok c') : P c' := by
  induction sources generalizing c with
  | nil => cases h; exact hc
  | cons source rest ih =>
    rw [addSignatures] at h
    split at h
    · next added hadd => exact ih (hstep c added source hc hadd) h
    · cases h

end Command

namespace Dispatcher

/-- A command that is filed under its own name and whose signatures are compiled. -/
structure SoundCommand (name : String) (c : Command) : Prop where
  name_eq : c.name = name
  compiled : ∀ s ∈ c.signatures, s.Compiled

theorem soundCommand_of_addSignature {name source : String} {c c' : Command} {types : TypeRegistry}
    (hc : SoundCommand name c) (h : c.addSignature types source = .ok c') : SoundCommand name c' := by
  obtain ⟨s, hs, rfl⟩ := Command.addSignature_eq_ok h
  refine ⟨hc.name_eq, fun t ht => ?_⟩
  rcases List.mem_append.1 ht with ht | ht
  · exact hc.compiled t ht
  · exact List.mem_singleton.1 ht ▸ .command hs

theorem soundCommand_of_build {declaration : Declaration} {types : TypeRegistry} {c : Command}
    (h : declaration.build types = .ok c) : SoundCommand declaration.name c := by
  have hempty : SoundCommand declaration.name ⟨declaration.name, [], declaration.settings,
    declaration.metadata⟩ := ⟨rfl, fun _ hs => absurd hs List.not_mem_nil⟩
  exact Command.addSignatures_induction (fun _ _ _ => soundCommand_of_addSignature) hempty h

/-! ## Filing commands -/

/-- The dispatcher with a command filed under a name, in the place of the one that was there. -/
def file (d : Dispatcher) (name : String) (c : Command) : Dispatcher :=
  { d with commands := setKey name c d.commands }

@[simp] theorem command?_file_self (d : Dispatcher) (name : String) (c : Command) :
    (d.file name c).command? name = some c :=
  lookup_setKey_self name c d.commands

theorem command?_file_of_ne {name other : String} (h : other ≠ name) (d : Dispatcher) (c : Command) :
    (d.file name c).command? other = d.command? other :=
  lookup_setKey_of_ne h c d.commands

/-! ## Registrations that are not refused -/

section

variable {d d' : Dispatcher} {name source : String}

theorem registerType_eq_ok {t : CustomType} (h : d.registerType t = .ok d') :
    ∃ types, d.types.register t = .ok types ∧ d' = { d with types } := by
  unfold registerType at h
  cases ht : d.types.register t with
  | error e => rw [ht] at h; cases h
  | ok types => rw [ht] at h; cases h; exact ⟨types, rfl, rfl⟩

theorem register_eq_ok {declaration : Declaration} (h : d.register declaration = .ok d') :
    ∃ c, declaration.build d.types = .ok c ∧ d.command? c.name = none ∧ d' = d.file c.name c := by
  unfold register at h
  split at h
  · cases h
  next c hc =>
  split at h
  · cases h
  · next hnew =>
    cases h
    exact ⟨c, hc, by simpa using hnew, rfl⟩

theorem addSignature_eq_ok (h : d.addSignature name source = .ok d') :
    ∃ c c', d.command? name = some c ∧ c.addSignature d.types source = .ok c' ∧ d' = d.file name c' := by
  unfold addSignature at h
  split at h
  · cases h
  next c hc =>
  cases hadd : c.addSignature d.types source with
  | error e => rw [hadd] at h; cases h
  | ok c' => rw [hadd] at h; cases h; exact ⟨c, c', hc, hadd, rfl⟩

end

/-! ## Dispatchers -/

/-- The dispatchers that come about from the empty one. -/
inductive Reachable : Dispatcher → Prop
  | empty : Reachable {}
  | settings {d} (hd : Reachable d) (settings : Settings) : Reachable { d with settings }
  | type {d d' t} (hd : Reachable d) (h : d.registerType t = .ok d') : Reachable d'
  | command {d d' declaration} (hd : Reachable d) (h : d.register declaration = .ok d') : Reachable d'
  | signature {d d' name source} (hd : Reachable d) (h : d.addSignature name source = .ok d') :
      Reachable d'

/-- Every command is filed under its own name, and its signatures are compiled. -/
def Sound (d : Dispatcher) : Prop := ∀ name c, d.command? name = some c → SoundCommand name c

section

variable {d d' : Dispatcher} {name source : String}

theorem sound_of_registerType {t : CustomType} (hd : d.Sound) (h : d.registerType t = .ok d') :
    d'.Sound := by
  obtain ⟨types, -, rfl⟩ := registerType_eq_ok h
  exact hd

theorem sound_of_file {c : Command} (hd : d.Sound) (hc : SoundCommand name c) : (d.file name c).Sound := by
  intro other c' h
  by_cases hn : other = name
  · subst hn
    rw [command?_file_self, Option.some.injEq] at h
    exact h ▸ hc
  · rw [command?_file_of_ne hn] at h
    exact hd other c' h

theorem sound_of_register {declaration : Declaration} (hd : d.Sound)
    (h : d.register declaration = .ok d') : d'.Sound := by
  obtain ⟨c, hc, -, rfl⟩ := register_eq_ok h
  have hsound := soundCommand_of_build hc
  exact sound_of_file hd (hsound.name_eq ▸ hsound)

theorem sound_of_addSignature (hd : d.Sound) (h : d.addSignature name source = .ok d') : d'.Sound := by
  obtain ⟨c, c', hc, hadd, rfl⟩ := addSignature_eq_ok h
  exact sound_of_file hd (soundCommand_of_addSignature (hd name c hc) hadd)

end

/-- Every dispatcher that can come about files sound commands. -/
theorem Reachable.sound {d : Dispatcher} (hd : d.Reachable) : d.Sound := by
  induction hd with
  | empty => exact nofun
  | settings _ _ ih => exact ih
  | type _ h ih => exact sound_of_registerType ih h
  | command _ h ih => exact sound_of_register ih h
  | signature _ h ih => exact sound_of_addSignature ih h

end Dispatcher

end Invocation
