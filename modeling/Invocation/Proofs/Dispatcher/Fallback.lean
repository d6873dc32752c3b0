/-
  What the fallback makes of a call.

  A call with fallback comes to what the call without fallback comes to. Only
  where no signature matches or a validator rejects, the fallback in force
  for the command decides what becomes of the error.

  * `Settings.Gives`: the value of a field in a local and a global layer;
  * `Dispatcher.FallsBackTo`: the fallback in force for a command;
  * `Dispatcher.FallsBack`: what a call comes to with fallback, given what it
    comes to without; `dispatch_eq_iff_fallsBack`: this and nothing else is
    what a call with fallback comes to;
  * `Dispatcher.raising`: the dispatcher with all its fallbacks replaced by
    raising, for which fallback makes no difference.
-/
import Invocation.Proofs.Dispatcher.Agreement
import Invocation.Proofs.Ordered

namespace Invocation

/-! ## Layers of settings -/

/-- What two layers of settings give for a field: the value of the local layer if there is one and it sets
the field, else the value of the global layer if this sets the field, else none. -/
inductive Settings.Gives {α : Type} (field : Settings → Option α) (local_ : Option Settings)
    (global : Settings) : Option α → Prop
  | ofLocal {layer value} (hl : local_ = some layer) (hv : field layer = some value) :
      Gives field local_ global (some value)
  | ofGlobal {value} (hl : ∀ layer, local_ = some layer → field layer = none)
      (hv : field global = some value) : Gives field local_ global (some value)
  | unset (hl : ∀ layer, local_ = some layer → field layer = none) (hv : field global = none) :
      Gives field local_ global none

theorem Settings.gives_iff {α : Type} {field : Settings → Option α} {local_ : Option Settings}
    {global : Settings} {value : Option α} :
    Gives field local_ global value ↔ (local_.bind field).or (field global) = value := by
  have hnone : (∀ layer, local_ = some layer → field layer = none) ↔ local_.bind field = none := by
    cases local_ <;> simp
  constructor
  · rintro (⟨rfl, hv⟩ | ⟨hl, hv⟩ | ⟨hl, hv⟩)
    · rw [Option.bind_some, hv, Option.some_or]
    · rw [hnone.1 hl, hv, Option.none_or]
    · rw [hnone.1 hl, hv, Option.none_or]
  · rintro rfl
    cases hl : local_.bind field with
    | some value =>
      obtain ⟨layer, hlayer, hv⟩ := Option.bind_eq_some_iff.1 hl
      exact .ofLocal hlayer hv
    | none =>
      rw [Option.none_or]
      cases hv : field global with
      | some value => exact .ofGlobal (hnone.2 hl) hv
      | none => exact .unset (hnone.2 hl) hv

/-! ## Errors and outcomes -/

/-- An error about which the fallback decides: no signature matches, or a validator rejects. -/
inductive CallError.Routed : CallError → Prop
  | noMatch (command attempted) : Routed (.noMatch command attempted)
  | validation (command argument reason) : Routed (.validation command argument reason)

namespace Outcome

/-- The outcome with its result, if it is no error, given to a function. -/
def map {α β : Type} (f : α → β) (o : Outcome α) : Outcome β := ⟨o.result.map f, o.events⟩

/-- The calls of handlers, each with the error that the handler got. -/
def handlerCalls {α : Type} (o : Outcome α) : List (Handler × CallError) :=
  o.events.filterMap fun
    | .handled handler e => some (handler, e)
    | .validated _ _ => none

end Outcome

namespace Dispatcher

/-! ## Calls with fallback -/

/-- The fallback in force for a command: the one of the command, else the global one, else to ignore. -/
def FallsBackTo (d : Dispatcher) (c : Command) (mode : Fallback) : Prop :=
  ∃ value, Settings.Gives Settings.fallback c.settings d.settings value ∧ value.getD .ignore = mode

/-- What a call of a name comes to with fallback, given what it comes to without. -/
inductive FallsBack (d : Dispatcher) (name : String) : Outcome Binding → Outcome (Option Binding) → Prop
  | bound (b events) : FallsBack d name ⟨.ok b, events⟩ ⟨.ok (some b), events⟩
  /-- That a command is unknown is an error under every fallback. -/
  | unknown (command events) :
      FallsBack d name ⟨.error (.unknownCommand command), events⟩ ⟨.error (.unknownCommand command), events⟩
  | raised {c e} (events) (hc : d.command? name = some c) (he : e.Routed) (hm : d.FallsBackTo c .raise) :
      FallsBack d name ⟨.error e, events⟩ ⟨.error e, events⟩
  | ignored {c e} (events) (hc : d.command? name = some c) (he : e.Routed) (hm : d.FallsBackTo c .ignore) :
      FallsBack d name ⟨.error e, events⟩ ⟨.ok none, events⟩
  /-- The handler of the command, else the global one, is called once with the error. -/
  | handled {c e handler} (events) (hc : d.command? name = some c) (he : e.Routed)
      (hm : d.FallsBackTo c .handle)
      (hh : Settings.Gives Settings.handler c.settings d.settings (some handler)) :
      FallsBack d name ⟨.error e, events⟩ ⟨.ok none, events ++ [.handled handler e]⟩
  /-- There is no handler. -/
  | unhandled {c e} (events) (hc : d.command? name = some c) (he : e.Routed)
      (hm : d.FallsBackTo c .handle) (hh : Settings.Gives Settings.handler c.settings d.settings none) :
      FallsBack d name ⟨.error e, events⟩ ⟨.ok none, events⟩

variable {d : Dispatcher} {name line : String} {c : Command}

theorem fallsBackTo_iff {mode : Fallback} : d.FallsBackTo c mode ↔ (d.effective c).fallback = mode := by
  simp only [FallsBackTo, Settings.gives_iff, exists_eq_left', effective, EffectiveSettings.resolve]

theorem isRouted_iff {e : CallError} : e.isRouted = true ↔ e.Routed := by
  constructor
  · intro h
    cases e with
    | unknownCommand command => cases h
    | noMatch command attempted => exact .noMatch command attempted
    | validation command argument reason => exact .validation command argument reason
  · rintro (_ | _) <;> rfl

theorem dispatch_of_bound {b : Binding} {events : List Event}
    (h : d.resolve name line = ⟨.ok b, events⟩) : d.dispatch name line = ⟨.ok (some b), events⟩ := by
  cases hc : d.command? name with
  | none => simp [resolve, hc] at h
  | some c =>
    simp only [resolve, hc] at h
    simp only [dispatch, hc, h]

theorem dispatch_of_unknown {command : String} {events : List Event}
    (h : d.resolve name line = ⟨.error (.unknownCommand command), events⟩) :
    d.dispatch name line = ⟨.error (.unknownCommand command), events⟩ := by
  cases hc : d.command? name with
  | none =>
    simp only [resolve, hc] at h
    simp only [dispatch, hc]
    cases h
    rfl
  | some c =>
    simp only [resolve, hc] at h
    simp [dispatch, hc, h, CallError.isRouted]

/-- An error about which the fallback decides goes to the fallback in force. -/
theorem dispatch_of_routed {e : CallError} {events : List Event} (hc : d.command? name = some c)
    (he : e.Routed) (h : d.resolve name line = ⟨.error e, events⟩) :
    d.dispatch name line =
      ⟨(fallBack (d.effective c) e).result, events ++ (fallBack (d.effective c) e).events⟩ := by
  simp only [resolve, hc] at h
  simp only [dispatch, hc, h, isRouted_iff.2 he, if_true]

theorem command?_of_routed {e : CallError} {events : List Event} (he : e.Routed)
    (h : d.resolve name line = ⟨.error e, events⟩) : ∃ c, d.command? name = some c := by
  cases hc : d.command? name with
  | some c => exact ⟨c, rfl⟩
  | none =>
    simp only [resolve, hc] at h
    cases h
    cases he

theorem fallsBack_dispatch (d : Dispatcher) (name line : String) :
    d.FallsBack name (d.resolve name line) (d.dispatch name line) := by
  generalize ho : d.resolve name line = o
  obtain ⟨e | b, events⟩ := o
  swap
  · rw [dispatch_of_bound ho]
    exact .bound b events
  by_cases he : e.Routed
  swap
  · cases e with
    | unknownCommand command =>
      rw [dispatch_of_unknown ho]
      exact .unknown command events
    | noMatch command attempted => exact absurd (.noMatch command attempted) he
    | validation command argument reason => exact absurd (.validation command argument reason) he
  obtain ⟨c, hc⟩ := command?_of_routed he ho
  rw [dispatch_of_routed hc he ho]
  cases hmode : (d.effective c).fallback with
  | raise =>
    simp only [fallBack, hmode, List.append_nil]
    exact .raised events hc he (fallsBackTo_iff.2 hmode)
  | ignore =>
    simp only [fallBack, hmode, List.append_nil]
    exact .ignored events hc he (fallsBackTo_iff.2 hmode)
  | handle =>
    have hm := fallsBackTo_iff.2 hmode
    have hresolved : (d.effective c).resolvedHandler = (d.effective c).handler := if_pos hmode
    simp only [fallBack, hmode, hresolved]
    cases hh : (d.effective c).handler with
    | some handler => exact .handled events hc he hm (Settings.gives_iff.2 hh)
    | none =>
      rw [Option.map_none, Option.toList_none, List.append_nil]
      exact .unhandled events hc he hm (Settings.gives_iff.2 hh)

/-- The cases of `FallsBack` leave no other outcome. -/
theorem dispatch_of_fallsBack {outcome : Outcome (Option Binding)}
    (h : d.FallsBack name (d.resolve name line) outcome) : d.dispatch name line = outcome := by
  generalize ho : d.resolve name line = o at h
  cases h with
  | bound b events => exact dispatch_of_bound ho
  | unknown command events => exact dispatch_of_unknown ho
  | raised events hc he hm =>
    simp only [dispatch_of_routed hc he ho, fallBack, fallsBackTo_iff.1 hm, List.append_nil]
  | ignored events hc he hm =>
    simp only [dispatch_of_routed hc he ho, fallBack, fallsBackTo_iff.1 hm, List.append_nil]
  | @handled c e handler events hc he hm hh =>
    have hmode := fallsBackTo_iff.1 hm
    have hresolved : (d.effective c).resolvedHandler = some handler :=
      (if_pos hmode).trans (Settings.gives_iff.1 hh)
    simp only [dispatch_of_routed hc he ho, fallBack, hmode, hresolved]
    rfl
  | @unhandled c e events hc he hm hh =>
    have hmode := fallsBackTo_iff.1 hm
    have hresolved : (d.effective c).resolvedHandler = none :=
      (if_pos hmode).trans (Settings.gives_iff.1 hh)
    simp only [dispatch_of_routed hc he ho, fallBack, hmode, hresolved, Option.map_none,
      Option.toList_none, List.append_nil]

theorem FallsBack.result_eq_some_iff {o : Outcome Binding} {p : Outcome (Option Binding)}
    (h : d.FallsBack name o p) (b : Binding) : p.result = .ok (some b) ↔ o.result = .ok b := by
  cases h <;> simp

/-- Without fallback no handler is called. -/
theorem handlerCalls_resolve (d : Dispatcher) (name line : String) :
    (d.resolve name line).handlerCalls = [] := by
  rw [Outcome.handlerCalls, List.filterMap_eq_nil_iff]
  intro event hevent
  cases hc : d.command? name with
  | none => simp [resolve, hc] at hevent
  | some c =>
    simp only [resolve, hc, resolveWith] at hevent
    split at hevent
    · cases hevent
    · split at hevent
      all_goals
        obtain ⟨⟨argument, value⟩, -, rfl⟩ := List.mem_map.1 hevent
        rfl

/-! ## Raising -/

/-- The layer of settings that raises errors. -/
def raisingLayer (layer : Settings) : Settings := { layer with fallback := some .raise }

/-- The command with the fallback of its own layer, if it has one, replaced by raising. -/
def raisingCommand (c : Command) : Command := { c with settings := c.settings.map raisingLayer }

/-- The dispatcher with its global fallback and those of its commands replaced by raising. -/
def raising (d : Dispatcher) : Dispatcher where
  types := d.types
  settings := raisingLayer d.settings
  commands := d.commands.map fun (name, c) => (name, raisingCommand c)

theorem command?_raising (d : Dispatcher) (name : String) :
    d.raising.command? name = (d.command? name).map raisingCommand :=
  lookup_map_snd raisingCommand d.commands name

theorem effective_raising (d : Dispatcher) (c : Command) :
    (d.raising.effective (raisingCommand c)).fallback = .raise ∧
      (d.raising.effective (raisingCommand c)).CastAlike (d.effective c) := by
  obtain ⟨name, signatures, settings, metadata⟩ := c
  cases settings with
  | none => exact ⟨rfl, rfl, rfl, rfl⟩
  | some layer => exact ⟨rfl, rfl, rfl, rfl⟩

/-- Where errors are raised, fallback makes no difference. -/
theorem dispatch_of_raise (h : ∀ c, d.command? name = some c → (d.effective c).fallback = .raise) :
    d.dispatch name line = (d.resolve name line).map some := by
  have hmode : ∀ {c mode}, d.command? name = some c → d.FallsBackTo c mode → mode = .raise := by
    intro c mode hc hm
    rw [← fallsBackTo_iff.1 hm, h c hc]
  have hfalls := fallsBack_dispatch d name line
  generalize d.resolve name line = o, d.dispatch name line = p at hfalls
  cases hfalls with
  | bound | unknown | raised => rfl
  | ignored _ hc _ hm => cases hmode hc hm
  | handled _ hc _ hm => cases hmode hc hm
  | unhandled _ hc _ hm => cases hmode hc hm

theorem resolve_raising (d : Dispatcher) (name line : String) :
    d.raising.resolve name line = d.resolve name line := by
  rw [resolve, resolve, command?_raising]
  cases d.command? name with
  | none => rfl
  | some c =>
    have hwith := resolveWith_of_castAlike (effective_raising d c).2 d c line
    exact hwith

/-- **A call with fallback is the call without it, and then the fallback.** What it comes to are the cases
of `FallsBack` and nothing else. Without fallback no handler is called; a call is bound with fallback where
it is bound without; and where all fallbacks are replaced by raising, fallback makes no difference. -/
theorem dispatch_eq_iff_fallsBack (d : Dispatcher) (name line : String) :
    (∀ outcome, d.dispatch name line = outcome ↔ d.FallsBack name (d.resolve name line) outcome) ∧
      (d.resolve name line).handlerCalls = [] ∧
      (∀ b, (d.dispatch name line).result = .ok (some b) ↔ (d.resolve name line).result = .ok b) ∧
      d.raising.dispatch name line = (d.raising.resolve name line).map some ∧
      d.raising.resolve name line = d.resolve name line := by
  have hfalls := fallsBack_dispatch d name line
  refine ⟨fun outcome => ⟨?_, dispatch_of_fallsBack⟩, handlerCalls_resolve d name line,
    hfalls.result_eq_some_iff, dispatch_of_raise ?_, resolve_raising d name line⟩
  · rintro rfl
    exact hfalls
  · intro c hc
    rw [command?_raising] at hc
    obtain ⟨c, -, rfl⟩ := Option.map_eq_some_iff.1 hc
    exact (effective_raising d c).1

end Dispatcher

end Invocation
