/-
  Searches with guarded accesses.

  Here every access by an index may fail. Tokens are taken from the cursor on,
  arguments and children of a group are looked up by their indices, and a list
  of fixed length takes its type from its first item. The texts of keywords
  stand in a table that is filled as keywords are resolved. In each state that
  the walk comes to, trials included, the cursor is checked against the tokens.

  * `item`, `itemsFrom`: the guarded accesses;
  * `KeywordTable.Holds`: no argument stands in the table of keywords without a
    text, and none twice; `KeywordTable.exists_resolve`: keywords are resolved to
    such a table;
  * `Guarded.node`, `Guarded.solve?`, `Guarded.named`: the walk, the search and
    the naming of what it binds, with guarded accesses;
  * `Guarded.Agrees`: from a state in bounds, a guarded step does what a step
    does, and comes only to states in bounds. `agrees_node`: the walks agree;
  * `Dispatcher.guarded_eq_ok`: for signatures of a dispatcher no access fails.
-/
import Invocation.Proofs.Dispatcher.Keywords
import Invocation.Proofs.Dispatcher.Reachable
import Invocation.Proofs.Matching.Tokens
import Invocation.Proofs.Signature.Shape

namespace Invocation

open Invocation.Matching

/-! ## Accesses -/

/-- An access out of bounds: the index, and the number of items. -/
structure OutOfBounds where
  index : Nat
  count : Nat

/-- The item at an index. -/
def item {α : Type} (items : List α) (index : Nat) : Except OutOfBounds α :=
  match items[index]? with
  | some x => .ok x
  | none => .error ⟨index, items.length⟩

/-- The items from an index on, which may be the end of the list. -/
def itemsFrom {α : Type} (items : List α) (index : Nat) : Except OutOfBounds (List α) :=
  if index ≤ items.length then .ok (items.drop index) else .error ⟨index, items.length⟩

theorem item_eq_pure {α : Type} {items : List α} {index : Nat} {x : α} (h : items[index]? = some x) :
    item items index = pure x := by
  rw [item, h]
  rfl

theorem itemsFrom_eq_pure {α : Type} {items : List α} {index : Nat} (h : index ≤ items.length) :
    itemsFrom items index = pure (items.drop index) := if_pos h

theorem mapM_eq_pure {α β ε : Type} {f : α → Except ε β} {g : α → Option β} {xs : List α}
    (h : ∀ x ∈ xs, ∃ y, g x = some y ∧ f x = pure y) : xs.mapM f = pure (xs.filterMap g) := by
  induction xs with
  | nil => rfl
  | cons x xs ih =>
    obtain ⟨y, hg, hf⟩ := h x List.mem_cons_self
    rw [List.mapM_cons, hf, pure_bind, ih fun z hz => h z (List.mem_cons_of_mem x hz), pure_bind,
      List.filterMap_cons_some hg]

/-! ## Keywords -/

/-- The texts of keywords under the indices of their arguments. -/
abbrev KeywordEntries := List (Nat × List (Option String))

/-- Adds a text to the entry of an argument, and makes the entry if there is none. -/
def KeywordEntries.push (index : Nat) (text : Option String) : KeywordEntries → KeywordEntries
  | [] => [(index, [text])]
  | (i, texts) :: rest =>
    if i = index then (i, texts ++ [text]) :: rest else (i, texts) :: push index text rest

/-- The keywords of an input, and the names that stand for no keyword argument. -/
structure KeywordTable where
  entries : KeywordEntries := []
  stray : List String := []

namespace KeywordTable

/-- Adds a keyword. -/
def add (s : Signature) (table : KeywordTable) (keyword : String × Option String) :
    Except OutOfBounds KeywordTable :=
  match s.resolve? keyword.1 with
  | none => pure { table with stray := table.stray ++ [keyword.1] }
  | some index => do
    let argument ← item s.arguments index
    if argument.kind = .keyword then
      pure { table with entries := table.entries.push index keyword.2 }
    else pure { table with stray := table.stray ++ [keyword.1] }

/-- The table of the keywords of an input. -/
def resolve (s : Signature) (keywords : List (String × Option String)) :
    Except OutOfBounds KeywordTable :=
  keywords.foldlM (add s) {}

/-- The texts of an argument that is present. -/
def texts? (table : KeywordTable) (index : Nat) : Option (List (Option String)) :=
  table.entries.lookup index

end KeywordTable

theorem KeywordEntries.lookup_push (index : Nat) (text : Option String) (entries : KeywordEntries) (i : Nat) :
    (entries.push index text).lookup i =
      if i = index then some ((entries.lookup index).getD [] ++ [text]) else entries.lookup i := by
  induction entries with
  | nil =>
    by_cases h : i = index
    · simp [push, h]
    · simp [push, List.lookup_cons, h, beq_false_of_ne h]
  | cons entry rest ih =>
    obtain ⟨j, texts⟩ := entry
    rw [push]
    by_cases hj : j = index
    · subst hj
      by_cases h : i = j
      · simp [h]
      · simp [List.lookup_cons, h, beq_false_of_ne h]
    · by_cases h : i = j
      · subst h
        simp [hj]
      · have hne : (index == j) = false := beq_false_of_ne (Ne.symm hj)
        simp [hj, List.lookup_cons, beq_false_of_ne h, hne, ih]

theorem KeywordEntries.nodup_push (index : Nat) (text : Option String) {entries : KeywordEntries}
    (h : (entries.map Prod.fst).Nodup) : ((entries.push index text).map Prod.fst).Nodup := by
  have hkeys : ∀ entries : KeywordEntries, (entries.push index text).map Prod.fst =
      if index ∈ entries.map Prod.fst then entries.map Prod.fst else entries.map Prod.fst ++ [index] := by
    intro entries
    induction entries with
    | nil => rfl
    | cons entry rest ih =>
      obtain ⟨j, texts⟩ := entry
      rw [push]
      by_cases hj : j = index
      · simp [hj]
      · have hne : index ≠ j := Ne.symm hj
        rw [if_neg hj, List.map_cons, ih]
        by_cases hmem : index ∈ rest.map Prod.fst
        · simp [hne, hmem]
        · simp [hne, hmem]
  rw [hkeys]
  split
  · exact h
  · next hnew => exact List.concat_eq_append ▸ h.concat hnew

namespace KeywordTable

/-- A table of keywords. An argument stands in it if it has a text, with all its texts, and once. -/
structure Holds (table : KeywordTable) (k : Keywords) : Prop where
  stray : table.stray = k.stray
  texts : ∀ i, table.texts? i = if k.occurrences i = [] then none else some (k.occurrences i)
  nodup : (table.entries.map Prod.fst).Nodup

theorem holds_nil : Holds {} {} := ⟨rfl, fun _ => rfl, List.nodup_nil⟩

theorem Holds.push {table : KeywordTable} {k : Keywords} (h : table.Holds k) (index : Nat)
    (text : Option String) :
    Holds { table with entries := table.entries.push index text }
      { k with found := k.found ++ [(index, text)] } where
  stray := h.stray
  nodup := KeywordEntries.nodup_push index text h.nodup
  texts := by
    intro i
    have hconcat : Keywords.occurrences { k with found := k.found ++ [(index, text)] } i =
        k.occurrences i ++ if index = i then [text] else [] := by
      by_cases hi : index = i
      · simp [Keywords.occurrences, hi]
      · simp [Keywords.occurrences, hi]
    have hindex : (table.entries.lookup index).getD [] = k.occurrences index := by
      have htexts := h.texts index
      rw [texts?] at htexts
      rw [htexts]
      split
      · next hnil => rw [hnil, Option.getD_none]
      · rfl
    rw [hconcat, texts?, KeywordEntries.lookup_push]
    by_cases hi : i = index
    · subst hi
      simp [hindex]
    · have hne : index ≠ i := Ne.symm hi
      have htexts := h.texts i
      rw [texts?] at htexts
      simp [hi, hne, htexts]

theorem Holds.stray_concat {table : KeywordTable} {k : Keywords} (h : table.Holds k) (name : String) :
    Holds { table with stray := table.stray ++ [name] } { k with stray := k.stray ++ [name] } :=
  ⟨by rw [h.stray], h.texts, h.nodup⟩

/-- Adding a keyword looks up an argument only if its name resolves. -/
theorem add_eq_pure {s : Signature}
    (hbounds : ∀ name i, s.resolve? name = some i → i < s.arguments.length) (table : KeywordTable)
    (name : String) (text : Option String) :
    add s table (name, text) = pure
      (match s.keywordIndex? name with
      | some index => { table with entries := table.entries.push index text }
      | none => { table with stray := table.stray ++ [name] }) := by
  rw [add, Signature.keywordIndex?]
  cases hindex : s.resolve? name with
  | none => rfl
  | some index =>
    obtain ⟨a, ha⟩ : ∃ a, s.arguments[index]? = some a :=
      ⟨_, List.getElem?_eq_getElem (hbounds name index hindex)⟩
    simp only [item_eq_pure ha, pure_bind, Option.filter_some, ha, Option.any_some]
    by_cases hkind : a.kind = .keyword
    · simp [hkind]
    · simp [hkind]

theorem resolve_concat (s : Signature) (keywords : List (String × Option String)) (name : String)
    (text : Option String) :
    Keywords.resolve s (keywords ++ [(name, text)]) =
      match s.keywordIndex? name with
      | some index =>
        { Keywords.resolve s keywords with
          found := (Keywords.resolve s keywords).found ++ [(index, text)] }
      | none =>
        { Keywords.resolve s keywords with stray := (Keywords.resolve s keywords).stray ++ [name] } := by
  cases hindex : s.keywordIndex? name with
  | none => simp [Keywords.resolve, hindex]
  | some index => simp [Keywords.resolve, hindex]

/-- Keywords are resolved without an access out of bounds, to a table of them. -/
theorem exists_resolve {s : Signature}
    (hbounds : ∀ name i, s.resolve? name = some i → i < s.arguments.length)
    (keywords : List (String × Option String)) :
    ∃ table, resolve s keywords = pure table ∧ table.Holds (Keywords.resolve s keywords) := by
  induction keywords using List.reverseRecOn with
  | nil => exact ⟨{}, rfl, holds_nil⟩
  | append_singleton keywords keyword ih =>
    obtain ⟨table, htable, hholds⟩ := ih
    obtain ⟨name, text⟩ := keyword
    rw [resolve] at htable
    rw [resolve, List.foldlM_append, htable, pure_bind, List.foldlM_cons, add_eq_pure hbounds, pure_bind,
      resolve_concat]
    refine ⟨_, rfl, ?_⟩
    cases s.keywordIndex? name with
    | none => exact hholds.stray_concat name
    | some index => exact hholds.push index text

/-- The entries are those of the arguments that are present. -/
theorem Holds.length_entries {table : KeywordTable} {k : Keywords} (h : table.Holds k) {count : Nat}
    (hlt : ∀ i, k.occurrences i ≠ [] → i < count) :
    table.entries.length = (k.present count).length := by
  have hkeys : ∀ i, i ∈ table.entries.map Prod.fst ↔ (table.texts? i).isSome = true := by
    intro i
    rw [texts?, List.lookup_isSome_iff, List.mem_map]
    simp only [beq_iff_eq, eq_comm (a := i)]
  have hmem : ∀ i, i ∈ table.entries.map Prod.fst ↔ i ∈ k.present count := by
    intro i
    rw [hkeys, h.texts, Keywords.mem_present]
    by_cases hnil : k.occurrences i = []
    · simp [hnil]
    · simp [hnil, hlt i hnil]
  have hperm : (table.entries.map Prod.fst).Perm (k.present count) :=
    (List.perm_ext_iff_of_nodup h.nodup (List.nodup_range.filter _)).2 hmem
  rw [← hperm.length_eq, List.length_map]

end KeywordTable

/-! ## The walk -/

/-- An attempt at a match, in which an access may fail. -/
abbrev Attempt := StateT Bool (Except OutOfBounds) (Option Progress)

/-- A step that accesses what it needs by indices. -/
abbrev GuardedStep := Progress → Bool → (Progress → Attempt) → Attempt

namespace Guarded

section
variable (s : Search) (table : KeywordTable)

/-- Comes to a state: its cursor must be in bounds. -/
def reach (p : Progress) : Except OutOfBounds Unit := do
  let _ ← itemsFrom s.positional p.cursor

/-- The value of a positional argument and the number of its tokens. -/
def positionalValue (type : ArgumentType) (shape : Shape) (cursor : Nat) :
    Except OutOfBounds (Option (Option Value × Nat)) := do
  let rest ← itemsFrom s.positional cursor
  match shape with
  | .scalar => pure do
    let token ← rest.head?
    let value ← s.cast type token
    some (some value, 1)
  | .fixed count =>
    if rest.length < count then pure none
    else
      let tokens := rest.take count
      let first ← item tokens 0
      pure ((s.castAll (s.itemType type (some first)) tokens).map fun values =>
        (some (.list values), count))
  | .greedy =>
    let values := s.castWhile type rest
    pure (some (if values.isEmpty then (none, 0) else (some (.list values), values.length)))

/-- The value of the keyword argument at an index. -/
def keywordValue (type : ArgumentType) (shape : Shape) (index : Nat) :
    Except OutOfBounds (Option Value) :=
  match table.texts? index with
  | none => pure none
  | some texts =>
    match shape with
    | .scalar =>
      match texts with
      | [single] => pure (s.keywordCast type single)
      | _ => pure none
    | .fixed count =>
      if texts.length ≠ count then pure none
      else do
        let first ← item texts 0
        pure ((s.keywordCastAll (s.itemType type first) texts).map .list)
    | .greedy => pure ((s.keywordCastAll type texts).map .list)

/-- Binds the argument at an index. -/
def bindArgument (index : Nat) (p : Progress) (optional : Bool) :
    Except OutOfBounds (Option (Progress × Bool)) := do
  let argument ← item s.signature.arguments index
  match argument.kind with
  | .positional =>
    match ← positionalValue s argument.type argument.shape p.cursor with
    | none => pure none
    | some (value?, used) =>
      let p := { p with cursor := p.cursor + used }
      match value? with
      | some value => pure (some ({ p with values := p.values ++ [(index, value)] }, true))
      | none => pure (if optional then some (p, false) else none)
  | .keyword =>
    match ← keywordValue s table argument.type argument.shape index with
    | none => pure none
    | some value =>
      pure (some ({ p with values := p.values ++ [(index, value)], keywords := p.keywords + 1 }, true))

/-- A leaf; the mark is set if it binds a value. -/
def leaf (index : Nat) : GuardedStep := fun p optional next => do
  match ← bindArgument s table index p optional with
  | none => pure none
  | some (p, bound) =>
    if bound then set true
    next p

/-- All steps in order. -/
def sequence : List GuardedStep → GuardedStep
  | [] => fun p _ next => next p
  | step :: rest => fun p optional next => step p optional fun p => sequence rest p optional next

/-- The first step that leads to a match. -/
def first : List GuardedStep → GuardedStep
  | [] => fun _ _ _ => pure none
  | step :: rest => fun p optional next => do
    match ← step p optional next with
    | some result => pure (some result)
    | none => first rest p optional next

/-- The children at the indices of a choice, in order. -/
def chosen (children : List GuardedStep) (indices : List Nat) : GuardedStep := fun p optional next => do
  let steps ← (indices.mapM (item children) : Except OutOfBounds (List GuardedStep))
  sequence steps p optional next

/-- The body of a group. -/
def body (combinator : Combinator) (children : List GuardedStep) : GuardedStep :=
  match combinator with
  | .and => sequence children
  | .or => first ((subsets children.length).map (chosen children))
  | .xor => first children

/-- Whether a leaf binds a value when the step is tried on its own. -/
def begins (step : GuardedStep) (p : Progress) : StateT Bool (Except OutOfBounds) Bool := do
  let outer ← get
  set false
  let _ ← step p true fun p => do
    reach s p
    pure (some p)
  let began ← get
  set (outer || began)
  pure began

/-- A group: an optional one is passed over unless it begins. -/
def group (combinator : Combinator) (required : Bool) (children : List GuardedStep) : GuardedStep :=
  fun p optional next =>
    if required then body combinator children p optional next
    else do
      if ← begins s (body combinator children) p then body combinator children p true next
      else next p

/-- A step from a state that is come to. -/
def reaching (step : GuardedStep) : GuardedStep := fun p optional next => do
  reach s p
  step p optional next

mutual

/-- The walk over a node. -/
def node : Node → GuardedStep
  | .leaf index => reaching s (leaf s table index)
  | .group combinator required children => reaching s (group s combinator required (nodes children))

/-- The walks over nodes. -/
def nodes : List Node → List GuardedStep
  | [] => []
  | n :: rest => node n :: nodes rest

end

/-- The end of a match: all tokens are taken, and all keywords in the table are bound. -/
def finish (p : Progress) : Attempt := do
  reach s p
  pure (if p.cursor == s.positional.length && p.keywords == table.entries.length then some p else none)

/-- The first full match of an input without stray keywords. Keywords are looked up in the table only. -/
def firstMatch? : Except OutOfBounds (Option (List (Nat × Value))) := do
  let (result, _) ← (node s table s.signature.root.toNode {} false (finish s table)).run false
  pure (result.map Progress.values)

end

/-- The first full match. An input with a stray keyword has none. -/
def solve? (signature : Signature) (input : Input) (types : TypeRegistry) (settings : EffectiveSettings) :
    Except OutOfBounds (Option (List (Nat × Value))) := do
  let table ← KeywordTable.resolve signature input.keywords
  if table.stray.isEmpty then firstMatch? (Search.of signature input types settings) table else pure none

/-- Values by the names of the arguments of a signature. -/
def named (s : Signature) (values : List (Nat × Value)) : Except OutOfBounds (List (String × Value)) := do
  let pairs ← values.mapM fun (index, value) => do
    let argument ← item s.arguments index
    pure (argument.name, value)
  pure (keyTable pairs)

/-! ## Steps that agree -/

/-- A computation without accesses. -/
def lift {α : Type} (x : StateM Bool α) : StateT Bool (Except OutOfBounds) α :=
  fun mark => .ok (x.run mark)

theorem lift_bind {α β : Type} (x : StateM Bool α) (f : α → StateM Bool β) :
    lift (x >>= f) = lift x >>= fun a => lift (f a) := rfl

/-- A state whose cursor is in bounds. -/
def InBounds (s : Search) (p : Progress) : Prop := p.cursor ≤ s.positional.length

theorem reach_bind {α : Type} {s : Search} {p : Progress} (hp : InBounds s p)
    (x : StateT Bool (Except OutOfBounds) α) : (do reach s p; x) = x := by
  rw [reach, itemsFrom_eq_pure hp]
  rfl

/-- From every state in bounds a guarded step does what a step does, if in every state in bounds what
comes after the one does what comes after the other. -/
def Agrees (s : Search) (step : GuardedStep) (step' : Step) : Prop :=
  ∀ p optional next next', InBounds s p → (∀ q, InBounds s q → next q = lift (next' q)) →
    step p optional next = lift (step' p optional next')

theorem agrees_reaching {s : Search} {step : GuardedStep} {step' : Step} (h : Agrees s step step') :
    Agrees s (reaching s step) step' := by
  intro p o next next' hp hnext
  rw [reaching, reach_bind hp]
  exact h p o next next' hp hnext

section
variable {s : Search} {α : Type} {f : α → GuardedStep} {g : α → Step} {xs : List α}

theorem agrees_sequence (h : ∀ x ∈ xs, Agrees s (f x) (g x)) :
    Agrees s (sequence (xs.map f)) (Step.sequence (xs.map g)) := by
  induction xs with
  | nil => exact fun p _ _ _ hp hnext => hnext p hp
  | cons x xs ih =>
    intro p o next next' hp hnext
    -- the other steps are what comes after the first: they agree from the states it comes to
    exact h x List.mem_cons_self p o _ _ hp fun q hq =>
      ih (fun y hy => h y (List.mem_cons_of_mem x hy)) q o next next' hq hnext

theorem agrees_first (h : ∀ x ∈ xs, Agrees s (f x) (g x)) :
    Agrees s (first (xs.map f)) (Step.first (xs.map g)) := by
  induction xs with
  | nil => exact fun _ _ _ _ _ _ => rfl
  | cons x xs ih =>
    intro p o next next' hp hnext
    simp only [List.map_cons, first, Step.first, lift_bind, h x List.mem_cons_self p o next next' hp hnext]
    refine bind_congr fun result => ?_
    cases result with
    | some result => rfl
    | none => exact ih (fun y hy => h y (List.mem_cons_of_mem x hy)) p o next next' hp hnext

theorem filterMap_getElem?_map {β γ : Type} (h : β → γ) (items : List β) (indices : List Nat) :
    indices.filterMap ((items.map h)[·]?) = (indices.filterMap (items[·]?)).map h := by
  simp only [List.getElem?_map, List.map_filterMap]

theorem agrees_chosen (h : ∀ x ∈ xs, Agrees s (f x) (g x)) {indices : List Nat}
    (hindices : indices ∈ subsets xs.length) :
    Agrees s (chosen (xs.map f) indices) (Step.sequence (indices.filterMap ((xs.map g)[·]?))) := by
  have hitems : indices.mapM (item (xs.map f)) = pure (indices.filterMap ((xs.map f)[·]?)) := by
    refine mapM_eq_pure fun i hi => ?_
    have hlt : i < (xs.map f).length := by
      rw [List.length_map]
      exact List.mem_range.1 ((mem_choices.1 hindices).1.subset hi)
    exact ⟨_, List.getElem?_eq_getElem hlt, item_eq_pure (List.getElem?_eq_getElem hlt)⟩
  have hchosen : Agrees s (sequence ((indices.filterMap (xs[·]?)).map f))
      (Step.sequence ((indices.filterMap (xs[·]?)).map g)) := by
    refine agrees_sequence fun x hx => h x ?_
    obtain ⟨i, -, hi⟩ := List.mem_filterMap.1 hx
    exact List.mem_of_getElem? hi
  rw [← filterMap_getElem?_map, ← filterMap_getElem?_map] at hchosen
  intro p o next next' hp hnext
  rw [chosen, hitems]
  exact hchosen p o next next' hp hnext

theorem agrees_body (c : Combinator) (h : ∀ x ∈ xs, Agrees s (f x) (g x)) :
    Agrees s (body c (xs.map f)) (Step.body c (xs.map g)) := by
  cases c with
  | and => exact agrees_sequence h
  | xor => exact agrees_first h
  | or =>
    rw [body, Step.body, List.length_map, List.length_map]
    exact agrees_first fun indices hindices => agrees_chosen h hindices

/-- A trial in bounds has the same outcome. -/
theorem begins_eq_lift {step : GuardedStep} {step' : Step} (h : Agrees s step step') {p : Progress}
    (hp : InBounds s p) : begins s step p = lift (Step.begins step' p) := by
  -- in a trial nothing comes after the step, but for the check of the state at its end
  have htrial := h p true (fun p => do reach s p; pure (some p)) (fun p => pure (some p)) hp
    fun q hq => reach_bind hq _
  rw [begins, htrial]
  rfl

theorem agrees_group (c : Combinator) (required : Bool) (h : ∀ x ∈ xs, Agrees s (f x) (g x)) :
    Agrees s (group s c required (xs.map f)) (Step.group c required (xs.map g)) := by
  have hbody := agrees_body c h
  intro p o next next' hp hnext
  cases required with
  | true => exact hbody p o next next' hp hnext
  | false =>
    simp only [group, Step.group, Bool.false_eq_true, if_false, begins_eq_lift hbody hp, lift_bind]
    refine bind_congr fun began => ?_
    cases began with
    | true => exact hbody p true next next' hp hnext
    | false => exact hnext p hp

end

/-! ## Values -/

section
variable {s : Search} {type : ArgumentType} {shape : Shape}

/-- A list of fixed length has a first token. -/
theorem positionalValue_eq_pure {cursor : Nat} (hcursor : cursor ≤ s.positional.length)
    (hsize : ∀ count, shape = .fixed count → 1 ≤ count) :
    positionalValue s type shape cursor = pure (s.positionalValue type shape cursor) := by
  rw [positionalValue, itemsFrom_eq_pure hcursor, pure_bind]
  unfold Search.positionalValue
  generalize s.positional.drop cursor = rest
  cases shape with
  | scalar => rfl
  | fixed count =>
    have hpos : 1 ≤ count := hsize count rfl
    by_cases hfew : rest.length < count
    · simp only [if_pos hfew]
    · cases rest with
      -- a size of 0 would come here, and access the first of no tokens
      | nil => exact absurd hpos hfew
      | cons token rest =>
        have hfirst : item ((token :: rest).take count) 0 = pure token :=
          item_eq_pure (by rw [List.getElem?_take_of_lt hpos]; rfl)
        simp only [if_neg hfew, hfirst, pure_bind, List.head?_cons]
  | greedy =>
    cases hvalues : s.castWhile type rest with
    | nil => simp [hvalues]
    | cons value values => simp [hvalues]

/-- An argument in the table has a first text. -/
theorem keywordValue_eq_pure {table : KeywordTable} (htable : table.Holds s.keywords) (index : Nat) :
    keywordValue s table type shape index =
      pure (s.keywordValue type shape (s.keywords.occurrences index)) := by
  rw [keywordValue, htable.texts]
  cases hoccurrences : s.keywords.occurrences index with
  | nil => rfl
  | cons first rest =>
    have hfirst : item (first :: rest) 0 = pure first := item_eq_pure rfl
    simp only [List.cons_ne_nil, if_false]
    unfold Search.keywordValue
    cases shape with
    | scalar => cases rest <;> rfl
    | fixed count =>
      simp only [hfirst, pure_bind, ne_eq, ite_not]
      split <;> rfl
    | greedy => rfl

end

/-! ## The walk in bounds -/

section
variable {s : Search} {table : KeywordTable}

/-- What a search in bounds rests on. -/
structure Ready (s : Search) (table : KeywordTable) : Prop where
  sizes : ∀ a ∈ s.signature.arguments, ∀ count, a.shape = .fixed count → 1 ≤ count
  leaves : ∀ i ∈ s.signature.root.toNode.leaves, i < s.signature.arguments.length
  occurring : ∀ i, s.keywords.occurrences i ≠ [] → i < s.signature.arguments.length
  table : table.Holds s.keywords

theorem bindArgument_eq_pure (h : Ready s table) {index : Nat} (hindex : index < s.signature.arguments.length)
    {p : Progress} (hp : InBounds s p) (optional : Bool) :
    bindArgument s table index p optional = pure (s.leaf index p optional) := by
  have hargument := List.getElem?_eq_getElem hindex
  have hmem := List.getElem_mem hindex
  generalize s.signature.arguments[index] = a at hargument hmem
  rw [bindArgument, Search.leaf, item_eq_pure hargument, hargument, pure_bind]
  cases hkind : a.kind with
  | positional =>
    simp only [hkind, positionalValue_eq_pure hp (h.sizes a hmem), pure_bind, Option.bind_eq_bind,
      Option.bind_some]
    rcases s.positionalValue a.type a.shape p.cursor with _ | ⟨_ | value, used⟩ <;> rfl
  | keyword =>
    simp only [hkind, keywordValue_eq_pure h.table, pure_bind, Option.bind_eq_bind, Option.bind_some]
    rcases s.keywordValue a.type a.shape (s.keywords.occurrences index) with _ | value <;> rfl

theorem inBounds_of_leaf {index : Nat} {p q : Progress} {optional bound : Bool} (hp : InBounds s p)
    (h : s.leaf index p optional = some (q, bound)) : InBounds s q := by
  cases s.leafStep_of_leaf h with
  | absent => exact hp
  | keyword => exact hp
  | @positional a value used _ _ _ hu _ =>
    have hle : p.cursor ≤ s.positional.length := hp
    have hsum : p.cursor + used ≤ s.positional.length := by
      rw [List.length_drop] at hu
      omega
    exact hsum

theorem agrees_leaf (h : Ready s table) {index : Nat} (hindex : index < s.signature.arguments.length) :
    Agrees s (leaf s table index) (Step.leaf s index) := by
  intro p o next next' hp hnext
  rw [leaf, bindArgument_eq_pure h hindex hp, Step.leaf]
  rcases hleaf : s.leaf index p o with _ | ⟨q, bound⟩
  · rfl
  · have hq := hnext q (inBounds_of_leaf hp hleaf)
    cases bound with
    | true => exact congrArg (fun rest => (do set true; rest : Attempt)) hq
    | false => exact hq

theorem nodes_eq_map (ns : List Node) : nodes s table ns = ns.map (node s table) := by
  induction ns with
  | nil => rfl
  | cons n ns ih => rw [nodes, ih, List.map_cons]

theorem agrees_node (h : Ready s table) {n : Node}
    (hn : ∀ i ∈ n.leaves, i < s.signature.arguments.length) : Agrees s (node s table n) (s.node n) := by
  induction n using Node.treeInduction with
  | leaf i =>
    rw [node, Search.node]
    exact agrees_reaching (agrees_leaf h (hn i (List.mem_singleton_self i)))
  | group c required ns ih =>
    rw [node, Search.node, nodes_eq_map, Search.nodes_eq_map]
    refine agrees_reaching (agrees_group c required fun n hmem => ih n hmem fun i hi => ?_)
    exact hn i (Node.mem_childLeaves.2 ⟨n, hmem, hi⟩)

theorem finish_eq_lift (h : Ready s table) {p : Progress} (hp : InBounds s p) :
    finish s table p = lift (s.finish p) := by
  rw [finish, reach_bind hp, h.table.length_entries h.occurring]
  rfl

theorem firstMatch?_eq_pure (h : Ready s table) :
    firstMatch? s table =
      pure (((s.node s.signature.root.toNode {} false s.finish).run false).1.map Progress.values) := by
  have hwalk := agrees_node h h.leaves {} false _ _ (Nat.zero_le _) fun _ hq => finish_eq_lift h hq
  rw [firstMatch?, hwalk]
  rfl

end

/-! ## Searches in bounds -/

section
variable {signature : Signature}

theorem ready_of_compiled (hs : signature.Compiled) (input : Input) (types : TypeRegistry)
    (settings : EffectiveSettings) {table : KeywordTable}
    (h : table.Holds (Keywords.resolve signature input.keywords)) :
    Ready (Search.of signature input types settings) table where
  sizes := fun _ ha _ => hs.one_le_size ha
  leaves := fun _ hi => List.mem_range.1 (hs.leaves_root ▸ hi)
  occurring := fun _ hi =>
    Nat.lt_of_not_le fun hle => hi (Keywords.occurrences_resolve_of_length_le hle)
  table := h

/-- The guarded search of a compiled signature does what the search does. -/
theorem solve?_eq_ok (hs : signature.Compiled) (input : Input) (types : TypeRegistry)
    (settings : EffectiveSettings) :
    solve? signature input types settings = .ok (Search.of signature input types settings).solve? := by
  have hbounds : ∀ name i, signature.resolve? name = some i → i < signature.arguments.length :=
    fun _ _ => hs.lt_of_resolve?
  obtain ⟨table, htable, hholds⟩ := KeywordTable.exists_resolve hbounds input.keywords
  have hready := ready_of_compiled hs input types settings hholds
  rw [solve?, htable, pure_bind, hholds.stray, firstMatch?_eq_pure hready]
  exact (apply_ite Except.ok _ _ _).symm

theorem named_eq_ok {values : List (Nat × Value)}
    (h : ∀ bound ∈ values, bound.1 < signature.arguments.length) :
    named signature values = .ok (Binding.named signature values) := by
  have hpairs : (values.mapM fun (index, value) => do
        let argument ← item signature.arguments index
        pure (argument.name, value)) =
      (pure (values.filterMap fun (index, value) => some (signature.nameAt index, value)) :
        Except OutOfBounds _) := by
    refine mapM_eq_pure fun (index, value) hmem => ?_
    have hargument := List.getElem?_eq_getElem (h _ hmem)
    refine ⟨_, rfl, ?_⟩
    simp only [item_eq_pure hargument, pure_bind, Signature.nameAt, hargument, Option.elim_some]
  rw [named, hpairs, pure_bind, Binding.named, List.filterMap_eq_map']
  rfl

end

end Guarded

/-- **No access is out of bounds.** Under every signature of a dispatcher that can come about, every input
is resolved and searched, and what the search binds is named, with all accesses in bounds: in every state
that the walk comes to, trials included, the cursor is at most the number of positional tokens, each leaf
has an argument, and the first items of lists of fixed length exist. The guarded search has the same
result as the search. -/
theorem Dispatcher.guarded_eq_ok {d : Dispatcher} (hd : d.Reachable) {name : String} {c : Command}
    (hc : d.command? name = some c) {signature : Signature} (hs : signature ∈ c.signatures)
    (input : Input) (types : TypeRegistry) (settings : EffectiveSettings) :
    Guarded.solve? signature input types settings =
        .ok (Search.of signature input types settings).solve? ∧
      ∀ values, (Search.of signature input types settings).solve? = some values →
        Guarded.named signature values = .ok (Binding.named signature values) := by
  have hcompiled := (hd.sound name c hc).compiled signature hs
  refine ⟨Guarded.solve?_eq_ok hcompiled input types settings, fun values hvalues => ?_⟩
  refine Guarded.named_eq_ok fun bound hmem => ?_
  have horder := (Search.exhausts_of_solve? hcompiled hvalues).order
  exact List.mem_range.1 (horder.subset (List.mem_map_of_mem hmem))

/-- A command with a list of the largest size, a pair, and a keyword that is given twice. -/
def pairDeclaration : Declaration where
  name := "plot"
  sources := ["[(int[18446744073709551615]) all] (int[2]) pair [(str[2]) --tag]"]
  metadata := Metadata.addAlias {} "tag" "t"

set_option maxRecDepth 2000 in
theorem Dispatcher.guarded_eq_ok_of_pair :
    ∃ d c signature, register {} pairDeclaration = .ok d ∧ d.Reachable ∧ d.command? "plot" = some c ∧
      signature ∈ c.signatures ∧
      Guarded.solve? signature (Input.ofLine "1 2 --t=a --tag=b") {} {} =
        .ok (some [(1, .list [.int 1, .int 2]), (2, .list [.str "a", .str "b"])]) ∧
      Guarded.named signature [(1, .list [.int 1, .int 2]), (2, .list [.str "a", .str "b"])] =
        .ok [("pair", .list [.int 1, .int 2]), ("tag", .list [.str "a", .str "b"])] := by
  let arguments : List Argument :=
    [{ name := "all", kind := .positional, type := .native .int, shape := .fixed 18446744073709551615 },
      { name := "pair", kind := .positional, type := .native .int, shape := .fixed 2 },
      { name := "tag", kind := .keyword, type := .native .str, shape := .fixed 2, aliases := ["t"] }]
  let signature : Signature :=
    { source := "[(int[18446744073709551615]) all] (int[2]) pair [(str[2]) --tag]"
      root := ⟨[.group .and false [.leaf 0], .leaf 1, .group .and false [.leaf 2]], .and, true⟩
      arguments
      lookup := nameTable arguments ++ [("t", 2)] }
  let c : Command := ⟨"plot", [signature], none, pairDeclaration.metadata⟩
  have hregister : register {} pairDeclaration = .ok { commands := [("plot", c)] } := by cbv
  have hline : Input.ofLine "1 2 --t=a --tag=b" =
      ⟨["1", "2"], [("t", some "a"), ("tag", some "b")]⟩ := by cbv
  have hreachable : Reachable { commands := [("plot", c)] } := .command .empty hregister
  have hsolve : (Search.of signature (Input.ofLine "1 2 --t=a --tag=b") {} {}).solve? =
      some [(1, .list [.int 1, .int 2]), (2, .list [.str "a", .str "b"])] := by
    rw [hline]
    rfl
  have hnames : Binding.named signature [(1, .list [.int 1, .int 2]), (2, .list [.str "a", .str "b"])] =
      [("pair", .list [.int 1, .int 2]), ("tag", .list [.str "a", .str "b"])] := by cbv
  have hcommand : command? { commands := [("plot", c)] } "plot" = some c := rfl
  have hmem : signature ∈ c.signatures := List.mem_singleton_self signature
  obtain ⟨hguarded, hnamed⟩ :=
    guarded_eq_ok hreachable hcommand hmem (Input.ofLine "1 2 --t=a --tag=b") {} {}
  refine ⟨_, c, signature, hregister, hreachable, hcommand, hmem, ?_, ?_⟩
  · rw [hguarded, hsolve]
  · rw [hnamed _ hsolve, hnames]

end Invocation
