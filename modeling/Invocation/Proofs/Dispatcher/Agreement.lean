/-
  What a search depends on.

  A search asks for the registered types and the settings only in order to
  cast tokens: to the types of its arguments, and to the type of the items of
  a list.

  * `Search.CastsTo`: the types to which a search casts;
  * `Search.Agree`: two searches of one signature that cast alike to these
    types, and find the same tokens and keywords; `Search.solve?_of_agree`:
    they have the same result; `Search.leaf_congr_of_form`: what binding one
    argument depends on, whatever the rest of the signature is;
  * `EffectiveSettings.CastAlike`: two settings with the same words and the
    same order of types, whatever the fallback and the handler are;
  * `Dispatcher.firstMatch?_congr`, `Dispatcher.resolveWith_of_castAlike`:
    what follows for the calls of a command.
-/
import Invocation.Dispatcher
import Invocation.Proofs.Matching.Path

namespace Invocation

/-- What counts when an argument is bound: its kind, its type and its shape. -/
def Argument.form (a : Argument) : Kind × ArgumentType × Shape := (a.kind, a.type, a.shape)

namespace Search

/-! ## Casts of a search -/

/-- The types to which a search casts tokens. There are no others: `solve?_of_agree` shows that its result
depends on casts to these types only. -/
inductive CastsTo (s : Search) : ArgumentType → Prop
  | argument {a} (ha : a ∈ s.signature.arguments) : CastsTo s a.type
  /-- The items of a list of fixed length, the first of which has the given text. -/
  | items {a} (ha : a ∈ s.signature.arguments) (first : Option String) :
      CastsTo s (s.itemType a.type first)

/-- Two searches of one signature that find the same tokens and keywords and cast alike. They may differ
in stray keywords and in the order of keywords of different arguments. -/
structure Agree (s s' : Search) : Prop where
  signature : s.signature = s'.signature
  positional : s.positional = s'.positional
  occurrences : ∀ i, s.keywords.occurrences i = s'.keywords.occurrences i
  itemType : ∀ a ∈ s.signature.arguments, s.itemType a.type = s'.itemType a.type
  cast : ∀ type, s.CastsTo type → s.cast type = s'.cast type

variable {s s' : Search}

theorem castWhile_congr {type : ArgumentType} (h : s.cast type = s'.cast type) :
    s.castWhile type = s'.castWhile type := by
  funext tokens
  induction tokens with
  | nil => rfl
  | cons token rest ih => rw [castWhile, castWhile, h, ih]

theorem keywordCast_congr {type : ArgumentType} (h : s.cast type = s'.cast type) :
    s.keywordCast type = s'.keywordCast type := by
  funext text
  cases text with
  | none => rfl
  | some token => exact congrFun h token

/-- The type of items depends on how types are inferred. -/
theorem itemType_congr (h : s.types.infer s.settings = s'.types.infer s'.settings) (type : ArgumentType) :
    s.itemType type = s'.itemType type := by
  funext first
  cases type with
  | any =>
    cases first with
    | none => rfl
    | some token => exact congrArg Prod.fst (congrFun h token)
  | native type => rfl
  | custom symbol => rfl

theorem Agree.cast_items (h : s.Agree s') {a : Argument} (ha : a ∈ s.signature.arguments)
    (first : Option String) :
    s.cast (s'.itemType a.type first) = s'.cast (s'.itemType a.type first) := by
  have hcast := h.cast _ (.items ha first)
  rwa [h.itemType a ha] at hcast

/-- The value of a positional argument depends on the tokens, on the casts to its type, and on those to the
types of the items of lists. -/
theorem positionalValue_congr {type : ArgumentType} (hpositional : s.positional = s'.positional)
    (hcast : s.cast type = s'.cast type) (hitem : s.itemType type = s'.itemType type)
    (hitems : ∀ first, s.cast (s'.itemType type first) = s'.cast (s'.itemType type first)) (shape : Shape)
    (cursor : Nat) : s.positionalValue type shape cursor = s'.positionalValue type shape cursor := by
  have hwhile : s.castWhile type = s'.castWhile type := castWhile_congr hcast
  cases shape with
  | scalar => simp only [positionalValue, hpositional, hcast]
  | fixed count => simp only [positionalValue, hpositional, castAll_eq_mapM, hitem, hitems]
  | greedy => simp only [positionalValue, hpositional, hwhile]

/-- The value of a keyword argument depends on the same casts. -/
theorem keywordValue_congr {type : ArgumentType} (hcast : s.cast type = s'.cast type)
    (hitem : s.itemType type = s'.itemType type)
    (hitems : ∀ first, s.cast (s'.itemType type first) = s'.cast (s'.itemType type first)) (shape : Shape)
    (occurrences : List (Option String)) :
    s.keywordValue type shape occurrences = s'.keywordValue type shape occurrences := by
  have hkeyword : s.keywordCast type = s'.keywordCast type := keywordCast_congr hcast
  cases occurrences with
  | nil => rfl
  | cons first rest =>
    have hitems := keywordCast_congr (hitems first)
    cases shape with
    | scalar => simp only [keywordValue, hkeyword]
    | fixed count => simp only [keywordValue, keywordCastAll_eq_mapM, hitem, hitems]
    | greedy => simp only [keywordValue, keywordCastAll_eq_mapM, hkeyword]

/-- Searches of two signatures bind the argument at an index alike, if it has the same form in both, and if
they find the same tokens and the same occurrences of it. -/
theorem leaf_congr_of_form {i : Nat}
    (hform : s.signature.arguments[i]?.map Argument.form = s'.signature.arguments[i]?.map Argument.form)
    (hpositional : s.positional = s'.positional)
    (hoccurrences : s.keywords.occurrences i = s'.keywords.occurrences i) (htypes : s.types = s'.types)
    (hsettings : s.settings = s'.settings) : s.leaf i = s'.leaf i := by
  have hcast : ∀ type, s.cast type = s'.cast type := fun type =>
    funext fun token => by rw [cast, cast, htypes, hsettings]
  have hitem : ∀ type, s.itemType type = s'.itemType type :=
    itemType_congr (by rw [htypes, hsettings])
  have hvalue : ∀ type, s.positionalValue type = s'.positionalValue type := fun type =>
    funext fun shape => funext fun cursor =>
      positionalValue_congr hpositional (hcast type) (hitem type) (fun _ => hcast _) shape cursor
  have hkeyword : ∀ type, s.keywordValue type = s'.keywordValue type := fun type =>
    funext fun shape => funext fun occurrences =>
      keywordValue_congr (hcast type) (hitem type) (fun _ => hcast _) shape occurrences
  funext progress optional
  rw [leaf, leaf, hoccurrences]
  cases ha : s.signature.arguments[i]? with
  | none =>
    rw [ha, Option.map_none, eq_comm, Option.map_eq_none_iff] at hform
    rw [hform]
    rfl
  | some a =>
    rw [ha, Option.map_some, eq_comm, Option.map_eq_some_iff] at hform
    obtain ⟨a', ha', hform⟩ := hform
    obtain ⟨hkind, htype, hshape⟩ : a'.kind = a.kind ∧ a'.type = a.type ∧ a'.shape = a.shape := by
      simpa [Argument.form] using hform
    rw [ha']
    simp only [Option.bind_eq_bind, Option.bind_some, hkind, htype, hshape, hvalue, hkeyword]

/-- So they do if it is the same argument. -/
theorem leaf_congr {i : Nat} (hargument : s.signature.arguments[i]? = s'.signature.arguments[i]?)
    (hpositional : s.positional = s'.positional)
    (hoccurrences : s.keywords.occurrences i = s'.keywords.occurrences i) (htypes : s.types = s'.types)
    (hsettings : s.settings = s'.settings) : s.leaf i = s'.leaf i :=
  leaf_congr_of_form (congrArg (·.map Argument.form) hargument) hpositional hoccurrences htypes hsettings

theorem Agree.positionalValue (h : s.Agree s') {a : Argument} (ha : a ∈ s.signature.arguments)
    (shape : Shape) (cursor : Nat) :
    s.positionalValue a.type shape cursor = s'.positionalValue a.type shape cursor :=
  positionalValue_congr h.positional (h.cast _ (.argument ha)) (h.itemType a ha) (h.cast_items ha) shape
    cursor

theorem Agree.keywordValue (h : s.Agree s') {a : Argument} (ha : a ∈ s.signature.arguments)
    (shape : Shape) (occurrences : List (Option String)) :
    s.keywordValue a.type shape occurrences = s'.keywordValue a.type shape occurrences :=
  keywordValue_congr (h.cast _ (.argument ha)) (h.itemType a ha) (h.cast_items ha) shape occurrences

theorem Agree.leaf (h : s.Agree s') (index : Nat) (progress : Progress) (optional : Bool) :
    s.leaf index progress optional = s'.leaf index progress optional := by
  rw [Search.leaf, Search.leaf, ← h.signature, ← h.occurrences]
  cases ha : s.signature.arguments[index]? with
  | none => rfl
  | some a =>
    have hmem : a ∈ s.signature.arguments := List.mem_of_getElem? ha
    simp only [Option.bind_eq_bind, Option.bind_some, h.positionalValue hmem, h.keywordValue hmem]

theorem Agree.node (h : s.Agree s') (n : Node) : s.node n = s'.node n := by
  induction n using Node.treeInduction with
  | leaf i =>
    funext progress optional next
    simp only [Search.node, Step.leaf, h.leaf]
  | group c r ns ih =>
    rw [Search.node, Search.node, nodes_eq_map, nodes_eq_map, List.map_congr_left ih]

theorem Agree.finish (h : s.Agree s') : s.finish = s'.finish := by
  funext progress
  have hpresent : ∀ count, s.keywords.present count = s'.keywords.present count := by
    intro count
    simp only [Keywords.present, h.occurrences]
  have hcomplete : s.isComplete progress = s'.isComplete progress := by
    rw [isComplete, isComplete, h.positional, h.signature, hpresent]
  rw [Search.finish, Search.finish, hcomplete]

/-- Searches that agree have the same result, if they agree on whether there is a stray keyword. -/
theorem solve?_of_agree (h : s.Agree s')
    (hstray : s.keywords.stray.isEmpty = s'.keywords.stray.isEmpty) : s.solve? = s'.solve? := by
  rw [solve?, solve?, hstray, h.node, h.signature, h.finish]

end Search

/-! ## Settings that cast alike -/

/-- Settings with the same words for true and false and the same order of types. The fallback and the
handler may differ. -/
structure EffectiveSettings.CastAlike (a b : EffectiveSettings) : Prop where
  truthy : a.truthy = b.truthy
  falsy : a.falsy = b.falsy
  typeOrder : a.typeOrder = b.typeOrder

namespace TypeRegistry

variable {a b : EffectiveSettings}

theorem castNative_congr (h : a.CastAlike b) : castNative a = castNative b := by
  funext type token
  cases type with
  | bool =>
    have htruthy : a.isTruthy token = b.isTruthy token := by
      rw [EffectiveSettings.isTruthy, EffectiveSettings.isTruthy, h.truthy]
    have hfalsy : a.isFalsy token = b.isFalsy token := by
      rw [EffectiveSettings.isFalsy, EffectiveSettings.isFalsy, h.falsy]
    rw [castNative, castNative, htruthy, hfalsy]
  | int | float | str => rfl

theorem infer_congr (h : a.CastAlike b) (r : TypeRegistry) : r.infer a = r.infer b := by
  funext token
  simp only [infer, inferNative?, chain, h.typeOrder, castNative_congr h]

theorem cast_congr (h : a.CastAlike b) (r : TypeRegistry) : r.cast a = r.cast b := by
  funext type token
  cases type with
  | any => simp only [cast, infer_congr h]
  | native type => simp only [cast, castNative_congr h]
  | custom symbol => rfl

end TypeRegistry

theorem Search.solve?_of_castAlike {a b : EffectiveSettings} (h : a.CastAlike b) (signature : Signature)
    (input : Input) (types : TypeRegistry) :
    (Search.of signature input types a).solve? = (Search.of signature input types b).solve? := by
  exact solve?_of_agree
    { signature := rfl
      positional := rfl
      occurrences := fun _ => rfl
      itemType := fun a _ => itemType_congr (TypeRegistry.infer_congr h types) a.type
      cast := fun type _ => congrFun (TypeRegistry.cast_congr h types) type } rfl

/-! ## Calls -/

namespace Dispatcher

theorem firstMatch?_congr {types types' : TypeRegistry} {settings settings' : EffectiveSettings}
    {input input' : Input} {signatures : List Signature}
    (h : ∀ s ∈ signatures, (Search.of s input types settings).solve? =
      (Search.of s input' types' settings').solve?) (index : Nat) :
    firstMatch? types settings input index signatures =
      firstMatch? types' settings' input' index signatures := by
  induction signatures generalizing index with
  | nil => rfl
  | cons s rest ih =>
    have hrest := ih (fun t ht => h t (List.mem_cons_of_mem s ht)) (index + 1)
    rw [firstMatch?, firstMatch?, h s List.mem_cons_self, hrest]

theorem resolveWith_of_castAlike {a b : EffectiveSettings} (h : a.CastAlike b) (d : Dispatcher)
    (command : Command) (line : String) : d.resolveWith command line a = d.resolveWith command line b := by
  rw [resolveWith, resolveWith, firstMatch?_congr fun s _ => Search.solve?_of_castAlike h s _ d.types]

end Dispatcher

end Invocation
