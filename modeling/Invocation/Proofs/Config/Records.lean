/-
  What is written of a configuration is read from its document.

  * `Config.ofDocument?_toData`: the document of the data tree of a
    configuration is read as this configuration, in each format, if no layer
    of settings has a handler and sets and tables are kept in order;
  * `Config.ordered_of_ofDocument?`: what is read is always of this kind;
  * `fields?_record`: of a record that is written each field is found that is
    there; `orElse_ifPresent` and `orElse_table?` read back the parts that may
    be left out;
  * `present`: the fields of a record that are there.
-/
import Invocation.Config.Reading
import Invocation.Proofs.Json.RoundTrip
import Invocation.Proofs.Ordered

namespace Invocation

/-! ## Data trees as documents -/

namespace Data

theorem documentItems_eq_map (items : List Data) : documentItems items = items.map document := by
  induction items with
  | nil => rfl
  | cons d rest ih => rw [documentItems, ih, List.map_cons]

theorem documentFields_eq_map (fields : List (String × Data)) :
    documentFields fields = fields.map fun (k, d) => (k, document d) := by
  induction fields with
  | nil => rfl
  | cons field rest ih => rw [documentFields, ih, List.map_cons]

theorem documentItems_ofItems {items : List Data}
    (h : ∀ d ∈ items, (Json.Tree.ofData d).document = d.document) :
    Json.Tree.documentItems (Json.Tree.ofItems items) = documentItems items := by
  induction items with
  | nil => rfl
  | cons d rest ih =>
    rw [Json.Tree.ofItems, Json.Tree.documentItems, documentItems, h d List.mem_cons_self,
      ih fun e he => h e (List.mem_cons_of_mem d he)]

theorem documentFields?_ofFields {fields : List (String × Data)}
    (h : ∀ field ∈ fields, (Json.Tree.ofData field.2).document = field.2.document) :
    Json.Tree.documentFields? (Json.Tree.ofFields fields) = some (documentFields fields) := by
  induction fields with
  | nil => rfl
  | cons field rest ih =>
    obtain ⟨k, d⟩ := field
    have hd : (Json.Tree.ofData d).document = d.document := h (k, d) List.mem_cons_self
    have hrest := ih fun field hfield => h field (List.mem_cons_of_mem (k, d) hfield)
    simp only [Json.Tree.ofFields, Json.Tree.documentFields?, hd, hrest, documentFields,
      Option.bind_eq_bind, Option.bind_some]

/-- A tree has the document of the value that is written for it in JSON. -/
theorem document_ofData {d : Data} (h : d.Textual) : (Json.Tree.ofData d).document = d.document := by
  induction h with
  | text s => rfl
  | list _ ih => rw [Json.Tree.ofData, Json.Tree.document, document, documentItems_ofItems ih]
  | object _ ih =>
    rw [Json.Tree.ofData, Json.Tree.document, document, documentFields?_ofFields ih]

end Data

/-! ## Records -/

/-- The fields of a record that are there. -/
def present {α : Type} (slots : List (String × Option α)) : List (String × α) :=
  slots.filterMap fun (name, value?) => value?.map fun value => (name, value)

theorem present_nil {α : Type} : present ([] : List (String × Option α)) = [] := rfl

theorem present_cons {α : Type} (name : String) (value? : Option α) (slots : List (String × Option α)) :
    present ((name, value?) :: slots) =
      (value?.map fun value => (name, value)).toList ++ present slots := by
  cases value? <;> rfl

theorem present_map {α β : Type} (f : α → β) (slots : List (String × Option α)) :
    present (slots.map fun (name, value?) => (name, value?.map f)) =
      (present slots).map fun (name, value) => (name, f value) := by
  induction slots with
  | nil => rfl
  | cons slot slots ih =>
    obtain ⟨k, value?⟩ := slot
    rw [List.map_cons, present_cons, present_cons, ih, List.map_append]
    cases value? <;> rfl

theorem filter_present_of_notMem {α : Type} {slots : List (String × Option α)} {name : String}
    (h : name ∉ slots.map Prod.fst) : (present slots).filter (·.1 == name) = [] := by
  induction slots with
  | nil => rfl
  | cons slot slots ih =>
    obtain ⟨k, value?⟩ := slot
    rw [List.map_cons, List.mem_cons, not_or] at h
    rw [present_cons, List.filter_append, ih h.2, List.append_nil]
    cases value? with
    | none => rfl
    | some value => simp [Ne.symm h.1]

theorem textual_record {slots : List (String × Option Data)}
    (h : ∀ slot ∈ slots, ∀ d ∈ slot.2, d.Textual) : (Data.object (present slots)).Textual := by
  refine .object fun field hfield => ?_
  obtain ⟨slot, hslot, heq⟩ := List.mem_filterMap.1 hfield
  obtain ⟨d, hd, rfl⟩ := Option.map_eq_some_iff.1 heq
  exact h slot hslot d hd

theorem textual_map {α : Type} {write : α → Data} (hwrite : ∀ x, (write x).Textual)
    (part : Option α) : ∀ d ∈ part.map write, d.Textual := by
  intro d hd
  obtain ⟨x, -, rfl⟩ := Option.map_eq_some_iff.1 hd
  exact hwrite x

theorem textual_list {α : Type} {write : α → Data} (hwrite : ∀ x, (write x).Textual)
    (items : List α) : (Data.list (items.map write)).Textual := by
  refine .list fun d hd => ?_
  obtain ⟨x, -, rfl⟩ := List.mem_map.1 hd
  exact hwrite x

theorem textual_texts (ts : List String) : (Data.texts ts).Textual := textual_list .text ts

namespace Config

theorem fieldOf?_present {slots : List (String × Option Document)}
    (hnodup : (slots.map Prod.fst).Nodup) {name : String} {d? : Option Document}
    (h : (name, d?) ∈ slots) : fieldOf? (present slots) name = some d? := by
  induction slots with
  | nil => exact absurd h List.not_mem_nil
  | cons slot slots ih =>
    obtain ⟨k, e?⟩ := slot
    rw [List.map_cons, List.nodup_cons] at hnodup
    rcases List.mem_cons.1 h with heq | h
    · obtain ⟨rfl, rfl⟩ := Prod.mk.inj heq
      rw [fieldOf?, present_cons, List.filter_append, filter_present_of_notMem hnodup.1]
      cases d? <;> simp
    · -- the first field has another name
      have hne : k ≠ name := fun heq => hnodup.1 (heq ▸ List.mem_map.2 ⟨_, h, rfl⟩)
      have hskip : ((e?.map fun e => (k, e)).toList).filter (·.1 == name) = [] := by
        cases e? with
        | none => rfl
        | some e => simp [hne]
      rw [fieldOf?, present_cons, List.filter_append, hskip, List.nil_append]
      exact ih hnodup.2 h

/-- Of a record that is written each field is found that is there. -/
theorem fields?_record (format : Format) {slots : List (String × Option Data)}
    (hnodup : (slots.map Prod.fst).Nodup) :
    fields? format (slots.map Prod.fst) (Data.object (present slots)).document =
      some (slots.map fun slot => slot.2.map Data.document) := by
  have hdocument : (Data.object (present slots)).document =
      .table (present (slots.map fun (name, d?) => (name, d?.map Data.document))) := by
    rw [Data.document, Data.documentFields_eq_map, present_map]
  have hnames : (slots.map fun (name, d?) => (name, d?.map Data.document)).map Prod.fst =
      slots.map Prod.fst := by rw [List.map_map]; rfl
  have hread : (slots.map Prod.fst).mapM
      (fieldOf? (present (slots.map fun (name, d?) => (name, d?.map Data.document)))) =
        some (slots.map fun slot => slot.2.map Data.document) :=
    mapM_map_eq_some fun slot h =>
      fieldOf?_present (hnames ▸ hnodup) (List.mem_map.2 ⟨slot, h, rfl⟩)
  rw [hdocument]
  cases format <;> exact hread

/-! ## Parts of records -/

/-- A part that may be left out and is written only if it is there is read back. -/
theorem orElse_ifPresent {α : Type} {read : Document → Option α} {write : α → Data} {part : Option α}
    (h : ∀ x ∈ part, (write x).document.isAbsent = false ∧ read (write x).document = some x) :
    orElse none (ifPresent read) ((part.map write).map Data.document) = some part := by
  cases part with
  | none => rfl
  | some x =>
    obtain ⟨habsent, hread⟩ := h x rfl
    rw [Option.map_some, Option.map_some, orElse, ifPresent, habsent, hread]
    rfl

theorem entries?_list {α : Type} {read : Document → Option α} {write : α → Data} {items : List α}
    (h : ∀ x ∈ items, read (write x).document = some x) :
    entries? read (Data.list (items.map write)).document = some items := by
  have hread : ((items.map write).map Data.document).mapM read = some (items.map id) := by
    rw [List.map_map]
    exact mapM_map_eq_some h
  rw [Data.document, Data.documentItems_eq_map, entries?, Document.items?, Option.bind_some, hread,
    List.map_id]

theorem texts?_texts (ts : List String) : texts? (Data.texts ts).document = some ts :=
  entries?_list fun _ _ => rfl

theorem textSet?_texts {ts : List String} (h : ts.Pairwise (· < ·)) :
    textSet? (Data.texts ts).document = some ts := by
  rw [textSet?, texts?_texts, Option.map_some, textSet_of_pairwise h]

/-- A table, if it has entries. -/
def tableSlot (fields : List (String × Data)) : Option Data :=
  if fields.isEmpty then none else some (.object fields)

theorem tableField_eq (name : String) (fields : List (String × Data)) :
    tableField name fields = ((tableSlot fields).map fun d => (name, d)).toList := by
  rw [tableField, tableSlot]
  split <;> rfl

theorem textual_tableSlot {α : Type} {write : α → Data} (hwrite : ∀ x, (write x).Textual)
    (entries : List (String × α)) :
    ∀ d ∈ tableSlot (entries.map fun (k, x) => (k, write x)), d.Textual := by
  intro d hd
  obtain ⟨-, rfl⟩ : _ ∧ Data.object _ = d := by simpa [tableSlot] using hd
  refine .object fun field hfield => ?_
  obtain ⟨entry, -, rfl⟩ := List.mem_map.1 hfield
  exact hwrite entry.2

theorem table?_object {α : Type} {read : Document → Option α} {write : α → Data}
    (hread : ∀ x, read (write x).document = some x) {entries : List (String × α)}
    (h : (entries.map Prod.fst).Pairwise (· < ·)) :
    table? read (Data.object (entries.map fun (k, x) => (k, write x))).document = some entries := by
  simp only [table?, Data.document, Data.documentFields_eq_map, Document.entries?, List.map_map,
    Option.bind_eq_bind, Option.bind_some]
  rw [mapM_map_eq_some (h := id) fun entry _ => congrArg (Option.map _) (hread entry.2), List.map_id,
    Option.bind_some, keyTable_of_pairwise h]

/-- A table that is written only if it has entries is read back. -/
theorem orElse_table? {α : Type} {read : Document → Option α} {write : α → Data}
    (hread : ∀ x, read (write x).document = some x) {entries : List (String × α)}
    (h : (entries.map Prod.fst).Pairwise (· < ·)) :
    orElse [] (table? read)
        ((tableSlot (entries.map fun (k, x) => (k, write x))).map Data.document) = some entries := by
  have htable := table?_object hread h
  cases entries with
  | nil => rfl
  | cons entry entries => exact htable

/-- A part that may be left out is read from a document, if it is there. -/
theorem exists_of_orElse_ifPresent {α : Type} {read : Document → Option α} {part : Option Document}
    {x : α} (h : orElse none (ifPresent read) part = some (some x)) : ∃ d, read d = some x := by
  cases part with
  | none => cases h
  | some d =>
    simp only [orElse, ifPresent] at h
    split at h
    · cases h
    · obtain ⟨y, hy, heq⟩ := Option.map_eq_some_iff.1 h
      exact ⟨d, hy.trans heq⟩

theorem exists_of_mapM_eq_some {α β : Type} {f : α → Option β} {xs : List α} {ys : List β}
    (h : xs.mapM f = some ys) : ∀ y ∈ ys, ∃ x, f x = some y := by
  induction xs generalizing ys with
  | nil =>
    cases h
    exact fun _ hy => absurd hy List.not_mem_nil
  | cons x xs ih =>
    rw [List.mapM_cons] at h
    obtain ⟨z, hz, h⟩ := Option.bind_eq_some_iff.1 h
    obtain ⟨zs, hzs, h⟩ := Option.bind_eq_some_iff.1 h
    cases h
    exact List.forall_mem_cons.2 ⟨⟨x, hz⟩, ih hzs⟩

/-- Each item of a list is read from a document. -/
theorem exists_of_orElse_entries? {α : Type} {read : Document → Option α} {part : Option Document}
    {items : List α} (h : orElse [] (entries? read) part = some items) :
    ∀ x ∈ items, ∃ d, read d = some x := by
  cases part with
  | none =>
    cases h
    exact fun _ hx => absurd hx List.not_mem_nil
  | some d =>
    obtain ⟨documents, -, h⟩ := Option.bind_eq_some_iff.1 h
    exact exists_of_mapM_eq_some h

theorem pairwise_of_orElse_table? {α : Type} {read : Document → Option α} {part : Option Document}
    {entries : List (String × α)} (h : orElse [] (table? read) part = some entries) :
    (entries.map Prod.fst).Pairwise (· < ·) := by
  cases part with
  | none =>
    cases h
    exact List.Pairwise.nil
  | some d =>
    simp only [orElse, table?, Option.bind_eq_bind, Option.bind_eq_some_iff] at h
    obtain ⟨_, -, pairs, -, h⟩ := h
    cases h
    exact pairwise_keyTable pairs

end Config

/-! ## Settings -/

namespace Settings

/-- The sets of words of a layer are kept in ascending order. -/
structure Ordered (s : Settings) : Prop where
  truthy : ∀ words ∈ s.truthy, words.Pairwise (· < ·)
  falsy : ∀ words ∈ s.falsy, words.Pairwise (· < ·)

instance (s : Settings) : Decidable s.Ordered :=
  decidable_of_iff
    ((∀ words ∈ s.truthy, words.Pairwise (· < ·)) ∧ ∀ words ∈ s.falsy, words.Pairwise (· < ·))
    ⟨fun h => ⟨h.1, h.2⟩, fun h => ⟨h.truthy, h.falsy⟩⟩

/-- The fields of a layer, each if it is written. -/
def slots (s : Settings) : List (String × Option Data) :=
  [("fallback", s.fallback.map fun f => .text f.name), ("truthy", s.truthy.map .texts),
    ("falsy", s.falsy.map .texts), ("types", s.typeOrder.map .texts)]

theorem toData_eq (s : Settings) : s.toData = .object (present s.slots) := by
  simp [toData, slots, present_cons, present_nil, Function.comp_def]

theorem textual_toData (s : Settings) : s.toData.Textual := by
  rw [s.toData_eq]
  refine textual_record ?_
  simp only [slots, List.forall_mem_cons]
  exact ⟨textual_map (fun f => .text (Fallback.name f)) _, textual_map textual_texts _,
    textual_map textual_texts _, textual_map textual_texts _, fun _ h => absurd h List.not_mem_nil⟩

end Settings

namespace Config

theorem settings?_toData (format : Format) {s : Settings} (hordered : s.Ordered)
    (hhandler : s.handler = none) : settings? format s.toData.document = some s := by
  have hnames : (s.slots.map Prod.fst).Nodup := by simp [Settings.slots]
  have hfields := s.toData_eq ▸ fields?_record format hnames
  have hfallback : orElse none (ifPresent (fallback? format))
      ((s.fallback.map fun f => Data.text f.name).map Data.document) = some s.fallback :=
    orElse_ifPresent fun f _ => ⟨rfl, by cases format <;> exact Fallback.ofName?_name f⟩
  have htruthy : orElse none (ifPresent textSet?) ((s.truthy.map .texts).map Data.document) =
      some s.truthy := orElse_ifPresent fun words h => ⟨rfl, textSet?_texts (hordered.truthy words h)⟩
  have hfalsy : orElse none (ifPresent textSet?) ((s.falsy.map .texts).map Data.document) =
      some s.falsy := orElse_ifPresent fun words h => ⟨rfl, textSet?_texts (hordered.falsy words h)⟩
  have htypes : orElse none (ifPresent texts?) ((s.typeOrder.map .texts).map Data.document) =
      some s.typeOrder := orElse_ifPresent fun symbols _ => ⟨rfl, texts?_texts symbols⟩
  simp only [Settings.slots, List.map_cons, List.map_nil] at hfields
  simp only [settings?, hfields, hfallback, htruthy, hfalsy, htypes, Option.bind_eq_bind,
    Option.bind_some, ← hhandler]

theorem pairwise_of_textSet? {part : Option Document} {set? : Option (List String)}
    (h : orElse none (ifPresent textSet?) part = some set?) :
    ∀ words ∈ set?, words.Pairwise (· < ·) := by
  rintro words rfl
  obtain ⟨d, hd⟩ := exists_of_orElse_ifPresent h
  obtain ⟨ts, -, rfl⟩ := Option.map_eq_some_iff.1 hd
  exact pairwise_textSet ts

/-- A layer that is read has its sets in order and no handler. -/
theorem ordered_of_settings? {format : Format} {d : Document} {s : Settings}
    (h : settings? format d = some s) : s.Ordered ∧ s.handler = none := by
  simp only [settings?, Option.bind_eq_bind, Option.bind_eq_some_iff] at h
  obtain ⟨fields, -, h⟩ := h
  split at h
  · simp only [Option.bind_eq_some_iff, Option.some.injEq] at h
    obtain ⟨_, -, _, htruthy, _, hfalsy, _, -, rfl⟩ := h
    exact ⟨⟨pairwise_of_textSet? htruthy, pairwise_of_textSet? hfalsy⟩, rfl⟩
  · exact absurd h (by simp)

/-! ## Types and commands -/

theorem readType?_toData (format : Format) (t : TypeEntry) :
    readType? format t.toData.document = some t := by
  have hfields : fields? format ["symbol", "pattern"] t.toData.document =
      some [some (.text t.symbol), some (.text t.pattern)] :=
    @fields?_record format [("symbol", some (.text t.symbol)), ("pattern", some (.text t.pattern))]
      (by simp)
  simp only [readType?, hfields, Option.bind_eq_bind, Option.bind_some, Document.text?]

theorem TypeEntry.textual_toData (t : TypeEntry) : t.toData.Textual := by
  refine @textual_record [("symbol", some (.text t.symbol)), ("pattern", some (.text t.pattern))] ?_
  simp only [List.forall_mem_cons]
  exact ⟨fun _ h => Option.some.inj h ▸ .text t.symbol, fun _ h => Option.some.inj h ▸ .text t.pattern,
    fun _ h => absurd h List.not_mem_nil⟩

namespace CommandEntry

/-- The tables and the local layer of a command are kept in order. -/
structure Ordered (c : CommandEntry) : Prop where
  aliases : (c.aliases.map Prod.fst).Pairwise (· < ·)
  descriptions : (c.descriptions.map Prod.fst).Pairwise (· < ·)
  settings : ∀ s ∈ c.settings, s.Ordered

instance (c : CommandEntry) : Decidable c.Ordered :=
  decidable_of_iff
    ((c.aliases.map Prod.fst).Pairwise (· < ·) ∧ (c.descriptions.map Prod.fst).Pairwise (· < ·) ∧
      ∀ s ∈ c.settings, s.Ordered)
    ⟨fun h => ⟨h.1, h.2.1, h.2.2⟩, fun h => ⟨h.aliases, h.descriptions, h.settings⟩⟩

/-- The fields of a command, each if it is written. -/
def slots (c : CommandEntry) : List (String × Option Data) :=
  [("name", some (.text c.name)), ("signatures", some (.texts c.signatures)),
    ("aliases", tableSlot (c.aliases.map fun (argument, names) => (argument, .texts names))),
    ("descriptions", tableSlot (c.descriptions.map fun (argument, text) => (argument, .text text))),
    ("settings", c.settings.map Settings.toData)]

theorem toData_eq (c : CommandEntry) : c.toData = .object (present c.slots) := by
  simp [toData, slots, tableField_eq, present_cons, present_nil, Function.comp_def]

theorem textual_toData (c : CommandEntry) : c.toData.Textual := by
  rw [c.toData_eq]
  refine textual_record ?_
  simp only [slots, List.forall_mem_cons]
  exact ⟨fun _ h => Option.some.inj h ▸ .text c.name, fun _ h => Option.some.inj h ▸ textual_texts _,
    textual_tableSlot textual_texts _, textual_tableSlot .text _, textual_map Settings.textual_toData _,
    fun _ h => absurd h List.not_mem_nil⟩

end CommandEntry

theorem readCommand?_toData (format : Format) {c : CommandEntry} (hordered : c.Ordered)
    (hhandler : ∀ s ∈ c.settings, s.handler = none) :
    readCommand? format c.toData.document = some c := by
  have hnames : (c.slots.map Prod.fst).Nodup := by simp [CommandEntry.slots]
  have hfields := c.toData_eq ▸ fields?_record format hnames
  have hname : (Option.map Data.document (some (.text c.name))).bind Document.text? = some c.name := rfl
  have hsignatures : orElse [] texts? (Option.map Data.document (some (.texts c.signatures))) =
      some c.signatures := texts?_texts c.signatures
  have haliases := orElse_table? texts?_texts hordered.aliases
  have hdescriptions := @orElse_table? _ Document.text? Data.text (fun _ => rfl) _ hordered.descriptions
  have hsettings : orElse none (ifPresent (settings? format))
      ((c.settings.map Settings.toData).map Data.document) = some c.settings :=
    orElse_ifPresent fun s h => ⟨rfl, settings?_toData format (hordered.settings s h) (hhandler s h)⟩
  simp only [CommandEntry.slots, List.map_cons, List.map_nil] at hfields
  simp only [readCommand?, hfields, hname, hsignatures, haliases, hdescriptions, hsettings,
    Option.bind_eq_bind, Option.bind_some]

/-- A command that is read has its tables and its local layer in order, and no handler. -/
theorem ordered_of_readCommand? {format : Format} {d : Document} {c : CommandEntry}
    (h : readCommand? format d = some c) : c.Ordered ∧ ∀ s ∈ c.settings, s.handler = none := by
  simp only [readCommand?, Option.bind_eq_bind, Option.bind_eq_some_iff] at h
  obtain ⟨fields, -, h⟩ := h
  split at h
  · simp only [Option.bind_eq_some_iff, Option.some.injEq] at h
    obtain ⟨_, -, _, -, _, haliases, _, hdescriptions, local_, hsettings, rfl⟩ := h
    have hlocal : ∀ s ∈ local_, s.Ordered ∧ s.handler = none := by
      rintro s rfl
      obtain ⟨d', hd'⟩ := exists_of_orElse_ifPresent hsettings
      exact ordered_of_settings? hd'
    exact ⟨⟨pairwise_of_orElse_table? haliases, pairwise_of_orElse_table? hdescriptions,
      fun s hs => (hlocal s hs).1⟩, fun s hs => (hlocal s hs).2⟩
  · exact absurd h (by simp)

end Config

/-! ## Configurations -/

namespace Config

/-- Sets of words and tables are kept in order. -/
structure Ordered (c : Config) : Prop where
  settings : c.settings.Ordered
  commands : ∀ entry ∈ c.commands, entry.Ordered

instance (c : Config) : Decidable c.Ordered :=
  decidable_of_iff (c.settings.Ordered ∧ ∀ entry ∈ c.commands, entry.Ordered)
    ⟨fun h => ⟨h.1, h.2⟩, fun h => ⟨h.settings, h.commands⟩⟩

/-- No layer of settings has a handler, neither the global one nor a local one. -/
structure WithoutHandlers (c : Config) : Prop where
  settings : c.settings.handler = none
  commands : ∀ entry ∈ c.commands, ∀ s ∈ entry.settings, s.handler = none

instance (c : Config) : Decidable c.WithoutHandlers :=
  decidable_of_iff
    (c.settings.handler = none ∧ ∀ entry ∈ c.commands, ∀ s ∈ entry.settings, s.handler = none)
    ⟨fun h => ⟨h.1, h.2⟩, fun h => ⟨h.settings, h.commands⟩⟩

/-- The fields of a configuration. -/
def slots (c : Config) : List (String × Option Data) :=
  [("settings", some c.settings.toData), ("types", some (.list (c.types.map TypeEntry.toData))),
    ("commands", some (.list (c.commands.map CommandEntry.toData)))]

theorem textual_toData (c : Config) : c.toData.Textual := by
  refine @textual_record c.slots ?_
  simp only [slots, List.forall_mem_cons]
  exact ⟨fun _ h => Option.some.inj h ▸ c.settings.textual_toData,
    fun _ h => Option.some.inj h ▸ textual_list TypeEntry.textual_toData _,
    fun _ h => Option.some.inj h ▸ textual_list CommandEntry.textual_toData _,
    fun _ h => absurd h List.not_mem_nil⟩

/-- A configuration is read from the document that is written for it. -/
theorem ofDocument?_toData (format : Format) {c : Config} (hordered : c.Ordered)
    (hhandlers : c.WithoutHandlers) : ofDocument? format c.toData.document = some c := by
  have hfields : fields? format ["settings", "types", "commands"] c.toData.document = _ :=
    @fields?_record format c.slots (by simp [slots])
  have hsettings := settings?_toData format hordered.settings hhandlers.settings
  have htypes := entries?_list fun t (_ : t ∈ c.types) => readType?_toData format t
  have hcommands := entries?_list fun entry h =>
    readCommand?_toData format (hordered.commands entry h) (hhandlers.commands entry h)
  simp only [slots, List.map_cons, List.map_nil, Option.map_some] at hfields
  simp only [ofDocument?, hfields, orElse, hsettings, htypes, hcommands, Option.bind_eq_bind,
    Option.bind_some]

theorem ordered_of_orElse_settings? {format : Format} {part : Option Document} {s : Settings}
    (h : orElse {} (settings? format) part = some s) : s.Ordered ∧ s.handler = none := by
  cases part with
  | none =>
    cases h
    exact ⟨⟨fun _ h => absurd h (by simp), fun _ h => absurd h (by simp)⟩, rfl⟩
  | some d => exact ordered_of_settings? h

/-- A configuration that is read has its sets and tables in order and no handler. -/
theorem ordered_of_ofDocument? {format : Format} {d : Document} {c : Config}
    (h : ofDocument? format d = some c) : c.Ordered ∧ c.WithoutHandlers := by
  simp only [ofDocument?, Option.bind_eq_bind, Option.bind_eq_some_iff] at h
  obtain ⟨fields, -, h⟩ := h
  split at h
  · simp only [Option.bind_eq_some_iff, Option.some.injEq] at h
    obtain ⟨_, hsettings, _, -, commands, hcommands, rfl⟩ := h
    obtain ⟨hordered, hhandler⟩ := ordered_of_orElse_settings? hsettings
    have hentries : ∀ entry ∈ commands, entry.Ordered ∧ ∀ s ∈ entry.settings, s.handler = none := by
      intro entry hentry
      obtain ⟨d', hd'⟩ := exists_of_orElse_entries? hcommands entry hentry
      exact ordered_of_readCommand? hd'
    exact ⟨⟨hordered, fun entry h => (hentries entry h).1⟩, ⟨hhandler, fun entry h => (hentries entry h).2⟩⟩
  · exact absurd h (by simp)

end Config

end Invocation
