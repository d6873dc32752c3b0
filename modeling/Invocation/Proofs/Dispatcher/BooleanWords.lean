/-
  Words for true and for false in another case.

  A token is put into lower case before it is looked up, while a set of words
  is what a layer makes of it: a layer that is built puts the words into lower
  case, and one that is read from a document leaves them as they are written.

  * `EffectiveSettings.TakesForTrue`, `TakesForFalse`: every token that is a
    word up to case casts as that word should;
  * `takesForTrue_iff`, `takesForFalse_iff`: this holds of a word whose lower
    case is in the sets;
  * `takes_listed_iff`: so it holds of all words in force where their lower
    case is listed too, and thus under layers that were built;
  * `loaded_word_not_taken`: a word of a file may not even be taken itself.
-/
import Invocation.Config.File
import Invocation.Proofs.Ordered
import Invocation.Proofs.Text.Lowercase
import Invocation.Standard
import Invocation.TypeRegistry
import Mathlib

namespace Invocation

open Invocation.Text

/-! ## Tokens that are a word up to case -/

namespace EffectiveSettings

variable {s : EffectiveSettings} {word : String}

/-- Every token that is the word up to case counts as true. -/
def TakesForTrue (s : EffectiveSettings) (word : String) : Prop :=
  ∀ token, lowercase token = lowercase word →
    s.isTruthy token = true ∧ castNative s .bool token = some (.bool true)

/-- Every token that is the word up to case counts as false, unless it counts as true. -/
def TakesForFalse (s : EffectiveSettings) (word : String) : Prop :=
  ∀ token, lowercase token = lowercase word → s.isTruthy token = false →
    castNative s .bool token = some (.bool false)

theorem isTruthy_iff {token : String} : s.isTruthy token = true ↔ lowercase token ∈ s.truthy :=
  List.contains_iff_mem

theorem isFalsy_iff {token : String} : s.isFalsy token = true ↔ lowercase token ∈ s.falsy :=
  List.contains_iff_mem

theorem takesForTrue_iff : s.TakesForTrue word ↔ lowercase word ∈ s.truthy := by
  constructor
  · intro h
    exact isTruthy_iff.1 (h word rfl).1
  · intro hmem token htoken
    have htruthy : s.isTruthy token = true := isTruthy_iff.2 (htoken ▸ hmem)
    exact ⟨htruthy, if_pos htruthy⟩

theorem takesForFalse_iff :
    s.TakesForFalse word ↔ lowercase word ∈ s.truthy ∨ lowercase word ∈ s.falsy := by
  constructor
  · intro h
    cases htruthy : s.isTruthy word with
    | true => exact .inl (isTruthy_iff.1 htruthy)
    | false =>
      have hcast : castNative s .bool word = some (.bool false) := h word rfl htruthy
      cases hfalsy : s.isFalsy word with
      | true => exact .inr (isFalsy_iff.1 hfalsy)
      | false => simp [castNative, htruthy, hfalsy] at hcast
  · intro hmem token htoken htruthy
    have hnot : lowercase token ∉ s.truthy := by simp [← isTruthy_iff, htruthy]
    have hfalsy : s.isFalsy token = true := isFalsy_iff.2 ((htoken ▸ hmem).resolve_left hnot)
    simp [castNative, htruthy, hfalsy]

end EffectiveSettings

/-! ## Layers -/

namespace Settings

/-- The layers that are built: their words, if they set any, were given as words for true or false. -/
inductive IsBuilt : Settings → Prop
  | wordless {layer} : layer.truthy = none → layer.falsy = none → IsBuilt layer
  | withTruthy {layer} (words) : IsBuilt layer → IsBuilt (layer.withTruthy words)
  | withFalsy {layer} (words) : IsBuilt layer → IsBuilt (layer.withFalsy words)
  | withOthers {layer layer'} : IsBuilt layer → layer'.truthy = layer.truthy →
      layer'.falsy = layer.falsy → IsBuilt layer'

theorem lowercase_mem_literals {words : List String} {word : String} (h : word ∈ words) :
    lowercase word ∈ literals words :=
  mem_textSet.2 (List.mem_map_of_mem h)

/-- The lower case of a word in lower case is the word. -/
theorem lowercase_mem_of_mem_literals {words : List String} {word : String} (h : word ∈ literals words) :
    lowercase word ∈ literals words := by
  obtain ⟨given, -, rfl⟩ := List.mem_map.1 (mem_textSet.1 h)
  rw [lowercase_lowercase]
  exact h

/-- The sets of a layer that was built are in lower case. -/
theorem IsBuilt.exists_literals {layer : Settings} (h : layer.IsBuilt) :
    (∀ set ∈ layer.truthy, ∃ words, set = literals words) ∧
      ∀ set ∈ layer.falsy, ∃ words, set = literals words := by
  induction h with
  | wordless htruthy hfalsy => simp [htruthy, hfalsy]
  | withTruthy words _ ih => exact ⟨fun _ hset => ⟨words, (Option.some.inj hset).symm⟩, ih.2⟩
  | withFalsy words _ ih => exact ⟨ih.1, fun _ hset => ⟨words, (Option.some.inj hset).symm⟩⟩
  | withOthers _ htruthy hfalsy ih => rwa [htruthy, hfalsy]

end Settings

/-- What the local layer sets, or else the global one, or else the default. -/
theorem layered_induction {α : Type} {P : α → Prop} {localValue globalValue : Option α} {default : α}
    (hlocal : ∀ value ∈ localValue, P value) (hglobal : ∀ value ∈ globalValue, P value)
    (hdefault : P default) : P ((localValue.or globalValue).getD default) := by
  cases localValue with
  | some value => exact hlocal value rfl
  | none =>
    cases globalValue with
    | some value => exact hglobal value rfl
    | none => exact hdefault

/-- The sets in force under layers that were built are in lower case, those of the defaults too. -/
theorem EffectiveSettings.exists_literals_resolve {local_ : Option Settings} {global : Settings}
    (hlocal : ∀ layer ∈ local_, layer.IsBuilt) (hglobal : global.IsBuilt) :
    (∃ words, (resolve local_ global).truthy = Settings.literals words) ∧
      ∃ words, (resolve local_ global).falsy = Settings.literals words := by
  have hlayer : ∀ {field : Settings → Option (List String)},
      (∀ layer : Settings, layer.IsBuilt → ∀ set ∈ field layer, ∃ words, set = Settings.literals words) →
      ∀ set ∈ local_.bind field, ∃ words, set = Settings.literals words := by
    intro field hfield set hset
    obtain ⟨layer, hlayer, hset⟩ := Option.mem_bind_iff.1 hset
    exact hfield layer (hlocal layer hlayer) set hset
  constructor
  · refine layered_induction (hlayer fun _ h => h.exists_literals.1) hglobal.exists_literals.1 ?_
    exact ⟨["true", "yes", "y", "on"], by decide +kernel⟩
  · refine layered_induction (hlayer fun _ h => h.exists_literals.2) hglobal.exists_literals.2 ?_
    exact ⟨["false", "no", "n", "off"], by decide +kernel⟩

/-- **A word is taken in any case exactly if its lower case is in force**, a word for false also if
its lower case is a word for true. So are all words in force under layers that were built, and all words
that the layer in force was given. -/
theorem takes_listed_iff (local_ : Option Settings) (global : Settings) :
    let s := EffectiveSettings.resolve local_ global
    (∀ word, s.TakesForTrue word ↔ lowercase word ∈ s.truthy) ∧
      (∀ word, s.TakesForFalse word ↔ lowercase word ∈ s.truthy ∨ lowercase word ∈ s.falsy) ∧
      ((∀ layer ∈ local_, layer.IsBuilt) → global.IsBuilt →
        (∀ word ∈ s.truthy, s.TakesForTrue word) ∧ ∀ word ∈ s.falsy, s.TakesForFalse word) ∧
      (∀ words, s.truthy = Settings.literals words → ∀ word ∈ words, s.TakesForTrue word) ∧
      ∀ words, s.falsy = Settings.literals words → ∀ word ∈ words, s.TakesForFalse word := by
  intro s
  refine ⟨fun _ => EffectiveSettings.takesForTrue_iff, fun _ => EffectiveSettings.takesForFalse_iff,
    fun hlocal hglobal => ⟨fun word hword => ?_, fun word hword => ?_⟩,
    fun words hset word hword => ?_, fun words hset word hword => ?_⟩
  · obtain ⟨words, htruthy⟩ := (EffectiveSettings.exists_literals_resolve hlocal hglobal).1
    have hlower : lowercase word ∈ s.truthy :=
      htruthy ▸ Settings.lowercase_mem_of_mem_literals (htruthy ▸ hword)
    exact EffectiveSettings.takesForTrue_iff.2 hlower
  · obtain ⟨words, hfalsy⟩ := (EffectiveSettings.exists_literals_resolve hlocal hglobal).2
    have hlower : lowercase word ∈ s.falsy :=
      hfalsy ▸ Settings.lowercase_mem_of_mem_literals (hfalsy ▸ hword)
    exact EffectiveSettings.takesForFalse_iff.2 (.inr hlower)
  · exact EffectiveSettings.takesForTrue_iff.2 (hset ▸ Settings.lowercase_mem_literals hword)
  · exact EffectiveSettings.takesForFalse_iff.2 (.inr (hset ▸ Settings.lowercase_mem_literals hword))

/-- A word for true that a file lists with capitals is not taken, not even as it is written. -/
theorem loaded_word_not_taken :
    ∃ c, Config.load .standard "c.json" (.text "\x7b\"settings\":\x7b\"truthy\":[\"JA\"]\x7d\x7d") = .ok c ∧
      c.settings.truthy = some ["JA"] ∧
      (EffectiveSettings.resolve none c.settings).isTruthy "JA" = false ∧
      castNative (EffectiveSettings.resolve none c.settings) .bool "JA" = none := by
  have htruthy : (EffectiveSettings.resolve none { truthy := some ["JA"] }).isTruthy "JA" = false := by cbv
  have hfalsy : (EffectiveSettings.resolve none { truthy := some ["JA"] }).isFalsy "JA" = false := by cbv
  refine ⟨{ settings := { truthy := some ["JA"] } }, ?_, rfl, htruthy, ?_⟩
  · cbv
  · rw [castNative, htruthy, hfalsy, if_neg Bool.false_ne_true, if_neg Bool.false_ne_true]

end Invocation
