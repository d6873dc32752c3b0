/-
  Settings of a dispatcher and of its commands.

  A layer sets some fields and leaves the others to the layer below it; the
  defaults are at the bottom.

  * `Settings` is a layer, `EffectiveSettings` what is in force;
  * `EffectiveSettings.resolve` takes every field from the local layer if it
    is set there, else from the global layer, else from the defaults.
-/
import Invocation.Data
import Invocation.Text.Lowercase

namespace Invocation

open Invocation.Text

/-- What happens to a call that does not match or is rejected. -/
inductive Fallback where
  /-- It gives nothing. -/
  | ignore
  /-- It gives the error. -/
  | raise
  /-- The error goes to the handler, and the call gives nothing. -/
  | handle
  deriving DecidableEq, Repr

namespace Fallback

/-- The name of a fallback. -/
def name : Fallback → String
  | ignore => "ignore"
  | raise => "raise"
  | handle => "handle"

/-- The fallback with a name. -/
def ofName? : String → Option Fallback
  | "ignore" => some ignore
  | "raise" => some raise
  | "handle" => some handle
  | _ => none

@[simp] theorem ofName?_name (f : Fallback) : ofName? f.name = some f := by cases f <;> rfl

end Fallback

/-- A receiver of errors. Two handlers are the same one if they were set as one. -/
structure Handler where
  identity : Nat
  deriving DecidableEq, Repr

/-- A layer of settings. -/
structure Settings where
  fallback : Option Fallback := none
  handler : Option Handler := none
  /-- The words for true, in ascending order. -/
  truthy : Option (List String) := none
  /-- The words for false, in ascending order. -/
  falsy : Option (List String) := none
  /-- The custom types that are tried when a type is inferred, in order. -/
  typeOrder : Option (List String) := none
  deriving DecidableEq, Repr

namespace Settings

/-- The set of words in lower case. -/
def literals (words : List String) : List String := textSet (words.map lowercase)

/-- The layer with words for true. -/
def withTruthy (s : Settings) (words : List String) : Settings := { s with truthy := literals words }

/-- The layer with words for false. -/
def withFalsy (s : Settings) (words : List String) : Settings := { s with falsy := literals words }

/-- Whether no field is set. -/
def isEmpty (s : Settings) : Bool :=
  s.fallback.isNone && s.handler.isNone && s.truthy.isNone && s.falsy.isNone && s.typeOrder.isNone

/-- The data tree of a layer: the fields that are set, without the handler. -/
def toData (s : Settings) : Data :=
  .object
    ((s.fallback.map fun f => ("fallback", Data.text f.name)).toList ++
      (s.truthy.map fun ts => ("truthy", Data.texts ts)).toList ++
      (s.falsy.map fun ts => ("falsy", Data.texts ts)).toList ++
      (s.typeOrder.map fun ts => ("types", Data.texts ts)).toList)

end Settings

/-- The words for true if none are set. -/
def defaultTruthy : List String := textSet ["true", "yes", "y", "on"]

/-- The words for false if none are set. -/
def defaultFalsy : List String := textSet ["false", "no", "n", "off"]

/-- The settings in force. -/
structure EffectiveSettings where
  fallback : Fallback := .ignore
  handler : Option Handler := none
  truthy : List String := defaultTruthy
  falsy : List String := defaultFalsy
  typeOrder : Option (List String) := none
  deriving DecidableEq, Repr

namespace EffectiveSettings

/-- The settings in force under a global layer and, if there is one, a local layer. -/
def resolve (local_ : Option Settings) (global : Settings) : EffectiveSettings where
  fallback := ((local_.bind Settings.fallback).or global.fallback).getD .ignore
  handler := (local_.bind Settings.handler).or global.handler
  truthy := ((local_.bind Settings.truthy).or global.truthy).getD defaultTruthy
  falsy := ((local_.bind Settings.falsy).or global.falsy).getD defaultFalsy
  typeOrder := (local_.bind Settings.typeOrder).or global.typeOrder

/-- The handler that errors go to: none unless the fallback is to handle them. -/
def resolvedHandler (s : EffectiveSettings) : Option Handler :=
  if s.fallback = .handle then s.handler else none

/-- Whether a token is a word for true, in any case. -/
def isTruthy (s : EffectiveSettings) (token : String) : Bool := s.truthy.contains (lowercase token)

/-- Whether a token is a word for false, in any case. -/
def isFalsy (s : EffectiveSettings) (token : String) : Bool := s.falsy.contains (lowercase token)

end EffectiveSettings

end Invocation
