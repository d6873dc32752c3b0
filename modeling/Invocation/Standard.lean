/-
  The libraries that the program runs with.

  * `Serializer.ofJson` and `Serializer.ofYaml` read and print the formats;
  * `Libraries.standard` and `Tools.standard` gather these, the matchers of
    patterns, and the reader of command lines.
-/
import Invocation.CommandLine.Reading
import Invocation.Json.Parser
import Invocation.Json.Printer
import Invocation.Pattern.Matcher
import Invocation.Yaml.Parser
import Invocation.Yaml.Printer

namespace Invocation

/-- The reading and printing of JSON. -/
def Serializer.ofJson : Serializer where
  parse? text := (Json.read text).map Json.Tree.document
  complaint _ := "not a configuration"
  print := Json.pretty

/-- The reading and printing of YAML. -/
def Serializer.ofYaml : Serializer where
  parse? := Yaml.parse
  complaint _ := "not a configuration"
  print := Yaml.print

/-- The libraries that configurations are read, built and printed with. -/
def Libraries.standard : Libraries where
  compile text := (Matcher.ofText? text).elim (.error "not a pattern") .ok
  json := .ofJson
  yaml := .ofYaml

theorem Libraries.compile_standard {text : String} {m : Matcher} (h : Matcher.ofText? text = some m) :
    standard.compile text = .ok m := by
  simp only [standard, h, Option.elim_some]

/-- The libraries of the program. -/
def CommandLine.Tools.standard : Tools where
  toLibraries := .standard
  parse args := (Request.ofArguments args).mapError Refusal.answer

end Invocation
