/-
  What the program answers to a command line.

  * `Answer` is the text of both outputs and the exit code: 0 if all went
    well, 1 after an error, and 2 if the command line is not well formed;
  * `Request.answer` is the answer to a request, given the contents of its
    configuration file;
  * `Tools` are the libraries of the program, and `answer` is the answer to a
    command line.
-/
import Invocation.CommandLine.Request
import Invocation.Config.Build
import Invocation.Config.File
import Invocation.Signature.Render

namespace Invocation.CommandLine

open Invocation.Text

/-- The answer to a command line. -/
structure Answer where
  code : Nat := 0
  output : String := ""
  errors : String := ""
  deriving DecidableEq, Repr

namespace Answer

/-- The answer that prints a text. -/
def print (text : String) : Answer := { output := text ++ "\n" }

/-- The answer that tells an error. -/
def fail (message : String) : Answer := { code := 1, errors := "error: " ++ message ++ "\n" }

/-- The answer to a result or an error. -/
def ofResult {α : Type} (render : α → Answer) : Except String α → Answer
  | .ok a => render a
  | .error message => fail message

end Answer

section

variable (libs : Libraries)

/-- The text of a signature in a format, without blanks at its end. -/
def signatureText (s : Signature) (format : SignatureFormat) : String :=
  let text := match format with
    | .tree => s.renderTree
    | .json => libs.json.print s.toData
    | .yaml => libs.yaml.print s.toData
  String.ofList (trimEndChars text.toList)

/-- The dispatcher of the configuration file at a path, or the wording of what went wrong. -/
def openDispatcher (path : String) (contents : FileContents) : Except String Dispatcher :=
  match Config.load libs path contents with
  | .error e => .error s!"Failed to load '{path}': {e.message}"
  | .ok config =>
    match config.dispatcher libs with
    | .error e => .error e.message
    | .ok d => .ok d

/-- The binding of a call, if the fallback lets a failure pass, or the wording of the failure. -/
def callResult (d : Dispatcher) (respectsFallback : Bool) (command line : String) :
    Except String (Option Binding) :=
  if respectsFallback then (d.dispatch command line).result.mapError CallError.message
  else ((d.resolve command line).result.map some).mapError CallError.message

/-- The text of the binding of a call, or of nothing. -/
def bindingText (binding : Option Binding) : String := binding.elim "null" fun b => libs.json.print b.toData

/-- The list of the commands of a dispatcher with their signatures, and the numbers of what it holds. -/
def listing (d : Dispatcher) : String :=
  let commandLines (c : Command) : List String :=
    c.name :: c.signatures.map fun s => "  " ++ s.source
  let count := d.commands.foldl (fun n (_, c) => n + c.signatures.length) 0
  let totals :=
    s!"Checked {d.commands.length} command(s), {count} signature(s), {d.types.types.length} custom type(s)."
  String.intercalate "\n" (d.commands.flatMap (fun (_, c) => commandLines c) ++ [totals])

/-- Words as one line. -/
def lineOf (words : List String) : String := String.intercalate " " words

/-- The answer to a request, given the contents of its configuration file. -/
def Request.answer (contents : FileContents) : Request → Answer
  | compile source format =>
    Answer.ofResult (fun s => .print (signatureText libs s format))
      ((Signature.compile source).mapError SignatureError.message)
  | tokenize words =>
    .print (libs.json.print (.list ((Token.tokenize (lineOf words)).map Token.toData)))
  | call path respectsFallback command words =>
    Answer.ofResult (fun binding => .print (bindingText libs binding))
      ((openDispatcher libs path contents).bind fun d => callResult d respectsFallback command (lineOf words))
  | check path => Answer.ofResult (fun d => .print (listing d)) (openDispatcher libs path contents)

end

/-- The libraries of the program: those that configurations call, and the one that reads command lines. -/
structure Tools extends Libraries where
  /-- The request of a command line, or the answer to a command line that asks for help or is not well
  formed. -/
  parse : List String → Except Answer Request

/-- The answer to a command line, given how files are read. -/
def answer (tools : Tools) (contentsOf : String → FileContents) (args : List String) : Answer :=
  match tools.parse args with
  | .ok request => request.answer tools.toLibraries ((request.file?.map contentsOf).getD (.text ""))
  | .error answer => answer

end Invocation.CommandLine
