/-
  Reading command lines.

  * `Request.command?` is the form of the arguments of a command with the
    request that they make;
  * `Request.ofArguments` reads a command line, and `Refusal.answer` is the
    answer to one that makes no request.
-/
import Invocation.CommandLine.Answer
import Invocation.CommandLine.Arguments

namespace Invocation.CommandLine

/-- The format with a name. -/
def SignatureFormat.ofName? : String → Option SignatureFormat
  | "tree" => some tree
  | "json" => some json
  | "yaml" => some yaml
  | _ => none

namespace Request

/-- The arguments of `compile`. -/
def compileForm : Form where
  choices := [{ name := "format", accepts := fun v => (SignatureFormat.ofName? v).isSome }]
  words := [true]

/-- The arguments of `tokenize`. -/
def tokenizeForm : Form where
  takesRest := true
  least := 1

/-- The option that names the configuration file. -/
def configChoice : Choice where
  name := "config"
  accepts := fun v => !v.isEmpty
  isRequired := true

/-- The arguments of `match`. -/
def matchForm : Form where
  choices := [configChoice]
  flags := ["respect-fallback"]
  words := [false]
  takesRest := true

/-- The arguments of `check`. -/
def checkForm : Form where
  choices := [configChoice]

/-- The value of an option, or the empty text. -/
def optionOf (a : Arguments) (name : String) : String := (a.options.lookup name).getD ""

/-- The request of `compile` with its arguments. -/
def ofCompile (a : Arguments) : Request :=
  compile (a.words.headD "") (((a.options.lookup "format").bind SignatureFormat.ofName?).getD .tree)

/-- The request of `match` with its arguments. -/
def ofMatch (a : Arguments) : Request :=
  call (optionOf a "config") (a.flags.contains "respect-fallback") (a.words.headD "") (a.words.drop 1)

/-- The form of the arguments of a command, and the request that they make. -/
def command? : String → Option (Form × (Arguments → Request))
  | "compile" => some (compileForm, ofCompile)
  | "tokenize" => some (tokenizeForm, fun a => tokenize a.words)
  | "match" => some (matchForm, ofMatch)
  | "check" => some (checkForm, fun a => check (optionOf a "config"))
  | _ => none

/-- The request of a command line. -/
def ofArguments : List String → Except Refusal Request
  | [] => .error .misuse
  | name :: args =>
    match command? name with
    | some (form, make) => (form.read args).map make
    | none =>
      match Shape.ofText name with
      | .long "help" none => .error .help
      | .long "version" none => .error .version
      | .short ('h' :: _) => .error .help
      | .short ('V' :: _) => .error .version
      | .word =>
        if name == "help" then
          match args with
          | [] => .error .help
          | [topic] => .error (if topic == "help" || (command? topic).isSome then .help else .misuse)
          | _ => .error .misuse
        else .error .misuse
      | _ => .error .misuse

end Request

/-! ## Refusals -/

/-- How the program is used. -/
def usage : String :=
  "Compile command signatures and match input lines against them\n\n" ++
  "Usage:\n" ++
  "  sigmatch compile <SIGNATURE> [--format tree|json|yaml]\n" ++
  "  sigmatch tokenize <INPUT>...\n" ++
  "  sigmatch match --config <FILE> [--respect-fallback] <COMMAND> [INPUT]...\n" ++
  "  sigmatch check --config <FILE>\n"

/-- The answer to a command line that makes no request. -/
def Refusal.answer : Refusal → Answer
  | help => { output := usage }
  | version => .print "sigmatch 0.1.0"
  | misuse => { code := 2, errors := usage }

end Invocation.CommandLine
