/-
  Arguments of a command line.

  * `Form` says what the arguments of a command may be: options with a
    value, flags, single words, and words that take up all that follows;
  * `Form.read` sorts arguments by kind, or refuses them.

  An option and its value may be joined by an equals sign or stand one after
  the other. Where a word may begin with a hyphen, what is no option and no
  flag is a word; after `--` everything is.
-/

namespace Invocation.CommandLine

/-- An option that takes a value. -/
structure Choice where
  name : String
  accepts : String → Bool
  isRequired : Bool := false

/-- What the arguments of a command may be. -/
structure Form where
  choices : List Choice := []
  flags : List String := []
  /-- For each single word, whether it may begin with a hyphen. -/
  words : List Bool := []
  /-- Whether more words may follow. The first of them may begin with a hyphen and makes words of all that
  comes after it. -/
  takesRest : Bool := false
  /-- The least number of words. -/
  least : Nat := words.length

/-- Arguments by kind. -/
structure Arguments where
  /-- The names and values of options. -/
  options : List (String × String) := []
  flags : List String := []
  words : List String := []
  deriving DecidableEq, Repr

/-- Why arguments are not carried out. -/
inductive Refusal where
  /-- They ask for help. -/
  | help
  /-- They ask for the version of the program. -/
  | version
  /-- They have not the form of the command. -/
  | misuse
  deriving DecidableEq, Repr

/-- An argument by its hyphens. -/
inductive Shape where
  /-- Two hyphens alone. -/
  | escape
  /-- Two hyphens, a name, and a value after an equals sign. -/
  | long (name : String) (value : Option String)
  /-- One hyphen and letters. -/
  | short (letters : List Char)
  | word
  deriving DecidableEq, Repr

/-- The shape of an argument. -/
def Shape.ofText (arg : String) : Shape :=
  match arg.toList with
  | ['-', '-'] => escape
  | '-' :: '-' :: rest =>
    let value := match rest.dropWhile (· != '=') with
      | [] => none
      | _ :: value => some (String.ofList value)
    long (String.ofList (rest.takeWhile (· != '='))) value
  | ['-'] => word
  | '-' :: letters => short letters
  | _ => word

namespace Form

/-- Whether the next word may begin with a hyphen. -/
def mayBeHyphen (form : Form) (a : Arguments) : Bool := (form.words[a.words.length]?).getD form.takesRest

/-- Whether all that is required is there. -/
def isComplete (form : Form) (a : Arguments) : Bool :=
  form.least ≤ a.words.length &&
    form.choices.all fun c => !c.isRequired || (a.options.lookup c.name).isSome

/-- The arguments, if all that is required is there. -/
def finish (form : Form) (a : Arguments) : Except Refusal Arguments :=
  if form.isComplete a then .ok a else .error .misuse

/-- The arguments if all that is left are words. -/
def finishWords (form : Form) (a : Arguments) (words : List String) : Except Refusal Arguments :=
  let words := a.words ++ words
  if words.length ≤ form.words.length || form.takesRest then form.finish { a with words }
  else .error .misuse

/-- Adds the value of an option. -/
def addOption (a : Arguments) (c : Choice) (value : String) : Except Refusal Arguments :=
  if c.accepts value then .ok { a with options := a.options ++ [(c.name, value)] } else .error .misuse

/-- Reads arguments after those that have been read; `pending` is an option that waits for its value. -/
def readFrom (form : Form) (a : Arguments) (pending : Option Choice) :
    List String → Except Refusal Arguments
  | [] => if pending.isNone then form.finish a else .error .misuse
  | arg :: rest =>
    /- The argument as a value of the pending option or as a word. -/
    let asWord : Except Refusal Arguments :=
      match pending with
      | some c => (addOption a c arg).bind fun a => readFrom form a none rest
      | none =>
        if a.words.length < form.words.length then
          readFrom form { a with words := a.words ++ [arg] } none rest
        else form.finishWords a (arg :: rest)
    match Shape.ofText arg with
    | .word => asWord
    | .escape =>
      if pending.isSome then .error .misuse else form.finishWords a rest
    | .long name value =>
      match form.choices.find? (·.name == name) with
      | some c =>
        if pending.isSome || (a.options.lookup name).isSome then .error .misuse
        else
          match value with
          | some v => (addOption a c v).bind fun a => readFrom form a none rest
          | none => readFrom form a (some c) rest
      | none =>
        if form.flags.contains name || name == "help" then
          if pending.isSome || value.isSome || a.flags.contains name then .error .misuse
          else if name == "help" then .error .help
          else readFrom form { a with flags := a.flags ++ [name] } none rest
        else if form.mayBeHyphen a then asWord
        else .error .misuse
    | .short letters =>
      if form.mayBeHyphen a && letters.any (· != 'h') then asWord
      else if pending.isNone && letters.head? == some 'h' then .error .help
      else .error .misuse

/-- Reads arguments. -/
def read (form : Form) (args : List String) : Except Refusal Arguments := form.readFrom {} none args

end Form

end Invocation.CommandLine
