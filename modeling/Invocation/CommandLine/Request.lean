/-
  What a command line asks for.

  * `Request` lists the commands with their arguments;
  * `Request.file?` is the configuration file that a command needs.
-/
namespace Invocation.CommandLine

/-- How a compiled signature is written. -/
inductive SignatureFormat where
  | tree
  | json
  | yaml
  deriving DecidableEq, Repr

/-- A command with its arguments. -/
inductive Request where
  /-- Show a compiled signature. -/
  | compile (source : String) (format : SignatureFormat)
  /-- Show the tokens of words. -/
  | tokenize (words : List String)
  /-- Call a command of a configuration with words. Without `respectsFallback` every failure is an error. -/
  | call (path : String) (respectsFallback : Bool) (command : String) (words : List String)
  /-- List the commands of a configuration. -/
  | check (path : String)
  deriving DecidableEq, Repr

/-- The configuration file that a request needs. -/
def Request.file? : Request → Option String
  | call path _ _ _ => some path
  | check path => some path
  | _ => none

end Invocation.CommandLine
