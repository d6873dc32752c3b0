/-
  The program: reads its command line and the configuration file, and writes
  the answer.
-/
import Invocation.CommandLine.Answer
import Invocation.Standard

namespace Invocation.CommandLine

/-- Why a file cannot be opened or read. -/
def reasonOf : IO.Error → String
  | .noFileOrDirectory .. => "No such file or directory (os error 2)"
  | .permissionDenied .. => "Permission denied (os error 13)"
  | .inappropriateType .. => "Not a directory (os error 20)"
  | e => e.toString

/-- What becomes of reading the file at a path. -/
def readContents (path : String) : IO FileContents := do
  match ← (IO.FS.Handle.mk path .read).toBaseIO with
  | .error e => return .refused (reasonOf e)
  | .ok handle =>
    match ← handle.readToEnd.toBaseIO with
    | .ok text => return .text text
    | .error e => return .unreadable (reasonOf e)

end Invocation.CommandLine

open Invocation.CommandLine in
/-- Runs the program on its command line. -/
def main (args : List String) : IO UInt32 := do
  let answer ← match Tools.standard.parse args with
    | .error answer => pure answer
    | .ok request =>
      let contents ← match request.file? with
        | some path => readContents path
        | none => pure (.text "")
      pure (request.answer .standard contents)
  IO.print answer.output
  IO.eprint answer.errors
  return answer.code.toUInt32
