/-
  Configurations in files.

  * `Format.ofPath` is the format of a file: JSON if its name has the
    extension `json` in any case, else YAML;
  * `Config.ofText` and `Config.toText` are a configuration as the text of a
    file in a format, which a library reads and prints;
  * `FileContents` is what becomes of reading a file; `Config.load` is the
    configuration of a file with the given contents.
-/
import Invocation.Config.Error
import Invocation.Config.Reading
import Invocation.Libraries

namespace Invocation

/-! ## Names of files -/

/-- The last part of a path that names something. -/
def fileName? (path : String) : Option (List Char) :=
  let parts := (path.toList.splitOn '/').reverse.dropWhile fun part => part.isEmpty || part == ['.']
  parts.head?.filter (· != ['.', '.'])

/-- The characters after the last point of a name. A point in front of the whole name does not count. -/
def extension? (name : List Char) : Option (List Char) :=
  let reversed := name.reverse
  match reversed.dropWhile (· != '.') with
  | _ :: _ :: _ => some (reversed.takeWhile (· != '.')).reverse
  | _ => none

/-- The format of the file at a path. -/
def Format.ofPath (path : String) : Format :=
  match (fileName? path).bind extension? with
  | some ending => if ending.map Char.toLower = ['j', 's', 'o', 'n'] then json else yaml
  | none => yaml

/-! ## Contents of files -/

/-- The library of a format. -/
def Libraries.serializer (libs : Libraries) : Format → Serializer
  | .json => libs.json
  | .yaml => libs.yaml

namespace Config

/-- The error of a text that is no configuration in a format, for a reason. -/
def malformed : Format → String → ConfigError
  | .json => .json
  | .yaml => .yaml

/-- The configuration that a text in a format is. -/
def ofText (libs : Libraries) (format : Format) (text : String) : Except ConfigError Config :=
  match ((libs.serializer format).parse? text).bind (ofDocument? format) with
  | some c => .ok c
  | none => .error (malformed format ((libs.serializer format).complaint text))

/-- The text of a configuration in a format. -/
def toText (libs : Libraries) (format : Format) (c : Config) : String :=
  (libs.serializer format).print c.toData

end Config

/-- What becomes of reading a file. -/
inductive FileContents where
  | text (s : String)
  /-- The file is there, but no text can be read from it, for a reason. -/
  | unreadable (reason : String)
  /-- The file cannot be opened, for a reason. -/
  | refused (reason : String)
  deriving DecidableEq, Repr

/-- The configuration of the file at a path with the given contents. -/
def Config.load (libs : Libraries) (path : String) : FileContents → Except ConfigError Config
  | .text s => ofText libs (.ofPath path) s
  | .unreadable reason => .error (malformed (.ofPath path) reason)
  | .refused reason => .error (.file reason)

end Invocation
