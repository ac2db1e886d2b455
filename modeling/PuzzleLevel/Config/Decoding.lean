import PuzzleLevel.Config.Basic
import PuzzleLevel.Toml.Reader

/-!
# Reading a Configuration

A project's configuration is a TOML document with three tables. A setting that
is missing has its default, and one that is not known is passed over, but a known
one must be of the right kind: a marker is one character, and a number of workers
is not negative.

A table may also be given as the list of its settings in their order, which may
stop early and may go on, and a point in time stands for a table without any
known settings.

## Main definitions

* `Config.ofToml?`: The configuration that a document stands for.
* `Config.parse`: The configuration that a text stands for, if it is valid.
-/

namespace PuzzleLevel

namespace Toml

/-- The settings of a table by their names, each of which may be missing. -/
def settings? (names : List String) : Toml → Option (List (Option Toml))
  | table members => some (names.map fun key => member? members key.toList)
  -- What a list holds beyond the known settings is passed over.
  | array items => some (names.zipIdx.map fun (_, i) => items[i]?)
  | dateTime _ => some (names.map fun _ => none)
  | _ => none

def chars? : Toml → Option (List Char)
  | string chars => some chars
  | _ => none

def char? : Toml → Option Char
  | string [c] => some c
  | _ => none

def bool? : Toml → Option Bool
  | bool value => some value
  | _ => none

/-- The number that an integer is, unless it is negative. -/
def nat? : Toml → Option Nat
  | integer (.ofNat n) => some n
  | _ => none

def strings? : Toml → Option (List String)
  | array items => items.mapM fun item => item.chars?.map String.ofList
  | _ => none

/-- A setting of some kind, or its default when it is missing. -/
def setting? {α : Type} (kind : Toml → Option α) (default : α) : Option Toml → Option α
  | none => some default
  | some value => kind value

/-- The settings of a table that may be missing as a whole. -/
def section? (names : List String) : Option Toml → Option (List (Option Toml))
  | none => some (names.map fun _ => none)
  | some value => value.settings? names

end Toml

namespace Config

/-- The configuration with the settings of its three tables. -/
def ofSettings? (d : Config) : (project format build : List (Option Toml)) → Option Config
  | [name, source, output], [marker, extensions], [strict, jobs] =>
    match Toml.setting? (fun v => v.chars?.map String.ofList) d.name name,
      Toml.setting? (fun v => v.chars?.map Path.mk) d.source source,
      Toml.setting? (fun v => v.chars?.map Path.mk) d.output output,
      Toml.setting? Toml.char? d.startMarker marker,
      Toml.setting? Toml.strings? d.extensions extensions,
      Toml.setting? Toml.bool? d.strict strict,
      Toml.setting? Toml.nat? d.jobs jobs with
    | some name, some source, some output, some startMarker, some extensions, some strict,
        some jobs =>
      some { name, source, output, startMarker, extensions, strict, jobs }
    | _, _, _, _, _, _, _ => none
  | _, _, _ => none

/-- The configuration that a document stands for. -/
def ofToml? (members : List (List Char × Toml)) : Option Config :=
  let part (key : String) := Toml.member? members key.toList
  match Toml.section? ["name", "src", "out"] (part "project"),
    Toml.section? ["start_marker", "extensions"] (part "format"),
    Toml.section? ["strict", "jobs"] (part "build") with
  | some project, some format, some build => ofSettings? {} project format build
  | _, _, _ => none

/-- The configuration that a text stands for, if it is valid. -/
def parse (text : List Char) : Except ConfigError Config :=
  match (Toml.read? text).bind ofToml? with
  | none => .error .malformed
  | some config => config.validated

end Config

end PuzzleLevel
