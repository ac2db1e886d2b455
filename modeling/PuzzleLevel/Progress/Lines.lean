import PuzzleLevel.Json.Printer
import PuzzleLevel.Json.Reader
import PuzzleLevel.Json.Record
import PuzzleLevel.Progress.Event

/-!
# Progress for Programs

The form of progress that programs read: one compact JSON object a line, with its
keys in alphabetical order. Since a compact document holds no line feed, whatever
its strings hold, the lines of a transcript are exactly its events, and each of
them can be read back.

## Main definitions

* `Event.toJson`: An event as a document.
* `Event.line`, `Event.transcript`: Events as lines.
* `Event.ofJson?`: The event that a document stands for.
-/

namespace PuzzleLevel

namespace Event

/-- An identifier that may be missing, as a document. -/
def idJson : Option String → Json
  | some id => .text id
  | none => .null

def toJson : Event → Json
  | buildStarted total =>
    .record [("event", .text "build_started"), ("total_levels", .ofNat total)]
  | levelStarted id => .record [("event", .text "level_started"), ("id", .text id)]
  | levelCompleted id .success milliseconds =>
    .record [("duration_ms", .ofNat milliseconds), ("event", .text "level_completed"),
      ("id", .text id), ("status", .text "success")]
  | levelCompleted id (.failed reason) milliseconds =>
    .record [("duration_ms", .ofNat milliseconds), ("error", .text reason),
      ("event", .text "level_completed"), ("id", .text id), ("status", .text "failed")]
  | buildCompleted success milliseconds succeeded failed =>
    .record [("duration_ms", .ofNat milliseconds), ("event", .text "build_completed"),
      ("failed", .ofNat failed), ("succeeded", .ofNat succeeded), ("success", .bool success)]
  | warning id message =>
    .record [("event", .text "warning"), ("id", idJson id), ("message", .text message)]
  | error id message =>
    .record [("event", .text "error"), ("id", idJson id), ("message", .text message)]

def line (event : Event) : String :=
  event.toJson.compact ++ "\n"

def transcript (events : List Event) : String :=
  String.join (events.map line)

/-- The identifier that may be missing. -/
def idOfJson? : Json → Option (Option String)
  | .null => some none
  | .string (some id) => some (some id)
  | _ => none

/-- The status with the given fields. -/
def statusOf? (status : String) (reason : Option Json) : Option LevelStatus :=
  match reason with
  | none => if status = "success" then some .success else none
  | some reason => if status = "failed" then reason.text?.map .failed else none

/-- The fields that some event has. -/
def fieldNames : List String :=
  ["duration_ms", "error", "event", "failed", "id", "message", "status", "succeeded", "success",
    "total_levels"]

/-- The event with the given fields, in the order of their names. -/
def ofFields? : List (Option Json) → Option Event
  | [none, none, some event, none, none, none, none, none, none, some total] =>
    if event.text? = some "build_started" then total.nat64?.map buildStarted else none
  | [none, none, some event, none, some id, none, none, none, none, none] =>
    if event.text? = some "level_started" then id.text?.map levelStarted else none
  | [some milliseconds, reason, some event, none, some id, none, some status, none, none, none] =>
    if event.text? = some "level_completed" then
      match id.text?, status.text?.bind (statusOf? · reason), milliseconds.nat64? with
      | some id, some status, some milliseconds => some (levelCompleted id status milliseconds)
      | _, _, _ => none
    else none
  | [some milliseconds, none, some event, some failed, none, none, none, some succeeded,
      some success, none] =>
    if event.text? = some "build_completed" then
      match success.bool?, milliseconds.nat64?, succeeded.nat64?, failed.nat64? with
      | some success, some milliseconds, some succeeded, some failed =>
        some (buildCompleted success milliseconds succeeded failed)
      | _, _, _, _ => none
    else none
  | [none, none, some event, none, some id, some message, none, none, none, none] =>
    match idOfJson? id, message.text? with
    | some id, some message =>
      if event.text? = some "warning" then some (warning id message)
      else if event.text? = some "error" then some (error id message)
      else none
    | _, _ => none
  | _ => none

def ofJson? (j : Json) : Option Event :=
  (j.fields? fieldNames).bind ofFields?

def ofLine? (line : List Char) : Option Event :=
  (Json.read? line).bind ofJson?

end Event

end PuzzleLevel
