import PuzzleLevel.Progress.Event

/-!
# Progress for a Console

The form of progress that people read. A console counts the files that are done
and shows each with its number, so it remembers the count and the total between
events. Starts of files are shown only to those who asked for everything. Labels
can be coloured; the colours go around the words and change nothing else.

## Main definitions

* `Console`: What a console remembers.
* `Console.report`: What it shows for an event, and what it remembers then.
* `Console.description`: What it remembers, in words.
-/

namespace PuzzleLevel

/-- A colour of a label. -/
inductive LabelColor where
  | green
  | yellow
  | red
  | cyan
  deriving DecidableEq, Repr

/-- The code of a colour in a terminal. -/
def LabelColor.code : LabelColor → String
  | .green => "\x1b[32m"
  | .yellow => "\x1b[33m"
  | .red => "\x1b[31m"
  | .cyan => "\x1b[36m"

/-- What a console remembers between events. -/
structure Console where
  colors : Bool := false
  /-- Whether starts of files are shown. -/
  verbose : Bool := false
  current : Nat := 0
  total : Nat := 0
  deriving DecidableEq, Repr

namespace Console

/-- A label in a colour, if the console has colours. -/
def painted (console : Console) (color : LabelColor) (label : String) : String :=
  if console.colors then color.code ++ label ++ "\x1b[0m" else label

/-- The word for a number of things. -/
def counted (n : Nat) (one many : String) : String :=
  if n = 1 then one else many

/-- A message with the identifier it belongs to. -/
def labelled : Option String → String → String
  | some id, message => id ++ ": " ++ message
  | none, message => message

/-- What a console shows for an event. The event of a finished file is shown with
    its own number. -/
def shown (console : Console) : Event → String
  | .buildStarted total =>
    console.painted .cyan "[build]" ++ " Compiling " ++ toString total ++ " level" ++
      counted total "" "s" ++ "...\n"
  | .levelStarted id =>
    if console.verbose then console.painted .cyan "[build]" ++ " compiling " ++ id ++ "...\n" else ""
  | .levelCompleted id status milliseconds =>
    -- A reason gets a line of its own, set in below the label.
    let (word, reason) := match status with
      | .success => (console.painted .green "ok", "")
      | .failed reason =>
        (console.painted .red "FAILED", "        " ++ console.painted .red reason ++ "\n")
    console.painted .cyan "[build]" ++ " [" ++ toString (console.current + 1) ++ "/" ++
      toString console.total ++ "] " ++ word ++ " " ++ id ++ " (" ++ briefDuration milliseconds ++
      ")\n" ++ reason
  | .buildCompleted true milliseconds succeeded _ =>
    "\n" ++ console.painted .green "[done]" ++ " " ++ toString succeeded ++ " " ++
      counted succeeded "level" "levels" ++ " compiled in " ++ briefDuration milliseconds ++ "\n"
  | .buildCompleted false milliseconds succeeded failed =>
    "\n" ++ console.painted .red "[error]" ++ " Build failed: " ++ toString succeeded ++
      " compiled, " ++ toString failed ++ " " ++ counted failed "failure" "failures" ++ " in " ++
      briefDuration milliseconds ++ "; no output written\n"
  | .warning id message =>
    console.painted .yellow "[warn]" ++ " " ++ labelled id message ++ "\n"
  | .error id message =>
    console.painted .red "[error]" ++ " " ++ labelled id message ++ "\n"

/-- What a console remembers after an event. -/
def after (console : Console) : Event → Console
  | .buildStarted total => { console with current := 0, total }
  | .levelCompleted .. => { console with current := console.current + 1 }
  | _ => console

/-- What a console shows for an event, and what it remembers then. -/
def report (console : Console) (event : Event) : Console × String :=
  (console.after event, console.shown event)

/-- What a console shows for a sequence of events. -/
def transcript (console : Console) : List Event → String
  | [] => ""
  | event :: more => console.shown event ++ transcript (console.after event) more

/-- What a console remembers, in words. -/
def description (console : Console) : String :=
  "ConsoleProgress \x7b use_colors: " ++ toString console.colors ++ ", verbose: " ++
    toString console.verbose ++ ", current: " ++ toString console.current ++ ", total: " ++
    toString console.total ++ " \x7d"

end Console

end PuzzleLevel
