import PuzzleLevel.CommandLine.Run

/-!
# The Program

The outermost layer. It takes a picture of the files that a command looks at,
asks the library for the response, prints it, and makes the changes that the
response lists. Everything that is decided is decided by the library, on the
picture.

The time that things take is measured on a rehearsal whose outcome is thrown
away, because a response cannot look at a clock while it is made.

## Main definitions

* `Picture.take`: Adds what a path leads to on the disk to a store.
* `perform`: Makes a change on the disk.
* `rehearse`: Measures how long a build takes.
* `main`: The program.
-/

namespace PuzzleLevel

namespace Picture

/-- The text of the path to a location. -/
def textOf (location : Location) : String :=
  String.ofList ('/' :: Path.joinSegments location)

/-- What stands at a location on the disk, if anything does. -/
def entry? (location : Location) : IO (Option Entry) := do
  try
    let real ← IO.FS.realPath (textOf location)
    if ← real.isDir then return some .directory
    else return some (.file (.ofBytes (← IO.FS.readBinFile real).toList))
  catch _ => return none

/-- The names in a directory on the disk. -/
def namesIn (location : Location) : IO (List (List Char)) := do
  try
    let entries ← (← IO.FS.realPath (textOf location)).readDir
    return (entries.map fun entry => entry.fileName.toList).toList
  catch _ => return []

/-- Adds what stands at a location on the disk to a store. -/
def add (store : Store) (location : Location) : IO Store := do
  match ← entry? location with
  | some entry => return store.put location entry
  | none => return store

/-- Adds what names lead to from a location, with everything on the way. -/
def along (store : Store) (location : Location) : List (List Char) → IO Store
  | [] => return store
  | name :: more => do
    if name = ['.'] then along store location more
    else if name = ['.', '.'] then along store location.dropLast more
    else
      let next := location ++ [name]
      along (← add store next) next more

/-- Adds what a path leads to on the disk to a store, and the entries of a
    directory with it. -/
def take (store : Store) (path : Path) : IO Store := do
  let start := if path.isAbsolute then [] else store.here
  let seen ← along store start (Store.steps path)
  match seen.locate path with
  | .error _ => return seen
  | .ok location =>
    if seen.find? location = some .directory then
      (← namesIn location).foldlM (fun store name => add store (location ++ [name])) seen
    else return seen

/-- A store with the working directory and nothing else. -/
def start : IO Store := do
  let here := Store.steps (.ofString (← IO.currentDir).toString)
  along { here } [] here

end Picture

/-- Makes a change on the disk. -/
def perform : Operation → IO Unit
  | .ensureDirectory directory =>
    if directory.chars.isEmpty then return else IO.FS.createDirAll directory.text
  | .write path text => IO.FS.writeFile path.text text
  | .move source target => IO.FS.rename source.text target.text
  | .remove path => do
    try IO.FS.removeFile path.text
    catch _ => return

/-- A value with the time that it takes to find it. -/
def timed {α : Type} (value : Unit → α) : IO (α × Duration) := do
  let before ← IO.monoNanosNow
  let found ← IO.lazyPure value
  let after ← IO.monoNanosNow
  return (found, ⟨after - before⟩)

/-- A machine that takes as long over a project as a rehearsal does. -/
def rehearse (project : Project) (store : Store) : IO Machine := do
  let options := project.config.compileOptions
  let files := (project.levelFiles store).toOption.getD []
  let times ← files.mapM fun file => do
    let (_, time) ← timed fun _ => compileFile store file.path options
    return (file.id, time)
  let (_, total) ← timed fun _ => (project.build {} false store).events
  return { levelTime := fun file => (times.lookup file.id).getD .zero, totalTime := total }

/-- The machine for a command. Only a build takes any time. -/
def machineFor (command : Command) (store : Store) : IO Machine :=
  match command with
  | .build arguments =>
    match arguments.project? store with
    | some project => rehearse project store
    | none => return {}
  | _ => return {}

/-- Answers a command on the disk. -/
def answer (command : Command) (args : List String) (colors : Bool) : IO Response := do
  let start ← Picture.start
  let configured ← (command.configFiles start.workingDirectory).foldlM Picture.take start
  let store ← (command.reads configured).foldlM Picture.take configured
  return run args (← machineFor command store) colors store

end PuzzleLevel

open PuzzleLevel in
def main (args : List String) : IO UInt32 := do
  let response ← match Invocation.ofArguments args with
    | .command command => answer command args (← (← IO.getStderr).isTty)
    | _ => pure (run args {} false {})
  try
    response.operations.forM perform
  catch error =>
    IO.eprintln (toString error)
    return 1
  IO.print response.output
  IO.eprint response.diagnostics
  return response.exitCode.toUInt32
