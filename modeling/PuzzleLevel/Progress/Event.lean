import PuzzleLevel.Report

/-!
# Progress Events

What a running build tells whoever watches it. A build announces how many files
it found, then the start of each file, then for each file its warnings and its
end, and finally its own end. An error that stops the build takes the place of
what would have followed.

## Main definitions

* `LevelStatus`: How a file ended.
* `Event`: What a build tells.
-/

namespace PuzzleLevel

/-- How a level file ended. -/
inductive LevelStatus where
  | success
  | failed (reason : String)
  deriving DecidableEq, Repr

/-- The status that an outcome is reported with. -/
def Outcome.status : Outcome → LevelStatus
  | compiled _ => .success
  | failed reason => .failed reason

/-- What a running build tells. Durations are in milliseconds. -/
inductive Event where
  | buildStarted (total : Nat)
  | levelStarted (id : String)
  | levelCompleted (id : String) (status : LevelStatus) (milliseconds : Nat)
  | buildCompleted (success : Bool) (milliseconds succeeded failed : Nat)
  /-- Something is odd, possibly about one file. -/
  | warning (id : Option String) (message : String)
  /-- Something is wrong, possibly about one file. -/
  | error (id : Option String) (message : String)
  deriving DecidableEq, Repr

end PuzzleLevel
