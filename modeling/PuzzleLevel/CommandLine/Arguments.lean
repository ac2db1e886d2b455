import PuzzleLevel.Path

/-!
# Command-Line Arguments

The arguments of the program name a command, followed by what the command needs
in any order: flags, options with a value, and positional arguments. A long name
stands after two dashes and takes its value after an equals sign or from the next
argument. Short names stand after one dash, several of them together, and the
last of these may take the rest of the argument for its value. After two bare
dashes everything is positional. A single dash is an ordinary value.

A value never looks like a name, nothing may be given twice, and no path is
empty. Arguments that break one of these rules are rejected as a whole; which
rule they broke does not matter here.

## Main definitions

* `Named`: A flag or an option that a command knows.
* `Token`, `tokens?`: What the arguments of a command give, one by one.
* `Command`: A command with its arguments.
* `Invocation`, `Invocation.ofArguments`: What a list of arguments asks for.
-/

namespace PuzzleLevel

/-- A flag or an option that a command knows. -/
structure Named where
  /-- The long name, without its dashes. -/
  long : String
  short : Option Char := none
  takesValue : Bool := false
  deriving DecidableEq, Repr

/-- What one argument gives, possibly together with the next. -/
inductive Token where
  | flag (name : String)
  | option (name : String) (value : List Char)
  | positional (value : List Char)
  deriving DecidableEq, Repr

namespace Token

/-- Whether an argument can be the value of an option. -/
def isValue (arg : List Char) : Bool :=
  arg.head? ≠ some '-' || arg = ['-']

/-- The flags and options that the letters of one argument give. What is still
    missing in the end is the name of an option that takes its value from the next
    argument. -/
def ofLetters? (known : List Named) : List Char → Option (List Token × Option String)
  | [] => some ([], none)
  | c :: rest =>
    match known.find? fun named => named.short = some c with
    | none => none
    | some named =>
      if named.takesValue then
        -- The rest of the letters is the value, if there is a rest.
        match rest with
        | [] => some ([], some named.long)
        | '=' :: value => some ([.option named.long value], none)
        | value => some ([.option named.long value], none)
      else (ofLetters? known rest).map fun (tokens, missing) => (.flag named.long :: tokens, missing)

/-- The flag or option that an argument with a long name gives, given without its
    dashes, in the same form. -/
def ofLong? (known : List Named) (arg : List Char) : Option (List Token × Option String) :=
  let name := String.ofList (arg.takeWhile (· ≠ '='))
  let value := arg.dropWhile (· ≠ '=')
  match known.find? fun named => named.long = name with
  | none => none
  | some named =>
    if named.takesValue then
      match value with
      | [] => some ([], some named.long)
      | _ :: value => some ([.option named.long value], none)
    else if value.isEmpty then some ([.flag named.long], none)
    else none

end Token

/-- What the arguments of a command give, one by one. -/
def tokens? (known : List Named) : (args : List (List Char)) → Option (List Token)
  | [] => some []
  | arg :: rest =>
    -- Behind two bare dashes nothing is a name any more.
    if arg = ['-', '-'] then some (rest.map .positional)
    else if Token.isValue arg then (tokens? known rest).map (.positional arg :: ·)
    else
      let given := match arg with
        | '-' :: '-' :: long => Token.ofLong? known long
        | _ => Token.ofLetters? known (arg.drop 1)
      match given, rest with
      -- A name that is not known, or a flag with a value.
      | none, _ => none
      | some (tokens, none), rest => (tokens? known rest).map (tokens ++ ·)
      | some (_, some _), [] => none
      | some (tokens, some name), value :: rest =>
        if Token.isValue value then
          (tokens? known rest).map (tokens ++ .option name value :: ·)
        else none
termination_by args => args.length

/-- The flags and options among tokens, by name. -/
def Token.name? : Token → Option String
  | .flag name => some name
  | .option name _ => some name
  | .positional _ => none

/-- The arguments of a command, with no flag or option given twice. -/
structure Given where
  tokens : List Token
  deriving DecidableEq, Repr

namespace Given

/-- The arguments of a command that knows the given names. -/
def ofArguments? (known : List Named) (args : List (List Char)) : Option Given :=
  match tokens? known args with
  | none => none
  | some tokens => if (tokens.filterMap Token.name?).Nodup then some ⟨tokens⟩ else none

def flag (given : Given) (name : String) : Bool :=
  given.tokens.contains (.flag name)

def value? (given : Given) (name : String) : Option (List Char) :=
  given.tokens.findSome? fun
    | .option other value => if other = name then some value else none
    | _ => none

def positionals (given : Given) : List (List Char) :=
  given.tokens.filterMap fun
    | .positional value => some value
    | _ => none

/-- The value of an option that may be missing, which has to be of a kind. -/
def optional? {α : Type} (given : Given) (name : String) (kind : List Char → Option α) :
    Option (Option α) :=
  match given.value? name with
  | none => some none
  | some value => (kind value).map some

end Given

def pathArgument? (chars : List Char) : Option Path :=
  if chars.isEmpty then none else some ⟨chars⟩

/-- The number that an argument is, with or without a plus sign, unless it needs
    more than 64 bits. -/
def countArgument? (chars : List Char) : Option Nat :=
  let digits := match chars with
    | '+' :: rest => rest
    | cs => cs
  let n := Nat.ofDigitChars 10 digits 0
  if !digits.isEmpty && digits.all Char.isDigit && n < Nat.pow 2 64 then some n else none

def charArgument? : List Char → Option Char
  | [c] => some c
  | _ => none

/-- The arguments of a build. -/
structure BuildArguments where
  source : Option Path := none
  output : Option Path := none
  config : Option Path := none
  jobs : Option Nat := none
  strict : Bool := false
  /-- Whether nothing is released. -/
  dryRun : Bool := false
  /-- Whether progress is for programs. -/
  json : Bool := false
  verbose : Bool := false
  deriving DecidableEq, Repr

/-- A command with its arguments. -/
inductive Command where
  | build (arguments : BuildArguments)
  /-- Compiles files and tells how they went. -/
  | check (files : List Path) (strict : Bool) (startMarker : Option Char)
  /-- Compiles one file and shows the level. -/
  | draw (file : Path) (json : Bool) (startMarker : Option Char)
  deriving DecidableEq, Repr

namespace Command

/-- The names that a build knows. -/
def buildNames : List Named :=
  [⟨"config", some 'c', true⟩, ⟨"jobs", some 'j', true⟩, ⟨"strict", none, false⟩,
    ⟨"dry-run", none, false⟩, ⟨"json", none, false⟩, ⟨"verbose", some 'v', false⟩]

def checkNames : List Named :=
  [⟨"strict", none, false⟩, ⟨"start-marker", none, true⟩]

def drawNames : List Named :=
  [⟨"json", none, false⟩, ⟨"start-marker", none, true⟩]

def build? (args : List (List Char)) : Option Command :=
  (Given.ofArguments? buildNames args).bind fun given =>
    match given.positionals.mapM pathArgument?, given.optional? "config" pathArgument?,
      given.optional? "jobs" countArgument? with
    | some paths, some config, some jobs =>
      if paths.length ≤ 2 then
        some (.build
          { source := paths[0]?, output := paths[1]?, config, jobs
            strict := given.flag "strict", dryRun := given.flag "dry-run"
            json := given.flag "json", verbose := given.flag "verbose" })
      else none
    | _, _, _ => none

def check? (args : List (List Char)) : Option Command :=
  (Given.ofArguments? checkNames args).bind fun given =>
    match given.positionals.mapM pathArgument?, given.optional? "start-marker" charArgument? with
    | some files, some marker =>
      if files.isEmpty then none else some (.check files (given.flag "strict") marker)
    | _, _ => none

def draw? (args : List (List Char)) : Option Command :=
  (Given.ofArguments? drawNames args).bind fun given =>
    match given.positionals.mapM pathArgument?, given.optional? "start-marker" charArgument? with
    | some [file], some marker => some (.draw file (given.flag "json") marker)
    | _, _ => none

end Command

/-- What a list of arguments asks for. -/
inductive Invocation where
  | version
  | command (command : Command)
  /-- Nothing that the program knows. -/
  | rejected
  deriving DecidableEq, Repr

namespace Invocation

/-- Whether an argument asks for the version. A short name counts also when other
    letters follow it. -/
def asksVersion (arg : List Char) : Bool :=
  arg = "--version".toList || (arg.head? = some '-' && arg[1]? = some 'V')

/-- What a list of arguments asks for. -/
def ofArguments (args : List String) : Invocation :=
  match args.map String.toList with
  | [] => .rejected
  | first :: rest =>
    let command? :=
      if first = "build".toList then Command.build? rest
      else if first = "check".toList then Command.check? rest
      else if first = "show".toList then Command.draw? rest
      else none
    if asksVersion first then .version
    else (command?.map .command).getD .rejected

end Invocation

end PuzzleLevel
