import PuzzleLevel.Legend.Expr
import PuzzleLevel.Source
import PuzzleLevel.Text.Blank

/-!
# Reading a Legend Line

A legend line is a symbol, a colon and an expression, with blanks allowed
between any two of its parts. The reader goes from left to right over the
characters and hands on what it has not used; what it hands on is always
shorter, and that is why the recursion through the arguments of a call ends.

A name is taken as far as it goes and no further: whether a parenthesis follows
it is asked after skipping blanks, and when none does the blanks are left for
whoever reads on, who skips them again.

The first fault from the left is the one that is reported.

## Main definitions

* `LineFault`: What can be wrong with a legend line, and how it is said.
* `Expr.read`: Reads an expression that must fill its text.
* `LegendLine.read`: Reads a whole line.
-/

namespace PuzzleLevel

/-- What can be wrong with a legend line, be it its form, the shape of its
    expression, or its place in the legend. -/
inductive LineFault where
  | blank
  /-- No colon follows the symbol. -/
  | noSeparator (line : List Char)
  | noExpression
  /-- Something visible follows a complete expression. -/
  | trailing (found : Char)
  /-- Something else, or nothing, stands where a name has to. -/
  | noName (found : Option Char)
  /-- An argument is followed by neither a comma nor a closing parenthesis. -/
  | noComma (found : Char)
  /-- The line ends inside the arguments of a call. -/
  | unclosed (callee : String)
  /-- No visible character follows the sign of a placeholder. -/
  | noTarget
  | duplicate (symbol : Char) (previous : Nat)
  /-- The expression has no shape that defines a tile. -/
  | unsupported (expr : Expr)
  deriving DecidableEq, Repr

namespace LineFault

def message : LineFault → String
  | blank => "empty legend line"
  | noSeparator line =>
    "expected `<symbol>: <expression>`, missing ':' separator in '" ++ String.ofList line ++ "'"
  | noExpression => "missing expression after ':'"
  | trailing found => "unexpected '" ++ found.toString ++ "' after expression"
  | noName (some found) => "expected a name but found '" ++ found.toString ++ "'"
  | noName none => "expected a name but reached end of line"
  | noComma found => "expected ',' or ')' but found '" ++ found.toString ++ "'"
  | unclosed callee => "unclosed '(' in call to " ++ callee
  | noTarget => "'@' must be followed by a map character"
  | duplicate symbol previous =>
    "legend symbol '" ++ symbol.toString ++ "' is already defined on line " ++ toString previous
  | unsupported expr => "unsupported legend expression '" ++ expr.text ++ "'"

end LineFault

/-- What a reader gives back for a text: the value with a rest that is shorter
    than the text, or the first fault. -/
abbrev Reading (α : Type) (s : List Char) :=
  Except LineFault (α × Text.Rest s)

namespace Expr

/-- Whether a name may begin with this character. -/
def isNameStart (c : Char) : Bool :=
  c.isAlpha || c = '_'

/-- Whether a name may go on with this character. -/
def isNamePart (c : Char) : Bool :=
  c.isAlphanum || c = '_'

/-- Reads a name, which may be set off by blanks. -/
def readName (s : List Char) : Reading String s :=
  match Text.nextVisible? s with
  | none => .error (.noName none)
  | some (c, ⟨rest, h⟩) =>
    if isNameStart c then
      .ok (String.ofList (c :: rest.takeWhile isNamePart), ⟨rest.dropWhile isNamePart,
        Nat.lt_of_le_of_lt (List.dropWhile_sublist _).length_le h⟩)
    else
      .error (.noName (some c))

mutual

/-- Reads a name and the arguments that may follow it. -/
def readCall (s : List Char) : Reading Expr s :=
  match readName s with
  | .error fault => .error fault
  | .ok (callee, ⟨rest, h⟩) =>
    -- Blanks in front of a parenthesis are skipped, but handed on when there is none.
    match Text.nextVisible? rest with
    | some ('(', ⟨inner, h₁⟩) =>
      match Text.nextVisible? inner with
      | some (')', ⟨after, h₂⟩) => .ok (.call callee [], ⟨after, by omega⟩)
      | _ =>
        match readArguments callee inner with
        | .error fault => .error fault
        | .ok (arguments, ⟨after, h₂⟩) => .ok (.call callee arguments, ⟨after, by omega⟩)
    | _ => .ok (.name callee, ⟨rest, h⟩)
termination_by 3 * s.length

/-- Reads one argument: a placeholder, or a call like the outer one. -/
def readArgument (s : List Char) : Reading Expr s :=
  match Text.nextVisible? s with
  -- The target stands directly behind the sign, so no blank is skipped here.
  | some ('@', ⟨[], _⟩) => .error .noTarget
  | some ('@', ⟨c :: rest, h⟩) =>
    if Text.isBlank c then .error .noTarget
    else .ok (.placeholder c, ⟨rest, Nat.lt_trans (Nat.lt_succ_self _) h⟩)
  | _ => readCall s
termination_by 3 * s.length + 1

/-- Reads the arguments of a call up to its closing parenthesis. There is at
    least one, and a comma always announces another. -/
def readArguments (callee : String) (s : List Char) : Reading (List Expr) s :=
  match readArgument s with
  | .error fault => .error fault
  | .ok (argument, ⟨rest, h⟩) =>
    match Text.nextVisible? rest with
    | none => .error (.unclosed callee)
    | some (')', ⟨after, h₁⟩) => .ok ([argument], ⟨after, by omega⟩)
    | some (',', ⟨next, h₁⟩) =>
      -- A closing parenthesis here is no argument, so it is refused as a bad name.
      match readArguments callee next with
      | .error fault => .error fault
      | .ok (more, ⟨after, h₂⟩) => .ok (argument :: more, ⟨after, by omega⟩)
    | some (c, _) => .error (.noComma c)
termination_by 3 * s.length + 2

end

/-- Reads an expression that has to fill its text. -/
def read (s : List Char) : Except LineFault Expr :=
  match Text.nextVisible? s with
  | none => .error .noExpression
  | some _ =>
    match readCall s with
    | .error fault => .error fault
    | .ok (e, ⟨rest, _⟩) =>
      match Text.nextVisible? rest with
      | none => .ok e
      | some (c, _) => .error (.trailing c)

end Expr

/-- A legend line, read but not yet bound to the map. -/
structure LegendLine where
  /-- The character that the line defines. -/
  symbol : Char
  expr : Expr
  number : Nat
  deriving DecidableEq, Repr

namespace LegendLine

/-- Reads the symbol and the expression of a line. Any visible character can be
    the symbol, the colon included. -/
def readParts (s : List Char) : Except LineFault (Char × Expr) :=
  match Text.trim s with
  | [] => .error .blank
  | symbol :: rest =>
    match Text.trimStart rest with
    | ':' :: body => (Expr.read body).map fun e => (symbol, e)
    | _ => .error (.noSeparator (symbol :: rest))

/-- Reads a legend line. -/
def read (line : NumberedLine) : Except LineFault LegendLine :=
  (readParts line.text).map fun (symbol, expr) => ⟨symbol, expr, line.number⟩

end LegendLine

end PuzzleLevel
