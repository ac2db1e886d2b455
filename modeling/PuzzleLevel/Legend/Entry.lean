import PuzzleLevel.Legend.Line
import PuzzleLevel.Occurrences
import PuzzleLevel.Tile

/-!
# Entries of a Legend

Binding turns a legend line into a tile. Only four shapes of expression define
one: a bare name, a name with placeholders, a name with one bare word, and a
name with one call whose arguments are placeholders. The shape is judged before
any placeholder is looked up, so a badly shaped line is never blamed for a bad
reference.

## Main definitions

* `LegendEntry`: A symbol with the tile it stands for.
* `EntryFault`: Why a line defines no tile.
* `LegendLine.bind`: The entry of a line, its placeholders bound to the map.
-/

namespace PuzzleLevel

/-- A symbol with the tile it stands for. -/
structure LegendEntry where
  /-- The character that stands for the tile in the map. -/
  symbol : Char
  tile : CustomTile
  /-- The number of the defining line in its file. -/
  line : Nat
  deriving DecidableEq, Repr

/-- Why a line defines no tile: the line itself is at fault, or a reference
    from it into the map is. -/
inductive EntryFault where
  | line (fault : LineFault)
  | reference (error : ReferenceError)
  deriving DecidableEq, Repr

namespace Expr

/-- The characters that a list of arguments refers to, if all of them are
    placeholders. -/
def targets? : List Expr → Option (List Char)
  | [] => some []
  | .placeholder c :: more => (targets? more).map (c :: ·)
  | _ :: _ => none

end Expr

/-- The positions of the characters that a legend entry refers to. The leftmost
    bad reference is the one that is reported. -/
def lookupAll (rows : List (List Char)) (symbol : Char) :
    List Char → Except ReferenceError (List Position)
  | [] => .ok []
  | c :: more =>
    match lookup rows symbol c with
    | .error error => .error error
    | .ok p =>
      match lookupAll rows symbol more with
      | .error error => .error error
      | .ok ps => .ok (p :: ps)

/-- The tile with a name that triggers an action on the given characters. -/
def triggerTile (rows : List (List Char)) (symbol : Char) (name action : String)
    (targets : List Char) : Except EntryFault CustomTile :=
  match lookupAll rows symbol targets with
  | .error error => .error (.reference error)
  | .ok positions => .ok ⟨name, some (.trigger ⟨action, positions⟩)⟩

/-- What a bare word says of a tile: a direction if it names one, and otherwise
    a colour. -/
def Payload.ofWord (word : String) : Payload :=
  match Direction.ofKeyword? word with
  | some d => .direction d
  | none => .color word

/-- The tile that an expression defines for a symbol. -/
def Expr.tile (rows : List (List Char)) (symbol : Char) (e : Expr) :
    Except EntryFault CustomTile :=
  match e with
  | .placeholder _ => .error (.line (.unsupported e))
  | .name word => .ok ⟨word, none⟩
  | .call callee arguments =>
    match Expr.targets? arguments with
    -- Placeholders alone: the name is also the action. No arguments count as such.
    | some targets => triggerTile rows symbol callee callee targets
    | none =>
      match arguments with
      | [.name word] => .ok ⟨callee, some (.ofWord word)⟩
      | [.call action inner] =>
        match Expr.targets? inner with
        | some targets => triggerTile rows symbol callee action targets
        | none => .error (.line (.unsupported e))
      | _ => .error (.line (.unsupported e))

/-- The entry of a legend line, its placeholders bound to the map. -/
def LegendLine.bind (rows : List (List Char)) (line : LegendLine) :
    Except EntryFault LegendEntry :=
  match line.expr.tile rows line.symbol with
  | .error fault => .error fault
  | .ok tile => .ok ⟨line.symbol, tile, line.number⟩

end PuzzleLevel
