/-!
# Legend Expressions

The right-hand side of a legend line is a small call tree. Its leaves are bare
names and placeholders; a placeholder `@c` stands for the place of the character
`c` in the map and means nothing before it is bound to one.

An expression has one printed form, with a comma and a space between arguments
and no other blanks. Messages quote it, and reading it gives the tree back.

## Main definitions

* `Expr`: The tree.
* `Expr.placeholders`: Its placeholders from left to right.
* `Expr.chars`, `Expr.text`: Its printed form.
-/

namespace PuzzleLevel

/-- A legend expression before its placeholders are bound. -/
inductive Expr where
  /-- The place of a character in the map, written `@c`. -/
  | placeholder (c : Char)
  | name (word : String)
  | call (callee : String) (arguments : List Expr)
  deriving Repr, Inhabited

namespace Expr

mutual

/-- Whether two expressions are the same tree. -/
def decEq : (a b : Expr) → Decidable (a = b)
  | .placeholder c, .placeholder d => decidable_of_iff (c = d) (by simp)
  | .name m, .name n => decidable_of_iff (m = n) (by simp)
  | .call m as, .call n bs =>
    match (inferInstance : Decidable (m = n)), decEqAll as bs with
    | isTrue hname, isTrue hargs => isTrue (by rw [hname, hargs])
    | isFalse hname, _ => isFalse fun h => hname (by injection h)
    | _, isFalse hargs => isFalse fun h => hargs (by injection h)
  | .placeholder _, .name _ | .placeholder _, .call _ _
  | .name _, .placeholder _ | .name _, .call _ _
  | .call _ _, .placeholder _ | .call _ _, .name _ => isFalse nofun

/-- Whether two lists of expressions are the same, tree by tree. -/
def decEqAll : (as bs : List Expr) → Decidable (as = bs)
  | [], [] => isTrue rfl
  | a :: as, b :: bs =>
    match decEq a b, decEqAll as bs with
    | isTrue hhead, isTrue htail => isTrue (by rw [hhead, htail])
    | isFalse hhead, _ => isFalse fun h => hhead (by injection h)
    | _, isFalse htail => isFalse fun h => htail (by injection h)
  | [], _ :: _ | _ :: _, [] => isFalse nofun

end

instance : DecidableEq Expr := decEq

mutual

/-- The placeholders of an expression, from left to right. -/
def placeholders : Expr → List Char
  | .placeholder c => [c]
  | .name _ => []
  | .call _ arguments => placeholdersAll arguments

/-- The placeholders of a list of expressions, from left to right. -/
def placeholdersAll : List Expr → List Char
  | [] => []
  | e :: more => placeholders e ++ placeholdersAll more

end

mutual

/-- The characters of the printed form. -/
def chars : Expr → List Char
  | .placeholder c => ['@', c]
  | .name word => word.toList
  | .call callee arguments => callee.toList ++ '(' :: charsAll arguments ++ [')']

/-- The printed arguments of a call, with a comma and a space between them. -/
def charsAll : List Expr → List Char
  | [] => []
  | [e] => chars e
  | e :: more => chars e ++ ',' :: ' ' :: charsAll more

end

def text (e : Expr) : String :=
  String.ofList e.chars

end Expr

end PuzzleLevel
