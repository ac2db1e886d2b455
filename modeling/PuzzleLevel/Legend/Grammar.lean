import PuzzleLevel.Legend.Line

/-!
# The Grammar of Legend Lines

Which texts spell which expression, said without a reader. A spelling is put
together from its parts, so blanks may stand between any two of them and nothing
is looked at twice; how far a name goes, and which of several faults is met first,
are questions that only a reader has.

An argument may carry the blanks in front of it, and the blanks behind it belong
to the list it stands in. A placeholder is two characters that stand together,
and its second one can be any visible character, a comma or a parenthesis
included.

## Main definitions

* `IsBlankText`, `IsName`: The words of the grammar.
* `Expr.Spelling`: The texts of an expression that is no placeholder.
* `LegendLine.Spelling`: The texts of a legend line.
-/

namespace PuzzleLevel

/-- A text of blanks only, possibly empty. -/
def IsBlankText (s : List Char) : Prop :=
  ∀ c ∈ s, Text.isBlank c = true

/-- A name: a letter or an underscore, then any number of letters, digits and
    underscores. -/
inductive IsName : List Char → Prop where
  | intro (c : Char) (rest : List Char) (hstart : Expr.isNameStart c = true)
      (hpart : ∀ d ∈ rest, Expr.isNamePart d = true) : IsName (c :: rest)

namespace Expr

mutual

/-- The texts of a bare name or a call. -/
inductive Spelling : List Char → Expr → Prop where
  | name (word : List Char) (hword : IsName word) : Spelling word (.name (String.ofList word))
  | callEmpty (word before inside : List Char) (hword : IsName word)
      (hbefore : IsBlankText before) (hinside : IsBlankText inside) :
      Spelling (word ++ before ++ '(' :: inside ++ [')']) (.call (String.ofList word) [])
  | call (word before inside : List Char) (arguments : List Expr) (hword : IsName word)
      (hbefore : IsBlankText before) (hinside : ListSpelling inside arguments) :
      Spelling (word ++ before ++ '(' :: inside ++ [')']) (.call (String.ofList word) arguments)

/-- The texts of an argument, with the blanks in front of it. -/
inductive ArgumentSpelling : List Char → Expr → Prop where
  | placeholder (before : List Char) (c : Char) (hbefore : IsBlankText before)
      (hvisible : Text.isBlank c = false) :
      ArgumentSpelling (before ++ ['@', c]) (.placeholder c)
  | nested (before s : List Char) (e : Expr) (hbefore : IsBlankText before)
      (hs : Spelling s e) : ArgumentSpelling (before ++ s) e

/-- The texts of a list of arguments, of which there is at least one, with the
    blanks in front of the first and behind the last. -/
inductive ListSpelling : List Char → List Expr → Prop where
  | last (s behind : List Char) (e : Expr) (hs : ArgumentSpelling s e)
      (hbehind : IsBlankText behind) : ListSpelling (s ++ behind) [e]
  /-- An argument with others behind it. -/
  | more (s behind rest : List Char) (e : Expr) (es : List Expr) (hs : ArgumentSpelling s e)
      (hbehind : IsBlankText behind) (hrest : ListSpelling rest es) :
      ListSpelling (s ++ behind ++ ',' :: rest) (e :: es)

end

end Expr

/-- The texts of a legend line without the blanks around it: a visible symbol, a
    colon and an expression. -/
inductive LegendLine.Spelling : List Char → Char → Expr → Prop where
  | intro (symbol : Char) (before inside s behind : List Char) (e : Expr)
      (hsymbol : Text.isBlank symbol = false) (hbefore : IsBlankText before)
      (hinside : IsBlankText inside) (hs : Expr.Spelling s e) (hbehind : IsBlankText behind) :
      LegendLine.Spelling (symbol :: before ++ ':' :: inside ++ s ++ behind) symbol e

end PuzzleLevel
