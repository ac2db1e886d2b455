import PuzzleLevel.CommandLine.Arguments
import PuzzleLevel.Proofs.Json.Writable

/-!
# Files as Arguments

A list of files can be given to the program as it stands if no file looks like a name, which an
absolute path never does. Then every argument is a value, the values are the files in their
order, and none of them is taken for anything else.

## Main definitions

* `checkLine`: The arguments that ask for a check of some files.
* `checkTokens`: What they give, one by one.

## Theorems

* `tokens?_values`: Arguments that are values are all positional.
* `ofArguments_checkLine`: Absolute files are checked when they are given one by one.
-/

namespace PuzzleLevel

/-- The arguments that ask for a check of some files. -/
def checkLine (strict : Bool) (files : List Path) : List String :=
  "check" :: (if strict then ["--strict"] else []) ++ files.map Path.text

/-- What they give, one by one. -/
def checkTokens (strict : Bool) (files : List Path) : List Token :=
  (if strict then [.flag "strict"] else []) ++ (files.map Path.chars).map .positional

section Tokens

variable {known : List Named}

theorem ne_dashes_of_isValue {arg : List Char} (h : Token.isValue arg = true)
    (more : List Char) : arg ≠ '-' :: '-' :: more := by
  intro he
  rw [he] at h
  exact absurd h Bool.false_ne_true

/-- Arguments that are values are all positional. -/
theorem tokens?_values {values : List (List Char)}
    (h : ∀ value ∈ values, Token.isValue value = true) :
    tokens? known values = some (values.map .positional) := by
  induction values with
  | nil => rw [tokens?, List.map_nil]
  | cons value more ih =>
      have hvalue := h value (List.mem_cons_self ..)
      rw [tokens?, if_neg (ne_dashes_of_isValue hvalue []), if_pos hvalue,
        ih fun other hother => h other (List.mem_cons_of_mem _ hother), List.map_cons]
      · rfl
      · exact ne_dashes_of_isValue hvalue

/-- In front of them a check may be asked to be strict. -/
theorem tokens?_strict (rest : List (List Char)) :
    tokens? Command.checkNames ("--strict".toList :: rest) =
      (tokens? Command.checkNames rest).map ([.flag "strict"] ++ ·) := by
  have hlong : Token.ofLong? Command.checkNames "strict".toList =
      some ([.flag "strict"], none) := by decide +kernel
  have hdashes : "--strict".toList = '-' :: '-' :: "strict".toList := by decide +kernel
  have hname : ¬ Token.isValue ('-' :: '-' :: "strict".toList) = true := Bool.false_ne_true
  have hmore : '-' :: '-' :: "strict".toList ≠ ['-', '-'] := by decide +kernel
  rw [hdashes, tokens?, if_neg hmore, if_neg hname]
  simp only [hlong]

end Tokens

section Check

variable {strict : Bool} {files : List Path}

theorem isValue_of_isAbsolute {file : Path} (h : file.isAbsolute = true) :
    Token.isValue file.chars = true := by
  rw [Path.isAbsolute, decide_eq_true_eq] at h
  rw [Token.isValue, h]
  rfl

theorem pathArgument?_of_isAbsolute {file : Path} (h : file.isAbsolute = true) :
    pathArgument? file.chars = some file := by
  rcases file with ⟨_ | ⟨c, more⟩⟩
  · exact absurd h Bool.false_ne_true
  · rfl

/-- What the arguments of a check give, one by one. -/
theorem tokens?_checkLine (habsolute : ∀ file ∈ files, file.isAbsolute = true) :
    tokens? Command.checkNames (((if strict then ["--strict"] else []) ++
        files.map Path.text).map String.toList) = some (checkTokens strict files) := by
  have hvalues : tokens? Command.checkNames ((files.map Path.text).map String.toList) =
      some ((files.map Path.chars).map .positional) := by
    have htexts : (files.map Path.text).map String.toList = files.map Path.chars := by
      rw [List.map_map]
      exact List.map_congr_left fun file _ => String.toList_ofList
    rw [htexts, tokens?_values]
    rw [List.forall_mem_map]
    exact fun file hfile => isValue_of_isAbsolute (habsolute file hfile)
  -- The flag stands in front of the files and takes nothing from them.
  cases strict with
  | false => exact hvalues
  | true =>
      simp only [if_true, List.map_cons, List.singleton_append]
      rw [tokens?_strict, hvalues]
      rfl

theorem name?_checkTokens :
    (checkTokens strict files).filterMap Token.name? = if strict then ["strict"] else [] := by
  have hfiles : ((files.map Path.chars).map Token.positional).filterMap Token.name? = [] := by
    rw [List.filterMap_map]
    exact List.filterMap_eq_nil_iff.mpr fun _ _ => rfl
  rw [checkTokens, List.filterMap_append, hfiles]
  cases strict with
  | false => rfl
  | true => rfl

theorem flag_checkTokens : (Given.mk (checkTokens strict files)).flag "strict" = strict := by
  cases strict with
  | true => rfl
  | false =>
      rw [Given.flag, List.contains_eq_mem, decide_eq_false_iff_not]
      intro hmem
      rcases List.mem_map.mp hmem with ⟨value, _, he⟩
      exact absurd he (by simp only [reduceCtorEq, not_false_eq_true])

theorem value?_checkTokens (name : String) :
    (Given.mk (checkTokens strict files)).value? name = none := by
  rw [Given.value?, List.findSome?_eq_none_iff]
  intro token htoken
  rcases List.mem_append.mp htoken with hflag | hfile
  · cases strict with
    | false => exact absurd hflag List.not_mem_nil
    | true =>
        rw [List.mem_singleton.mp hflag]
  · rcases List.mem_map.mp hfile with ⟨value, _, rfl⟩
    rfl

theorem positionals_checkTokens :
    (Given.mk (checkTokens strict files)).positionals = files.map Path.chars := by
  have hfiles : (Given.mk ((files.map Path.chars).map .positional)).positionals =
      files.map Path.chars := by
    rw [Given.positionals, List.filterMap_map]
    exact List.filterMap_some
  cases strict with
  | false => exact hfiles
  | true => exact hfiles

/-- Absolute files are checked when they are given one by one. -/
theorem ofArguments_checkLine (hne : files ≠ [])
    (habsolute : ∀ file ∈ files, file.isAbsolute = true) :
    Invocation.ofArguments (checkLine strict files) = .command (.check files strict none) := by
  have hnodup : ((checkTokens strict files).filterMap Token.name?).Nodup := by
    rw [name?_checkTokens]
    cases strict with
    | false => exact List.nodup_nil
    | true => exact List.pairwise_singleton ..
  have hcheck : Command.check? (((if strict then ["--strict"] else []) ++
      files.map Path.text).map String.toList) = some (.check files strict none) := by
    have hpaths : (files.map Path.chars).mapM pathArgument? = some files :=
      Json.mapM_map_of_mem fun file hfile => pathArgument?_of_isAbsolute (habsolute file hfile)
    rw [Command.check?, Given.ofArguments?, tokens?_checkLine habsolute]
    simp only [if_pos hnodup, Option.bind_some]
    rw [positionals_checkTokens, hpaths, Given.optional?, value?_checkTokens, flag_checkTokens]
    simp only [List.isEmpty_iff, hne, if_false]
  rw [Invocation.ofArguments, checkLine]
  simp only [List.cons_append, List.map_cons]
  rw [hcheck]
  rfl

end Check

end PuzzleLevel
