import PuzzleLevel.Proofs.Discovery.Entering

/-!
# Candidates for Level Files

Whether a file is taken for a level file can be told from the store, without going through
it as discovery does: it stands directly in the directory, its name ends in a dot and a
listed extension, and its path is one that can be used. In a store whose names are good the
last is only a question of length.

A candidate is known by its name. Its path ends in the name, and the identifier is the name
without its extension.

Discovery goes over the candidates once for each extension. So it meets a candidate as often
as the candidate matches an extension, and this is what `offered` lists.

## Main definitions

* `Store.Usable`: All names in a store are names that a file system takes.
* `Store.listedPath`: The path under which a file of a directory is listed.
* `Store.Candidate`: A file is one that should be listed.
* `Store.offered`: The candidates as often as they are met.

## Theorems

* `levelId_listedPath`: The identifier of a candidate.
* `mem_offered`: What is offered is a candidate.
* `discover_eq`: Level files are collected from what is offered.
-/

namespace PuzzleLevel

namespace Config

theorem isBareExtension_of_isValid {config : Config} (h : config.isValid = true) :
    ∀ extension ∈ config.extensions, isBareExtension extension = true := by
  intro extension hextension
  by_contra hbare
  have hproblem : ConfigProblem.extension extension ∈ config.problems := by
    rw [problems]
    refine List.mem_append_right _ (List.mem_map.mpr ⟨extension, ?_, rfl⟩)
    rw [List.mem_filter, Bool.not_eq_true', Bool.eq_false_iff]
    exact ⟨hextension, hbare⟩
  rw [isValid, List.isEmpty_iff] at h
  rw [h] at hproblem
  exact absurd hproblem List.not_mem_nil

/-- No extension of a good configuration has a slash in it. -/
theorem noSlash_of_isValid {config : Config} (h : config.isValid = true) :
    ∀ extension ∈ config.extensions, '/' ∉ extension.toList := by
  intro extension hextension hslash
  have hbare := isBareExtension_of_isValid h extension hextension
  rw [isBareExtension, Bool.and_eq_true, Bool.not_eq_true'] at hbare
  exact absurd (List.any_eq_true.mpr ⟨'/', hslash, rfl⟩) (by rw [hbare.2]; decide)

end Config

namespace Store

/-- All names in a store are names that a file system takes. -/
structure Usable (store : Store) : Prop where
  named : store.Named
  /-- They have nothing in them that ends a path, and are not too long. -/
  name : ∀ pair ∈ store.entries, ∀ name ∈ pair.1,
    '\x00' ∉ name ∧ byteLength name ≤ maxNameBytes

instance (store : Store) : Decidable store.Usable :=
  decidable_of_iff (store.Named ∧ ∀ pair ∈ store.entries, ∀ name ∈ pair.1,
      '\x00' ∉ name ∧ byteLength name ≤ maxNameBytes)
    ⟨fun ⟨hnamed, hname⟩ => ⟨hnamed, hname⟩, fun h => ⟨h.named, h.name⟩⟩

/-- The path under which a file of a directory is listed. -/
def listedPath (directory : Path) (name : List Char) : Path :=
  follow (respelled directory) name

/-- A file is one that should be listed as a level file of a directory. -/
structure Candidate (store : Store) (directory : Path) (extensions : List String)
    (name : List Char) : Prop where
  /-- It is a file directly in the directory. -/
  file : ∃ content, store.find? (store.place directory ++ [name]) = some (.file content)
  /-- Its name ends in a dot and a listed extension. -/
  listed : ∃ extension ∈ extensions, '.' :: extension.toList <:+ name
  /-- Its path is not too long to be used. -/
  short : byteLength (listedPath directory name).chars < pathBytesBound

/-- The names of candidates, as often as they are met. -/
def offered (store : Store) (directory : Path) (extensions : List String) :
    List (List Char) :=
  extensions.flatMap fun extension =>
    (store.names (store.place directory)).filter fun name =>
      store.isFile (listedPath directory name) && ('.' :: extension.toList).isSuffixOf name

section Listed

variable {directory : Path} {name : List Char}

theorem exists_child_eq_listedPath (directory : Path) (name : List Char) :
    ∃ q : Path, listedPath directory name = q.child (String.ofList name) := by
  -- Which store is asked does not matter to how a path is spelled.
  rcases exists_child_eq_follow {} (respelled directory) name with ⟨q, hq, _⟩
  exact ⟨q, hq⟩

theorem lastName?_listedPath (directory : Path) (hname : Path.IsName name) :
    (listedPath directory name).lastName? = some name := by
  rcases exists_child_eq_listedPath directory name with ⟨q, hq⟩
  rw [hq, Path.lastName?_child q _ (by rwa [String.toList_ofList]), String.toList_ofList]

/-- The identifier of a file is its name without the extension. -/
theorem levelId_listedPath (directory : Path) (hname : Path.IsName name) :
    (listedPath directory name).levelId = .ok (String.ofList (Path.stem name)) := by
  rw [Path.levelId, Path.fileStem?, lastName?_listedPath directory hname]
  rfl

end Listed

/-- What is offered can be told from the name. -/
theorem mem_offered_iff {store : Store} {directory : Path} {extensions : List String}
    {name : List Char} :
    name ∈ store.offered directory extensions ↔
      (store.find? (store.place directory ++ [name])).isSome = true ∧
        store.isFile (listedPath directory name) = true ∧
        ∃ extension ∈ extensions, '.' :: extension.toList <:+ name := by
  rw [offered, List.mem_flatMap]
  simp only [List.mem_filter, Bool.and_eq_true, List.isSuffixOf_iff_suffix, mem_names]
  constructor
  · rintro ⟨extension, hextension, hname, hfile, hsuffix⟩
    exact ⟨hname, hfile, extension, hextension, hsuffix⟩
  · rintro ⟨hname, hfile, extension, hextension, hsuffix⟩
    exact ⟨extension, hextension, hname, hfile, hsuffix⟩

section Usable

variable {store : Store} (husable : store.Usable) {directory : Path}

include husable

/-- What is found in a store has a name that can be used. -/
theorem Usable.name_of_find? {location : Location} {name : List Char}
    (h : (store.find? (location ++ [name])).isSome = true) :
    Path.IsName name ∧ '\x00' ∉ name ∧ byteLength name ≤ maxNameBytes := by
  have hmem : name ∈ location ++ [name] := List.mem_append_right _ (List.mem_singleton_self name)
  refine ⟨husable.named.isName_of_find? h name hmem, ?_⟩
  rw [find?, if_neg (List.append_ne_nil_of_right_ne_nil _ (List.cons_ne_nil _ _)), entryIn?,
    Option.isSome_map, List.find?_isSome] at h
  rcases h with ⟨pair, hpair, hlocation⟩
  rw [decide_eq_true_eq] at hlocation
  exact husable.name pair hpair name (hlocation ▸ hmem)

/-- A name of a file stays one in the path under which the file is listed, if that can be
    used. -/
theorem Enters.isFile_listedPath_iff (h : store.Enters directory)
    (hfault : pathFault? (respelled directory) = none) {name : List Char}
    (hname : (store.find? (store.place directory ++ [name])).isSome = true) :
    store.isFile (listedPath directory name) = true ↔
      (∃ content, store.find? (store.place directory ++ [name]) = some (.file content)) ∧
        byteLength (listedPath directory name).chars < pathBytesBound := by
  rcases husable.name_of_find? hname with ⟨hisName, hnul, hlong⟩
  have hsublist := follow_sublist (respelled directory) hisName.noSlash
  rw [← listedPath] at hsublist
  -- Nothing else can be wrong with the path.
  have hclean : '\x00' ∉ (listedPath directory name).chars := by
    intro hmem
    rcases List.mem_append.mp (hsublist.subset hmem) with hfront | hback
    · rw [pathFault?, if_pos hfront] at hfault
      exact absurd hfault (by simp only [reduceCtorEq, not_false_eq_true])
    · rcases List.mem_cons.mp hback with hslash | hback
      · exact absurd hslash (by decide)
      · exact hnul hback
  have hne : (listedPath directory name).chars ≠ [] := by
    rcases exists_child_eq_listedPath directory name with ⟨q, hq⟩
    rw [hq]
    exact child_ne_nil q _ (by rwa [String.toList_ofList])
  have hshort : pathFault? (listedPath directory name) = none ↔
      byteLength (listedPath directory name).chars < pathBytesBound := by
    rw [pathFault?, if_neg hclean]
    by_cases hbound : pathBytesBound ≤ byteLength (listedPath directory name).chars
    · rw [if_pos hbound]
      exact iff_of_false (by simp only [reduceCtorEq, not_false_eq_true]) (Nat.not_lt_of_le hbound)
    · rw [if_neg hbound, if_neg (by rwa [List.isEmpty_iff])]
      exact iff_of_true rfl (Nat.lt_of_not_le hbound)
  rw [listedPath] at hshort ⊢
  rw [(leads_of_isDirectory h.isDirectory).isFile_follow_iff hisName, hshort, place_respelled]
  constructor
  · rintro ⟨hbound, _, hfile⟩
    exact ⟨hfile, hbound⟩
  · rintro ⟨hfile, hbound⟩
    exact ⟨hbound, hlong, hfile⟩

/-- A candidate has a name. -/
theorem Candidate.isName {extensions : List String} {name : List Char}
    (h : store.Candidate directory extensions name) : Path.IsName name := by
  rcases h.file with ⟨content, hfind⟩
  exact (husable.name_of_find? (by rw [hfind]; rfl)).1

end Usable

section Entered

variable {store : Store} {directory : Path} {extensions : List String}
  (hentry : store.entryAt directory = .ok .directory) (hlost : directory.isLost = false)

include hentry hlost

/-- In a directory whose path is not lost, what is offered is a candidate. -/
theorem mem_offered (husable : store.Usable) {name : List Char} :
    name ∈ store.offered directory extensions ↔ store.Candidate directory extensions name := by
  rcases enters_of_entryAt hentry hlost with ⟨henters, hfault⟩
  rw [mem_offered_iff]
  constructor
  · rintro ⟨hname, hfile, hlisted⟩
    rcases (henters.isFile_listedPath_iff husable hfault hname).mp hfile with ⟨hcontent, hshort⟩
    exact ⟨hcontent, hlisted, hshort⟩
  · rintro ⟨⟨content, hfind⟩, hlisted, hshort⟩
    have hname : (store.find? (store.place directory ++ [name])).isSome = true := by
      rw [hfind]
      rfl
    exact ⟨hname,
      (henters.isFile_listedPath_iff husable hfault hname).mpr ⟨⟨content, hfind⟩, hshort⟩,
      hlisted⟩

/-- Level files are collected from what is offered there. -/
theorem discover_eq (hslash : ∀ extension ∈ extensions, '/' ∉ extension.toList) :
    store.discover directory extensions =
      LevelFile.addAll [] ((store.offered directory extensions).map (listedPath directory)) := by
  rw [discover, hentry, offered, List.map_flatMap]
  exact congrArg (LevelFile.addAll []) (List.flatMap_congr fun extension hextension =>
    (enters_of_entryAt hentry hlost).1.matching_eq (hslash extension hextension))

end Entered

end Store

end PuzzleLevel
