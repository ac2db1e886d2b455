import PuzzleLevel.Proofs.Discovery.Duplicates
import PuzzleLevel.Proofs.Text.ByteOrder

/-!
# Exactly the Candidates Are Discovered

If level files are discovered at all, they are the candidates of the directory, each of them
once and in the order of the bytes of their identifiers. There is no other order to come out
of it, and so the order in which extensions are listed is of no account: whether two
identifiers are the same does not depend on it, and a list that is sorted by identifiers is
told by its members.

Two kinds of files are in the directory and are not discovered all the same. A file may be
deep down a path that is still short enough, and the path of the file is not; such a file is
no candidate. And a relative path that is empty behind its dots is lost on the way. A search
behind it does not list the names that are there, so no directory is promised to be complete
that is asked for by such a path.

## Main definitions

* `Store.DiscoversExactly`: The candidates are discovered, in order.

## Theorems

* `place_listedPath`: Where the path leads under which a file is listed.
* `eq_of_mem_iff`: Sorted level files are told by which they are.
* `discover_perm`: Extensions can be listed in any order.
* `discovers_exactly`: Exactly the candidates are discovered.
* `discovery_exceptions`: Files in a directory that are not discovered there.
-/

namespace PuzzleLevel

namespace LevelFile

/-- Level files in the order of their identifiers are told by which they are. -/
theorem eq_of_mem_iff {a b : List LevelFile} (ha : Sorted a) (hb : Sorted b)
    (h : ∀ file, file ∈ a ↔ file ∈ b) : a = b := by
  have hnodup : ∀ {files : List LevelFile}, Sorted files → files.Nodup := by
    intro files hsorted
    refine hsorted.imp ?_
    rintro file _ hlt rfl
    exact String.lt_irrefl file.id hlt
  have hperm := (List.perm_ext_iff_of_nodup (hnodup ha) (hnodup hb)).mpr h
  refine hperm.eq_of_pairwise ?_ ha hb
  exact fun x y _ _ hxy hyx => absurd (String.lt_trans hxy hyx) (String.lt_irrefl x.id)

end LevelFile

namespace Store

/-- A file is listed under a path that leads to it. -/
theorem place_listedPath (store : Store) (directory : Path) {name : List Char}
    (hname : Path.IsName name) :
    store.place (listedPath directory name) = store.place directory ++ [name] := by
  rw [listedPath, place_follow_name store _ hname, place_respelled]

theorem candidate_perm {store : Store} {directory : Path} {extensions other : List String}
    (hperm : extensions.Perm other) {name : List Char} :
    store.Candidate directory extensions name ↔ store.Candidate directory other name := by
  constructor
  · rintro ⟨hfile, ⟨extension, hextension, hsuffix⟩, hshort⟩
    exact ⟨hfile, ⟨extension, hperm.mem_iff.mp hextension, hsuffix⟩, hshort⟩
  · rintro ⟨hfile, ⟨extension, hextension, hsuffix⟩, hshort⟩
    exact ⟨hfile, ⟨extension, hperm.mem_iff.mpr hextension, hsuffix⟩, hshort⟩

section Discovered

variable {store : Store} {directory : Path} {extensions : List String} {files : List LevelFile}
  (husable : store.Usable)
  (hslash : ∀ extension ∈ extensions, '/' ∉ extension.toList)
  (h : store.discover directory extensions = .ok files)

include husable hslash h

/-- The level files of a directory are its candidates, if its path is not lost. -/
theorem mem_discover_iff_candidate (file : LevelFile) :
    file ∈ files ↔ directory.isLost = false ∧ ∃ name,
      store.Candidate directory extensions name ∧ file.path = listedPath directory name ∧
        file.path.levelId = .ok file.id := by
  have hentry := entryAt_of_discover h nofun nofun
  cases hlost : directory.isLost with
  | true =>
      rw [discover_of_isLost hentry hlost, Except.ok.injEq] at h
      rw [← h]
      simp only [List.not_mem_nil, Bool.true_eq_false, false_and]
  | false =>
      rw [discover_eq hentry hlost hslash] at h
      rw [LevelFile.mem_addAll h, List.mem_map]
      simp only [List.not_mem_nil, false_or, true_and, mem_offered hentry hlost husable]
      constructor
      · rintro ⟨⟨name, hname, hpath⟩, hid⟩
        exact ⟨name, hname, hpath.symm, hid⟩
      · rintro ⟨name, hname, hpath, hid⟩
        exact ⟨⟨name, hname, hpath.symm⟩, hid⟩

/-- No path is listed twice, since it has one identifier. -/
theorem nodup_paths : (files.map LevelFile.path).Nodup := by
  rw [List.Nodup, List.pairwise_map]
  refine (sorted_discover h).imp_of_mem fun {a b} ha hb hlt hsame => ?_
  rcases (mem_discover_iff_candidate husable hslash h a).mp ha with ⟨_, _, _, _, hida⟩
  rcases (mem_discover_iff_candidate husable hslash h b).mp hb with ⟨_, _, _, _, hidb⟩
  rw [hsame, hidb, Except.ok.injEq] at hida
  rw [hida] at hlt
  exact String.lt_irrefl a.id hlt

/-- Extensions can be listed in any order. -/
theorem discover_perm {other : List String} (hperm : extensions.Perm other) :
    store.discover directory other = .ok files := by
  have hentry := entryAt_of_discover h nofun nofun
  cases hlost : directory.isLost with
  | true =>
      rw [discover_of_isLost hentry hlost] at h ⊢
      exact h
  | false =>
      have hslash' : ∀ extension ∈ other, '/' ∉ extension.toList :=
        fun extension hextension => hslash extension (hperm.mem_iff.mpr hextension)
      -- The same names are offered, in another order.
      have hdistinct : (store.offered directory other).Pairwise fun a b =>
          (listedPath directory a).levelId ≠ (listedPath directory b).levelId := by
        rcases discover_cases husable hslash hentry hlost with
          ⟨_, _, hdistinct⟩ | ⟨_, _, _, _, _, _, herror⟩
        · exact ((hperm.flatMap_right _).pairwise_iff fun hne => Ne.symm hne).mp hdistinct
        · rw [h] at herror
          exact absurd herror (by simp only [reduceCtorEq, not_false_eq_true])
      rcases discover_cases husable hslash' hentry hlost with
        ⟨again, hagain, _⟩ | ⟨a, b, id, hpair, ha, hb, _⟩
      · rw [hagain, LevelFile.eq_of_mem_iff (sorted_discover hagain) (sorted_discover h)]
        intro file
        rw [mem_discover_iff_candidate husable hslash' hagain,
          mem_discover_iff_candidate husable hslash h]
        simp only [candidate_perm hperm]
      · exact absurd (ha.trans hb.symm) (List.pairwise_iff_forall_sublist.mp hdistinct hpair)

end Discovered

/-- The level files of a directory are its candidates, each once and in order, however the
    extensions are listed. -/
structure DiscoversExactly (store : Store) (directory : Path) (extensions : List String)
    (files : List LevelFile) : Prop where
  /-- They are the candidates, with the identifiers of their paths. What is found behind a
      path that is lost is left open. -/
  listed : directory.isLost = false → ∀ file, file ∈ files ↔ ∃ name,
    store.Candidate directory extensions name ∧ file.path = listedPath directory name ∧
      file.path.levelId = .ok file.id
  /-- They stand directly in the directory. -/
  placed : ∀ file ∈ files, ∃ name, store.place file.path = store.place directory ++ [name]
  /-- None of them is listed twice. -/
  once : (files.map LevelFile.path).Nodup
  /-- The bytes of their identifiers increase. -/
  ordered : files.Pairwise fun a b => Text.bytes a.id < Text.bytes b.id
  /-- They are the same if the extensions are listed in another order. -/
  permuted : ∀ other, extensions.Perm other → store.discover directory other = .ok files

/-- If level files are discovered, with the extensions of a good configuration, they are
    exactly the candidates of a directory whose path is not lost. -/
theorem discovers_exactly {store : Store} (husable : store.Usable) {config : Config}
    (hvalid : config.isValid = true) {directory : Path} {files : List LevelFile}
    (h : store.discover directory config.extensions = .ok files) :
    store.DiscoversExactly directory config.extensions files := by
  have hslash := Config.noSlash_of_isValid hvalid
  have hlisted := mem_discover_iff_candidate husable hslash h
  refine ⟨fun hlost file => ?_, fun file hfile => ?_, nodup_paths husable hslash h,
    (sorted_discover h).imp Text.bytes_lt, fun other => discover_perm husable hslash h⟩
  · rw [hlisted file]
    exact and_iff_right hlost
  · rcases (hlisted file).mp hfile with ⟨_, name, hcandidate, hpath, _⟩
    exact ⟨name, hpath ▸ place_listedPath store directory (hcandidate.isName husable)⟩

/-- A store with level files of two extensions in a directory, a file without a level in it
    and a directory with a name like a level file. -/
def mixed : Store where
  entries := [(["levels".toList], .directory),
    (["levels".toList, "b.txt".toList], .file (.text "S\n")),
    (["levels".toList, ".a.lvl".toList], .file (.text "S\n")),
    (["levels".toList, "txt".toList], .file (.text "S\n")),
    (["levels".toList, "c.txt".toList], .directory)]

def twoExtensions : Config where
  extensions := ["txt", "lvl"]

def mixedFiles : List LevelFile :=
  [⟨".a", .ofString "levels/.a.lvl"⟩, ⟨"b", .ofString "levels/b.txt"⟩]

theorem mixed_discovers_exactly :
    mixed.Usable ∧ twoExtensions.isValid = true ∧
      mixed.discover (.ofString "levels") twoExtensions.extensions = .ok mixedFiles ∧
      (Path.ofString "levels").isLost = false ∧
      mixed.DiscoversExactly (.ofString "levels") twoExtensions.extensions mixedFiles :=
  have hrun : mixed.discover (.ofString "levels") twoExtensions.extensions = .ok mixedFiles := by
    decide +kernel
  ⟨by decide +kernel, by decide +kernel, hrun, by decide,
    discovers_exactly (by decide +kernel) (by decide +kernel) hrun⟩

section Exceptions

/-- The longest names there are, of a directory and of a level file in it. -/
def longName : List Char := List.replicate 85 '€'

def longLevel : List Char := List.replicate 83 '€' ++ ".txt".toList

/-- A path to the directory that goes back up fourteen times. -/
def detour : Path := ⟨(List.replicate 14 (longName ++ "/../".toList)).flatten ++ longName⟩

/-- A store with a level file in that directory, and one where relative paths start. -/
def outOfReach : Store where
  entries := [([longName], .directory), ([longName, longLevel], .file (.text "S\n")),
    (["a.txt".toList], .file (.text "S\n"))]

/-- Files that are directly in a directory, have a matching name, and are not discovered: the
    path of one is too long, and the directory of the other is lost. -/
theorem discovery_exceptions :
    outOfReach.Usable ∧ ({} : Config).isValid = true ∧ ({} : Config).extensions = ["txt"] ∧
      (outOfReach.discover detour ["txt"] = .ok [] ∧
        outOfReach.find? (outOfReach.place detour ++ [longLevel]) = some (.file (.text "S\n")) ∧
        ".txt".toList <:+ longLevel) ∧
      outOfReach.discover (.ofString "./") ["txt"] = .ok [] ∧
        outOfReach.find? (outOfReach.place (.ofString "./") ++ ["a.txt".toList]) =
          some (.file (.text "S\n")) ∧
        ".txt".toList <:+ "a.txt".toList := by
  refine ⟨by decide +kernel, by decide +kernel, rfl, ⟨?_, by decide +kernel, ?_⟩,
    by decide +kernel, by decide +kernel, ⟨['a'], rfl⟩⟩
  · decide +kernel
  · exact List.suffix_append ..

end Exceptions

end Store

end PuzzleLevel
