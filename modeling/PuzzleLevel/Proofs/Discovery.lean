import PuzzleLevel.Build
import PuzzleLevel.Proofs.Place

/-!
# What Discovery Promises

An identifier is a piece of the path of a file that can be followed, and that is
all that is known about it. It follows that there is no slash in it, because
slashes are what paths are cut at, and nothing that ends a path, because a path
with that in it leads nowhere. Anything else can stand in an identifier, dots and
backslashes not excluded.

No two level files have the same identifier, since the second one would have been
refused.

## Theorems

* `lastName?_of_levelId`: An identifier is the last name of its path.
* `addAll_perm`: Level files are collected without repetition.
* `nodup_of_levelFiles`: No identifier stands for two files.
* `noSlash_of_mem_levelFiles`: An identifier has no slash in it.
* `noNul_of_mem_levelFiles`: An identifier has nothing in it that ends a path.
-/

namespace PuzzleLevel

namespace Path

theorem mem_of_mem_stem {c : Char} {name : List Char} (h : c ∈ stem name) : c ∈ name := by
  rw [stem] at h
  by_cases hempty : ((name.reverse.dropWhile (· ≠ '.')).drop 1).isEmpty = true
  · rwa [if_pos hempty] at h
  · rw [if_neg hempty, List.mem_reverse] at h
    exact List.mem_reverse.mp ((List.dropWhile_suffix _).mem (List.mem_of_mem_drop h))

/-- The last name of a path is the last of its names, and does not go up. -/
theorem reversedNames_of_lastName? {p : Path} {name : List Char} (h : p.lastName? = some name) :
    name ≠ ['.', '.'] ∧ ∃ before, p.reversedNames = name :: before := by
  rw [lastName?] at h
  cases hnames : p.reversedNames with
  | nil =>
      rw [hnames] at h
      exact absurd h (by simp only [reduceCtorEq, not_false_eq_true])
  | cons last before =>
      rw [hnames] at h
      simp only [] at h
      by_cases hup : last = ['.', '.']
      · rw [if_pos hup] at h
        exact absurd h (by simp only [reduceCtorEq, not_false_eq_true])
      · rw [if_neg hup, Option.some.injEq] at h
        rw [← h]
        exact ⟨hup, before, rfl⟩

theorem mem_segments_of_lastName? {p : Path} {name : List Char} (h : p.lastName? = some name) :
    name ∈ segments p.rest := by
  rcases reversedNames_of_lastName? h with ⟨_, before, hnames⟩
  have hmem : name ∈ p.reversedNames := by
    rw [hnames]
    exact List.mem_cons_self ..
  exact List.mem_reverse.mp ((List.dropWhile_suffix _).mem hmem)

/-- An identifier is the last name of its path without the extension. -/
theorem lastName?_of_levelId {p : Path} {id : String} (h : p.levelId = .ok id) :
    ∃ name, p.lastName? = some name ∧ stem name = id.toList := by
  rw [levelId, fileStem?] at h
  cases hname : p.lastName? with
  | none =>
      rw [hname] at h
      exact absurd h (by simp only [Option.map_none, reduceCtorEq, not_false_eq_true])
  | some name =>
      rw [hname] at h
      simp only [Option.map_some, Except.ok.injEq] at h
      exact ⟨name, rfl, by rw [← h, String.toList_ofList]⟩

/-- An identifier is cut out of the path, and not across a slash. -/
theorem levelId_chars {p : Path} {id : String} (h : p.levelId = .ok id) :
    '/' ∉ id.toList ∧ ∀ c ∈ id.toList, c ∈ p.chars := by
  rcases lastName?_of_levelId h with ⟨name, hname, hstem⟩
  have hmem := mem_segments_of_lastName? hname
  rw [← hstem]
  refine ⟨fun hc => noSlash_of_mem_segments hmem (mem_of_mem_stem hc), fun c hc => ?_⟩
  exact List.mem_of_mem_drop (exists_mem_segments.mp ⟨_, hmem, mem_of_mem_stem hc⟩).1

end Path

namespace LevelFile

/-- Where a level file is put in does not matter to which files there are. -/
theorem insert_perm (file : LevelFile) (files : List LevelFile) :
    (insert file files).Perm (file :: files) := by
  induction files with
  | nil => exact List.Perm.refl _
  | cons first more ih =>
      rw [insert]
      by_cases hlt : file.id < first.id
      · rw [if_pos hlt]
      · rw [if_neg hlt]
        exact (ih.cons first).trans (List.Perm.swap file first more)

theorem add_perm {files after : List LevelFile} {path : Path} (h : add files path = .ok after) :
    ∃ id, path.levelId = .ok id ∧ id ∉ files.map LevelFile.id ∧
      after.Perm (⟨id, path⟩ :: files) := by
  rw [add] at h
  cases hid : path.levelId with
  | error error =>
      rw [hid] at h
      exact absurd h (by simp only [reduceCtorEq, not_false_eq_true])
  | ok id =>
      rw [hid] at h
      simp only [] at h
      cases hfind : files.find? fun file => decide (file.id = id) with
      | some other =>
          rw [hfind] at h
          exact absurd h (by simp only [reduceCtorEq, not_false_eq_true])
      | none =>
          rw [hfind] at h
          simp only [Except.ok.injEq] at h
          refine ⟨id, rfl, fun hmem => ?_, h ▸ insert_perm _ _⟩
          rcases List.mem_map.mp hmem with ⟨file, hfile, he⟩
          exact absurd (decide_eq_true he) (List.find?_eq_none.mp hfind file hfile)

/-- What is collected has no identifier twice, if it starts so, and consists of the
    given paths with their identifiers. -/
theorem addAll_perm {files after : List LevelFile} {paths : List Path}
    (h : addAll files paths = .ok after) (hnodup : (files.map LevelFile.id).Nodup) :
    (after.map LevelFile.id).Nodup ∧
      ∀ file ∈ after, file ∈ files ∨ (file.path ∈ paths ∧ file.path.levelId = .ok file.id) := by
  induction paths generalizing files with
  | nil =>
      rw [addAll, Except.ok.injEq] at h
      rw [← h]
      exact ⟨hnodup, fun file hfile => Or.inl hfile⟩
  | cons path more ih =>
      rw [addAll] at h
      cases hadd : add files path with
      | error error =>
          rw [hadd] at h
          exact absurd h (by simp only [reduceCtorEq, not_false_eq_true])
      | ok mid =>
          rw [hadd] at h
          rcases add_perm hadd with ⟨id, hid, hfresh, hperm⟩
          -- The identifier that is added is a new one, so the list stays without repeats.
          have hmid : (mid.map LevelFile.id).Nodup := by
            rw [(hperm.map LevelFile.id).nodup_iff, List.map_cons, List.nodup_cons]
            exact ⟨hfresh, hnodup⟩
          refine ⟨(ih h hmid).1, fun file hfile => ?_⟩
          rcases (ih h hmid).2 file hfile with hmem | ⟨hmem, hfound⟩
          · rcases List.mem_cons.mp (hperm.mem_iff.mp hmem) with rfl | hmem
            · exact Or.inr ⟨List.mem_cons_self .., hid⟩
            · exact Or.inl hmem
          · exact Or.inr ⟨List.mem_cons_of_mem _ hmem, hfound⟩

end LevelFile

namespace Store

theorem isFile_of_mem_matching {store : Store} {directory p : Path} {extension : String}
    (h : p ∈ store.matching directory extension) : store.isFile p = true := by
  rw [matching] at h
  by_cases hlast : extension.toList.getLast? = some '/'
  · rw [if_pos hlast] at h
    exact absurd h List.not_mem_nil
  · rw [if_neg hlast] at h
    exact (List.mem_filter.mp h).2

/-- A path that leads to a file has nothing in it that ends a path. -/
theorem noNul_of_isFile {store : Store} {p : Path} (h : store.isFile p = true) :
    '\x00' ∉ p.chars := by
  intro hnul
  have hlocate : store.locate p = .error .nulInPath := by
    rw [locate, pathFault?, if_pos hnul]
  rw [isFile, entryAt, hlocate] at h
  exact absurd h Bool.false_ne_true

theorem discover_ok {store : Store} {directory : Path} {extensions : List String}
    {files : List LevelFile} (h : store.discover directory extensions = .ok files) :
    (files.map LevelFile.id).Nodup ∧
      ∀ file ∈ files, file.path.levelId = .ok file.id ∧ store.isFile file.path = true := by
  rw [discover] at h
  cases hentry : store.entryAt directory with
  | error fault =>
      rw [hentry] at h
      exact absurd h (by simp only [reduceCtorEq, not_false_eq_true])
  | ok entry =>
      rw [hentry] at h
      cases entry with
      | file content => exact absurd h (by simp only [reduceCtorEq, not_false_eq_true])
      | directory =>
          rcases LevelFile.addAll_perm h List.nodup_nil with ⟨hnodup, hfiles⟩
          refine ⟨hnodup, fun file hfile => ?_⟩
          rcases hfiles file hfile with hmem | ⟨hmem, hid⟩
          · exact absurd hmem List.not_mem_nil
          · rcases List.mem_flatMap.mp hmem with ⟨extension, _, hmatch⟩
            exact ⟨hid, isFile_of_mem_matching hmatch⟩

end Store

namespace Project

theorem discover_of_levelFiles {project : Project} {store : Store} {files : List LevelFile}
    (h : project.levelFiles store = .ok files) :
    store.discover project.sourceDirectory project.config.extensions = .ok files ∧
      files ≠ [] := by
  rw [levelFiles] at h
  cases hfound : store.discover project.sourceDirectory project.config.extensions with
  | error error =>
      rw [hfound] at h
      exact absurd h (by simp only [reduceCtorEq, not_false_eq_true])
  | ok found =>
      rw [hfound] at h
      cases found with
      | nil => exact absurd h (by simp only [reduceCtorEq, not_false_eq_true])
      | cons first more =>
          simp only [Except.ok.injEq] at h
          rw [← h]
          exact ⟨rfl, List.cons_ne_nil _ _⟩

theorem levelFiles_of_discover {project : Project} {store : Store} {files : List LevelFile}
    (hne : files ≠ [])
    (h : store.discover project.sourceDirectory project.config.extensions = .ok files) :
    project.levelFiles store = .ok files := by
  rw [levelFiles, h]
  cases files with
  | nil => exact absurd rfl hne
  | cons first more => rfl

/-- No identifier stands for two level files. -/
theorem nodup_of_levelFiles {project : Project} {store : Store} {files : List LevelFile}
    (h : project.levelFiles store = .ok files) : (files.map LevelFile.id).Nodup :=
  (Store.discover_ok (discover_of_levelFiles h).1).1

theorem noSlash_of_mem_levelFiles {project : Project} {store : Store} {files : List LevelFile}
    (h : project.levelFiles store = .ok files) :
    ∀ id ∈ files.map LevelFile.id, '/' ∉ id.toList := by
  intro id hid
  rcases List.mem_map.mp hid with ⟨file, hfile, rfl⟩
  exact (Path.levelId_chars ((Store.discover_ok (discover_of_levelFiles h).1).2 file hfile).1).1

/-- An identifier has nothing in it that ends a path, because its file is there. -/
theorem noNul_of_mem_levelFiles {project : Project} {store : Store} {files : List LevelFile}
    (h : project.levelFiles store = .ok files) :
    ∀ id ∈ files.map LevelFile.id, '\x00' ∉ id.toList := by
  intro id hid hnul
  rcases List.mem_map.mp hid with ⟨file, hfile, rfl⟩
  rcases (Store.discover_ok (discover_of_levelFiles h).1).2 file hfile with ⟨hlevel, hisFile⟩
  exact Store.noNul_of_isFile hisFile ((Path.levelId_chars hlevel).2 _ hnul)

end Project

end PuzzleLevel
