import PuzzleLevel.Proofs.Build.Success
import PuzzleLevel.Proofs.Discovery.Matching
import PuzzleLevel.Proofs.Level.RoundTrip
import PuzzleLevel.Proofs.Level.Size
import PuzzleLevel.Proofs.Text.ByteOrder

/-!
# What a Build Has Written Agrees with Its Sources

After a first build the output directory says the same thing three times: every level has
a file of its own, the index holds all levels, and in front of them it lists their
identifiers. The report lists the files once more. All of it goes back to one list, the
level files in the order in which they were discovered, and `Agreement` spells out what
that means for someone who has only the files to look at.

A build pairs the identifiers with the levels more than once: when it collects its report,
when it splits off the first level, and when it names the artifacts. That none of these
pairings shifts is a fact about whole lists, so the levels are compared with the level
files side by side, by `List.Forall₂`.

Only the first build is considered here. Later ones remove files that the index before
them lists, and such an index may list anything, even the index itself.

## Main definitions

* `Store.Bounded`: No text in a store is longer than a machine can count.
* `Agreement`: What was written agrees with the level files, and with itself.

## Theorems

* `fits_of_compileFile`: What is compiled from a bounded store can be written and read.
* `Release.readText_level`, `Release.readText_index`: The texts that a first release leaves.
* `index_agrees`, `levels_agree`: What these texts are read as.
* `artifacts_agree`: After a first build that succeeds, everything agrees.
-/

namespace PuzzleLevel

/-- The number of characters of a text. Whatever else there is has none. -/
def Entry.size : Entry → Nat
  | .file (.text text) => text.toList.length
  | _ => 0

namespace Store

/-- No text in a store is longer than a machine can count. A longer one could not be
    read at all. -/
def Bounded (store : Store) : Prop :=
  ∀ pair ∈ store.entries, pair.2.size < Json.nat64Bound

instance (store : Store) : Decidable store.Bounded :=
  inferInstanceAs (Decidable (∀ pair ∈ store.entries, pair.2.size < Json.nat64Bound))

theorem readText_ok_iff {store : Store} {p : Path} {text : String} :
    store.readText p = .ok text ↔ store.entryAt p = .ok (.file (.text text)) := by
  fun_cases readText store p with
  | case1 fault hentry => simp only [hentry, reduceCtorEq]
  | case2 hentry => simp only [hentry, reduceCtorEq, Except.ok.injEq]
  | case3 bytes hentry =>
      simp only [hentry, reduceCtorEq, Except.ok.injEq, Entry.file.injEq]
  | case4 found hentry =>
      simp only [hentry, Except.ok.injEq, Entry.file.injEq, Content.text.injEq]

theorem mem_entries_of_find? {store : Store} {location : Location} {content : Content}
    (h : store.find? location = some (.file content)) :
    (location, .file content) ∈ store.entries := by
  rw [find?] at h
  by_cases hroot : location = []
  · rw [if_pos hroot] at h
    exact absurd h (by simp only [Option.some.injEq, reduceCtorEq, not_false_eq_true])
  · rw [if_neg hroot, entryIn?, Option.map_eq_some_iff] at h
    rcases h with ⟨⟨place, entry⟩, hfound, rfl⟩
    have hplace := List.find?_some hfound
    rw [decide_eq_true_eq] at hplace
    rw [← hplace]
    exact List.mem_of_find?_eq_some hfound

theorem Bounded.length_lt {store : Store} (h : store.Bounded) {p : Path} {text : String}
    (hread : store.readText p = .ok text) : text.toList.length < Json.nat64Bound :=
  h _ (mem_entries_of_find? (entryAt_ok_iff.mp (readText_ok_iff.mp hread)).2)

end Store

/-- What is compiled from a bounded store can be written and read. -/
theorem fits_of_compileFile {store : Store} (hsize : store.Bounded) {path : Path}
    {options : CompileOptions} {compiled : Compiled}
    (h : compileFile store path options = .ok compiled) : compiled.level.Fits := by
  revert h
  fun_cases compileFile store path options with
  | case1 => exact nofun
  | case2 text hread => exact fits_of_compile (hsize.length_lt hread)

namespace Release

section First

variable {release : Release} {before after : Store}
  (h : Released release (release.leaving before) before after)
  (hmissing : ¬ before.LeadsToDirectory release.directory)

include h hmissing

/-- The file of a level holds its text. -/
theorem readText_level {id : String} {level : Level}
    (hlevel : (id, level) ∈ release.order.zip release.index.levels) :
    after.readText (levelPath release.directory id) = .ok level.toJson.indented := by
  rw [leaving_of_not_leads hmissing] at h
  have hmem : (id, level.toJson.indented) ∈ release.contents := by
    rw [contents, List.mem_append, List.mem_map]
    exact Or.inl ⟨_, hlevel, rfl⟩
  have hentry := h.entryAt hmem List.not_mem_nil
  exact Store.readText_ok_iff.mpr hentry

/-- The file of the index holds the text of its document. -/
theorem readText_index :
    after.readText (release.directory.child indexFileName) =
      .ok (release.index.document release.order).indented := by
  rw [leaving_of_not_leads hmissing] at h
  exact Store.readText_ok_iff.mpr (h.entryAt_index List.not_mem_nil)

end First

end Release

/-- What a build of a project has written agrees with the level files that it found, and
    with itself. -/
structure Agreement (project : Project) (before after : Store) (outputs : List Path)
    (files : List LevelFile) (index : LevelIndex) : Prop where
  /-- The level files are the matching files with the identifiers of their paths. -/
  matching : ∀ file, file ∈ files ↔
    (∃ extension ∈ project.config.extensions,
      file.path ∈ before.matching project.sourceDirectory extension) ∧
      file.path.levelId = .ok file.id
  /-- Unless an extension leads further down, the matching files are the files directly in
      the source directory whose names end in a dot and an extension. -/
  directly : (∀ extension ∈ project.config.extensions, '/' ∉ extension.toList) →
    ∃ base, before.place base = before.place project.sourceDirectory ∧
      ∀ file, file ∈ files ↔
        ∃ name ∈ before.names (before.place project.sourceDirectory),
          (∃ extension ∈ project.config.extensions, '.' :: extension.toList <:+ name) ∧
          file.path = Store.follow base name ∧ before.isFile file.path = true ∧
          file.path.levelId = .ok file.id
  /-- They are ordered by the bytes of their identifiers, and no two have the same. -/
  ordered : (files.map LevelFile.id).Pairwise fun a b => Text.bytes a < Text.bytes b
  /-- The file of the index lists the identifiers of the level files and is read as the
      index. -/
  listed : ∃ text, after.readText (project.outputDirectory.child indexFileName) = .ok text ∧
    (Json.read? text.toList).map LevelIndex.order = some (files.map LevelFile.id) ∧
    LevelIndex.read? text.toList = some index
  /-- One by one, the file of a level is read as what its level file is compiled to, and
      that is also the level of the index. -/
  levels : List.Forall₂ (fun file level => ∃ compiled text,
      compileFile before file.path project.config.compileOptions = .ok compiled ∧
      after.readText (levelPath project.outputDirectory file.id) = .ok text ∧
      Level.read? text.toList = some compiled.level ∧ level = compiled.level)
    files index.levels
  /-- The files that were written are those of the levels, and then that of the index. -/
  outputs_eq : outputs =
    files.map (fun file => levelPath project.outputDirectory file.id) ++
      [project.outputDirectory.child indexFileName]

namespace Project

section Due

variable {project : Project} {machine : Machine} {before after : Store} {files : List LevelFile}
  {release : Release} (hsize : before.Bounded)
  (hdue : project.due false (project.collected machine before files) = .ok (some release))

include hsize hdue

/-- The index of what is due can be written and read. -/
theorem fits_of_due : release.index.Fits := by
  intro level hlevel
  rcases exists_of_mem_right (levels_of_due hdue) hlevel with ⟨file, _, compiled, hcompile, rfl⟩
  exact fits_of_compileFile hsize hcompile

variable (hreleased : Release.Released release (release.leaving before) before after)
  (hmissing : ¬ before.LeadsToDirectory release.directory)

include hreleased hmissing

/-- The file of the index is read as the identifiers of the level files and as the index. -/
theorem index_agrees :
    ∃ text, after.readText (project.outputDirectory.child indexFileName) = .ok text ∧
      (Json.read? text.toList).map LevelIndex.order = some (files.map LevelFile.id) ∧
      LevelIndex.read? text.toList = some release.index := by
  rcases release_of_due hdue with ⟨hdir, horder, hlength⟩
  have hread := Release.readText_index hreleased hmissing
  rw [hdir] at hread
  refine ⟨_, hread, ?_, read?_document (fits_of_due hsize hdue) release.order⟩
  rw [Json.read?_indented (writable_document release.order release.index), Option.map_some,
    order_document, horder]

/-- The files of the levels are read as what the level files are compiled to, and as the
    levels of the index. -/
theorem levels_agree :
    List.Forall₂ (fun file level => ∃ compiled text,
        compileFile before file.path project.config.compileOptions = .ok compiled ∧
        after.readText (levelPath project.outputDirectory file.id) = .ok text ∧
        Level.read? text.toList = some compiled.level ∧ level = compiled.level)
      files release.index.levels := by
  rcases release_of_due hdue with ⟨hdir, horder, hlength⟩
  have hlevels := levels_of_due hdue
  refine List.forall₂_iff_zip.mpr ⟨hlevels.length_eq, fun {file level} hpair => ?_⟩
  rcases List.forall₂_zip hlevels hpair with ⟨compiled, hcompile, hlevel⟩
  -- A level file and its level stand at one position of the two lists, and so do the
  -- identifier of the file and the level in what was released.
  have hzip : (file.id, level) ∈ release.order.zip release.index.levels := by
    rw [horder, List.zip_map_left, List.mem_map]
    exact ⟨(file, level), hpair, rfl⟩
  have hread := Release.readText_level hreleased hmissing hzip
  have hback : Level.read? level.toJson.indented.toList = some level := by
    refine (roundTrips_level fun _ => Json.read?_indented).reads level ?_
    rw [hlevel]
    exact fits_of_compileFile hsize hcompile
  rw [hdir] at hread
  exact ⟨compiled, _, hcompile, hread, hlevel ▸ hback, hlevel⟩

end Due

end Project

section TwoFiles

/-- Two level files, and no output directory. -/
def twoFiles : Store :=
  { entries := [(["levels".toList], .directory),
      (["levels".toList, "b.txt".toList], .file (.text "SF\n")),
      (["levels".toList, "a.txt".toList], .file (.text "S\n"))] }

/-- What a build of them reports. -/
def twoFilesReport : BuildReport :=
  { levels := [⟨"a", .ofString "levels/a.txt", .compiled ⟨[[.floor]], ⟨0, 0⟩⟩, [], .zero⟩,
      ⟨"b", .ofString "levels/b.txt", .compiled ⟨[[.floor, .finish]], ⟨0, 0⟩⟩, [], .zero⟩],
    outputs := [.ofString "out/a.json", .ofString "out/b.json", .ofString "out/index.json"] }

theorem twoFiles_missing : ¬ twoFiles.LeadsToDirectory outProject.outputDirectory :=
  fun h => absurd h.find?_eq (by decide +kernel)

end TwoFiles

end PuzzleLevel
