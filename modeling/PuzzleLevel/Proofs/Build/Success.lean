import PuzzleLevel.Proofs.Build
import PuzzleLevel.Proofs.Release.Success

/-!
# When a Build of Good Levels Succeeds

A project whose level files all compile should build. Everything that discovery
knows about identifiers is used here: no two are the same, none has a slash in it,
and none has anything in it that ends a path. Of the conditions of a release there
remain three that the level files and the output directory of such a project can
still violate, and each of them makes the build fail.

A level file may be called like the index; its artifact and the index then have
one place and one staging place, and the second of the two moves finds nothing to
move. An index that is already there may list an identifier that no file can have,
and such a file cannot be removed. And a directory may be in the way.

## Main definitions

* `Project.dropped`: The identifiers whose files a build removes.

## Theorems

* `levelPath_inj`: Different identifiers have different paths.
* `build_succeeds_iff`: When a build of good levels succeeds.
-/

namespace PuzzleLevel

instance (directory : Path) (name : String) : Decidable (FitsIn directory name) :=
  inferInstanceAs (Decidable (_ ∧ _))

/-- Different identifiers have different paths. -/
theorem levelPath_inj {directory : Path} {a b : String} (ha : '/' ∉ a.toList)
    (hb : '/' ∉ b.toList) (h : levelPath directory a = levelPath directory b) : a = b := by
  have hplace := congrArg (Store.place {}) h
  rw [place_levelPath {} directory ha, place_levelPath {} directory hb] at hplace
  exact levelPlace_inj hplace

theorem nodup_levelPaths {directory : Path} {ids : List String}
    (hslash : ∀ id ∈ ids, '/' ∉ id.toList) (hnodup : ids.Nodup) :
    (ids.map (levelPath directory)).Nodup :=
  hnodup.map_on fun a ha b hb h => levelPath_inj (hslash a ha) (hslash b hb) h

namespace Release

/-- The paths of the artifacts are those of the names of a release. -/
theorem paths_artifacts {release : Release}
    (hlength : release.order.length = release.index.levels.length) :
    release.artifacts.map Artifact.path =
      (release.order ++ [indexName]).map (levelPath release.directory) := by
  rw [← names_contents hlength, artifacts_eq, List.map_map, List.map_map]
  rfl

end Release

namespace Project

/-- The identifiers that the old index lists and the level files do not have. Their
    files are removed. -/
def dropped (project : Project) (store : Store) (files : List LevelFile) : List String :=
  (previousOrder store project.outputDirectory).filter fun id =>
    !(files.map LevelFile.id).contains id && isPlainId id

section Compiled

variable {project : Project} {machine : Machine} {before : Store} {files : List LevelFile}

/-- The release of level files that all compile succeeds under the conditions that
    discovery leaves open. -/
theorem run_succeeds_of_compiled (hfiles : project.levelFiles before = .ok files)
    (hhere : before.find? before.here = some .directory)
    (hout : (before.makeDirectories project.outputDirectory.bare).2 = none)
    (hfits : NamesFit project.outputDirectory (files.map LevelFile.id ++ [indexName])
      (project.dropped before files))
    {release : Release} (hdir : release.directory = project.outputDirectory)
    (horder : release.order = files.map LevelFile.id)
    (hlength : release.index.levels.length = release.order.length) :
    (∃ outputs, (release.run before).2 = .ok outputs) ↔
      indexName ∉ files.map LevelFile.id ∧
        (∀ id ∈ project.dropped before files, '\x00' ∉ id.toList) ∧
        Unblocked (before.makeDirectories project.outputDirectory.bare).1
          (before.place project.outputDirectory) (files.map LevelFile.id ++ [indexName])
          (project.dropped before files) := by
  have hnames := Release.names_contents hlength.symm
  have hleaving : release.leaving before = project.dropped before files := by
    rw [Release.leaving, Release.retired, hdir, horder]
    rfl
  -- The release succeeds exactly if nothing is in its way; the rest is translation.
  have hsucceeds := @Release.run_succeeds_iff release before
    (by rw [horder]; exact noSlash_of_mem_levelFiles hfiles) hhere (by rw [hdir]; exact hout)
    (by rw [hdir, hnames, hleaving, horder]; exact hfits)
  rw [Release.nodup_contents hlength.symm, hnames, hleaving, horder, Release.made, Release.home,
    hdir] at hsucceeds
  rw [hsucceeds]
  constructor
  · rintro ⟨⟨_, hindex⟩, hnul, hfree⟩
    exact ⟨hindex, fun id hid => hnul id (List.mem_append_right _ hid), hfree⟩
  · rintro ⟨hindex, hnul, hfree⟩
    -- The names of level files come from paths, which hold no such character.
    refine ⟨⟨nodup_of_levelFiles hfiles, hindex⟩, fun id hid => ?_, hfree⟩
    rcases List.mem_append.mp hid with hid | hid
    · rcases List.mem_append.mp hid with hid | hid
      · exact noNul_of_mem_levelFiles hfiles id hid
      · rw [List.mem_singleton.mp hid]
        decide
    · exact hnul id hid

/-- Under these conditions the build succeeds with every level compiled. -/
theorem build_of_unblocked (hfiles : project.levelFiles before = .ok files)
    (hcompile : ∀ file ∈ files, ∃ compiled,
      compileFile before file.path project.config.compileOptions = .ok compiled)
    (hpool : machine.poolFault = none) (hhere : before.find? before.here = some .directory)
    (hout : (before.makeDirectories project.outputDirectory.bare).2 = none)
    (hfits : NamesFit project.outputDirectory (files.map LevelFile.id ++ [indexName])
      (project.dropped before files))
    (hindex : indexName ∉ files.map LevelFile.id)
    (hnul : ∀ id ∈ project.dropped before files, '\x00' ∉ id.toList)
    (hfree : Unblocked (before.makeDirectories project.outputDirectory.bare).1
      (before.place project.outputDirectory) (files.map LevelFile.id ++ [indexName])
      (project.dropped before files)) :
    ∃ report, (project.build machine false before).result = .ok report ∧
      report.isSuccess = true ∧
      report.levels.map LevelReport.id = files.map LevelFile.id ∧
      report.outputs = files.map (fun file => levelPath project.outputDirectory file.id) ++
        [project.outputDirectory.child indexFileName] ∧
      report.outputs.Nodup := by
  rcases build_of_compiled hfiles hcompile hpool with
    ⟨release, hdir, horder, hlength, hresult⟩
  have hids := noSlash_of_mem_levelFiles hfiles
  rcases (run_succeeds_of_compiled hfiles hhere hout hfits hdir horder hlength).mpr
    ⟨hindex, hnul, hfree⟩ with ⟨outputs, hok⟩
  have hrun : release.run before = ((release.run before).1, .ok outputs) := by rw [← hok]
  have houtputs := (Release.run_ok (by rw [horder]; exact hids) hrun).2
  rw [Release.paths_artifacts hlength.symm, horder, hdir] at houtputs
  rw [hok, BuildReport.released] at hresult
  refine ⟨_, hresult, isSuccess_collected.mpr hcompile, ids_collected, ?_, ?_⟩
  · rw [houtputs, List.map_append, List.map_map]
    rfl
  · rw [houtputs]
    -- Different names give different paths, since no name leads out of the directory.
    refine nodup_levelPaths (fun id hid => ?_) ?_
    · rcases List.mem_append.mp hid with hid | hid
      · exact hids id hid
      · rw [List.mem_singleton.mp hid]
        decide
    · rw [← horder, ← Release.names_contents hlength.symm, Release.nodup_contents hlength.symm,
        horder]
      exact ⟨nodup_of_levelFiles hfiles, hindex⟩

/-- A build of level files that all compile, into a directory that is there or can
    be made, and with names that are short enough, succeeds exactly if no level is
    called like the index, nothing that ends a path is in an identifier to be
    dropped, and no directory is in the way. -/
theorem build_succeeds_iff (hfiles : project.levelFiles before = .ok files)
    (hcompile : ∀ file ∈ files, ∃ compiled,
      compileFile before file.path project.config.compileOptions = .ok compiled)
    (hpool : machine.poolFault = none) (hhere : before.find? before.here = some .directory)
    (hout : (before.makeDirectories project.outputDirectory.bare).2 = none)
    (hfits : NamesFit project.outputDirectory (files.map LevelFile.id ++ [indexName])
      (project.dropped before files)) :
    (∃ report, (project.build machine false before).result = .ok report ∧
        report.isSuccess = true ∧
        report.outputs = files.map (fun file => levelPath project.outputDirectory file.id) ++
          [project.outputDirectory.child indexFileName] ∧
        report.outputs.Nodup) ↔
      indexName ∉ files.map LevelFile.id ∧
        (∀ id ∈ project.dropped before files, '\x00' ∉ id.toList) ∧
        Unblocked (before.makeDirectories project.outputDirectory.bare).1
          (before.place project.outputDirectory) (files.map LevelFile.id ++ [indexName])
          (project.dropped before files) := by
  constructor
  · rintro ⟨report, hreport, _, _, _⟩
    -- A build that succeeds is a release that succeeds.
    rcases build_of_compiled hfiles hcompile hpool with
      ⟨release, hdir, horder, hlength, hresult⟩
    rw [hreport] at hresult
    refine (run_succeeds_of_compiled hfiles hhere hout hfits hdir horder hlength).mp ?_
    cases hrun : (release.run before).2 with
    | error e =>
        rw [hrun, BuildReport.released] at hresult
        exact absurd hresult (by simp only [reduceCtorEq, not_false_eq_true])
    | ok outputs => exact ⟨outputs, rfl⟩
  · rintro ⟨hindex, hnul, hfree⟩
    rcases build_of_unblocked hfiles hcompile hpool hhere hout hfits hindex hnul hfree with
      ⟨report, hresult, hsuccess, _, houtputs, hnodup⟩
    exact ⟨report, hresult, hsuccess, houtputs, hnodup⟩

end Compiled

end Project

section OneFile

/-- A level file, and no output directory. -/
def oneFile : Store :=
  { entries := [(["levels".toList], .directory),
      (["levels".toList, "a.txt".toList], .file (.text "S\n"))] }

/-- The level file that is discovered there. -/
def oneFileFound : List LevelFile := [⟨"a", .ofString "levels/a.txt"⟩]

theorem oneFile_compiles : ∀ file ∈ oneFileFound, ∃ compiled,
    compileFile oneFile file.path outProject.config.compileOptions = .ok compiled := by
  intro file hfile
  rw [List.mem_singleton.mp hfile]
  exact ⟨⟨⟨[[.floor]], ⟨0, 0⟩⟩, ⟨[]⟩, []⟩, by decide +kernel⟩

theorem oneFile_fits : NamesFit outProject.outputDirectory
    (oneFileFound.map LevelFile.id ++ [indexName]) (outProject.dropped oneFile oneFileFound) :=
  ⟨by decide +kernel, by decide +kernel, by decide +kernel⟩

theorem oneFile_succeeds :
    outProject.levelFiles oneFile = .ok oneFileFound ∧
      (oneFile.makeDirectories outProject.outputDirectory.bare).2 = none ∧
      ((∃ report, (outProject.build {} false oneFile).result = .ok report ∧
          report.isSuccess = true ∧
          report.outputs =
            oneFileFound.map (fun file => levelPath outProject.outputDirectory file.id) ++
              [outProject.outputDirectory.child indexFileName] ∧
          report.outputs.Nodup) ↔
        indexName ∉ oneFileFound.map LevelFile.id ∧
          (∀ id ∈ outProject.dropped oneFile oneFileFound, '\x00' ∉ id.toList) ∧
          Unblocked (oneFile.makeDirectories outProject.outputDirectory.bare).1
            (oneFile.place outProject.outputDirectory)
            (oneFileFound.map LevelFile.id ++ [indexName])
            (outProject.dropped oneFile oneFileFound)) :=
  ⟨by decide +kernel, by decide +kernel,
    Project.build_succeeds_iff (by decide +kernel) oneFile_compiles rfl rfl (by decide +kernel)
      oneFile_fits⟩

-- A level that is called like the index keeps a project from building.
example : (outProject.build {} false
    { entries := [(["levels".toList], .directory),
        (["levels".toList, "index.txt".toList], .file (.text "S\n"))] }).result =
    .error (.output ⟨.ofString "out/index.json", .notFound⟩) := by decide +kernel

end OneFile

end PuzzleLevel
