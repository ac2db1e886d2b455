import PuzzleLevel.Proofs.Build.Batch
import PuzzleLevel.Proofs.Release.Crash

/-!
# What a Build Does to Its Level Files

A build reads the level files and writes into the output directory, and nothing keeps
the two apart: the one may be the other, and an extension may be that of the artifacts.
A level file is safe all the same, unless the build writes to that very file.

What a release removes is never a level file. It removes the files of identifiers that
it does not have, and from the name of such a file its identifier can be read off again,
so a level file of that name would have given its identifier to the release. What it
writes are the artifacts and their staging files. By the same argument the only artifact
that can be put in the place of a level file is the one of that level; a staging file
can be put in the place of any level file that is called like one.

## Main definitions

* `Project.WritesOver`: A level file is where a build writes.

## Theorems

* `stem_append_json`: The identifier is read off the name of the file of a level.
* `place_of_levelId`: A level file is where the name is that gives its identifier.
* `kept_of_run`: What a release keeps, however it ends.
* `place_ne_of_leaving`: Nothing that is removed is a level file.
* `input_kept`: A build keeps every level file that it does not write over.
-/

namespace PuzzleLevel

namespace Path

/-- The identifier is read off the name of the file of a level. -/
theorem stem_append_json {cs : List Char} (h : cs ≠ []) : stem (cs ++ ".json".toList) = cs := by
  have hrest : ((cs ++ ".json".toList).reverse.dropWhile (· ≠ '.')).drop 1 = cs.reverse := by
    rw [List.reverse_append]
    rfl
  rw [stem, hrest, if_neg (by rwa [List.isEmpty_reverse, List.isEmpty_iff]), List.reverse_reverse]

theorem stem_ne_nil {name : List Char} (h : name ≠ []) : stem name ≠ [] := by
  rw [stem]
  by_cases hempty : ((name.reverse.dropWhile (· ≠ '.')).drop 1).isEmpty = true
  · rwa [if_pos hempty]
  · rw [if_neg hempty]
    rwa [List.isEmpty_iff, ← List.reverse_eq_nil_iff] at hempty

/-- The last name of a path is the last that it is followed through but for dots. -/
theorem names_of_lastName? {p : Path} {name : List Char} (h : p.lastName? = some name) :
    IsName name ∧ ∃ front dots, p.names = front ++ name :: dots ∧ ∀ d ∈ dots, d = ['.'] := by
  rcases reversedNames_of_lastName? h with ⟨hup, before, hnames⟩
  have hsilent := head_reversedNames hnames
  have hlast : [name].filter (· ≠ []) = [name] :=
    List.filter_cons_of_pos (decide_eq_true fun he => absurd hsilent (by rw [he]; decide))
  refine ⟨⟨noSlash_of_mem_segments (mem_segments_of_lastName? h), hsilent, hup⟩, ?_⟩
  rcases names_bare p with ⟨dots, hsplit, hdots⟩
  -- The bare path ends in the name, and behind it there are only dots.
  rw [bare_eq_cut, names_cut p (reversedNames_isPrefix p), hnames, List.reverse_cons,
    List.filter_append, hlast, ← List.append_assoc, List.append_assoc,
    List.singleton_append] at hsplit
  exact ⟨_, dots, hsplit, hdots⟩

/-- A level file has an identifier that is not empty. -/
theorem levelId_ne_empty {p : Path} {id : String} (h : p.levelId = .ok id) : id ≠ "" := by
  rcases lastName?_of_levelId h with ⟨name, hname, hstem⟩
  have hne : name ≠ [] := fun he =>
    absurd (names_of_lastName? hname).1.notSilent (by rw [he]; decide)
  exact fun he => stem_ne_nil hne (by rw [hstem, he]; rfl)

/-- A level file is where the name is that gives its identifier. -/
theorem place_of_levelId {p : Path} {id : String} (h : p.levelId = .ok id) (store : Store) :
    ∃ front name, store.place p = front ++ [name] ∧ stem name = id.toList := by
  rcases lastName?_of_levelId h with ⟨name, hname, hstem⟩
  rcases names_of_lastName? hname with ⟨hisName, front, dots, hnames, hdots⟩
  refine ⟨Store.resolve (store.start p) front, name, ?_, hstem⟩
  rw [Store.place, hnames, ← List.singleton_append, Store.resolve_append,
    Store.resolve_append, Store.resolve_name _ hisName, Store.resolve_dots _ hdots]

/-- A level file that is where the file of an identifier goes has that identifier. -/
theorem levelId_of_place {p : Path} {id other : String} {home : Location} {store : Store}
    (h : p.levelId = .ok id) (hother : other ≠ "")
    (hplace : store.place p = levelPlace home other) : id = other := by
  rcases place_of_levelId h store with ⟨front, name, hend, hstem⟩
  rw [hend, levelPlace] at hplace
  have hname := (List.cons.inj (List.append_inj_right' hplace rfl)).1
  have hchars : other.toList ≠ [] := fun he => hother (String.toList_eq_nil_iff.mp he)
  rw [hname, String.toList_append, stem_append_json hchars] at hstem
  exact String.toList_inj.mp hstem.symm

end Path

namespace Release

/-- However a release ends, it keeps what is neither an artifact nor a staging file nor
    to be removed, and it loses no directory. -/
theorem kept_of_run {release : Release} (hslash : ∀ id ∈ release.order, '/' ∉ id.toList)
    (before : Store) :
    before.KeepsDirectories (release.run before).1 ∧
      ∀ l, Apart (release.home before) release.contents l →
        (∀ id ∈ release.leaving before, l ≠ levelPlace (release.home before) id) →
        Store.Kept (wayTo before release.directory) before (release.run before).1 l := by
  have hcut := cut_of_prefix hslash (List.prefix_refl (release.performed before))
  rw [applyAll_performed_run] at hcut
  cases hcut with
  | staging hkept hkeeps => exact ⟨hkeeps, fun l hl _ => hkept l fun c hc => (hl c hc).2⟩
  | releasing front ids _ hfront hids _ hadvanced =>
      refine ⟨hadvanced.keeps, fun l hl hleft => hadvanced.kept l (fun c hc => (hl c hc).2) ?_ ?_⟩
      · exact fun c hc => (hl c (hfront.subset hc)).1
      · exact fun id hid => hleft id (hids.subset hid)

end Release

namespace Project

/-- A level file is where a build writes: in the place of its own artifact, or of the
    staging file of some artifact. -/
def WritesOver (project : Project) (store : Store) (files : List LevelFile) (file : LevelFile) :
    Prop :=
  store.place file.path = levelPlace (store.place project.outputDirectory) file.id ∨
    ∃ id ∈ files.map LevelFile.id ++ [indexName],
      store.place file.path = stagedPlace (store.place project.outputDirectory) id

section Input

variable {project : Project} {machine : Machine} {dryRun : Bool} {before : Store}
  {files : List LevelFile} {release : Release}

/-- Nothing that a release of level files removes is one of them. -/
theorem place_ne_of_leaving {file : LevelFile} (hlevel : file.path.levelId = .ok file.id)
    (hmem : file.id ∈ release.order) {id : String} (hid : id ∈ release.leaving before)
    (home : Location) : before.place file.path ≠ levelPlace home id := by
  rcases Release.mem_leaving.mp hid with ⟨_, hgone, hplain⟩
  have hne : id ≠ "" := fun he => absurd hplain (by rw [he]; decide)
  exact fun hplace => hgone (Path.levelId_of_place hlevel hne hplace ▸ hmem)

/-- A level file that a build does not write over is apart from what its release
    writes. -/
theorem apart_of_not_writesOver (hfiles : project.levelFiles before = .ok files)
    (hdue : project.due dryRun (project.collected machine before files) = .ok (some release))
    {file : LevelFile} (hfile : file ∈ files) (hover : ¬ project.WritesOver before files file) :
    Apart (release.home before) release.contents (before.place file.path) := by
  rcases release_of_due hdue with ⟨hdir, horder, hlength⟩
  have hlevel := (Store.discover_ok (discover_of_levelFiles hfiles).1).2
  intro c hc
  have hname : c.1 ∈ files.map LevelFile.id ++ [indexName] := by
    rw [← horder, ← Release.names_contents hlength.symm]
    exact List.mem_map_of_mem hc
  rw [Release.home, hdir]
  refine ⟨fun hplace => hover (Or.inl ?_), fun hplace => hover (Or.inr ⟨c.1, hname, hplace⟩)⟩
  -- An artifact in the place of a level file is the one of that level.
  have hne : c.1 ≠ "" := by
    rcases List.mem_append.mp hname with hid | hindex
    · rcases List.mem_map.mp hid with ⟨other, hother, he⟩
      rw [← he]
      exact Path.levelId_ne_empty (hlevel other hother).1
    · rw [List.mem_singleton.mp hindex]
      decide
  rw [Path.levelId_of_place (hlevel file hfile).1 hne hplace]
  exact hplace

/-- A release of level files keeps those that it does not write over. -/
theorem entryAt_of_run (hfiles : project.levelFiles before = .ok files)
    (hdue : project.due dryRun (project.collected machine before files) = .ok (some release))
    {file : LevelFile} (hfile : file ∈ files) (hover : ¬ project.WritesOver before files file)
    {content : Content} (hentry : before.entryAt file.path = .ok (.file content)) :
    (release.run before).1.entryAt file.path = .ok (.file content) := by
  rcases release_of_due hdue with ⟨_, horder, _⟩
  rcases Store.entryAt_ok_iff.mp hentry with ⟨hlocate, hfind⟩
  have hlevel := ((Store.discover_ok (discover_of_levelFiles hfiles).1).2 file hfile).1
  have hmem : file.id ∈ release.order := by
    rw [horder]
    exact List.mem_map_of_mem hfile
  rcases Release.kept_of_run (by rw [horder]; exact noSlash_of_mem_levelFiles hfiles) before with
    ⟨hkeeps, hkept⟩
  -- The release neither writes to the file nor removes it.
  rw [Store.entryAt_ok_iff, hkeeps.place_eq]
  exact ⟨hkeeps.locate_eq hlocate, Store.find?_of_kept
    (hkept _ (apart_of_not_writesOver hfiles hdue hfile hover)
      fun id hid => place_ne_of_leaving hlevel hmem hid _) hfind⟩

/-- Without workers a build changes nothing. -/
theorem store_of_poolFault (h : machine.poolFault ≠ none) :
    (project.build machine dryRun before).store = before := by
  rcases Option.ne_none_iff_exists'.mp h with ⟨reason, hpool⟩
  rw [build]
  cases project.levelFiles before with
  | error error => rfl
  | ok files => simp only [hpool]

/-- A build keeps every level file that it does not write over, whether it succeeds or
    not. It writes over none if it is a dry run, if a level file does not compile, or if
    there are no workers. -/
theorem input_kept (hfiles : project.levelFiles before = .ok files) {file : LevelFile}
    (hfile : file ∈ files)
    (h : ¬ project.WritesOver before files file ∨ dryRun = true ∨ machine.poolFault ≠ none ∨
      ∃ other ∈ files, ∃ error,
        compileFile before other.path project.config.compileOptions = .error error) :
    ∃ content, before.entryAt file.path = .ok (.file content) ∧
      (project.build machine dryRun before).store.entryAt file.path = .ok (.file content) := by
  have hisFile := ((Store.discover_ok (discover_of_levelFiles hfiles).1).2 file hfile).2
  rcases Store.isFile_iff.mp hisFile with ⟨content, hfound⟩
  have hentry := Store.entryAt_ok_iff.mpr hfound
  refine ⟨content, hentry, ?_⟩
  rcases h with hover | hdry | hpool | hfailure
  · -- Only here may there have been a release.
    rcases store_cases project machine dryRun before with
      hsame | ⟨found, release, hfound, hdue, hstore⟩
    · rwa [hsame]
    · rw [hfiles, Except.ok.injEq] at hfound
      rw [← hfound] at hdue
      rw [hstore]
      exact entryAt_of_run hfiles hdue hfile hover hentry
  · rwa [store_of_nothing_due fun _ _ => by rw [hdry]; exact due_of_dry _]
  · rwa [store_of_poolFault hpool]
  · rw [store_of_nothing_due fun found hfound => ?_]
    · exact hentry
    · rw [hfiles, Except.ok.injEq] at hfound
      exact due_of_failure (hfound ▸ hfailure)

end Input

end Project

section Overlap

/-- A project that builds into the directory of its level files, which have the given
    extension. -/
def overlapProject (extension : String) : Project :=
  ⟨{ output := .ofString "levels", extensions := [extension] }, .ofString ""⟩

/-- A single level file. -/
def levelAt (name : String) : Store :=
  { entries := [(["levels".toList], .directory),
      (["levels".toList, name.toList], .file (.text "S\n"))] }

instance (project : Project) (store : Store) (files : List LevelFile) (file : LevelFile) :
    Decidable (project.WritesOver store files file) :=
  inferInstanceAs (Decidable (_ ∨ _))

/-- A level file next to its artifact is kept. -/
theorem overlap_input_kept :
    (overlapProject "txt").levelFiles (levelAt "a.txt") =
        .ok [⟨"a", .ofString "levels/a.txt"⟩] ∧
      ¬ (overlapProject "txt").WritesOver (levelAt "a.txt") [⟨"a", .ofString "levels/a.txt"⟩]
        ⟨"a", .ofString "levels/a.txt"⟩ ∧
      ∃ content, (levelAt "a.txt").entryAt (.ofString "levels/a.txt") = .ok (.file content) ∧
        ((overlapProject "txt").build {} false (levelAt "a.txt")).store.entryAt
          (.ofString "levels/a.txt") = .ok (.file content) := by
  have hfiles : (overlapProject "txt").levelFiles (levelAt "a.txt") =
      .ok [⟨"a", .ofString "levels/a.txt"⟩] := by decide +kernel
  have hover : ¬ (overlapProject "txt").WritesOver (levelAt "a.txt")
      [⟨"a", .ofString "levels/a.txt"⟩] ⟨"a", .ofString "levels/a.txt"⟩ := by decide +kernel
  exact ⟨hfiles, hover,
    Project.input_kept hfiles (List.mem_singleton_self _) (Or.inl hover)⟩

/-- A build may damage a level file, though its configuration is valid: the file is
    overwritten by the artifact of its own level, or moved away because it is called like
    a staging file. -/
theorem input_exceptions :
    (¬ ∀ (project : Project) (machine : Machine) (dryRun : Bool) (before : Store)
        (files : List LevelFile), project.config.isValid = true →
        project.levelFiles before = .ok files → ∀ file ∈ files,
        ∃ content, before.entryAt file.path = .ok (.file content) ∧
          (project.build machine dryRun before).store.entryAt file.path =
            .ok (.file content)) ∧
      ¬ ∀ (project : Project) (machine : Machine) (dryRun : Bool) (before : Store)
        (files : List LevelFile), project.config.isValid = true →
        project.levelFiles before = .ok files → ∀ file ∈ files,
        before.place file.path ≠ levelPlace (before.place project.outputDirectory) file.id →
        ∃ content, before.entryAt file.path = .ok (.file content) ∧
          (project.build machine dryRun before).store.entryAt file.path =
            .ok (.file content) := by
  constructor
  · intro h
    rcases h (overlapProject "json") {} false (levelAt "a.json")
      [⟨"a", .ofString "levels/a.json"⟩] (by decide) (by decide +kernel) _
      (List.mem_singleton_self _) with ⟨content, hbefore, hafter⟩
    have hsame : ((overlapProject "json").build {} false (levelAt "a.json")).store.entryAt
        (.ofString "levels/a.json") = (levelAt "a.json").entryAt (.ofString "levels/a.json") :=
      hafter.trans hbefore.symm
    exact absurd hsame (by decide +kernel)
  · intro h
    rcases h (overlapProject "tmp") {} false (levelAt ".index.json.tmp")
      [⟨".index.json", .ofString "levels/.index.json.tmp"⟩] (by decide) (by decide +kernel) _
      (List.mem_singleton_self _) (by decide +kernel) with ⟨content, hbefore, hafter⟩
    have hsame : ((overlapProject "tmp").build {} false (levelAt ".index.json.tmp")).store.entryAt
        (.ofString "levels/.index.json.tmp") =
          (levelAt ".index.json.tmp").entryAt (.ofString "levels/.index.json.tmp") :=
      hafter.trans hbefore.symm
    exact absurd hsame (by decide +kernel)

end Overlap

end PuzzleLevel
