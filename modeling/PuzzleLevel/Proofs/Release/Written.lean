import PuzzleLevel.Proofs.Release.Crash

/-!
# What a Release Reports as Written

A release that is not stopped returns the paths that it has written. For the files of
the levels that can be relied on: whatever an old index lists, what a release retires is
never one of its own identifiers, so no level is removed after it was moved into place.

The index has no identifier, and nothing protects it in the same way. An old index that
lists a level called `index` makes the release remove the index that it has just moved
into place, and its path is returned all the same. A release cannot write such an old
index itself, because a level of that name and the index would share one staging place;
but the old index is a file that anything may have written. Without that identifier in
it, all paths that are returned lead to the texts that were written for them.

## Main definitions

* `Written`: What stands at the paths that a release has returned.

## Theorems

* `not_present_staged`: No staging file is left.
* `entryAt_of_leaving`: Nothing is found by the path of what leaves.
* `written_of_run_ok`: What a release that was not stopped has written.
-/

namespace PuzzleLevel

namespace Release

/-- What stands at the paths that a release has returned. -/
structure Written (release : Release) (before after : Store) (paths : List Path) : Prop where
  /-- The paths are those of the artifacts. -/
  paths_eq : paths = release.artifacts.map Artifact.path
  /-- Every level is found by the path of its identifier. -/
  level : ∀ pair ∈ release.order.zip release.index.levels,
    after.entryAt (levelPath release.directory pair.1) =
      .ok (.file (.text pair.2.toJson.indented))
  /-- The index is found by its path, if the old one did not list itself. -/
  index : indexName ∉ previousOrder before release.directory →
    after.entryAt (release.directory.child indexFileName) =
      .ok (.file (.text (release.index.document release.order).indented))
  /-- If it did, there is no index. -/
  index_removed : indexName ∈ previousOrder before release.directory →
    after.entryAt (release.directory.child indexFileName) = .error .notFound
  /-- No staging file is left. -/
  unstaged : ∀ a ∈ release.artifacts, after.present a.staged = false

section Released

variable {release : Release} {leaving : List String} {before after : Store}

theorem not_present_staged (hslash : ∀ id ∈ release.order, '/' ∉ id.toList)
    (h : Released release leaving before after) {a : Artifact} (ha : a ∈ release.artifacts) :
    after.present a.staged = false := by
  rw [artifacts_eq] at ha
  rcases List.mem_map.mp ha with ⟨c, hc, rfl⟩
  rw [Store.present]
  cases hentry : after.entryAt (Artifact.ofName release.directory c).staged with
  | error fault => rfl
  | ok entry =>
      -- What is found would stand at the staging place, where nothing is.
      have hfind := (Store.entryAt_ok_iff.mp hentry).2
      rw [place_staged after _ (noSlash_of_mem_contents hslash hc), h.keeps.place_eq] at hfind
      exact absurd ((h.unstaged c hc).symm.trans hfind)
        (by simp only [reduceCtorEq, not_false_eq_true])

theorem entryAt_of_leaving (h : Released release leaving before after) {id : String}
    (hid : id ∈ leaving) :
    after.entryAt (levelPath release.directory id) = .error .notFound := by
  rw [Store.entryAt, h.locateLeaving id hid]
  simp only []
  rw [h.gone id hid]

end Released

/-- A release that is not stopped has written every level where it says, and the index
    exactly if the old one did not list itself. It leaves no staging file. -/
theorem written_of_run_ok {release : Release} {before after : Store} {paths : List Path}
    (hslash : ∀ id ∈ release.order, '/' ∉ id.toList)
    (hlength : release.order.length = release.index.levels.length)
    (h : release.run before = (after, .ok paths)) : release.Written before after paths := by
  rcases run_ok hslash h with ⟨hreleased, hpaths⟩
  have hnames := (nodup_contents hlength).mp hreleased.nodup
  refine ⟨hpaths, fun ⟨id, level⟩ hpair => ?_, fun hlisted => ?_, fun hlisted => ?_,
    fun a ha => not_present_staged hslash hreleased ha⟩
  · -- An identifier of the release is never retired.
    refine hreleased.entryAt (c := (id, level.toJson.indented))
      (List.mem_append_left _ (List.mem_map_of_mem hpair)) fun hleaving => ?_
    exact (mem_leaving.mp hleaving).2.1 (List.of_mem_zip hpair).1
  · exact hreleased.entryAt_index fun hleaving => hlisted (mem_leaving.mp hleaving).1
  · -- The name of the index is plain, and no identifier of the release.
    have hleaving := mem_leaving.mpr ⟨hlisted, hnames.2, by decide⟩
    rw [← levelPath_indexName]
    exact entryAt_of_leaving hreleased hleaving

/-- A directory with an index that lists itself. -/
def selfListed : Store :=
  { entries := [(["out".toList], .directory),
      (["out".toList, "index.json".toList],
        .file (.text "\x7b\"order\":[\"index\"]\x7d"))] }

theorem selfListed_previousOrder :
    previousOrder selfListed oneLevel.directory = ["index"] := by decide +kernel

/-- The index that was written is gone, and its path is returned. -/
theorem selfListed_written :
    ∃ after paths, oneLevel.run selfListed = (after, .ok paths) ∧
      oneLevel.Written selfListed after paths ∧
      paths = [.ofString "out/a.json", .ofString "out/index.json"] ∧
      after.entryAt (.ofString "out/index.json") = .error .notFound := by
  have hpaths : (oneLevel.run selfListed).2 =
      .ok [.ofString "out/a.json", .ofString "out/index.json"] := by decide +kernel
  have hrun : oneLevel.run selfListed = ((oneLevel.run selfListed).1,
      .ok [.ofString "out/a.json", .ofString "out/index.json"]) := Prod.ext rfl hpaths
  have hwritten := written_of_run_ok (by decide) rfl hrun
  refine ⟨_, _, hrun, hwritten, rfl, hwritten.index_removed ?_⟩
  rw [selfListed_previousOrder]
  exact List.mem_singleton_self _

end Release

end PuzzleLevel
