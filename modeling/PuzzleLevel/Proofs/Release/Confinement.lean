import PuzzleLevel.Proofs.Release.Crash

/-!
# How Far a Release Reaches

An old index is a file that anything may have written, and it decides what a release
removes. Whatever it lists, a release cannot be made to write or remove anything but the
files of its own names, their staging files, and files directly in its directory whose
names the old index lists: an identifier that would lead elsewhere is no plain one, and
is left alone.

That is a fact about each single change and not about how a release ends. The locations
that a change is about can be told before the first one is made, because they depend on
the text of the paths and on where relative paths start. So it is enough to look at every
change that may be made, once, and all ways in which a release can end, be it stopped by
an error or by a crash, are covered.

The directory itself may be missing, and then it is made, with all that its path leads
through. These directories are above it unless the path goes back up somewhere.

## Main definitions

* `Release.Reach`: The locations that a release may write or remove.
* `Release.Confined`: All else is as it was.

## Theorems

* `touches_performed`: Every change of a release is about locations within its reach.
* `kept_of_prefix`: Wherever a release stops, what is out of its reach is kept.
* `isPrefix_of_mem_wayTo`: A path that does not go up leads through what is above its end.
* `confined_run`: A release is confined to its reach.
-/

namespace PuzzleLevel

namespace Store

/-- Names that do not go up lead further down. -/
theorem isPrefix_resolve (location : Location) {names : List (List Char)}
    (h : ['.', '.'] ∉ names) : location <+: resolve location names := by
  induction names generalizing location with
  | nil => exact List.prefix_refl _
  | cons name more ih =>
      rw [List.mem_cons, not_or] at h
      rw [resolve]
      by_cases hdot : name = ['.']
      · rw [if_pos hdot]
        exact ih location h.2
      · rw [if_neg hdot, if_neg (Ne.symm h.1)]
        exact (List.prefix_append location [name]).trans (ih _ h.2)

end Store

/-- A path that does not go up leads through nothing but what is above its end. -/
theorem isPrefix_of_mem_wayTo {store : Store} {directory : Path}
    (h : ['.', '.'] ∉ directory.names) {l : Location} (hl : l ∈ wayTo store directory) :
    l <+: store.place directory := by
  rcases List.mem_map.mp hl with ⟨a, ha, rfl⟩
  rcases Path.names_of_mem_ancestors ha with ⟨⟨more, hmore⟩, habsolute⟩
  rcases Path.names_bare directory with ⟨dots, hnames, _⟩
  have hstart : store.start a = store.start directory.bare := by
    rw [Store.start, Store.start, habsolute]
  have hplace : store.place directory = Store.resolve (store.place a) more := by
    rw [← Store.place_bare, Store.place, Store.place, hstart, ← hmore, Store.resolve_append]
  rw [hplace]
  refine Store.isPrefix_resolve _ fun hup => h ?_
  rw [hnames, ← hmore]
  exact List.mem_append_left _ (List.mem_append_right _ hup)

namespace Release

/-- A name of a release is one of its identifiers or that of the index. -/
theorem name_of_mem_contents {release : Release} {c : String × String}
    (h : c ∈ release.contents) : c.1 ∈ release.order ∨ c.1 = indexName := by
  rw [contents, List.mem_append, List.mem_map, List.mem_singleton] at h
  rcases h with ⟨⟨id, level⟩, hzip, rfl⟩ | rfl
  · exact Or.inl (List.of_mem_zip hzip).1
  · exact Or.inr rfl

/-- The locations that a release may write or remove. -/
inductive Reach (release : Release) (before : Store) : Location → Prop
  /-- The file of an identifier, or of the index. -/
  | artifact (id : String) : id ∈ release.order ∨ id = indexName →
      Reach release before (levelPlace (release.home before) id)
  /-- Its staging file. -/
  | staging (id : String) : id ∈ release.order ∨ id = indexName →
      Reach release before (stagedPlace (release.home before) id)
  /-- The file of an identifier that the old index lists and the release does not have,
      if it can be a part of the name of a file. -/
  | dropped (id : String) : id ∈ previousOrder before release.directory → id ∉ release.order →
      isPlainId id = true → Reach release before (levelPlace (release.home before) id)

/-- All that is within the reach of a release stands directly in its directory. -/
theorem Reach.child {release : Release} {before : Store} {l : Location}
    (h : release.Reach before l) : ∃ name, l = release.home before ++ [name] := by
  cases h with
  | artifact id _ => exact ⟨_, rfl⟩
  | staging id _ => exact ⟨_, rfl⟩
  | dropped id _ _ _ => exact ⟨_, rfl⟩

section Changes

variable {release : Release} (hslash : ∀ id ∈ release.order, '/' ∉ id.toList) {before : Store}

include hslash

/-- A step behind staging is about locations within reach, and makes no directories. -/
theorem touches_releasing {step : Step}
    (h : step ∈ release.promotion ++ release.retirement (previousOrder before release.directory)) :
    (∀ l ∈ step.operation.touches before, release.Reach before l) ∧
      step.operation.way before = [] := by
  rcases List.mem_append.mp h with hpromote | hretire
  · -- A move is about a staging place and the place that belongs to it.
    rw [promotion_eq, promotionOf] at hpromote
    rcases List.mem_map.mp hpromote with ⟨c, hc, rfl⟩
    have hc' := noSlash_of_mem_contents hslash hc
    have hname := name_of_mem_contents hc
    refine ⟨fun l hl => ?_, rfl⟩
    rcases List.mem_cons.mp hl with rfl | hl
    · rw [place_staged before _ hc']
      exact .staging c.1 hname
    · rw [List.mem_singleton.mp hl]
      exact place_levelPath before release.directory hc' ▸ .artifact c.1 hname
  · -- A removal is about the file of an identifier that leaves.
    rw [retirement_eq] at hretire
    rcases List.mem_map.mp hretire with ⟨id, hid, rfl⟩
    refine ⟨fun l hl => ?_, rfl⟩
    rcases mem_leaving.mp hid with ⟨hlisted, hgone, hplain⟩
    rw [List.mem_singleton.mp hl]
    exact place_levelPath before release.directory (noSlash_of_isPlainId hplain) ▸
      .dropped id hlisted hgone hplain

/-- Every change of a release is about locations within its reach, or makes directories
    that the path of its directory leads through. -/
theorem touches_performed {operation : Operation} (h : operation ∈ release.performed before) :
    (∀ l ∈ operation.touches before, release.Reach before l) ∧
      operation.way before ⊆ wayTo before release.directory := by
  rw [performed, List.mem_append] at h
  rcases h with hstaging | hreleasing
  · rcases touches_staging hslash hstaging with ⟨htouches, hway, _⟩
    refine ⟨fun l hl => ?_, hway⟩
    rcases htouches l hl with ⟨c, hc, rfl⟩
    exact .staging c.1 (name_of_mem_contents hc)
  · rcases hstage : stage before [] release.artifacts with ⟨staged, _ | error⟩
    · rw [hstage] at hreleasing
      rcases Step.mem_performed hreleasing with ⟨step, hstep, rfl⟩
      rcases touches_releasing hslash hstep with ⟨htouches, hway⟩
      exact ⟨htouches, hway ▸ List.nil_subset _⟩
    · rw [hstage] at hreleasing
      exact absurd hreleasing List.not_mem_nil

/-- Wherever a release stops, what is out of its reach is kept. -/
theorem kept_of_prefix {operations : List Operation} (h : operations <+: release.performed before)
    {l : Location} (hl : ¬ release.Reach before l) :
    Store.Kept (wayTo before release.directory) before (Operation.applyAll before operations) l :=
  Operation.applyAll_kept
    (fun _ ho hmem => hl ((touches_performed hslash (h.subset ho)).1 l hmem))
    fun _ ho => (touches_performed hslash (h.subset ho)).2

end Changes

/-- What a release has left as it was: everything out of its reach. -/
structure Confined (release : Release) (before after : Store) : Prop where
  /-- Every file out of reach is what it was, and no other file is there. -/
  file : ∀ l, ¬ release.Reach before l → ∀ content,
    after.find? l = some (.file content) ↔ before.find? l = some (.file content)
  /-- No directory out of reach is gone, and a new one is one that the path of the
      directory leads through. -/
  kept : ∀ l, ¬ release.Reach before l →
    Store.Kept (wayTo before release.directory) before after l
  /-- What is within reach stands directly in the directory. -/
  child : ∀ l, release.Reach before l → ∃ name, l = release.home before ++ [name]
  /-- Outside the directory everything is kept, but for directories made on the way. -/
  outside : ∀ l, ¬ release.home before <+: l →
    Store.Kept (wayTo before release.directory) before after l
  /-- If the path of the directory does not go up, these are directories above it. -/
  above : ['.', '.'] ∉ release.directory.names →
    ∀ l ∈ wayTo before release.directory, l <+: release.home before

/-- A release is confined to its reach, whatever an old index says and however the
    release ends. -/
theorem confined_run {release : Release} (hslash : ∀ id ∈ release.order, '/' ∉ id.toList)
    (before : Store) : release.Confined before (release.run before).1 := by
  have hkept : ∀ l, ¬ release.Reach before l →
      Store.Kept (wayTo before release.directory) before (release.run before).1 l := by
    intro l hl
    rw [← applyAll_performed_run]
    exact kept_of_prefix hslash (List.prefix_refl _) hl
  refine ⟨fun l hl content => ⟨fun hafter => ?_, Store.find?_of_kept (hkept l hl)⟩, hkept,
    fun l hl => hl.child, fun l hl => hkept l fun hreach => ?_,
    fun hup l hl => isPrefix_of_mem_wayTo hup hl⟩
  · -- What is new is a directory and no file.
    rcases hkept l hl with hsame | ⟨_, _, hdir⟩
    · rw [← hsame, hafter]
    · rw [hafter] at hdir
      exact absurd hdir (by simp only [Option.some.injEq, reduceCtorEq, not_false_eq_true])
  · rcases hreach.child with ⟨name, rfl⟩
    exact hl (List.prefix_append _ _)

/-- A directory with an index that lists files elsewhere, and these files. -/
def hostileIndex : Store :=
  { entries := [(["out".toList], .directory),
      (["out".toList, "index.json".toList],
        .file (.text "\x7b\"order\":[\"../mine\",\"/mine\",\"sub/mine\",\"..\",\"\",\"b\"]\x7d")),
      (["out".toList, "b.json".toList], .file (.text "old\n")),
      (["out".toList, "sub".toList], .directory),
      (["out".toList, "sub".toList, "mine.json".toList], .file (.text "mine\n")),
      (["mine.json".toList], .file (.text "mine\n"))] }

theorem hostileIndex_confined :
    (∀ id ∈ oneLevel.order, '/' ∉ id.toList) ∧
      oneLevel.Confined hostileIndex (oneLevel.run hostileIndex).1 :=
  ⟨by decide, confined_run (by decide) hostileIndex⟩

/-- Of all that this index lists, only the level next to it is removed. -/
example :
    (oneLevel.run hostileIndex).1.find? ["out".toList, "b.json".toList] = none ∧
      (oneLevel.run hostileIndex).1.find? ["mine.json".toList] = some (.file (.text "mine\n")) ∧
      (oneLevel.run hostileIndex).1.find? ["out".toList, "sub".toList, "mine.json".toList] =
        some (.file (.text "mine\n")) := by
  decide +kernel

end Release

end PuzzleLevel
