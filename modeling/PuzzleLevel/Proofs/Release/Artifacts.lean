import Mathlib.Data.List.Nodup
import PuzzleLevel.Proofs.Place
import PuzzleLevel.Release

/-!
# Where the Artifacts of a Release Go

Every artifact of a release is the file of a name in one directory, and so is its
staging file. The index is no exception: it is the file of the name `index`, which
is why a level of that name is in its way. So a release comes down to a list of
names with texts, its `contents`, and all its places are found by putting two
kinds of file names behind the place of the directory.

Two facts about these places carry all that follows. Different names have
different places, of either kind. And no staging place is the place of an
artifact or of anything an index can list, because the file names end differently.

## Main definitions

* `Release.contents`: The names of a release with their texts.
* `levelPlace`, `stagedPlace`: Where the file of a name and its staging file go.

## Theorems

* `artifacts_eq`: The artifacts are the files of the contents.
* `names_contents`: The names are the identifiers and that of the index.
* `place_levelPath`, `place_staged`: Their places.
* `levelPlace_inj`, `stagedPlace_inj`, `levelPlace_ne_stagedPlace`: No two meet.
* `place_levelPath_ne_staged`: No identifier whatsoever leads to a staging place.
-/

namespace PuzzleLevel

/-- The name of the index among the names of a release. -/
def indexName : String := "index"

/-- The artifact of a name in a directory. -/
def Artifact.ofName (directory : Path) (content : String × String) : Artifact :=
  ⟨levelPath directory content.1, content.2⟩

/-- The file name of the staging file of a name. -/
def stagedName (id : String) : String := "." ++ (id ++ ".json") ++ ".tmp"

/-- Where the file of a name goes. -/
def levelPlace (home : Location) (id : String) : Location := home ++ [(id ++ ".json").toList]

/-- Where the staging file of a name goes. -/
def stagedPlace (home : Location) (id : String) : Location := home ++ [(stagedName id).toList]

theorem levelPath_indexName (directory : Path) :
    levelPath directory indexName = directory.child indexFileName := rfl

theorem levelPlace_inj {home : Location} {a b : String}
    (h : levelPlace home a = levelPlace home b) : a = b := by
  rw [levelPlace, levelPlace, List.append_cancel_left_eq, List.cons.injEq, String.toList_append,
    String.toList_append] at h
  exact String.toList_inj.mp (List.append_cancel_right h.1)

theorem stagedPlace_inj {home : Location} {a b : String}
    (h : stagedPlace home a = stagedPlace home b) : a = b := by
  rw [stagedPlace, stagedPlace, List.append_cancel_left_eq, List.cons.injEq, stagedName,
    stagedName] at h
  simp only [String.toList_append] at h
  exact String.toList_inj.mp
    (List.append_cancel_right (List.append_cancel_left (List.append_cancel_right h.1)))

/-- A text that ends like the name of a level file does not end like the name of a
    staging file. -/
theorem append_json_ne_stagedName (front : List Char) (id : String) :
    front ++ ".json".toList ≠ (stagedName id).toList := by
  intro h
  have hlast := congrArg List.getLast? h
  rw [stagedName, String.toList_append (s := "." ++ (id ++ ".json"))] at hlast
  rw [show ".json".toList = [".", "j", "s", "o"].flatMap String.toList ++ ['n'] from rfl,
    ← List.append_assoc, List.getLast?_concat,
    show ".tmp".toList = [".", "t", "m"].flatMap String.toList ++ ['p'] from rfl,
    ← List.append_assoc, List.getLast?_concat] at hlast
  exact absurd (Option.some.inj hlast) (by decide)

theorem levelPlace_ne_stagedPlace (home : Location) (a b : String) :
    levelPlace home a ≠ stagedPlace home b := by
  intro h
  rw [levelPlace, stagedPlace, List.append_cancel_left_eq, List.cons.injEq,
    String.toList_append] at h
  exact append_json_ne_stagedName _ _ h.1

/-- A text that is long enough names an entry if no slash is in it. -/
theorem isName_of_length {name : List Char} (h : '/' ∉ name) (hlen : 2 < name.length) :
    Path.IsName name := by
  refine ⟨h, ?_, ?_⟩
  · rw [Path.isSilent, Bool.or_eq_false_iff, decide_eq_false_iff_not, decide_eq_false_iff_not]
    constructor
    · intro he
      rw [he] at hlen
      exact absurd hlen (by decide)
    · intro he
      rw [he] at hlen
      exact absurd hlen (by decide)
  · intro he
    rw [he] at hlen
    exact absurd hlen (by decide)

theorem isName_json {id : String} (h : '/' ∉ id.toList) : Path.IsName (id ++ ".json").toList := by
  rw [String.toList_append]
  refine isName_of_length ?_ ?_
  · rw [List.mem_append, not_or]
    exact ⟨h, by decide⟩
  · rw [List.length_append]
    have : ".json".toList.length = 5 := rfl
    omega

theorem isName_stagedName {id : String} (h : '/' ∉ id.toList) :
    Path.IsName (stagedName id).toList := by
  rw [stagedName, String.toList_append, String.toList_append, String.toList_append]
  refine isName_of_length ?_ ?_
  · simp only [List.mem_append, not_or]
    exact ⟨⟨by decide, h, by decide⟩, by decide⟩
  · simp only [List.length_append]
    have : ".json".toList.length = 5 := rfl
    omega

theorem place_levelPath (store : Store) (directory : Path) {id : String} (h : '/' ∉ id.toList) :
    store.place (levelPath directory id) = levelPlace (store.place directory) id :=
  Store.place_child store directory _ (isName_json h)

/-- Wherever the file of an identifier may be, its name ends like that of a level
    file, even if the identifier is none that a release would have written. -/
theorem place_levelPath_ends (store : Store) (directory : Path) (id : String) :
    ∃ front name, store.place (levelPath directory id) = front ++ [name ++ ".json".toList] := by
  rcases Path.child_append directory id ".json" with ⟨text, htext⟩
  rcases Path.segments_append_noSlash text (show '/' ∉ ".json".toList by decide) with
    ⟨front, name, hsegments⟩
  have hmem : name ++ ".json".toList ∈ Path.segments (levelPath directory id).chars := by
    rw [levelPath, htext, hsegments]
    exact List.mem_append_right _ (List.mem_singleton_self _)
  have hname : Path.IsName (name ++ ".json".toList) := by
    refine isName_of_length (Path.noSlash_of_mem_segments hmem) ?_
    rw [List.length_append]
    have : ".json".toList.length = 5 := rfl
    omega
  have hnames : (levelPath directory id).names =
      front.filter (· ≠ []) ++ [name ++ ".json".toList] := by
    rw [Path.names, levelPath, htext, hsegments, List.filter_append]
    congr 1
    exact List.filter_cons_of_pos (decide_eq_true fun he =>
      absurd hname.notSilent (by rw [he]; decide))
  refine ⟨Store.resolve (store.start (levelPath directory id)) (front.filter (· ≠ [])), name, ?_⟩
  rw [Store.place, hnames, Store.resolve_append, Store.resolve_name _ hname]

theorem place_levelPath_ne_staged (store : Store) (directory : Path) (id : String)
    (home : Location) (other : String) :
    store.place (levelPath directory id) ≠ stagedPlace home other := by
  rcases place_levelPath_ends store directory id with ⟨front, name, hplace⟩
  intro h
  rw [hplace, stagedPlace] at h
  exact append_json_ne_stagedName _ _
    (List.cons.inj (List.append_inj_right' h rfl)).1

/-- The staging file of a name stands behind the bare directory. -/
theorem staged_ofName (directory : Path) {content : String × String}
    (h : '/' ∉ content.1.toList) :
    (Artifact.ofName directory content).staged = directory.bare.child (stagedName content.1) := by
  have hname := isName_json h
  rw [Artifact.staged, Artifact.ofName, levelPath, Path.fileName?_child _ _ hname,
    Path.withFileName_child _ _ _ hname]
  rfl

theorem place_staged (store : Store) (directory : Path) {content : String × String}
    (h : '/' ∉ content.1.toList) :
    store.place (Artifact.ofName directory content).staged =
      stagedPlace (store.place directory) content.1 := by
  rw [staged_ofName directory h, Store.place_child _ _ _ (isName_stagedName h),
    Store.place_bare]
  rfl

/-- The directory that is made for a staging file is the bare one. -/
theorem parent?_staged (directory : Path) {content : String × String}
    (h : '/' ∉ content.1.toList) :
    (Artifact.ofName directory content).staged.parent?.getD ⟨[]⟩ = directory.bare := by
  rw [staged_ofName directory h, Path.parent?_child _ _ (isName_stagedName h), Path.bare_bare]
  rfl

namespace Release

/-- The names of a release with their texts, the index last. -/
def contents (release : Release) : List (String × String) :=
  (release.order.zip release.index.levels).map (fun (id, level) => (id, level.toJson.indented)) ++
    [(indexName, (release.index.document release.order).indented)]

theorem artifacts_eq (release : Release) :
    release.artifacts = release.contents.map (Artifact.ofName release.directory) := by
  rw [artifacts, contents, List.map_append, List.map_map]
  rfl

/-- The names of a release are its identifiers and the name of the index. -/
theorem names_contents {release : Release}
    (hlength : release.order.length = release.index.levels.length) :
    release.contents.map Prod.fst = release.order ++ [indexName] := by
  have hzip : (release.order.zip release.index.levels).map Prod.fst = release.order :=
    List.map_fst_zip (Nat.le_of_eq hlength)
  rw [contents, List.map_append, List.map_map]
  exact congrArg (· ++ [indexName]) hzip

theorem nodup_contents {release : Release}
    (hlength : release.order.length = release.index.levels.length) :
    (release.contents.map Prod.fst).Nodup ↔
      release.order.Nodup ∧ indexName ∉ release.order := by
  rw [names_contents hlength, List.nodup_append]
  simp only [List.nodup_singleton, List.mem_singleton, forall_eq, true_and]
  refine and_congr_right fun _ => ⟨fun h hmem => h _ hmem rfl, fun h id hid he => h (he ▸ hid)⟩

/-- No name of a release has a slash in it if no identifier has. -/
theorem noSlash_of_mem_contents {release : Release} (h : ∀ id ∈ release.order, '/' ∉ id.toList)
    {content : String × String} (hc : content ∈ release.contents) : '/' ∉ content.1.toList := by
  rw [contents, List.mem_append, List.mem_map, List.mem_singleton] at hc
  rcases hc with ⟨⟨id, level⟩, hzip, rfl⟩ | rfl
  · exact h id (List.of_mem_zip hzip).1
  · exact (by decide : '/' ∉ indexName.toList)

end Release

end PuzzleLevel
