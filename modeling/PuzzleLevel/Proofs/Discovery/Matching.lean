import PuzzleLevel.Proofs.Discovery

/-!
# Which Files Are Discovered

The level files of a directory are told by going from name to name: first those of the
path of the directory, then the one of the file, which has to end in a dot and a listed
extension. The paths that come out of this are not spelled like the path of the
directory, because empty names and a leading dot go without saying. They lead to the same
place nevertheless, so what is found stands in the directory that was asked for.

An extension without a slash in it asks for one more name. Then the level files are the
matching files of the directory, all of them and nothing else, and they are listed in the
order of their identifiers.

## Main definitions

* `LevelFile.Sorted`: Level files in the order of their identifiers.
* `Store.respelled`: The path of a directory, as it is spelled in what is discovered there.
* `Store.Enters`: A directory is entered.

## Theorems

* `addAll_sorted`, `mem_addAll`: Level files are collected in order, and none is lost.
* `place_respelled`: A directory is not left by spelling its path differently.
* `mem_select_ending`: One name is asked for at the end.
* `Enters.matching_eq`, `Enters.mem_matching`: What matches an extension.
* `mem_discover`: A level file is a matching path with its identifier.
* `isAbsolute_of_mem_discover`: It is absolute in an absolute directory.
* `mem_discover_iff`: What the level files of a directory are.
* `sorted_discover`: They are listed in the order of their identifiers.
-/

namespace PuzzleLevel

theorem lt_of_not_lt_of_ne {α : Type} [LT α] [Std.Trichotomous (α := α) (· < ·)] {a b : α}
    (h : ¬ a < b) (hne : b ≠ a) : b < a := by
  by_contra hnot
  exact hne (Std.Trichotomous.trichotomous b a hnot h)

namespace LevelFile

/-- The identifiers of level files, in strictly increasing order. -/
def Sorted (files : List LevelFile) : Prop :=
  files.Pairwise fun a b => a.id < b.id

theorem insert_sorted {file : LevelFile} {files : List LevelFile} (hsorted : Sorted files)
    (hfresh : file.id ∉ files.map LevelFile.id) : Sorted (insert file files) := by
  induction files with
  | nil => exact List.pairwise_singleton _ _
  | cons first more ih =>
      rw [List.map_cons, List.mem_cons, not_or] at hfresh
      rcases List.pairwise_cons.mp hsorted with ⟨hfirst, hmore⟩
      rw [insert]
      by_cases hlt : file.id < first.id
      · rw [if_pos hlt]
        refine List.pairwise_cons.mpr ⟨fun other hother => ?_, hsorted⟩
        rcases List.mem_cons.mp hother with rfl | hother
        · exact hlt
        · exact String.lt_trans hlt (hfirst other hother)
      · rw [if_neg hlt]
        refine List.pairwise_cons.mpr ⟨fun other hother => ?_, ih hmore hfresh.2⟩
        -- What stands behind the first is greater, be it new or not.
        rcases List.mem_cons.mp ((insert_perm file more).mem_iff.mp hother) with rfl | hother
        · exact lt_of_not_lt_of_ne hlt (Ne.symm hfresh.1)
        · exact hfirst other hother

theorem add_eq_ok {files after : List LevelFile} {path : Path} (h : add files path = .ok after) :
    ∃ id, path.levelId = .ok id ∧ id ∉ files.map LevelFile.id ∧ after = insert ⟨id, path⟩ files := by
  revert h
  fun_cases add files path with
  | case1 error hid => exact nofun
  | case2 id hid other hother first second hordered => exact nofun
  | case3 id hid hnone =>
      intro h
      rw [Except.ok.injEq] at h
      refine ⟨id, hid, fun hmem => ?_, h.symm⟩
      rcases List.mem_map.mp hmem with ⟨file, hfile, he⟩
      exact absurd (decide_eq_true he) (List.find?_eq_none.mp hnone file hfile)

/-- Level files are collected in the order of their identifiers. -/
theorem addAll_sorted {files after : List LevelFile} {paths : List Path} (hsorted : Sorted files)
    (h : addAll files paths = .ok after) : Sorted after := by
  induction paths generalizing files with
  | nil =>
      rw [addAll, Except.ok.injEq] at h
      rwa [← h]
  | cons path more ih =>
      rw [addAll] at h
      cases hadd : add files path with
      | error error =>
          rw [hadd] at h
          exact absurd h (by simp only [reduceCtorEq, not_false_eq_true])
      | ok mid =>
          rw [hadd] at h
          rcases add_eq_ok hadd with ⟨id, _, hfresh, rfl⟩
          exact ih (insert_sorted hsorted hfresh) h

/-- No path is lost while level files are collected. -/
theorem mem_addAll {files after : List LevelFile} {paths : List Path}
    (h : addAll files paths = .ok after) (file : LevelFile) :
    file ∈ after ↔ file ∈ files ∨ (file.path ∈ paths ∧ file.path.levelId = .ok file.id) := by
  induction paths generalizing files with
  | nil =>
      rw [addAll, Except.ok.injEq] at h
      rw [h]
      simp only [List.not_mem_nil, false_and, or_false]
  | cons path more ih =>
      rw [addAll] at h
      cases hadd : add files path with
      | error error =>
          rw [hadd] at h
          exact absurd h (by simp only [reduceCtorEq, not_false_eq_true])
      | ok mid =>
          rw [hadd] at h
          rcases add_eq_ok hadd with ⟨id, hid, _, rfl⟩
          have hhead : file = ⟨id, path⟩ ↔ file.path = path ∧ file.path.levelId = .ok file.id := by
            rcases file with ⟨fid, fpath⟩
            rw [LevelFile.mk.injEq]
            constructor
            · rintro ⟨rfl, rfl⟩
              exact ⟨rfl, hid⟩
            · rintro ⟨rfl, hfid⟩
              rw [hid, Except.ok.injEq] at hfid
              exact ⟨hfid.symm, rfl⟩
          rw [ih h, (insert_perm _ _).mem_iff, List.mem_cons, List.mem_cons, hhead]
          tauto

end LevelFile

namespace Path

theorem isAbsolute_of_noSlash {name : List Char} (h : '/' ∉ name) :
    (Path.mk name).isAbsolute = false := by
  rw [isAbsolute, decide_eq_false_iff_not]
  exact fun hhead => h (List.mem_of_mem_head? hhead)

theorem names_of_noSlash {name : List Char} (h : '/' ∉ name) :
    (Path.mk name).names = [name].filter (· ≠ []) := by
  rw [names, segments_of_noSlash h]

/-- What is joined to a path by a name leaves it absolute or not. -/
theorem isAbsolute_join (p : Path) {name : List Char} (h : '/' ∉ name) :
    (p.join ⟨name⟩).isAbsolute = p.isAbsolute := by
  have hname := isAbsolute_of_noSlash h
  rw [join, hname, if_neg Bool.false_ne_true]
  rcases p with ⟨_ | ⟨c, more⟩⟩
  · exact hname
  · by_cases hend : ((c :: more).isEmpty || (c :: more).getLast? = some '/') = true
    · rw [if_pos hend]
      rfl
    · rw [if_neg hend]
      rfl

/-- What is joined to an absolute path stands below it or in its place. -/
theorem isAbsolute_join_of_isAbsolute {p : Path} (h : p.isAbsolute = true) (q : Path) :
    (p.join q).isAbsolute = true := by
  rw [join]
  by_cases hq : q.isAbsolute = true
  · rw [if_pos hq]
    exact hq
  · rw [if_neg hq]
    rcases p with ⟨_ | ⟨c, more⟩⟩
    · exact absurd h Bool.false_ne_true
    · by_cases hend : ((c :: more).isEmpty || (c :: more).getLast? = some '/') = true
      · rw [if_pos hend]
        exact h
      · rw [if_neg hend]
        exact h

/-- Joining adds a name, unless the name is empty. -/
theorem names_join (p : Path) {name : List Char} (h : '/' ∉ name) :
    (p.join ⟨name⟩).names = p.names ++ [name].filter (· ≠ []) := by
  rw [join, isAbsolute_of_noSlash h, if_neg Bool.false_ne_true]
  by_cases hempty : p.chars = []
  · rw [hempty, List.isEmpty_nil, Bool.true_or, if_pos rfl, List.nil_append,
      names_of_noSlash h, names, hempty]
    rfl
  · by_cases hslash : p.chars.getLast? = some '/'
    · -- The slash at the end is where the name is set off.
      have hend : (p.chars.isEmpty || p.chars.getLast? = some '/') = true := by
        rw [Bool.or_eq_true, decide_eq_true_eq]
        exact Or.inr hslash
      rcases List.getLast?_eq_some_iff.mp hslash with ⟨front, hfront⟩
      rw [if_pos hend, names, names, hfront,
        List.append_assoc, List.singleton_append, segments_append_slash, segments_append_slash,
        List.filter_append, List.filter_append, segments_of_noSlash h]
      simp only [segments, ne_eq, List.filter_cons, not_true_eq_false, decide_false,
        Bool.false_eq_true, if_false, List.filter_nil, List.append_nil]
    · have hneither : ¬ (p.chars.isEmpty || p.chars.getLast? = some '/') = true := by
        rw [Bool.or_eq_true, List.isEmpty_iff, decide_eq_true_eq]
        exact not_or.mpr ⟨hempty, hslash⟩
      rw [if_neg hneither, names, names, segments_append_slash, List.filter_append,
        segments_of_noSlash h]

/-- The working directory is named by dots and nothing else. -/
theorem names_of_isHere {p : Path} (h : p.isHere = true) :
    p.isAbsolute = false ∧ ∀ name ∈ p.names, name = ['.'] := by
  rw [isHere, Bool.and_eq_true, decide_eq_true_eq, List.isEmpty_iff] at h
  rcases h with ⟨hfront, hsilent⟩
  refine ⟨?_, fun name hname => ?_⟩
  · rw [isAbsolute, decide_eq_false_iff_not, ← front_append_rest p, hfront]
    exact fun hhead => absurd hhead (by simp)
  · rw [names_eq, if_pos hfront, List.singleton_append] at hname
    rcases List.mem_cons.mp hname with hdot | hrest
    · exact hdot
    · -- What stands behind the dot is silent, and not empty.
      rcases List.mem_filter.mp hrest with ⟨hmem, hne⟩
      have hall := List.dropWhile_eq_nil_iff.mp hsilent name (List.mem_reverse.mpr hmem)
      rw [isSilent, Bool.or_eq_true, decide_eq_true_eq, decide_eq_true_eq] at hall
      exact hall.resolve_left (by simpa only [decide_eq_true_eq] using hne)

end Path

namespace Store

/-- Following a name leads where it leads from the place before it. -/
theorem place_follow (store : Store) (p : Path) {name : List Char} (h : '/' ∉ name) :
    store.place (follow p name) = resolve (store.place p) ([name].filter (· ≠ [])) := by
  rw [follow]
  by_cases hhere : p.isHere = true
  · rcases Path.names_of_isHere hhere with ⟨habsolute, hdots⟩
    rw [if_pos hhere, place, place, start, start, Path.isAbsolute_of_noSlash h, habsolute,
      Path.names_of_noSlash h, resolve_dots _ hdots]
  · rw [if_neg hhere, place, place, start, start, Path.isAbsolute_join p h, Path.names_join p h,
      resolve_append]

/-- The path of a directory, as it is spelled in what is discovered there. -/
def respelled (directory : Path) : Path :=
  (Path.segments (directory.chars.drop (if directory.isAbsolute then 1 else 0))).foldl follow
    (if directory.isAbsolute then ⟨['/']⟩ else ⟨['.']⟩)

theorem place_foldl_follow (store : Store) {names : List (List Char)}
    (h : ∀ name ∈ names, '/' ∉ name) (p : Path) :
    store.place (names.foldl follow p) = resolve (store.place p) (names.filter (· ≠ [])) := by
  induction names generalizing p with
  | nil => rfl
  | cons name more ih =>
      rw [List.foldl_cons, ih (fun other hother => h other (List.mem_cons_of_mem _ hother)),
        place_follow store p (h name (List.mem_cons_self ..)), ← resolve_append,
        ← List.filter_append, List.singleton_append]

/-- A directory is not left by spelling its path differently. -/
theorem place_respelled (store : Store) (directory : Path) :
    store.place (respelled directory) = store.place directory := by
  rw [respelled, place_foldl_follow store fun _ hname => Path.noSlash_of_mem_segments hname]
  by_cases habsolute : directory.isAbsolute = true
  · have hstart : store.start directory = [] := by rw [start, if_pos habsolute]
    have hnames : directory.names =
        (Path.segments (directory.chars.drop 1)).filter (· ≠ []) := by
      rw [Path.isAbsolute, decide_eq_true_eq] at habsolute
      rcases List.head?_eq_some_iff.mp habsolute with ⟨rest, hrest⟩
      rw [Path.names, hrest, Path.segments, if_pos rfl]
      rfl
    rw [if_pos habsolute, if_pos habsolute, ← hnames, place, place, hstart]
    rfl
  · have hstart : store.start directory = store.here := by rw [start, if_neg habsolute]
    rw [if_neg habsolute, if_neg habsolute, place, place, hstart]
    rfl

/-- Names are followed to the end, or nothing is found behind them. -/
theorem select_names (store : Store) (names : List (List Char)) (p : Path) :
    (∀ rest, store.select (names.map .name ++ rest) p = []) ∨
      ∀ rest, store.select (names.map .name ++ rest) p =
        store.select rest (names.foldl follow p) := by
  induction names generalizing p with
  | nil => exact Or.inr fun _ => rfl
  | cons name more ih =>
      simp only [List.map_cons, List.cons_append, select, List.foldl_cons]
      -- Whether a name can be followed does not depend on what comes behind it.
      generalize (if name = ['.'] ∨ name = ['.', '.'] then store.isDirectory p
        else store.present (follow p name)) = isThere
      cases isThere with
      | false => exact Or.inl fun _ => rfl
      | true => exact ih (follow p name)

/-- One name is asked for at the end. -/
theorem mem_select_ending {store : Store} {suffix : List Char} {base p : Path} :
    p ∈ store.select [.ending suffix] base ↔
      store.isDirectory base = true ∧
        ∃ name ∈ store.namesIn base, suffix <:+ name ∧ p = follow base name := by
  unfold select
  by_cases hbase : store.isDirectory base = true
  · rw [if_pos hbase, List.mem_flatMap]
    simp only [select, List.mem_filter, List.isSuffixOf_iff_suffix, List.mem_singleton, hbase,
      true_and, and_assoc]
  · rw [if_neg hbase]
    simp only [List.not_mem_nil, hbase, Bool.false_eq_true, false_and]

/-- From an absolute path only absolute paths are reached. -/
theorem isAbsolute_follow {p : Path} (h : p.isAbsolute = true) (name : List Char) :
    (follow p name).isAbsolute = true := by
  have hhere : ¬ p.isHere = true := by
    intro hhere
    rw [(Path.names_of_isHere hhere).1] at h
    exact absurd h Bool.false_ne_true
  rw [follow, if_neg hhere]
  exact Path.isAbsolute_join_of_isAbsolute h ⟨name⟩

theorem isAbsolute_of_mem_select {store : Store} {selectors : List Selector} {base p : Path}
    (hbase : base.isAbsolute = true) (h : p ∈ store.select selectors base) :
    p.isAbsolute = true := by
  revert h
  fun_induction select store selectors base with
  | case1 base =>
      intro h
      rw [List.mem_singleton.mp h]
      exact hbase
  | case2 name more base next isThere hthere ih => exact ih (isAbsolute_follow hbase name)
  | case3 name more base next isThere hmissing => exact fun h => absurd h List.not_mem_nil
  | case4 suffix more base hdirectory ih =>
      intro h
      rcases List.mem_flatMap.mp h with ⟨name, _, hfound⟩
      exact ih name (isAbsolute_follow hbase name) hfound
  | case5 suffix more base hdirectory => exact fun h => absurd h List.not_mem_nil

theorem ofExtension_of_noSlash {extension : String} (h : '/' ∉ extension.toList) :
    Selector.ofExtension extension = [.ending ('.' :: extension.toList)] := by
  have hslash : '/' ∉ '.' :: extension.toList := by
    rw [List.mem_cons, not_or]
    exact ⟨by decide, h⟩
  rw [Selector.ofExtension, Selector.pieces, Path.segments_of_noSlash hslash]
  rfl

theorem isDirectory_iff {store : Store} {p : Path} :
    store.isDirectory p = true ↔ store.entryAt p = .ok .directory := by
  fun_cases isDirectory store p with
  | case1 hentry => exact iff_of_true rfl hentry
  | case2 hentry => exact iff_of_false Bool.false_ne_true hentry

/-- A directory is entered: its path is followed to the end, and there is a directory. -/
structure Enters (store : Store) (directory : Path) : Prop where
  /-- What is asked for behind the path is looked up in the directory. -/
  select_eq : ∀ rest, store.select (Selector.ofDirectory directory ++ rest)
    (if directory.isAbsolute then ⟨['/']⟩ else ⟨['.']⟩) = store.select rest (respelled directory)
  isDirectory : store.isDirectory (respelled directory) = true

/-- A directory in which something matches is entered. -/
theorem enters_of_mem_matching {store : Store} {directory p : Path} {extension : String}
    (hslash : '/' ∉ extension.toList) (h : p ∈ store.matching directory extension) :
    store.Enters directory := by
  have hfound : p ∈ store.select (Selector.ofDirectory directory ++
      [.ending ('.' :: extension.toList)])
        (if directory.isAbsolute then ⟨['/']⟩ else ⟨['.']⟩) := by
    rw [matching, ofExtension_of_noSlash hslash] at h
    by_cases hlast : extension.toList.getLast? = some '/'
    · rw [if_pos hlast] at h
      exact absurd h List.not_mem_nil
    · rw [if_neg hlast] at h
      exact (List.mem_filter.mp h).1
  rcases select_names store (Path.segments (directory.chars.drop
    (if directory.isAbsolute then 1 else 0)))
      (if directory.isAbsolute then ⟨['/']⟩ else ⟨['.']⟩) with hnone | hall
  · rw [Selector.ofDirectory, hnone] at hfound
    exact absurd hfound List.not_mem_nil
  · rw [Selector.ofDirectory, hall] at hfound
    exact ⟨hall, (mem_select_ending.mp hfound).1⟩

/-- The files that match an extension in a directory that is entered, as a list of
    names. -/
theorem Enters.matching_eq {store : Store} {directory : Path} (h : store.Enters directory)
    {extension : String} (hslash : '/' ∉ extension.toList) :
    store.matching directory extension =
      ((store.names (store.place directory)).filter fun name =>
        store.isFile (follow (respelled directory) name) &&
          ('.' :: extension.toList).isSuffixOf name).map (follow (respelled directory)) := by
  have hlast : extension.toList.getLast? ≠ some '/' :=
    fun hend => hslash (List.mem_of_getLast? hend)
  have hnames : store.namesIn (respelled directory) = store.names (store.place directory) := by
    have hentry := isDirectory_iff.mp h.isDirectory
    rw [namesIn, (entryAt_ok_iff.mp hentry).1, place_respelled]
  rw [matching, ofExtension_of_noSlash hslash, if_neg hlast, h.select_eq, select,
    if_pos h.isDirectory, hnames]
  simp only [select, ← List.map_eq_flatMap]
  rw [List.filter_map, List.filter_filter]
  rfl

/-- What matches an extension in a directory that is entered. -/
theorem Enters.mem_matching {store : Store} {directory : Path} (h : store.Enters directory)
    {extension : String} (hslash : '/' ∉ extension.toList) {p : Path} :
    p ∈ store.matching directory extension ↔
      ∃ name ∈ store.names (store.place directory), '.' :: extension.toList <:+ name ∧
        p = follow (respelled directory) name ∧ store.isFile p = true := by
  rw [h.matching_eq hslash, List.mem_map]
  constructor
  · rintro ⟨name, hmem, rfl⟩
    rw [List.mem_filter, Bool.and_eq_true, List.isSuffixOf_iff_suffix] at hmem
    exact ⟨name, hmem.1, hmem.2.2, rfl, hmem.2.1⟩
  · rintro ⟨name, hname, hsuffix, rfl, hfile⟩
    refine ⟨name, ?_, rfl⟩
    rw [List.mem_filter, Bool.and_eq_true, List.isSuffixOf_iff_suffix]
    exact ⟨hname, hfile, hsuffix⟩

section Discover

variable {store : Store} {directory : Path} {extensions : List String} {files : List LevelFile}

theorem addAll_of_discover (h : store.discover directory extensions = .ok files) :
    LevelFile.addAll [] (extensions.flatMap fun extension =>
      store.matching directory extension) = .ok files := by
  revert h
  fun_cases discover store directory extensions with
  | case1 => exact nofun
  | case2 => exact nofun
  | case3 => exact id

/-- A level file is a matching path with its identifier. -/
theorem mem_discover (h : store.discover directory extensions = .ok files) (file : LevelFile) :
    file ∈ files ↔ (∃ extension ∈ extensions, file.path ∈ store.matching directory extension) ∧
      file.path.levelId = .ok file.id := by
  rw [LevelFile.mem_addAll (addAll_of_discover h), List.mem_flatMap]
  simp only [List.not_mem_nil, false_or]

/-- In an absolute directory the paths of the level files are absolute. -/
theorem isAbsolute_of_mem_discover (h : store.discover directory extensions = .ok files)
    (habsolute : directory.isAbsolute = true) {file : LevelFile} (hfile : file ∈ files) :
    file.path.isAbsolute = true := by
  rcases ((mem_discover h file).mp hfile).1 with ⟨extension, _, hmatch⟩
  rw [matching, habsolute, if_pos rfl] at hmatch
  by_cases hlast : extension.toList.getLast? = some '/'
  · rw [if_pos hlast] at hmatch
    exact absurd hmatch List.not_mem_nil
  · rw [if_neg hlast] at hmatch
    exact isAbsolute_of_mem_select rfl (List.mem_filter.mp hmatch).1

/-- Level files are listed in the order of their identifiers. -/
theorem sorted_discover (h : store.discover directory extensions = .ok files) :
    LevelFile.Sorted files :=
  LevelFile.addAll_sorted .nil (addAll_of_discover h)

/-- If no extension has a slash in it, the level files of a directory are the files in it
    whose names end in a dot and a listed extension, with the identifiers of their paths. -/
theorem mem_discover_iff (h : store.discover directory extensions = .ok files)
    (hne : files ≠ []) (hslash : ∀ extension ∈ extensions, '/' ∉ extension.toList)
    (file : LevelFile) :
    file ∈ files ↔ ∃ name ∈ store.names (store.place directory),
      (∃ extension ∈ extensions, '.' :: extension.toList <:+ name) ∧
      file.path = follow (respelled directory) name ∧ store.isFile file.path = true ∧
      file.path.levelId = .ok file.id := by
  have henters : store.Enters directory := by
    rcases List.exists_mem_of_ne_nil files hne with ⟨first, hfirst⟩
    rcases ((mem_discover h first).mp hfirst).1 with ⟨extension, hextension, hmatch⟩
    exact enters_of_mem_matching (hslash extension hextension) hmatch
  rw [mem_discover h]
  constructor
  · rintro ⟨⟨extension, hextension, hmatch⟩, hid⟩
    rcases (henters.mem_matching (hslash extension hextension)).mp hmatch with
      ⟨name, hname, hsuffix, hpath, hfile⟩
    exact ⟨name, hname, ⟨extension, hextension, hsuffix⟩, hpath, hfile, hid⟩
  · rintro ⟨name, hname, ⟨extension, hextension, hsuffix⟩, hpath, hfile, hid⟩
    exact ⟨⟨extension, hextension, (henters.mem_matching (hslash extension hextension)).mpr
      ⟨name, hname, hsuffix, hpath, hfile⟩⟩, hid⟩

end Discover

end Store

end PuzzleLevel
