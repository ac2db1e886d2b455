import PuzzleLevel.Proofs.Build.History
import PuzzleLevel.Proofs.Discovery.Matching

/-!
# Finding the Same Level Files Again

Discovery follows the names of a directory and then looks at what is in it. So it finds
the same level files again, in the same order and with the same paths, if no directory
has been lost and every file of that directory is still one. New directories do no harm
there, whatever they are called, because only files are level files.

That no directory is lost is enough for following the names: each of them but the last
leads to a directory when something is found behind it. The order is no question either.
The names of a directory are listed in strictly increasing order, so two lists of the
same names are one list.

All this is about names that can be names. A store in which they are is `Named`; one
with a slash in a name would let a file of a directory be found elsewhere.

## Main definitions

* `Store.Named`: All names in a store can be names.
* `Store.Steady`: The files of a directory are as they were.

## Theorems

* `isName_of_mem_place`: A path leads through names.
* `sorted_names`: The names in a directory are listed in increasing order.
* `LeadsToDirectory.isFile_follow_iff`: When a name in a directory is one of a file.
* `select_of_keeps`: Names that were followed can be followed again.
* `Enters.of_keeps`: A directory is entered again.
* `discover_steady`: The same level files are discovered.
-/

namespace PuzzleLevel

instance (name : List Char) : Decidable (Path.IsName name) :=
  decidable_of_iff ('/' ∉ name ∧ Path.isSilent name = false ∧ name ≠ ['.', '.'])
    ⟨fun ⟨hslash, hsilent, hup⟩ => ⟨hslash, hsilent, hup⟩,
      fun h => ⟨h.noSlash, h.notSilent, h.notUp⟩⟩

namespace Store

/-- All names in a store can be names of entries. -/
structure Named (store : Store) : Prop where
  /-- So can those of what stands in it. -/
  entries : ∀ pair ∈ store.entries, ∀ name ∈ pair.1, Path.IsName name
  /-- So can those of where relative paths start. -/
  here : ∀ name ∈ store.here, Path.IsName name

instance (store : Store) : Decidable store.Named :=
  decidable_of_iff ((∀ pair ∈ store.entries, ∀ name ∈ pair.1, Path.IsName name) ∧
      ∀ name ∈ store.here, Path.IsName name)
    ⟨fun ⟨hentries, hhere⟩ => ⟨hentries, hhere⟩, fun h => ⟨h.entries, h.here⟩⟩

section Named

variable {store : Store}

theorem Named.isName_of_find? (h : store.Named) {l : Location}
    (hsome : (store.find? l).isSome = true) : ∀ name ∈ l, Path.IsName name := by
  rw [find?] at hsome
  by_cases hroot : l = []
  · rw [hroot]
    exact fun name hname => absurd hname List.not_mem_nil
  · rw [if_neg hroot, entryIn?, Option.isSome_map, List.find?_isSome] at hsome
    rcases hsome with ⟨pair, hpair, he⟩
    rw [decide_eq_true_eq] at he
    rw [← he]
    exact h.entries pair hpair

theorem isName_of_mem_resolve {names : List (List Char)}
    (hnames : ∀ name ∈ names, '/' ∉ name ∧ name ≠ []) {l : Location}
    (hl : ∀ name ∈ l, Path.IsName name) : ∀ name ∈ resolve l names, Path.IsName name := by
  induction names generalizing l with
  | nil => exact hl
  | cons first more ih =>
      have hmore : ∀ name ∈ more, '/' ∉ name ∧ name ≠ [] :=
        fun name hname => hnames name (List.mem_cons_of_mem _ hname)
      rw [resolve]
      by_cases hdot : first = ['.']
      · rw [if_pos hdot]
        exact ih hmore hl
      · rw [if_neg hdot]
        by_cases hup : first = ['.', '.']
        · rw [if_pos hup]
          exact ih hmore fun name hname => hl name (List.dropLast_subset l hname)
        · rw [if_neg hup]
          -- What is neither empty nor a dot nor leads up is a name.
          rcases hnames first (List.mem_cons_self ..) with ⟨hslash, hne⟩
          refine ih hmore fun name hname => ?_
          rcases List.mem_append.mp hname with hname | hname
          · exact hl name hname
          · rw [List.mem_singleton.mp hname]
            refine ⟨hslash, ?_, hup⟩
            rw [Path.isSilent, decide_eq_false hne, decide_eq_false hdot]
            rfl

/-- A path leads through names. -/
theorem Named.isName_of_mem_place (h : store.Named) (p : Path) :
    ∀ name ∈ store.place p, Path.IsName name := by
  rw [place]
  refine isName_of_mem_resolve (fun name hname => ?_) ?_
  · rw [Path.names, List.mem_filter, decide_eq_true_eq] at hname
    exact ⟨Path.noSlash_of_mem_segments hname.1, hname.2⟩
  · rw [start]
    by_cases habsolute : p.isAbsolute = true
    · rw [if_pos habsolute]
      exact fun name hname => absurd hname List.not_mem_nil
    · rw [if_neg habsolute]
      exact h.here

end Named

section Sorted

theorem insertName_sorted {name : List Char} {names : List (List Char)}
    (h : names.Pairwise (· < ·)) : (insertName name names).Pairwise (· < ·) := by
  induction names with
  | nil => exact List.pairwise_singleton _ _
  | cons first more ih =>
      rcases List.pairwise_cons.mp h with ⟨hfirst, hmore⟩
      rw [insertName]
      by_cases hsame : name = first
      · rwa [if_pos hsame]
      · rw [if_neg hsame]
        by_cases hless : name < first
        · rw [if_pos hless]
          refine List.pairwise_cons.mpr ⟨fun other hother => ?_, h⟩
          rcases List.mem_cons.mp hother with rfl | hother
          · exact hless
          · exact List.lt_trans hless (hfirst other hother)
        · rw [if_neg hless]
          refine List.pairwise_cons.mpr ⟨fun other hother => ?_, ih hmore⟩
          -- What stands behind the first is greater, be it new or not.
          rcases mem_insertName.mp hother with rfl | hother
          · exact lt_of_not_lt_of_ne hless (Ne.symm hsame)
          · exact hfirst other hother

/-- The names in a directory are listed in increasing order. -/
theorem sorted_names (store : Store) (l : Location) : (store.names l).Pairwise (· < ·) := by
  rw [names]
  generalize store.entries.filterMap _ = found
  induction found with
  | nil => exact .nil
  | cons name more ih => exact insertName_sorted ih

theorem nodup_of_sorted {names : List (List Char)} (h : names.Pairwise (· < ·)) :
    names.Nodup := by
  refine h.imp ?_
  rintro name _ hlt rfl
  exact List.lt_irrefl name hlt

/-- Names in increasing order are told by which they are. -/
theorem eq_of_sorted {a b : List (List Char)} (ha : a.Pairwise (· < ·)) (hb : b.Pairwise (· < ·))
    (h : ∀ name, name ∈ a ↔ name ∈ b) : a = b := by
  have hperm := (List.perm_ext_iff_of_nodup (nodup_of_sorted ha) (nodup_of_sorted hb)).mpr h
  refine hperm.eq_of_pairwise ?_ ha hb
  exact fun x y _ _ hxy hyx => absurd (List.lt_trans hxy hyx) (List.lt_irrefl x)

end Sorted

section Follow

variable {store : Store} {p : Path} {name : List Char}

/-- A path leads to a directory if one that goes on from it does. -/
theorem leads_of_prefix {q : Path} (hnames : p.names <+: q.names)
    (hstart : store.start p = store.start q) (h : store.LeadsToDirectory q) :
    store.LeadsToDirectory p := by
  have hfind := h.directory_of_prefix hnames
  rw [← hstart] at hfind
  refine ⟨?_, hfind⟩
  rcases hnames with ⟨more, hmore⟩
  have hwalk := h.walk_eq
  rw [← hmore, ← hstart, walk_append] at hwalk
  cases hp : store.walk (store.start p) p.names with
  | error fault =>
      rw [hp] at hwalk
      exact absurd hwalk (by simp only [reduceCtorEq, not_false_eq_true])
  | ok found => rw [walk_eq_resolve hp, place]

theorem leads_of_isHere (h : p.isHere = true) :
    store.LeadsToDirectory p ↔ store.LeadsToDirectory ⟨[]⟩ := by
  rcases Path.names_of_isHere h with ⟨habsolute, hdots⟩
  have hstart : store.start p = store.here := by
    rw [start, habsolute]
    rfl
  have hplace : store.place p = store.here := by rw [place, hstart, resolve_dots _ hdots]
  constructor
  · intro hp
    have hfind := hp.find?_eq
    rw [hplace] at hfind
    exact ⟨rfl, hfind⟩
  · intro hempty
    have hfind : store.find? store.here = some .directory := hempty.find?_eq
    refine ⟨?_, hplace ▸ hfind⟩
    rw [hstart, hplace, walk_dots hdots hfind]

/-- To follow a name is to put it behind a path that leads alike. -/
theorem exists_child_eq_follow (store : Store) (p : Path) (name : List Char) :
    ∃ q : Path, follow p name = q.child (String.ofList name) ∧
      (store.LeadsToDirectory p ↔ store.LeadsToDirectory q) ∧ store.place q = store.place p := by
  by_cases hhere : p.isHere = true
  · refine ⟨⟨[]⟩, ?_, leads_of_isHere hhere, ?_⟩
    · rw [follow, if_pos hhere, Path.child, Path.join, Path.ofString, String.toList_ofList]
      by_cases habsolute : (Path.mk name).isAbsolute = true
      · rw [if_pos habsolute]
      · rw [if_neg habsolute]
        rfl
    · rcases Path.names_of_isHere hhere with ⟨habsolute, hdots⟩
      rw [place, place, resolve_dots _ hdots, start, start, habsolute]
      rfl
  · refine ⟨p, ?_, Iff.rfl, rfl⟩
    rw [follow, if_neg hhere, Path.child, Path.ofString, String.toList_ofList]

theorem place_follow_name (store : Store) (p : Path) (h : Path.IsName name) :
    store.place (follow p name) = store.place p ++ [name] := by
  rcases exists_child_eq_follow store p name with ⟨q, hfollow, _, hplace⟩
  rw [hfollow, place_child store q _ (by rwa [String.toList_ofList]), String.toList_ofList,
    hplace]

/-- What is in front of a name that is followed to a directory is a directory. -/
theorem leads_of_follow (hslash : '/' ∉ name) (h : store.LeadsToDirectory (follow p name)) :
    store.LeadsToDirectory p := by
  rw [follow] at h
  by_cases hhere : p.isHere = true
  · rw [if_pos hhere] at h
    rw [leads_of_isHere hhere]
    refine leads_of_prefix List.nil_prefix ?_ h
    rw [start, start, Path.isAbsolute_of_noSlash hslash]
    rfl
  · rw [if_neg hhere] at h
    refine leads_of_prefix ?_ ?_ h
    · rw [Path.names_join p hslash]
      exact List.prefix_append _ _
    · rw [start, start, Path.isAbsolute_join p hslash]

theorem leads_of_foldl_follow {names : List (List Char)} (hslash : ∀ name ∈ names, '/' ∉ name)
    (h : store.LeadsToDirectory (names.foldl follow p)) : store.LeadsToDirectory p := by
  induction names generalizing p with
  | nil => exact h
  | cons first more ih =>
      exact leads_of_follow (hslash first (List.mem_cons_self ..))
        (ih (fun other hother => hslash other (List.mem_cons_of_mem _ hother)) h)

/-- When a name in a directory is one of a file. How long its path is depends on no
    store. -/
theorem LeadsToDirectory.isFile_follow_iff (h : store.LeadsToDirectory p)
    (hname : Path.IsName name) :
    store.isFile (follow p name) = true ↔
      pathFault? (follow p name) = none ∧ byteLength name ≤ maxNameBytes ∧
        ∃ content, store.find? (store.place p ++ [name]) = some (.file content) := by
  rcases exists_child_eq_follow store p name with ⟨q, hfollow, hleads, hplace⟩
  have hchars : (String.ofList name).toList = name := String.toList_ofList
  have hname' : Path.IsName (String.ofList name).toList := by rwa [hchars]
  rw [isFile_iff, hfollow, place_child store q _ hname', locate_child_iff hname', hchars, hplace]
  constructor
  · rintro ⟨content, ⟨_, hfault, hlong, _⟩, hfind⟩
    exact ⟨hfault, hlong, content, hfind⟩
  · rintro ⟨hfault, hlong, content, hfind⟩
    exact ⟨content, ⟨hleads.mp h, hfault, hlong, rfl⟩, hfind⟩

end Follow

section Keeps

variable {before after : Store} (hkeeps : before.KeepsDirectories after)

include hkeeps

theorem KeepsDirectories.entryAt_directory {p : Path} (h : before.entryAt p = .ok .directory) :
    after.entryAt p = .ok .directory := by
  rcases entryAt_ok_iff.mp h with ⟨hlocate, hfind⟩
  rw [entryAt_ok_iff, hkeeps.place_eq]
  exact ⟨hkeeps.locate_eq hlocate, hkeeps.find?_eq _ hfind⟩

theorem KeepsDirectories.present_of_leads {p : Path} (hleads : before.LeadsToDirectory p)
    (h : before.present p = true) : after.present p = true := by
  refine (hkeeps.leadsToDirectory hleads).present ?_
  -- What is there is found by its path, so nothing is wrong with that.
  by_contra hfault
  rcases Option.ne_none_iff_exists'.mp hfault with ⟨fault, hfault⟩
  rw [present, entryAt, locate, hfault] at h
  exact absurd h Bool.false_ne_true

/-- Names that were followed to a directory can be followed again. -/
theorem select_of_keeps {names : List (List Char)} (hslash : ∀ name ∈ names, '/' ∉ name)
    {p : Path} (hleads : before.LeadsToDirectory (names.foldl follow p)) {rest : List Selector}
    (hfound : before.select (names.map .name ++ rest) p ≠ []) (more : List Selector) :
    after.select (names.map .name ++ more) p = after.select more (names.foldl follow p) := by
  induction names generalizing p with
  | nil => rfl
  | cons first names ih =>
      have hnames : ∀ name ∈ names, '/' ∉ name :=
        fun name hname => hslash name (List.mem_cons_of_mem _ hname)
      rw [List.foldl_cons] at hleads ⊢
      simp only [List.map_cons, List.cons_append, select] at hfound ⊢
      by_cases hdots : first = ['.'] ∨ first = ['.', '.']
      · simp only [if_pos hdots] at hfound ⊢
        by_cases hthere : before.isDirectory p = true
        · rw [if_pos hthere] at hfound
          rw [if_pos (isDirectory_iff.mpr (hkeeps.entryAt_directory (isDirectory_iff.mp hthere)))]
          exact ih hnames hleads hfound
        · rw [if_neg hthere] at hfound
          exact absurd rfl hfound
      · simp only [if_neg hdots] at hfound ⊢
        by_cases hthere : before.present (follow p first) = true
        · rw [if_pos hthere] at hfound
          -- Whatever the name leads to is a directory, since the names go on from there.
          rw [if_pos (hkeeps.present_of_leads (leads_of_foldl_follow hnames hleads) hthere)]
          exact ih hnames hleads hfound
        · rw [if_neg hthere] at hfound
          exact absurd rfl hfound

/-- A directory in which something was found is entered again. -/
theorem Enters.of_keeps {directory p : Path} {extension : String}
    (hslash : '/' ∉ extension.toList) (h : p ∈ before.matching directory extension) :
    after.Enters directory := by
  have henters := enters_of_mem_matching hslash h
  have hleads : before.LeadsToDirectory (respelled directory) :=
    leads_of_isDirectory henters.isDirectory
  have hfound : before.select (Selector.ofDirectory directory ++ Selector.ofExtension extension)
      (if directory.isAbsolute then ⟨['/']⟩ else ⟨['.']⟩) ≠ [] := by
    intro hnone
    rw [matching] at h
    simp only [hnone, List.filter_nil, ite_self] at h
    exact absurd h List.not_mem_nil
  refine ⟨fun rest => ?_, isDirectory_iff.mpr
    (hkeeps.entryAt_directory (isDirectory_iff.mp henters.isDirectory))⟩
  exact select_of_keeps hkeeps (fun name hname => Path.noSlash_of_mem_segments hname) hleads
    hfound rest

end Keeps

/-- The files of a directory are as they were, and no directory is lost. -/
structure Steady (directory : Path) (before after : Store) : Prop where
  keeps : before.KeepsDirectories after
  /-- What stands in the directory has a name. -/
  name : ∀ name, (after.find? (before.place directory ++ [name])).isSome = true →
    Path.IsName name
  /-- The files there are the same. -/
  file : ∀ name content, after.find? (before.place directory ++ [name]) = some (.file content) ↔
    before.find? (before.place directory ++ [name]) = some (.file content)

section Steady

variable {before after : Store} {directory : Path}

/-- What matches an extension matches it again. -/
theorem matching_steady (hnamed : before.Named) (h : Steady directory before after)
    {extension : String} (hslash : '/' ∉ extension.toList) (henters : before.Enters directory)
    (hagain : after.Enters directory) :
    after.matching directory extension = before.matching directory extension := by
  have hleads : before.LeadsToDirectory (respelled directory) :=
    leads_of_isDirectory henters.isDirectory
  have hplace : before.place (respelled directory) = before.place directory :=
    place_respelled before directory
  -- A name is one of a file before exactly if it is afterwards.
  have hfile : ∀ name, Path.IsName name →
      (after.isFile (follow (respelled directory) name) = true ↔
        before.isFile (follow (respelled directory) name) = true) := by
    intro name hname
    rw [(h.keeps.leadsToDirectory hleads).isFile_follow_iff hname,
      hleads.isFile_follow_iff hname, h.keeps.place_eq, hplace]
    simp only [h.file name]
  have hmem : ∀ {store : Store} {name : List Char}, store.LeadsToDirectory (respelled directory) →
      Path.IsName name → store.isFile (follow (respelled directory) name) = true →
      name ∈ store.names (store.place directory) := by
    intro store name hstore hname hisFile
    rcases ((hstore.isFile_follow_iff hname).mp hisFile).2.2 with ⟨content, hfind⟩
    rw [mem_names, ← place_respelled, hfind]
    rfl
  rw [hagain.matching_eq hslash, henters.matching_eq hslash]
  congr 1
  refine eq_of_sorted ((sorted_names _ _).filter _) ((sorted_names _ _).filter _) fun name => ?_
  rw [List.mem_filter, List.mem_filter, Bool.and_eq_true, Bool.and_eq_true]
  constructor
  · rintro ⟨hlisted, hisFile, hsuffix⟩
    rw [mem_names, h.keeps.place_eq] at hlisted
    have hname := h.name name hlisted
    have hbefore := (hfile name hname).mp hisFile
    exact ⟨hmem hleads hname hbefore, hbefore, hsuffix⟩
  · rintro ⟨hlisted, hisFile, hsuffix⟩
    have hname := hnamed.isName_of_find? (mem_names.mp hlisted) name
      (List.mem_append_right _ (List.mem_singleton_self name))
    have hafter := (hfile name hname).mpr hisFile
    exact ⟨hmem (h.keeps.leadsToDirectory hleads) hname hafter, hafter, hsuffix⟩

/-- The same level files are discovered. -/
theorem discover_steady (hnamed : before.Named) (h : Steady directory before after)
    {extensions : List String} (hslash : ∀ extension ∈ extensions, '/' ∉ extension.toList)
    {files : List LevelFile} (hne : files ≠ [])
    (hfiles : before.discover directory extensions = .ok files) :
    after.discover directory extensions = .ok files := by
  -- There is a level file, so the directory is entered.
  rcases List.exists_mem_of_ne_nil files hne with ⟨first, hfirst⟩
  rcases ((mem_discover hfiles first).mp hfirst).1 with ⟨extension, hextension, hmatch⟩
  have henters := enters_of_mem_matching (hslash extension hextension) hmatch
  have hagain := Enters.of_keeps h.keeps (hslash extension hextension) hmatch
  have hall : extensions.flatMap (fun extension => after.matching directory extension) =
      extensions.flatMap fun extension => before.matching directory extension :=
    List.flatMap_congr fun extension hextension =>
      matching_steady hnamed h (hslash extension hextension) henters hagain
  rw [discover] at hfiles ⊢
  cases hentry : before.entryAt directory with
  | error fault =>
      rw [hentry] at hfiles
      exact absurd hfiles (by simp only [reduceCtorEq, not_false_eq_true])
  | ok entry =>
      rw [hentry] at hfiles
      cases entry with
      | file content => exact absurd hfiles (by simp only [reduceCtorEq, not_false_eq_true])
      | directory =>
          rw [h.keeps.entryAt_directory hentry]
          simp only [hall]
          exact hfiles

end Steady

end Store

end PuzzleLevel
