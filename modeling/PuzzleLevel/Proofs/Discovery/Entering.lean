import PuzzleLevel.Proofs.Build.Rediscovery

/-!
# When a Directory Is Entered

Discovery is asked about a directory, and it makes sure that there is one before it looks
for level files. But then it goes from name to name, and respells the path on its way.
What it arrives at is the directory that was asked for, with one exception: a relative path
that is empty behind the dots in its front is respelled as an empty path, and that leads
nowhere. Such a directory is there and is not entered.

In all other cases nothing can stop discovery on its way. Each path that is followed on it
leads to a directory, because the last one does, and each can be used, because what is
written in it is written in the path of the directory, in that order.

## Main definitions

* `Path.isLost`: A relative path is empty behind the dots in its front.

## Theorems

* `leads_respelled`: It leads to the same directory then.
* `enters_of_entryAt`: A directory is entered if its path is not lost.
* `matching_of_isLost`: Nothing is found in one whose path is.
-/

namespace PuzzleLevel

namespace Path

/-- Whether an empty segment comes behind the dots in front of some segments. -/
def isBlankAfterDots : List (List Char) → Bool
  | [] => false
  | s :: more => if s = ['.'] then isBlankAfterDots more else s = []

/-- Whether a relative path is empty behind the dots in its front. -/
def isLost (p : Path) : Bool :=
  !p.isAbsolute && isBlankAfterDots (segments p.chars)

/-- A path that says nothing but dots is the working directory. -/
theorem isHere_of_names {p : Path} (habsolute : p.isAbsolute = false) (hne : p.chars ≠ [])
    (h : ∀ name ∈ p.names, name = ['.']) : p.isHere = true := by
  rcases front_cases p with ⟨_, hchars⟩ | ⟨hfront, _⟩ | ⟨hfront, hrest, hhead, hdot, hdots⟩
  · rw [isAbsolute, hchars] at habsolute
    exact absurd habsolute (by simp only [List.head?_cons, decide_true, Bool.true_eq_false,
      not_false_eq_true])
  · rw [isHere, Bool.and_eq_true, decide_eq_true_eq, List.isEmpty_iff]
    refine ⟨hfront, List.dropWhile_eq_nil_iff.mpr fun s hs => ?_⟩
    by_cases hempty : s = []
    · rw [hempty]
      rfl
    · have hname : s ∈ p.names := by
        rw [names_eq]
        exact List.mem_append_right _ (List.mem_filter.mpr
          ⟨List.mem_reverse.mp hs, decide_eq_true hempty⟩)
      rw [h s hname]
      rfl
  · -- The first segment is not empty, so it is a dot, and then it is the front.
    rcases hsegments : segments p.chars with _ | ⟨first, more⟩
    · exact absurd hsegments (segments_ne_nil _)
    · have hchars := eq_of_segments hsegments
      have hfirst : first ≠ [] := by
        rintro rfl
        cases more with
        | nil => exact hne hchars
        | cons second more =>
            rw [hchars] at hhead
            exact hhead rfl
      have hname : first ∈ p.names := by
        rw [names, hsegments]
        exact List.mem_filter.mpr ⟨List.mem_cons_self .., decide_eq_true hfirst⟩
      rw [h first hname] at hchars
      cases more with
      | nil => exact absurd hchars hdot
      | cons second more => exact absurd hchars (hdots _)

/-- Putting a name behind a path does not lead to the working directory. -/
theorem isHere_of_join {p : Path} {name : List Char} (hne : p.chars ≠ []) (hslash : '/' ∉ name)
    (h : (p.join ⟨name⟩).isHere = true) : p.isHere = true := by
  rcases names_of_isHere h with ⟨habsolute, hdots⟩
  rw [isAbsolute_join p hslash] at habsolute
  rw [names_join p hslash] at hdots
  exact isHere_of_names habsolute hne fun other hother =>
    hdots other (List.mem_append_left _ hother)

end Path

namespace Store

section Respelling

theorem follow_sublist (p : Path) {name : List Char} (hslash : '/' ∉ name) :
    (follow p name).chars.Sublist (p.chars ++ '/' :: name) := by
  rw [follow]
  by_cases hhere : p.isHere = true
  · rw [if_pos hhere]
    exact ((List.sublist_cons_self ..).trans (List.sublist_append_right ..))
  · rw [if_neg hhere, Path.join, Path.isAbsolute_of_noSlash hslash, if_neg Bool.false_ne_true]
    by_cases hset : (p.chars.isEmpty || p.chars.getLast? = some '/') = true
    · rw [if_pos hset]
      exact (List.sublist_cons_self ..).append_left _
    · rw [if_neg hset]

/-- What is written when names are followed from a path and every slash is kept, but for
    one at the first name that the path has no use for. -/
def spelling (p : Path) : List (List Char) → List Char
  | [] => p.chars
  | first :: more => (follow p first).chars ++ more.flatMap ('/' :: ·)

theorem spelling_follow_sublist (p : Path) (first : List Char) {more : List (List Char)}
    (hslash : ∀ name ∈ more, '/' ∉ name) :
    (spelling (follow p first) more).Sublist (spelling p (first :: more)) := by
  cases more with
  | nil => exact List.sublist_append_left ..
  | cons second more =>
      rw [spelling, spelling, List.flatMap_cons, ← List.append_assoc]
      exact (follow_sublist _ (hslash second (List.mem_cons_self ..))).append_right _

/-- From where it starts, a path is spelled as it is. -/
theorem spelling_segments (directory : Path) :
    spelling (if directory.isAbsolute then ⟨['/']⟩ else ⟨['.']⟩)
      (Path.segments (directory.chars.drop (if directory.isAbsolute then 1 else 0))) =
        directory.chars := by
  by_cases habsolute : directory.isAbsolute = true
  · rw [if_pos habsolute, if_pos habsolute]
    rw [Path.isAbsolute, decide_eq_true_eq] at habsolute
    rcases List.head?_eq_some_iff.mp habsolute with ⟨rest, hrest⟩
    rw [hrest, List.drop_one, List.tail_cons]
    rcases hsegments : Path.segments rest with _ | ⟨first, more⟩
    · exact absurd hsegments (Path.segments_ne_nil rest)
    · have hfirst : '/' ∉ first :=
        Path.noSlash_of_mem_segments (hsegments ▸ List.mem_cons_self ..)
      rw [spelling, follow, if_neg (by decide), Path.join, Path.isAbsolute_of_noSlash hfirst,
        if_neg Bool.false_ne_true, Path.eq_of_segments hsegments]
      rfl
  · rw [if_neg habsolute, if_neg habsolute, List.drop_zero]
    rcases hsegments : Path.segments directory.chars with _ | ⟨first, more⟩
    · exact absurd hsegments (Path.segments_ne_nil _)
    · -- The dot that stands for the working directory is left out.
      rw [spelling, follow, if_pos (by decide), ← Path.eq_of_segments hsegments]

theorem byteLength_sublist {a b : List Char} (h : a.Sublist b) : byteLength a ≤ byteLength b := by
  induction h with
  | slnil => exact Nat.le_refl _
  | cons c _ ih =>
      simp only [byteLength, List.map_cons, List.foldr_cons] at ih ⊢
      omega
  | cons_cons c _ ih =>
      simp only [byteLength, List.map_cons, List.foldr_cons] at ih ⊢
      omega

/-- What is left of a usable path is usable, unless nothing is left. -/
theorem pathFault?_sublist {p q : Path} (h : q.chars.Sublist p.chars) (hne : q.chars ≠ [])
    (hp : pathFault? p = none) : pathFault? q = none := by
  have hlength := byteLength_sublist h
  revert hp
  fun_cases pathFault? p with
  | case1 hnul => exact nofun
  | case2 hnul hlong => exact nofun
  | case3 hnul hlong hempty => exact nofun
  | case4 hnul hlong hempty =>
      intro _
      rw [pathFault?, if_neg fun hq => hnul (h.subset hq), if_neg (by omega),
        if_neg (by rwa [List.isEmpty_iff])]

end Respelling

section Leading

variable {store : Store}

/-- From a directory a name can be followed to a directory as it can be walked. -/
theorem LeadsToDirectory.follow {p : Path} (h : store.LeadsToDirectory p) {name : List Char}
    (hslash : '/' ∉ name) {l : Location}
    (hwalk : store.walk (store.place p) ([name].filter (· ≠ [])) = .ok l)
    (hfind : store.find? l = some .directory) : store.LeadsToDirectory (follow p name) := by
  have hplace : store.place (Store.follow p name) = l := by
    rw [place_follow store p hslash, ← walk_eq_resolve hwalk]
  refine ⟨?_, hplace ▸ hfind⟩
  rw [hplace, Store.follow]
  by_cases hhere : p.isHere = true
  · rcases Path.names_of_isHere hhere with ⟨habsolute, hdots⟩
    have hstart : store.place p = store.here := by
      rw [place, resolve_dots _ hdots, start, habsolute, if_neg Bool.false_ne_true]
    rw [if_pos hhere, Path.names_of_noSlash hslash, start, Path.isAbsolute_of_noSlash hslash,
      if_neg Bool.false_ne_true, ← hstart]
    exact hwalk
  · rw [if_neg hhere, Path.names_join p hslash, start, Path.isAbsolute_join p hslash,
      walk_append, show (if p.isAbsolute = true then [] else store.here) = store.start p from rfl,
      h.walk_eq]
    exact hwalk

theorem LeadsToDirectory.foldl_follow {names : List (List Char)}
    (hslash : ∀ name ∈ names, '/' ∉ name) {p : Path} (h : store.LeadsToDirectory p)
    {l : Location} (hwalk : store.walk (store.place p) (names.filter (· ≠ [])) = .ok l)
    (hfind : store.find? l = some .directory) :
    store.LeadsToDirectory (names.foldl Store.follow p) := by
  induction names generalizing p with
  | nil => exact h
  | cons first more ih =>
      have hfirst := hslash first (List.mem_cons_self ..)
      rw [← List.singleton_append, List.filter_append, walk_append] at hwalk
      cases hstep : store.walk (store.place p) ([first].filter (· ≠ [])) with
      | error fault =>
          rw [hstep] at hwalk
          exact absurd hwalk (by simp only [reduceCtorEq, not_false_eq_true])
      | ok mid =>
          rw [hstep] at hwalk
          simp only at hwalk
          -- Either the walk goes on from there, or it ends there.
          have hmid : store.find? mid = some .directory := by
            cases hmore : more.filter (· ≠ []) with
            | nil =>
                rw [hmore, walk, Except.ok.injEq] at hwalk
                rwa [hwalk]
            | cons name rest =>
                rw [hmore] at hwalk
                exact directory_of_walk_cons hwalk
          have hnext := h.follow hfirst hstep hmid
          refine ih (fun name hname => hslash name (List.mem_cons_of_mem _ hname)) hnext ?_
          rw [place_follow store p hfirst, ← walk_eq_resolve hstep]
          exact hwalk

/-- A respelled path leads to the same directory. -/
theorem leads_respelled {directory : Path} (h : store.LeadsToDirectory directory) :
    store.LeadsToDirectory (respelled directory) := by
  have hslash : ∀ {cs : List Char}, ∀ name ∈ Path.segments cs, '/' ∉ name :=
    fun name hname => Path.noSlash_of_mem_segments hname
  have hstart := h.directory_of_prefix List.nil_prefix
  have hwalk := h.walk_eq
  rw [respelled]
  by_cases habsolute : directory.isAbsolute = true
  · rw [start, if_pos habsolute] at hwalk
    rw [if_pos habsolute, if_pos habsolute]
    have hroot : store.LeadsToDirectory ⟨['/']⟩ := ⟨rfl, rfl⟩
    refine hroot.foldl_follow hslash ?_ h.find?_eq
    rw [Path.isAbsolute, decide_eq_true_eq] at habsolute
    rcases List.head?_eq_some_iff.mp habsolute with ⟨rest, hrest⟩
    rw [Path.names, hrest, Path.segments, if_pos rfl] at hwalk
    rw [hrest]
    exact hwalk
  · rw [start, if_neg habsolute] at hwalk hstart
    rw [if_neg habsolute, if_neg habsolute]
    have hdots : ∀ d ∈ (Path.mk ['.']).names, d = ['.'] := by decide
    have hhere : store.LeadsToDirectory ⟨['.']⟩ := ⟨walk_dots hdots hstart, hstart⟩
    exact hhere.foldl_follow hslash hwalk h.find?_eq

theorem LeadsToDirectory.isDirectory {p : Path} (h : store.LeadsToDirectory p)
    (hfault : pathFault? p = none) : store.isDirectory p = true := by
  have hpresent := h.present hfault
  rw [isDirectory_iff, entryAt_ok_iff]
  rw [Store.present] at hpresent
  cases hentry : store.entryAt p with
  | error fault =>
      rw [hentry] at hpresent
      exact absurd hpresent Bool.false_ne_true
  | ok entry => exact ⟨(entryAt_ok_iff.mp hentry).1, h.find?_eq⟩

end Leading

section Entering

variable {store : Store}

theorem ne_nil_of_pathFault? {p : Path} (h : pathFault? p = none) : p.chars ≠ [] := by
  revert h
  fun_cases pathFault? p with
  | case1 hnul => exact nofun
  | case2 hnul hlong => exact nofun
  | case3 hnul hlong hempty => exact nofun
  | case4 hnul hlong hempty => exact fun _ hnil => hempty (List.isEmpty_iff.mpr hnil)

/-- Where a name is followed that can be, to a directory that can be named. -/
theorem select_name_of_leads {p : Path} {name : List Char} (hleads : store.LeadsToDirectory p)
    (hfault : pathFault? p = none) (hnext : store.LeadsToDirectory (follow p name))
    (hnextfault : pathFault? (follow p name) = none) (more : List Selector) :
    store.select (.name name :: more) p = store.select more (follow p name) := by
  simp only [select]
  by_cases hdots : name = ['.'] ∨ name = ['.', '.']
  · rw [if_pos hdots, if_pos (hleads.isDirectory hfault)]
  · rw [if_neg hdots, if_pos (hnext.present hnextfault)]

/-- Following one name leaves a usable path, and does not lose the way. -/
theorem follow_usable {whole p : Path} {first : List Char} {more : List (List Char)}
    (hwhole : pathFault? whole = none) (hslash : '/' ∉ first) (hfault : pathFault? p = none)
    (hlost : p.isHere = true → Path.isBlankAfterDots (first :: more) = false)
    (hspelling : (follow p first).chars.Sublist whole.chars) :
    pathFault? (follow p first) = none ∧
      ((follow p first).isHere = true → Path.isBlankAfterDots more = false) := by
  by_cases hhere : p.isHere = true
  · have hblank := hlost hhere
    rw [Path.isBlankAfterDots] at hblank
    rw [follow, if_pos hhere] at hspelling ⊢
    by_cases hdot : first = ['.']
    · rw [if_pos hdot] at hblank
      exact ⟨pathFault?_sublist hspelling (by rw [hdot]; decide) hwhole, fun _ => hblank⟩
    · rw [if_neg hdot, decide_eq_false_iff_not] at hblank
      refine ⟨pathFault?_sublist hspelling hblank hwhole, fun hnext => ?_⟩
      have hall := (Path.names_of_isHere hnext).2 first
      rw [Path.names_of_noSlash hslash] at hall
      exact absurd (hall (List.mem_filter.mpr
        ⟨List.mem_singleton_self _, decide_eq_true hblank⟩)) hdot
  · have hne := ne_nil_of_pathFault? hfault
    rw [follow, if_neg hhere] at hspelling ⊢
    refine ⟨pathFault?_sublist hspelling ?_ hwhole, fun hnext =>
      absurd (Path.isHere_of_join hne hslash hnext) hhere⟩
    rw [Path.join, Path.isAbsolute_of_noSlash hslash, if_neg Bool.false_ne_true]
    split
    · exact List.append_ne_nil_of_left_ne_nil hne _
    · exact List.append_ne_nil_of_left_ne_nil hne _

/-- Names that lead to a directory are followed to the end, unless the way is lost. -/
theorem select_of_leads {whole : Path} (hwhole : pathFault? whole = none)
    {names : List (List Char)} (hslash : ∀ name ∈ names, '/' ∉ name) {p : Path}
    (hleads : store.LeadsToDirectory (names.foldl follow p)) (hfault : pathFault? p = none)
    (hlost : p.isHere = true → Path.isBlankAfterDots names = false)
    (hspelling : (spelling p names).Sublist whole.chars) :
    pathFault? (names.foldl follow p) = none ∧
      ∀ rest, store.select (names.map .name ++ rest) p =
        store.select rest (names.foldl follow p) := by
  induction names generalizing p with
  | nil => exact ⟨hfault, fun _ => rfl⟩
  | cons first more ih =>
      have hfirst := hslash first (List.mem_cons_self ..)
      have hmore : ∀ name ∈ more, '/' ∉ name :=
        fun name hname => hslash name (List.mem_cons_of_mem _ hname)
      rcases follow_usable hwhole hfirst hfault hlost
        ((List.sublist_append_left ..).trans hspelling) with ⟨hnext, hlost⟩
      rw [List.foldl_cons] at hleads ⊢
      rcases ih hmore hleads hnext hlost
        ((spelling_follow_sublist p first hmore).trans hspelling) with ⟨hend, hselect⟩
      have hfollow := leads_of_foldl_follow hmore hleads
      refine ⟨hend, fun rest => ?_⟩
      rw [List.map_cons, List.cons_append,
        select_name_of_leads (leads_of_follow hfirst hfollow) hfault hfollow hnext, hselect]

/-- Behind dots nothing has an empty path. -/
theorem select_of_isBlankAfterDots {names : List (List Char)}
    (h : Path.isBlankAfterDots names = true) (rest : List Selector) :
    store.select (names.map .name ++ rest) ⟨['.']⟩ = [] := by
  induction names with
  | nil => exact absurd h Bool.false_ne_true
  | cons first more ih =>
      have hfollow : follow ⟨['.']⟩ first = ⟨first⟩ := by rw [follow, if_pos (by decide)]
      rw [Path.isBlankAfterDots] at h
      simp only [List.map_cons, List.cons_append, select, hfollow]
      by_cases hdot : first = ['.']
      · rw [if_pos hdot] at h
        rw [hdot, ih h, ite_self]
      · rw [if_neg hdot, decide_eq_true_eq] at h
        have habsent : store.present ⟨[]⟩ = false := rfl
        rw [h, habsent]
        rfl

section Entry

variable {directory : Path} (h : store.entryAt directory = .ok .directory)

include h

theorem pathFault?_of_entryAt : pathFault? directory = none := by
  cases hfault : pathFault? directory with
  | none => rfl
  | some fault =>
      rw [entryAt, locate, hfault] at h
      exact absurd h (by simp only [reduceCtorEq, not_false_eq_true])

/-- A directory is entered if its path is not lost, and by a path that can be used. -/
theorem enters_of_entryAt (hlost : directory.isLost = false) :
    store.Enters directory ∧ pathFault? (respelled directory) = none := by
  have hfault := pathFault?_of_entryAt h
  have hleads := leads_respelled (leads_of_isDirectory (isDirectory_iff.mpr h))
  have hselect : pathFault? (respelled directory) = none ∧ ∀ rest,
      store.select (Selector.ofDirectory directory ++ rest)
        (if directory.isAbsolute then ⟨['/']⟩ else ⟨['.']⟩) =
      store.select rest (respelled directory) := by
    rw [respelled] at hleads ⊢
    refine select_of_leads hfault (fun name hname => Path.noSlash_of_mem_segments hname) hleads
      (by split <;> rfl) (fun hhere => ?_) (by rw [spelling_segments])
    -- The root is not the working directory, so the path is relative.
    cases habsolute : directory.isAbsolute with
    | true =>
        rw [habsolute] at hhere
        exact absurd hhere (by decide)
    | false =>
        rwa [Path.isLost, habsolute] at hlost
  exact ⟨⟨hselect.2, hleads.isDirectory hselect.1⟩, hselect.1⟩

end Entry

/-- Nothing is found in a directory whose path is lost. -/
theorem matching_of_isLost {directory : Path} (h : directory.isLost = true) (extension : String) :
    store.matching directory extension = [] := by
  rw [Path.isLost, Bool.and_eq_true, Bool.not_eq_true'] at h
  rw [matching, Selector.ofDirectory, h.1]
  simp only [Bool.false_eq_true, if_false, List.drop_zero]
  rw [select_of_isBlankAfterDots h.2, List.filter_nil, ite_self]

end Entering

end Store

end PuzzleLevel
