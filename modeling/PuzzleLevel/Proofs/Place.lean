import Mathlib.Data.List.Basic
import PuzzleLevel.Proofs.Path

/-!
# Where Paths Lead

Following a path looks at every directory on its way and fails where one is
missing. Where it leads when it does not fail is a matter of the names alone:
`place` computes it without looking at the store. This is what lets a release be
described by places that are known before it begins, although the directories
it walks through may only be made on the way.

A path leads to a directory when nothing is missing on its way and a directory
stands at its end. Then the entries of that directory are reached by putting
their names behind the path, whatever the store holds besides. Nothing that a
release does takes a directory away, so a path that leads to one keeps doing so;
`KeepsDirectories` is that relation between two stores.

## Main definitions

* `Store.resolve`: Where names lead when nothing is missing.
* `Store.place`: Where a path leads when nothing is missing.
* `Store.LeadsToDirectory`: A path can be followed to a directory.
* `Store.KeepsDirectories`: Every directory of one store is one of another.

## Theorems

* `locate_eq_place`: A path that can be followed leads to its place.
* `locate_child_iff`: When a name behind a path can be followed.
* `leadsToDirectory_bare`: A path and its bare form lead alike.
* `LeadsToDirectory.directory_of_mem_ancestors`: What is above a directory is a directory.
* `KeepsDirectories.leadsToDirectory`: Keeping directories keeps paths.
-/

namespace PuzzleLevel

namespace Store

/-- Where names lead from a location when nothing is missing. -/
def resolve : Location → List (List Char) → Location
  | location, [] => location
  | location, name :: more =>
    if name = ['.'] then resolve location more
    else if name = ['.', '.'] then resolve location.dropLast more
    else resolve (location ++ [name]) more

/-- Where the following of a path starts. -/
def start (store : Store) (p : Path) : Location :=
  if p.isAbsolute then [] else store.here

/-- Where a path leads when nothing is missing. -/
def place (store : Store) (p : Path) : Location :=
  resolve (store.start p) p.names

/-- A path can be followed to a directory. How long it is does not matter here,
    because it will be followed with names behind it. -/
structure LeadsToDirectory (store : Store) (p : Path) : Prop where
  /-- Nothing is missing on the way. -/
  walk_eq : store.walk (store.start p) p.names = .ok (store.place p)
  /-- A directory stands at the end. -/
  find?_eq : store.find? (store.place p) = some .directory

/-- Every directory of one store is one of another. -/
structure KeepsDirectories (before after : Store) : Prop where
  /-- Relative paths start where they started. -/
  here_eq : after.here = before.here
  /-- A directory stays one. -/
  find?_eq : ∀ location, before.find? location = some .directory →
    after.find? location = some .directory

theorem resolve_append (location : Location) (a b : List (List Char)) :
    resolve location (a ++ b) = resolve (resolve location a) b := by
  induction a generalizing location with
  | nil => rfl
  | cons name a ih =>
      simp only [List.cons_append, resolve]
      by_cases hdot : name = ['.']
      · rw [if_pos hdot, if_pos hdot, ih]
      · by_cases hup : name = ['.', '.']
        · rw [if_neg hdot, if_neg hdot, if_pos hup, if_pos hup, ih]
        · rw [if_neg hdot, if_neg hdot, if_neg hup, if_neg hup, ih]

theorem resolve_dots (location : Location) {dots : List (List Char)}
    (h : ∀ d ∈ dots, d = ['.']) : resolve location dots = location := by
  induction dots with
  | nil => rfl
  | cons d dots ih =>
      rw [resolve, if_pos (h d (List.mem_cons_self ..))]
      exact ih fun e he => h e (List.mem_cons_of_mem _ he)

theorem resolve_name (location : Location) {name : List Char} (h : Path.IsName name) :
    resolve location [name] = location ++ [name] := by
  have hdot : name ≠ ['.'] := fun he => absurd h.notSilent (by rw [he]; decide)
  rw [resolve, if_neg hdot, if_neg h.notUp, resolve]

/-- Names that can be followed lead where they say. -/
theorem walk_eq_resolve {store : Store} {names : List (List Char)} {location found : Location}
    (h : store.walk location names = .ok found) : found = resolve location names := by
  induction names generalizing location with
  | nil =>
      rw [walk, Except.ok.injEq] at h
      exact h.symm
  | cons name names ih =>
      rw [walk] at h
      cases hfind : store.find? location with
      | none =>
          rw [hfind] at h
          exact absurd h (by simp only [reduceCtorEq, not_false_eq_true])
      | some entry =>
          cases entry with
          | file content =>
              rw [hfind] at h
              exact absurd h (by simp only [reduceCtorEq, not_false_eq_true])
          | directory =>
              rw [hfind] at h
              simp only [] at h
              rw [resolve]
              -- Each name is a dot, leads up, or leads down if it is not too long.
              by_cases hdot : name = ['.']
              · rw [if_pos hdot] at h ⊢
                exact ih h
              · rw [if_neg hdot] at h ⊢
                by_cases hup : name = ['.', '.']
                · rw [if_pos hup] at h ⊢
                  exact ih h
                · rw [if_neg hup] at h ⊢
                  by_cases hlong : maxNameBytes < byteLength name
                  · rw [if_pos hlong] at h
                    exact absurd h (by simp only [reduceCtorEq, not_false_eq_true])
                  · rw [if_neg hlong] at h
                    exact ih h

theorem walk_append (store : Store) (location : Location) (a b : List (List Char)) :
    store.walk location (a ++ b) =
      match store.walk location a with
      | .error fault => .error fault
      | .ok found => store.walk found b := by
  induction a generalizing location with
  | nil => rfl
  | cons name a ih =>
      rw [List.cons_append, walk, walk]
      cases store.find? location with
      | none => rfl
      | some entry =>
          cases entry with
          | file content => rfl
          | directory =>
              simp only []
              by_cases hdot : name = ['.']
              · rw [if_pos hdot, if_pos hdot, ih]
              · by_cases hup : name = ['.', '.']
                · rw [if_neg hdot, if_neg hdot, if_pos hup, if_pos hup, ih]
                · rw [if_neg hdot, if_neg hdot, if_neg hup, if_neg hup]
                  by_cases hlong : maxNameBytes < byteLength name
                  · rw [if_pos hlong, if_pos hlong]
                  · rw [if_neg hlong, if_neg hlong, ih]

/-- A name is only followed from a directory. -/
theorem directory_of_walk_cons {store : Store} {location found : Location} {name : List Char}
    {more : List (List Char)} (h : store.walk location (name :: more) = .ok found) :
    store.find? location = some .directory := by
  rw [walk] at h
  cases hfind : store.find? location with
  | none =>
      rw [hfind] at h
      exact absurd h (by simp only [reduceCtorEq, not_false_eq_true])
  | some entry =>
      cases entry with
      | file content =>
          rw [hfind] at h
          exact absurd h (by simp only [reduceCtorEq, not_false_eq_true])
      | directory => rfl

theorem walk_dots {store : Store} {location : Location} {dots : List (List Char)}
    (hdots : ∀ d ∈ dots, d = ['.']) (h : store.find? location = some .directory) :
    store.walk location dots = .ok location := by
  induction dots with
  | nil => rfl
  | cons d dots ih =>
      rw [walk, h]
      simp only []
      rw [if_pos (hdots d (List.mem_cons_self ..))]
      exact ih fun e he => hdots e (List.mem_cons_of_mem _ he)

/-- A single name can be followed from a directory if it is not too long. -/
theorem walk_name {store : Store} {location : Location} {name : List Char}
    (hname : Path.IsName name) (h : store.find? location = some .directory) :
    store.walk location [name] =
      if maxNameBytes < byteLength name then .error .nameTooLong
      else .ok (location ++ [name]) := by
  have hdot : name ≠ ['.'] := fun he => absurd hname.notSilent (by rw [he]; decide)
  rw [walk, h]
  simp only []
  rw [if_neg hdot, if_neg hname.notUp, walk]

theorem start_child (store : Store) (p : Path) (name : String) (h : Path.IsName name.toList) :
    store.start (p.child name) = store.start p := by
  rw [start, start, Path.isAbsolute_child p name h]

theorem start_bare (store : Store) (p : Path) : store.start p.bare = store.start p := by
  rw [start, start, Path.isAbsolute_bare]

/-- A name put behind a path leads to the entry of that name. -/
theorem place_child (store : Store) (p : Path) (name : String) (h : Path.IsName name.toList) :
    store.place (p.child name) = store.place p ++ [name.toList] := by
  rw [place, start_child store p name h, Path.names_child p name h, resolve_append,
    resolve_name _ h, place]

theorem place_bare (store : Store) (p : Path) : store.place p.bare = store.place p := by
  rcases Path.names_bare p with ⟨dots, hnames, hdots⟩
  rw [place, place, start_bare, hnames, resolve_append, resolve_dots _ hdots]

theorem place_eq_of_here {before after : Store} (h : after.here = before.here) (p : Path) :
    after.place p = before.place p := by
  rw [place, place, start, start, h]

/-- The names that a path is followed through, and a dot if it ends in a slash. -/
theorem steps_eq (p : Path) :
    steps p = p.names ++ if p.chars.getLast? = some '/' then [['.']] else [] := rfl

theorem steps_child (p : Path) (name : String) (h : Path.IsName name.toList) :
    steps (p.child name) = p.names ++ [name.toList] := by
  have hlast : (p.child name).chars.getLast? ≠ some '/' := by
    have hne : name.toList ≠ [] := fun he => absurd h.notSilent (by rw [he]; decide)
    have hmem : name.toList.getLast? ≠ some '/' := fun hc =>
      h.noSlash (List.mem_of_mem_getLast? hc)
    rcases Path.child_cases p name h with ⟨_, hc⟩ | ⟨b, _, hc⟩ | ⟨_, hc⟩
    · rwa [hc]
    · rw [hc, List.getLast?_append_of_ne_nil _ (List.cons_ne_nil _ _),
        List.getLast?_cons_of_ne_nil hne]
      exact hmem
    · rw [hc, List.getLast?_append_of_ne_nil _ (List.cons_ne_nil _ _),
        List.getLast?_cons_of_ne_nil hne]
      exact hmem
  rw [steps_eq, if_neg hlast, List.append_nil, Path.names_child p name h]

/-- A path that can be followed leads to its place. -/
theorem locate_eq_place {store : Store} {p : Path} {location : Location}
    (h : store.locate p = .ok location) : location = store.place p := by
  rw [locate] at h
  cases hfault : pathFault? p with
  | some fault =>
      rw [hfault] at h
      exact absurd h (by simp only [reduceCtorEq, not_false_eq_true])
  | none =>
      rw [hfault] at h
      simp only [] at h
      rw [walk_eq_resolve h, steps_eq, place, start]
      by_cases hlast : p.chars.getLast? = some '/'
      · rw [if_pos hlast, resolve_append]
        exact resolve_dots _ fun d hd => List.mem_singleton.mp hd
      · rw [if_neg hlast, List.append_nil]

/-- What stands where a path leads stands at its place. -/
theorem entryAt_ok_iff {store : Store} {p : Path} {entry : Entry} :
    store.entryAt p = .ok entry ↔
      store.locate p = .ok (store.place p) ∧ store.find? (store.place p) = some entry := by
  rw [entryAt]
  cases hlocate : store.locate p with
  | error fault => simp only [reduceCtorEq, false_and]
  | ok location =>
      rcases locate_eq_place hlocate with rfl
      simp only [true_and]
      cases store.find? (store.place p) with
      | none => simp only [reduceCtorEq]
      | some found => simp only [Except.ok.injEq, Option.some.injEq]

theorem isFile_iff {store : Store} {p : Path} :
    store.isFile p = true ↔ ∃ content, store.locate p = .ok (store.place p) ∧
      store.find? (store.place p) = some (.file content) := by
  simp only [← entryAt_ok_iff]
  rw [isFile]
  cases hentry : store.entryAt p with
  | error fault => simp only [Bool.false_eq_true, reduceCtorEq, exists_false]
  | ok entry =>
      cases entry with
      | directory =>
          simp only [Bool.false_eq_true, Except.ok.injEq, reduceCtorEq, exists_false]
      | file content => simp only [Except.ok.injEq, Entry.file.injEq, exists_eq']

/-- A name put behind a path that leads to a directory is found there, if neither
    it nor its path is too long. -/
theorem LeadsToDirectory.locate_child {store : Store} {p : Path} (h : store.LeadsToDirectory p)
    (name : String) (hname : Path.IsName name.toList) :
    store.locate (p.child name) =
      match pathFault? (p.child name) with
      | some fault => .error fault
      | none =>
        if maxNameBytes < byteLength name.toList then .error .nameTooLong
        else .ok (store.place p ++ [name.toList]) := by
  rw [locate]
  cases pathFault? (p.child name) with
  | some fault => rfl
  | none =>
      simp only []
      rw [show (if (p.child name).isAbsolute then [] else store.here) = store.start (p.child name)
        from rfl, start_child store p name hname, steps_child p name hname, walk_append, h.walk_eq]
      exact walk_name hname h.find?_eq

/-- A name behind a path can be followed exactly if the path leads to a directory
    and neither the name nor its path is too long. -/
theorem locate_child_iff {store : Store} {p : Path} {name : String}
    (hname : Path.IsName name.toList) {location : Location} :
    store.locate (p.child name) = .ok location ↔
      store.LeadsToDirectory p ∧ pathFault? (p.child name) = none ∧
        byteLength name.toList ≤ maxNameBytes ∧ location = store.place p ++ [name.toList] := by
  constructor
  · intro h
    have hplace : location = store.place p ++ [name.toList] := by
      rw [locate_eq_place h, place_child store p name hname]
    cases hfault : pathFault? (p.child name) with
    | some fault =>
        rw [locate, hfault] at h
        exact absurd h (by simp only [reduceCtorEq, not_false_eq_true])
    | none =>
        -- The walk to the parent is the front of the walk to the child.
        have hwalk := h
        rw [locate, hfault] at hwalk
        simp only [] at hwalk
        rw [show (if (p.child name).isAbsolute then [] else store.here)
            = store.start (p.child name) from rfl, start_child store p name hname,
          steps_child p name hname, walk_append] at hwalk
        cases hp : store.walk (store.start p) p.names with
        | error fault =>
            rw [hp] at hwalk
            exact absurd hwalk (by simp only [reduceCtorEq, not_false_eq_true])
        | ok found =>
            rw [hp] at hwalk
            simp only [] at hwalk
            have hfound : found = store.place p := walk_eq_resolve hp
            have hdir := directory_of_walk_cons hwalk
            rw [hfound] at hp hdir
            have hleads : store.LeadsToDirectory p := ⟨hp, hdir⟩
            -- With the parent in place, only the length of the name is left to decide.
            rw [hleads.locate_child name hname, hfault] at h
            simp only [] at h
            by_cases hlong : maxNameBytes < byteLength name.toList
            · rw [if_pos hlong] at h
              exact absurd h (by simp only [reduceCtorEq, not_false_eq_true])
            · exact ⟨hleads, rfl, Nat.le_of_not_lt hlong, hplace⟩
  · rintro ⟨hleads, hfault, hlong, rfl⟩
    rw [hleads.locate_child name hname, hfault]
    simp only []
    rw [if_neg (Nat.not_lt_of_le hlong)]

/-- A usable path is not refused as one that leads nowhere. -/
theorem pathFault?_ne_notFound {p : Path} (h : p.chars ≠ []) :
    pathFault? p ≠ some .notFound := by
  rw [pathFault?]
  by_cases hnul : '\x00' ∈ p.chars
  · rw [if_pos hnul]; decide
  · by_cases hlong : pathBytesBound ≤ byteLength p.chars
    · rw [if_neg hnul, if_pos hlong]; decide
    · rw [if_neg hnul, if_neg hlong, if_neg (by rwa [List.isEmpty_iff])]; decide

theorem child_ne_nil (p : Path) (name : String) (h : Path.IsName name.toList) :
    (p.child name).chars ≠ [] := by
  have hne : name.toList ≠ [] := fun he => absurd h.notSilent (by rw [he]; decide)
  rcases Path.child_cases p name h with ⟨_, hc⟩ | ⟨b, _, hc⟩ | ⟨_, hc⟩
  · rwa [hc]
  · rw [hc]
    exact List.append_ne_nil_of_right_ne_nil _ (List.cons_ne_nil _ _)
  · rw [hc]
    exact List.append_ne_nil_of_right_ne_nil _ (List.cons_ne_nil _ _)

/-- Behind a path that leads to a directory no name is refused as one on whose
    way something is missing. -/
theorem LeadsToDirectory.locate_child_ne_notFound {store : Store} {p : Path}
    (h : store.LeadsToDirectory p) (name : String) (hname : Path.IsName name.toList) :
    store.locate (p.child name) ≠ .error .notFound := by
  rw [h.locate_child name hname]
  have hfault := pathFault?_ne_notFound (child_ne_nil p name hname)
  cases hf : pathFault? (p.child name) with
  | some fault =>
      intro he
      rw [hf] at hfault
      exact hfault (congrArg some (Except.error.inj he))
  | none =>
      simp only []
      by_cases hlong : maxNameBytes < byteLength name.toList
      · rw [if_pos hlong]
        exact fun he => absurd (Except.error.inj he) (by decide)
      · rw [if_neg hlong]
        simp only [ne_eq, reduceCtorEq, not_false_eq_true]

/-- A path and its bare form lead alike. -/
theorem leadsToDirectory_bare {store : Store} {p : Path} :
    store.LeadsToDirectory p.bare ↔ store.LeadsToDirectory p := by
  rcases Path.names_bare p with ⟨dots, hnames, hdots⟩
  constructor
  · intro h
    refine ⟨?_, place_bare store p ▸ h.find?_eq⟩
    rw [hnames, walk_append, ← start_bare, h.walk_eq]
    simp only []
    rw [walk_dots hdots h.find?_eq, place_bare]
  · intro h
    refine ⟨?_, (place_bare store p).symm ▸ h.find?_eq⟩
    have hwalk := h.walk_eq
    rw [hnames, walk_append, ← start_bare] at hwalk
    cases hb : store.walk (store.start p.bare) p.bare.names with
    | error fault =>
        rw [hb] at hwalk
        exact absurd hwalk (by simp only [reduceCtorEq, not_false_eq_true])
    | ok found => rw [walk_eq_resolve hb, place]

/-- A usable path that leads to a directory is one of something that is there. -/
theorem LeadsToDirectory.present {store : Store} {p : Path} (h : store.LeadsToDirectory p)
    (hfault : pathFault? p = none) : store.present p = true := by
  have hlocate : store.locate p = .ok (store.place p) := by
    rw [locate, hfault]
    simp only []
    change store.walk (store.start p) (steps p) = _
    rw [steps_eq, walk_append, h.walk_eq]
    simp only []
    by_cases hlast : p.chars.getLast? = some '/'
    · rw [if_pos hlast]
      exact walk_dots (fun d hd => List.mem_singleton.mp hd) h.find?_eq
    · rw [if_neg hlast]
      rfl
  rw [Store.present, entryAt_ok_iff.mpr ⟨hlocate, h.find?_eq⟩]

/-- Every directory on the way of a path that leads to one is there. -/
theorem LeadsToDirectory.directory_of_prefix {store : Store} {p : Path}
    (h : store.LeadsToDirectory p) {names : List (List Char)} (hnames : names <+: p.names) :
    store.find? (resolve (store.start p) names) = some .directory := by
  rcases hnames with ⟨more, hmore⟩
  have hwalk := h.walk_eq
  rw [← hmore, walk_append] at hwalk
  cases hn : store.walk (store.start p) names with
  | error fault =>
      rw [hn] at hwalk
      exact absurd hwalk (by simp only [reduceCtorEq, not_false_eq_true])
  | ok found =>
      rw [hn] at hwalk
      rw [← walk_eq_resolve hn]
      cases more with
      | nil =>
          rw [List.append_nil] at hmore
          rw [walk_eq_resolve hn, hmore]
          exact h.find?_eq
      | cons name more => exact directory_of_walk_cons hwalk

/-- What is above a directory that a path leads to is a directory. -/
theorem LeadsToDirectory.directory_of_mem_ancestors {store : Store} {p a : Path}
    (h : store.LeadsToDirectory p) (ha : a ∈ p.ancestors) :
    store.find? (store.place a) = some .directory := by
  rcases Path.names_of_mem_ancestors ha with ⟨hnames, habs⟩
  rw [place, show store.start a = store.start p by rw [start, start, habs]]
  exact h.directory_of_prefix hnames

namespace KeepsDirectories

theorem refl (store : Store) : store.KeepsDirectories store :=
  ⟨rfl, fun _ h => h⟩

theorem trans {a b c : Store} (hab : a.KeepsDirectories b) (hbc : b.KeepsDirectories c) :
    a.KeepsDirectories c :=
  ⟨hbc.here_eq.trans hab.here_eq, fun l h => hbc.find?_eq l (hab.find?_eq l h)⟩

/-- Names that can be followed can still be followed. -/
theorem walk_eq {before after : Store} (h : before.KeepsDirectories after)
    {names : List (List Char)} {location found : Location}
    (hwalk : before.walk location names = .ok found) : after.walk location names = .ok found := by
  induction names generalizing location with
  | nil => exact hwalk
  | cons name names ih =>
      have hdir := directory_of_walk_cons hwalk
      rw [walk, hdir] at hwalk
      rw [walk, h.find?_eq location hdir]
      simp only [] at hwalk ⊢
      by_cases hdot : name = ['.']
      · rw [if_pos hdot] at hwalk ⊢
        exact ih hwalk
      · rw [if_neg hdot] at hwalk ⊢
        by_cases hup : name = ['.', '.']
        · rw [if_pos hup] at hwalk ⊢
          exact ih hwalk
        · rw [if_neg hup] at hwalk ⊢
          by_cases hlong : maxNameBytes < byteLength name
          · rw [if_pos hlong] at hwalk
            exact absurd hwalk (by simp only [reduceCtorEq, not_false_eq_true])
          · rw [if_neg hlong] at hwalk ⊢
            exact ih hwalk

theorem place_eq {before after : Store} (h : before.KeepsDirectories after) (p : Path) :
    after.place p = before.place p :=
  place_eq_of_here h.here_eq p

/-- A path that can be followed can still be followed, to the same location. -/
theorem locate_eq {before after : Store} (h : before.KeepsDirectories after) {p : Path}
    {location : Location} (hlocate : before.locate p = .ok location) :
    after.locate p = .ok location := by
  rw [locate] at hlocate ⊢
  cases hfault : pathFault? p with
  | some fault =>
      rw [hfault] at hlocate
      exact absurd hlocate (by simp only [reduceCtorEq, not_false_eq_true])
  | none =>
      rw [hfault] at hlocate
      simp only [h.here_eq] at hlocate ⊢
      exact h.walk_eq hlocate

/-- A path that leads to a directory still does. -/
theorem leadsToDirectory {before after : Store} (h : before.KeepsDirectories after) {p : Path}
    (hp : before.LeadsToDirectory p) : after.LeadsToDirectory p := by
  have hplace := h.place_eq p
  have hstart : after.start p = before.start p := by rw [start, start, h.here_eq]
  refine ⟨?_, ?_⟩
  · rw [hplace, hstart]
    exact h.walk_eq hp.walk_eq
  · rw [hplace]
    exact h.find?_eq _ hp.find?_eq

end KeepsDirectories

end Store

end PuzzleLevel
