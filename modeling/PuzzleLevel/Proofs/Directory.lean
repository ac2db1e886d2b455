import PuzzleLevel.Proofs.Place
import PuzzleLevel.Store.Operation

/-!
# Making Directories

What making a directory and those above it can change. It goes up the path until
something is there and comes down again, and it may fail halfway; the directories
made by then stay. So there is no hope for all or nothing here, but there is a
frame: a location changes only if it is the place of an ancestor of the path, held
nothing before, and holds a directory now. `Kept` says that of one location and
`Grows` of all of them.

When nothing goes wrong, the path leads to a directory afterwards. This needs the
whole chain: the last directory is made at the place that the directories made
before it lead to, and none of those is lost.

## Main definitions

* `Store.Kept`: A location is as it was, or a directory was made there.
* `Store.Grows`: Every location is kept.

## Theorems

* `makeDirectories_grows`: Making directories keeps everything.
* `makeDirectories_leads`: A directory that was made is led to.
* `makeDirectories_of_present`: Where something is, nothing is made.
* `noNul_of_makeDirectories`: A directory that can be made has a usable path.
-/

namespace PuzzleLevel

namespace Store

/-- A location is as it was, or it is on the way, held nothing, and has become a
    directory. -/
def Kept (way : List Location) (before after : Store) (location : Location) : Prop :=
  after.find? location = before.find? location ∨
    (location ∈ way ∧ before.find? location = none ∧ after.find? location = some .directory)

/-- Every location is as it was, but for directories made on the way. -/
structure Grows (way : List Location) (before after : Store) : Prop where
  /-- Relative paths start where they started. -/
  here_eq : after.here = before.here
  /-- Every location is kept. -/
  kept : ∀ location, Kept way before after location

theorem kept_refl (way : List Location) (store : Store) (location : Location) :
    Kept way store store location :=
  Or.inl rfl

theorem kept_trans {way : List Location} {a b c : Store} {location : Location}
    (hab : Kept way a b location) (hbc : Kept way b c location) : Kept way a c location := by
  rcases hab with hab | ⟨hway, hnone, hdir⟩
  · rcases hbc with hbc | ⟨hway, hnone, hdir⟩
    · exact Or.inl (hbc.trans hab)
    · exact Or.inr ⟨hway, hab ▸ hnone, hdir⟩
  · rcases hbc with hbc | ⟨_, hnone', _⟩
    · exact Or.inr ⟨hway, hnone, hbc.trans hdir⟩
    · -- What became a directory is there, so it was not made twice.
      rw [hdir] at hnone'
      exact absurd hnone' (by simp only [reduceCtorEq, not_false_eq_true])

theorem kept_mono {way wider : List Location} {a b : Store} {location : Location}
    (h : way ⊆ wider) (hab : Kept way a b location) : Kept wider a b location := by
  rcases hab with hab | ⟨hway, hrest⟩
  · exact Or.inl hab
  · exact Or.inr ⟨h hway, hrest⟩

/-- What is there is as it was. -/
theorem find?_of_kept {way : List Location} {a b : Store} {location : Location} {entry : Entry}
    (h : Kept way a b location) (ha : a.find? location = some entry) :
    b.find? location = some entry := by
  rcases h with h | ⟨_, hnone, _⟩
  · rw [h, ha]
  · rw [ha] at hnone
    exact absurd hnone (by simp only [reduceCtorEq, not_false_eq_true])

namespace Grows

theorem refl (way : List Location) (store : Store) : Grows way store store :=
  ⟨rfl, kept_refl way store⟩

theorem trans {way : List Location} {a b c : Store} (hab : Grows way a b) (hbc : Grows way b c) :
    Grows way a c :=
  ⟨hbc.here_eq.trans hab.here_eq, fun l => kept_trans (hab.kept l) (hbc.kept l)⟩

theorem mono {way wider : List Location} {a b : Store} (h : way ⊆ wider) (hab : Grows way a b) :
    Grows wider a b :=
  ⟨hab.here_eq, fun l => kept_mono h (hab.kept l)⟩

theorem keepsDirectories {way : List Location} {a b : Store} (h : Grows way a b) :
    a.KeepsDirectories b :=
  ⟨h.here_eq, fun l hl => find?_of_kept (h.kept l) hl⟩

end Grows

/-- A place where nothing is is not the root. -/
theorem ne_nil_of_find?_ne_directory {store : Store} {location : Location}
    (h : store.find? location ≠ some .directory) : location ≠ [] :=
  fun hnil => h (by rw [hnil]; rfl)

theorem put_grows {store : Store} {location : Location} (h : store.find? location = none) :
    Grows [location] store (store.put location .directory) := by
  have hne : location ≠ [] := ne_nil_of_find?_ne_directory (by
    rw [h]; simp only [ne_eq, reduceCtorEq, not_false_eq_true])
  refine ⟨rfl, fun other => ?_⟩
  by_cases ho : other = location
  · rw [ho]
    exact Or.inr ⟨List.mem_singleton_self _, h, find?_put_self store location .directory hne⟩
  · exact Or.inl (find?_put_other store location other .directory ho)

/-- A path without the slashes at its end. -/
def unslashed (p : Path) : Path :=
  ⟨(p.chars.reverse.dropWhile (· = '/')).reverse⟩

theorem unslashed_append (p : Path) :
    ∃ slashes, p.chars = (unslashed p).chars ++ slashes ∧ ∀ c ∈ slashes, c = '/' := by
  refine ⟨(p.chars.reverse.takeWhile (· = '/')).reverse, ?_, ?_⟩
  · rw [unslashed, ← List.reverse_append, List.takeWhile_append_dropWhile, List.reverse_reverse]
  · intro c hc
    rw [List.mem_reverse] at hc
    exact of_decide_eq_true (List.mem_takeWhile_imp (p := fun c => decide (c = '/')) hc)

theorem filter_segments_append_slashes (cs : List Char) {slashes : List Char}
    (h : ∀ c ∈ slashes, c = '/') :
    (Path.segments (cs ++ slashes)).filter (· ≠ []) = (Path.segments cs).filter (· ≠ []) := by
  induction slashes generalizing cs with
  | nil => rw [List.append_nil]
  | cons c slashes ih =>
      have hc := h c (List.mem_cons_self ..)
      rw [hc, Path.segments_append_slash, List.filter_append,
        ← List.nil_append slashes, ih [] fun d hd => h d (List.mem_cons_of_mem _ hd)]
      exact List.append_nil _

theorem names_unslashed (p : Path) : (unslashed p).names = p.names := by
  rcases unslashed_append p with ⟨slashes, hp, hslashes⟩
  rw [Path.names, Path.names, hp, filter_segments_append_slashes _ hslashes]

theorem start_unslashed (store : Store) {p : Path} (h : (unslashed p).chars ≠ []) :
    store.start (unslashed p) = store.start p := by
  rcases unslashed_append p with ⟨slashes, hp, _⟩
  rw [start, start, Path.isAbsolute, Path.isAbsolute, hp]
  cases hu : (unslashed p).chars with
  | nil => exact absurd hu h
  | cons c cs => rfl

/-- Without the slashes at its end a path is followed through its names alone. -/
theorem steps_unslashed (p : Path) : steps (unslashed p) = p.names := by
  have hlast : (unslashed p).chars.getLast? ≠ some '/' := by
    rw [unslashed, List.getLast?_reverse]
    intro hc
    have hhead := List.head?_dropWhile_not (fun c => decide (c = '/')) p.chars.reverse
    rw [hc] at hhead
    exact absurd hhead (by decide)
  rw [steps_eq, if_neg hlast, List.append_nil, names_unslashed]

theorem locate_of_empty (store : Store) {p : Path} (h : p.chars = []) :
    store.locate p = .error .notFound := by
  rw [locate, pathFault?, h]; rfl

theorem makeDirectory_eq (store : Store) (p : Path) :
    store.makeDirectory p =
      match store.locate (if (unslashed p).chars.isEmpty then p else unslashed p) with
      | .error fault => (store, some fault)
      | .ok location =>
        match store.find? location with
        | some _ => (store, some .occupied)
        | none => (store.put location .directory, none) := rfl

-- Slashes alone lead to the root, if they are not refused.
theorem eq_nil_of_locate_slashes {store : Store} {p : Path} {location : Location}
    (hempty : (unslashed p).chars = []) (h : store.locate p = .ok location) : location = [] := by
  rcases unslashed_append p with ⟨slashes, hp, hslashes⟩
  have hnames : p.names = [] := by
    rw [← names_unslashed, Path.names, hempty]
    rfl
  have habs : p.isAbsolute = true := by
    rw [hempty, List.nil_append] at hp
    rw [Path.isAbsolute, hp, decide_eq_true_eq]
    cases slashes with
    | nil =>
        rw [locate_of_empty store hp] at h
        exact absurd h (by simp only [reduceCtorEq, not_false_eq_true])
    | cons c cs => rw [List.head?_cons, hslashes c (List.mem_cons_self ..)]
  rw [locate_eq_place h, place, start, habs, hnames]
  rfl

theorem walk_of_locate_unslashed {store : Store} {p : Path} {location : Location}
    (hne : (unslashed p).chars ≠ []) (h : store.locate (unslashed p) = .ok location) :
    location = store.place p ∧ store.walk (store.start p) p.names = .ok (store.place p) := by
  have hplace : location = store.place p := by
    rw [locate_eq_place h, place, place, start_unslashed store hne, names_unslashed]
  refine ⟨hplace, ?_⟩
  rw [locate] at h
  cases hfault : pathFault? (unslashed p) with
  | some fault =>
      rw [hfault] at h
      exact absurd h (by simp only [reduceCtorEq, not_false_eq_true])
  | none =>
      rw [hfault, steps_unslashed] at h
      rw [← hplace, ← h, ← start_unslashed store hne]
      rfl

/-- Making one directory either does nothing or makes it where the names of its
    path lead. -/
theorem makeDirectory_cases (store : Store) (p : Path) :
    (∃ fault, store.makeDirectory p = (store, some fault)) ∨
      (store.walk (store.start p) p.names = .ok (store.place p) ∧
        store.find? (store.place p) = none ∧
        store.makeDirectory p = (store.put (store.place p) .directory, none)) := by
  rw [makeDirectory_eq]
  by_cases hempty : (unslashed p).chars = []
  · rw [if_pos (List.isEmpty_iff.mpr hempty)]
    cases hlocate : store.locate p with
    | error fault => exact Or.inl ⟨fault, rfl⟩
    | ok location =>
        rw [eq_nil_of_locate_slashes hempty hlocate]
        exact Or.inl ⟨.occupied, rfl⟩
  · rw [if_neg (by rwa [List.isEmpty_iff])]
    cases hlocate : store.locate (unslashed p) with
    | error fault => exact Or.inl ⟨fault, rfl⟩
    | ok location =>
        rcases walk_of_locate_unslashed hempty hlocate with ⟨rfl, hwalk⟩
        simp only []
        cases hfind : store.find? (store.place p) with
        | some entry => exact Or.inl ⟨.occupied, rfl⟩
        | none => exact Or.inr ⟨hwalk, rfl, rfl⟩

theorem makeDirectory_grows (store : Store) (p : Path) :
    Grows [store.place p] store (store.makeDirectory p).1 := by
  rcases makeDirectory_cases store p with ⟨fault, h⟩ | ⟨_, hnone, h⟩
  · rw [h]
    exact Grows.refl _ _
  · rw [h]
    exact put_grows hnone

theorem makeOrAccept_grows (store : Store) (p : Path) :
    Grows [store.place p] store (store.makeOrAccept p).1 := by
  have hgrows := makeDirectory_grows store p
  rw [makeOrAccept]
  rcases h : store.makeDirectory p with ⟨after, _ | fault⟩
  · rw [h] at hgrows
    exact hgrows
  · exact Grows.refl _ _

theorem makeDirectoriesAlong_grows (store : Store) (paths : List Path) :
    Grows (paths.map store.place) store (store.makeDirectoriesAlong paths).1 := by
  induction paths with
  | nil => exact Grows.refl _ _
  | cons p above ih =>
      have hfirst : [store.place p] ⊆ (p :: above).map store.place := by
        intro l hl
        rw [List.mem_singleton.mp hl]
        exact List.mem_cons_self ..
      have hmore : above.map store.place ⊆ (p :: above).map store.place :=
        List.subset_cons_self _ _
      have hmake := makeDirectory_grows store p
      rw [makeDirectoriesAlong]
      by_cases hempty : p.chars.isEmpty = true
      · rw [if_pos hempty]
        exact Grows.refl _ _
      · rw [if_neg hempty]
        rcases h : store.makeDirectory p with ⟨after, _ | fault⟩
        · rw [h] at hmake
          exact hmake.mono hfirst
        · cases fault with
          | notFound =>
              -- Those above are made first, and then there is another try.
              simp only []
              rcases ha : store.makeDirectoriesAlong above with ⟨after', _ | fault'⟩
              · rw [ha] at ih
                simp only []
                have haccept := makeOrAccept_grows after' p
                rw [place_eq_of_here ih.here_eq] at haccept
                exact (ih.mono hmore).trans (haccept.mono hfirst)
              · rw [ha] at ih
                exact ih.mono hmore
          | _ => exact Grows.refl _ _

/-- Making directories keeps everything, but for those made above the path. -/
theorem makeDirectories_grows (store : Store) (p : Path) :
    Grows (p.ancestors.map store.place) store (store.makeDirectories p).1 :=
  makeDirectoriesAlong_grows store p.ancestors

theorem leads_of_isDirectory {store : Store} {p : Path} (h : store.isDirectory p = true) :
    store.LeadsToDirectory p := by
  rw [isDirectory, entryAt] at h
  cases hlocate : store.locate p with
  | error fault =>
      rw [hlocate] at h
      exact absurd h Bool.false_ne_true
  | ok location =>
      rw [hlocate] at h
      have hplace := locate_eq_place hlocate
      have hdir : store.find? location = some .directory := by
        -- Only a directory passes, so that is what stands there.
        simp only [] at h
        cases hfind : store.find? location with
        | none =>
            rw [hfind] at h
            exact absurd h Bool.false_ne_true
        | some entry =>
            cases entry with
            | directory => rfl
            | file content =>
                rw [hfind] at h
                exact absurd h Bool.false_ne_true
      refine ⟨?_, hplace ▸ hdir⟩
      -- A path that can be followed is one without a fault.
      rw [locate] at hlocate
      cases hfault : pathFault? p with
      | some fault =>
          rw [hfault] at hlocate
          exact absurd hlocate (by simp only [reduceCtorEq, not_false_eq_true])
      | none =>
          rw [hfault] at hlocate
          simp only [] at hlocate
          rw [steps_eq, walk_append] at hlocate
          rw [show (if p.isAbsolute then [] else store.here) = store.start p from rfl] at hlocate
          cases hn : store.walk (store.start p) p.names with
          | error fault =>
              rw [hn] at hlocate
              exact absurd hlocate (by simp only [reduceCtorEq, not_false_eq_true])
          | ok found => rw [walk_eq_resolve hn, place]

theorem makeDirectory_leads {store after : Store} {p : Path}
    (h : store.makeDirectory p = (after, none)) : after.LeadsToDirectory p := by
  have hgrows := makeDirectory_grows store p
  rcases makeDirectory_cases store p with ⟨fault, hc⟩ | ⟨hwalk, hnone, hc⟩
  · rw [hc] at h
    exact absurd (Prod.mk.inj h).2 (by simp only [reduceCtorEq, not_false_eq_true])
  · rw [hc] at h hgrows
    have hafter := (Prod.mk.inj h).1
    rw [hafter] at hgrows
    have hplace := place_eq_of_here hgrows.here_eq p
    have hstart : after.start p = store.start p := by rw [start, start, hgrows.here_eq]
    refine ⟨?_, ?_⟩
    · rw [hplace, hstart]
      exact hgrows.keepsDirectories.walk_eq hwalk
    · rw [hplace, ← hafter]
      exact find?_put_self _ _ _ (ne_nil_of_find?_ne_directory (by
        rw [hnone]; simp only [ne_eq, reduceCtorEq, not_false_eq_true]))

theorem makeOrAccept_leads {store after : Store} {p : Path}
    (h : store.makeOrAccept p = (after, none)) : after.LeadsToDirectory p := by
  rw [makeOrAccept] at h
  rcases hm : store.makeDirectory p with ⟨made, _ | fault⟩
  · rw [hm] at h
    rw [← (Prod.mk.inj h).1]
    exact makeDirectory_leads hm
  · rw [hm] at h
    simp only [Prod.mk.injEq] at h
    by_cases hdir : store.isDirectory p = true
    · rw [← h.1]
      exact leads_of_isDirectory hdir
    · rw [if_neg hdir] at h
      exact absurd h.2 (by simp only [reduceCtorEq, not_false_eq_true])

theorem byteLength_append (a b : List Char) :
    byteLength (a ++ b) = byteLength a + byteLength b := by
  induction a with
  | nil => exact (Nat.zero_add _).symm
  | cons c more ih =>
      simp only [byteLength, List.cons_append, List.map_cons, List.foldr_cons] at ih ⊢
      rw [ih, Nat.add_assoc]

/-- A path can be used if it is a front of a usable one and not empty. -/
theorem pathFault?_front {p q : Path} {more : List Char} (h : p.chars = q.chars ++ more)
    (hne : q.chars ≠ []) (hp : pathFault? p = none) : pathFault? q = none := by
  rw [pathFault?] at hp ⊢
  by_cases hnul : '\x00' ∈ p.chars
  · rw [if_pos hnul] at hp
    exact absurd hp (by simp only [reduceCtorEq, not_false_eq_true])
  · by_cases hlong : pathBytesBound ≤ byteLength p.chars
    · rw [if_neg hnul, if_pos hlong] at hp
      exact absurd hp (by simp only [reduceCtorEq, not_false_eq_true])
    · rw [h, byteLength_append] at hlong
      rw [h] at hnul
      rw [if_neg fun hq => hnul (List.mem_append_left _ hq), if_neg (by omega),
        if_neg (by rwa [List.isEmpty_iff])]

/-- What a path leads to is found without the slashes at its end, too. -/
theorem locate_unslashed {store : Store} {p : Path} {location : Location}
    (hne : (unslashed p).chars ≠ []) (h : store.locate p = .ok location) :
    store.locate (unslashed p) = .ok location := by
  rcases unslashed_append p with ⟨slashes, hp, _⟩
  have hplace := locate_eq_place h
  rw [locate] at h
  cases hfault : pathFault? p with
  | some fault =>
      rw [hfault] at h
      exact absurd h (by simp only [reduceCtorEq, not_false_eq_true])
  | none =>
      rw [hfault] at h
      simp only [] at h
      rw [steps_eq, walk_append] at h
      rw [locate, pathFault?_front hp hne hfault, steps_unslashed]
      simp only []
      change store.walk (store.start (unslashed p)) p.names = _
      rw [start_unslashed store hne]
      cases hn : store.walk (store.start p) p.names with
      | error fault =>
          rw [show (if p.isAbsolute then [] else store.here) = store.start p from rfl, hn] at h
          exact absurd h (by simp only [reduceCtorEq, not_false_eq_true])
      | ok found => rw [walk_eq_resolve hn, hplace, place]

/-- Where something is, no directory is made. -/
theorem makeDirectory_of_present {store : Store} {p : Path} (h : store.present p = true) :
    store.makeDirectory p = (store, some .occupied) := by
  rw [present] at h
  cases hentry : store.entryAt p with
  | error fault =>
      rw [hentry] at h
      exact absurd h Bool.false_ne_true
  | ok entry =>
      rcases entryAt_ok_iff.mp hentry with ⟨hlocate, hfind⟩
      rw [makeDirectory_eq]
      by_cases hempty : (unslashed p).chars = []
      · rw [if_pos (List.isEmpty_iff.mpr hempty), hlocate]
        simp only [hfind]
      · rw [if_neg (by rwa [List.isEmpty_iff]), locate_unslashed hempty hlocate]
        simp only [hfind]

/-- Where something is, nothing is made, and it is a directory if that is no
    fault. -/
theorem makeDirectories_of_present {store : Store} {p : Path} (h : store.present p = true) :
    (store.makeDirectories p).1 = store := by
  rw [makeDirectories, Path.ancestors, Path.ancestorsUpTo, makeDirectoriesAlong]
  by_cases hempty : p.chars.isEmpty = true
  · rw [if_pos hempty]
  · rw [if_neg hempty, makeDirectory_of_present h]

/-- A directory that can be made has nothing in its path that ends a path. -/
theorem noNul_of_makeDirectories {store : Store} {p : Path}
    (h : (store.makeDirectories p).2 = none) : '\x00' ∉ p.chars := by
  intro hnul
  have hfault : ∀ q : Path, '\x00' ∈ q.chars → store.locate q = .error .nulInPath := by
    intro q hq
    rw [locate, pathFault?, if_pos hq]
  have hne : p.chars ≠ [] := List.ne_nil_of_mem hnul
  have hmake : store.makeDirectory p = (store, some .nulInPath) := by
    rcases unslashed_append p with ⟨slashes, hp, hslashes⟩
    have hmem : '\x00' ∈ (unslashed p).chars := by
      rw [hp] at hnul
      rcases List.mem_append.mp hnul with hmem | hmem
      · exact hmem
      · exact absurd (hslashes _ hmem) (by decide)
    rw [makeDirectory_eq, if_neg (by rw [List.isEmpty_iff]; exact List.ne_nil_of_mem hmem),
      hfault _ hmem]
  rw [makeDirectories, Path.ancestors, Path.ancestorsUpTo, makeDirectoriesAlong,
    if_neg (by rwa [List.isEmpty_iff]), hmake, isDirectory, entryAt, hfault p hnul] at h
  exact absurd h (by simp only [Bool.false_eq_true, if_false, reduceCtorEq, not_false_eq_true])

/-- A path whose directory was made, with those above it, leads to it. The empty
    path stands for the working directory, which has to be there. -/
theorem makeDirectories_leads {store after : Store} {p : Path}
    (hhere : store.find? store.here = some .directory)
    (h : store.makeDirectories p = (after, none)) : after.LeadsToDirectory p := by
  rw [makeDirectories, Path.ancestors, Path.ancestorsUpTo, makeDirectoriesAlong] at h
  by_cases hempty : p.chars = []
  · -- The empty path stands for where the store is.
    rw [if_pos (List.isEmpty_iff.mpr hempty)] at h
    have hnames : p.names = [] := by rw [Path.names, hempty]; rfl
    have hstart : after.start p = after.here := by
      rw [start, Path.isAbsolute, hempty]; rfl
    rw [← (Prod.mk.inj h).1] at hstart ⊢
    have hplace : store.place p = store.here := by rw [place, hstart, hnames]; rfl
    refine ⟨?_, by rw [hplace, hhere]⟩
    rw [hplace, hstart, hnames]; rfl
  · rw [if_neg (by rwa [List.isEmpty_iff])] at h
    rcases hm : store.makeDirectory p with ⟨made, _ | fault⟩
    · rw [hm] at h
      rw [← (Prod.mk.inj h).1]
      -- It was made at once.
      exact makeDirectory_leads hm
    · rw [hm] at h
      by_cases hfault : fault = .notFound
      · -- It was missing above, so the last of the makings is this one.
        rw [hfault] at h
        simp only [] at h
        generalize store.makeDirectoriesAlong _ = result at h
        rcases result with ⟨above, _ | fault'⟩
        · exact makeOrAccept_leads h
        · exact absurd (Prod.mk.inj h).2 (by simp only [reduceCtorEq, not_false_eq_true])
      · have hrest : (store, if store.isDirectory p then none else some fault) = (after, none) := by
          cases fault with
          | notFound => exact absurd rfl hfault
          | _ => exact h
        rw [Prod.mk.injEq] at hrest
        -- Any other fault is accepted only when the directory is there.
        by_cases hdir : store.isDirectory p = true
        · rw [← hrest.1]
          exact leads_of_isDirectory hdir
        · rw [if_neg hdir] at hrest
          exact absurd hrest.2 (by simp only [reduceCtorEq, not_false_eq_true])

end Store

end PuzzleLevel
