import Mathlib.Data.List.Pairwise
import PuzzleLevel.Proofs.Discovery.Candidates

/-!
# When an Identifier Is Taken

Level files are collected one by one, and one whose identifier is taken ends it. Which two
paths are then reported can be told from the list of all paths: they are two of it, in the
order in which they are listed in it, and the list may well hold one path in two places.

A candidate is met once for each place in the list of extensions that it matches. An
extension may be listed twice, and one may be the end of another, so there can be several
such places for one name. Then the file is taken for a second one with its own identifier.
In all other cases two different files are reported, the lesser path first.

## Main definitions

* `Path.Precedes`: A path comes strictly before another.
* `MatchedTwice`: A name matches two places of a list of extensions.

## Theorems

* `keyLe_total`, `keyLe_antisymm`: Paths are in a linear order by their keys.
* `addAll_cases`: Either all identifiers differ, or two listed paths have the same one.
* `matchedTwice_of_pair`, `pair_of_matchedTwice`: A candidate is met twice exactly if it
  matches two places.
* `discover_cases`: Level files are discovered, or two candidates are reported.
* `duplicate_iff`: When an identifier is reported as taken, and for which files.
-/

namespace PuzzleLevel

namespace Path

/-- A path comes strictly before another in the order of paths. -/
def Precedes (p q : Path) : Prop :=
  keyLe p.orderKey q.orderKey = true ∧ keyLe q.orderKey p.orderKey = false

instance (p q : Path) : Decidable (p.Precedes q) :=
  inferInstanceAs (Decidable (_ ∧ _))

theorem keyLe_total {a b : List (Nat × List Char)} (h : keyLe a b = false) : keyLe b a = true := by
  induction a generalizing b with
  | nil => exact absurd h (by rw [keyLe]; decide)
  | cons first as ih =>
      rcases first with ⟨m, x⟩
      cases b with
      | nil => rfl
      | cons second bs =>
          rcases second with ⟨n, y⟩
          rw [keyLe] at h ⊢
          by_cases hsame : m = n ∧ x = y
          · rw [if_pos hsame] at h
            rw [if_pos ⟨hsame.1.symm, hsame.2.symm⟩]
            exact ih h
          · rw [if_neg hsame] at h
            rw [if_neg fun hback => hsame ⟨hback.1.symm, hback.2.symm⟩]
            simp only [Bool.or_eq_false_iff, Bool.and_eq_false_iff, decide_eq_false_iff_not,
              Nat.not_lt] at h
            simp only [Bool.or_eq_true, Bool.and_eq_true, decide_eq_true_eq]
            rcases Nat.lt_or_eq_of_le h.1 with hlt | heq
            · exact Or.inl hlt
            · refine Or.inr ⟨heq, lt_of_not_lt_of_ne ?_ fun hyx => hsame ⟨heq.symm, hyx.symm⟩⟩
              exact h.2.resolve_left fun hne => hne heq.symm

theorem keyLe_antisymm {a b : List (Nat × List Char)} (hab : keyLe a b = true)
    (hba : keyLe b a = true) : a = b := by
  induction a generalizing b with
  | nil =>
      cases b with
      | nil => rfl
      | cons second bs => exact absurd hba (by rw [keyLe]; decide)
  | cons first as ih =>
      rcases first with ⟨m, x⟩
      cases b with
      | nil => exact absurd hab (by rw [keyLe]; decide)
      | cons second bs =>
          rcases second with ⟨n, y⟩
          rw [keyLe] at hab hba
          by_cases hsame : m = n ∧ x = y
          · rw [if_pos hsame] at hab
            rw [if_pos ⟨hsame.1.symm, hsame.2.symm⟩] at hba
            rw [hsame.1, hsame.2, ih hab hba]
          · rw [if_neg hsame] at hab
            rw [if_neg fun hback => hsame ⟨hback.1.symm, hback.2.symm⟩] at hba
            simp only [Bool.or_eq_true, Bool.and_eq_true, decide_eq_true_eq] at hab hba
            rcases hab with hlt | ⟨rfl, hlt⟩
            · omega
            · rcases hba with hlt' | ⟨_, hlt'⟩
              · omega
              · exact absurd (List.lt_trans hlt hlt') (List.lt_irrefl x)

/-- The key of a path ends with its last name. -/
theorem getLast?_orderKey_child (p : Path) {name : List Char} (h : IsName name) :
    (p.child (String.ofList name)).orderKey.getLast? = some (3, name) := by
  have hname : IsName (String.ofList name).toList := by rwa [String.toList_ofList]
  rcases (child_parts p _ hname).2 with ⟨before, hsegments, _, _⟩
  rw [rest, String.toList_ofList] at hsegments
  rw [orderKey, hsegments, List.filter_append, List.map_append, ← List.append_assoc,
    List.filter_singleton, h.notSilent]
  simp only [Bool.not_false, cond_true, List.map_cons, List.map_nil, if_neg h.notUp,
    List.getLast?_concat]

/-- Of two paths with different keys, the one that is put first precedes the other. -/
theorem ordered_cases {p q : Path} (h : p.orderKey ≠ q.orderKey) :
    (p.ordered q = (p, q) ∧ p.Precedes q) ∨ (p.ordered q = (q, p) ∧ q.Precedes p) := by
  rw [ordered]
  cases hle : keyLe p.orderKey q.orderKey with
  | true =>
      refine Or.inl ⟨rfl, hle, ?_⟩
      rw [Bool.eq_false_iff]
      exact fun hback => h (keyLe_antisymm hle hback)
  | false => exact Or.inr ⟨rfl, keyLe_total hle, hle⟩

theorem ordered_self (p : Path) : p.ordered p = (p, p) :=
  ite_self _

end Path

namespace LevelFile

/-- Level files are collected from paths that have identifiers, unless two of the paths
    have the same one; then these are reported. The paths that were seen before are the
    ones in the list already. -/
theorem addAll_cases {files : List LevelFile} {seen paths : List Path}
    (hseen : ∀ file, file ∈ files ↔ file.path ∈ seen ∧ file.path.levelId = .ok file.id)
    (hid : ∀ p ∈ paths, ∃ id, p.levelId = .ok id)
    (hdistinct : seen.Pairwise fun p q => p.levelId ≠ q.levelId) :
    (∃ after, addAll files paths = .ok after ∧
      (seen ++ paths).Pairwise fun p q => p.levelId ≠ q.levelId) ∨
    ∃ p q id, [p, q].Sublist (seen ++ paths) ∧ p.levelId = .ok id ∧ q.levelId = .ok id ∧
      addAll files paths = .error (.duplicate id (p.ordered q).1 (p.ordered q).2) := by
  induction paths generalizing files seen with
  | nil => exact Or.inl ⟨files, rfl, by rwa [List.append_nil]⟩
  | cons path more ih =>
      rcases hid path (List.mem_cons_self ..) with ⟨id, hpath⟩
      rw [addAll, add, hpath]
      simp only
      cases hfind : files.find? fun file => decide (file.id = id) with
      | some other =>
          -- The file that was found came from a path before this one.
          have hother := (hseen other).mp (List.mem_of_find?_eq_some hfind)
          have hsame := List.find?_some hfind
          rw [decide_eq_true_eq] at hsame
          refine Or.inr ⟨other.path, path, id, ?_, hsame ▸ hother.2, hpath, rfl⟩
          exact (List.singleton_sublist.mpr hother.1).append
            (List.singleton_sublist.mpr (List.mem_cons_self ..))
      | none =>
          have hfresh : ∀ p ∈ seen, p.levelId ≠ path.levelId := by
            intro p hp hsame
            rw [hpath] at hsame
            have hmem : ⟨id, p⟩ ∈ files := (hseen ⟨id, p⟩).mpr ⟨hp, hsame⟩
            exact absurd (decide_eq_true rfl) (List.find?_eq_none.mp hfind _ hmem)
          -- Both hypotheses hold of one more path, so the rest goes by induction.
          have hstep : ∀ file, file ∈ insert ⟨id, path⟩ files ↔
              file.path ∈ seen ++ [path] ∧ file.path.levelId = .ok file.id := by
            rintro ⟨fid, fpath⟩
            rw [(insert_perm _ _).mem_iff, List.mem_cons, hseen, List.mem_append,
              List.mem_singleton, LevelFile.mk.injEq]
            constructor
            · rintro (⟨rfl, rfl⟩ | ⟨hmem, hfid⟩)
              · exact ⟨Or.inr rfl, hpath⟩
              · exact ⟨Or.inl hmem, hfid⟩
            · rintro ⟨hmem | rfl, hfid⟩
              · exact Or.inr ⟨hmem, hfid⟩
              · rw [hpath, Except.ok.injEq] at hfid
                exact Or.inl ⟨hfid.symm, rfl⟩
          have hgrown : (seen ++ [path]).Pairwise fun p q => p.levelId ≠ q.levelId := by
            rw [List.pairwise_append]
            refine ⟨hdistinct, List.pairwise_singleton _ _, fun p hp q hq => ?_⟩
            rw [List.mem_singleton.mp hq]
            exact hfresh p hp
          have hrest := ih hstep (fun p hp => hid p (List.mem_cons_of_mem _ hp)) hgrown
          rwa [List.append_assoc, List.singleton_append] at hrest

end LevelFile

/-- A name matches two places of a list of extensions. -/
def MatchedTwice (extensions : List String) (name : List Char) : Prop :=
  ∃ a b, [a, b].Sublist extensions ∧ '.' :: a.toList <:+ name ∧ '.' :: b.toList <:+ name

namespace Store

/-- Two candidates have one identifier. They may be the same one, if it matches two places of
    the list of extensions. -/
structure Conflict (store : Store) (directory : Path) (extensions : List String)
    (a b : List Char) : Prop where
  first : store.Candidate directory extensions a
  second : store.Candidate directory extensions b
  same : (listedPath directory a).levelId = (listedPath directory b).levelId
  twice : a = b → MatchedTwice extensions a

section Offered

variable {store : Store} {directory : Path} {extensions : List String} {name : List Char}

/-- A name that is met twice matches two places of the list of extensions. -/
theorem matchedTwice_of_pair (h : [name, name].Sublist (store.offered directory extensions)) :
    MatchedTwice extensions name := by
  induction extensions with
  | nil => exact absurd (List.sublist_nil.mp h) (List.cons_ne_nil _ _)
  | cons extension more ih =>
      rw [offered, List.flatMap_cons, ← offered, List.sublist_append_iff] at h
      rcases h with ⟨front, back, hsplit, hfront, hback⟩
      rcases List.append_eq_cons_iff.mp hsplit.symm with ⟨_, rfl⟩ | ⟨others, rfl, hothers⟩
      · rcases ih hback with ⟨a, b, hpair, hmatch⟩
        exact ⟨a, b, hpair.cons _, hmatch⟩
      · have hhere := (List.mem_filter.mp (hfront.subset (List.mem_cons_self ..))).2
        rw [Bool.and_eq_true, List.isSuffixOf_iff_suffix] at hhere
        rcases List.append_eq_cons_iff.mp hothers.symm with ⟨_, rfl⟩ | ⟨rest, rfl, _⟩
        · rcases (mem_offered_iff.mp (hback.subset (List.mem_cons_self ..))).2.2 with
            ⟨other, hother, hsuffix⟩
          exact ⟨extension, other, (List.singleton_sublist.mpr hother).cons_cons _, hhere.2,
            hsuffix⟩
        · -- One extension meets every name once.
          have hnodup := nodup_of_sorted (sorted_names store (store.place directory))
          have htwice := (hnodup.filter _).sublist hfront
          exact absurd (List.mem_cons_self ..) (List.nodup_cons.mp htwice).1

/-- One that matches two places is met twice, if it is met at all. -/
theorem pair_of_matchedTwice (h : MatchedTwice extensions name)
    (hmem : name ∈ store.offered directory extensions) :
    [name, name].Sublist (store.offered directory extensions) := by
  rcases mem_offered_iff.mp hmem with ⟨hname, hfile, _⟩
  rcases h with ⟨a, b, hpair, ha, hb⟩
  rcases List.cons_sublist_iff.mp hpair with ⟨front, back, rfl, hfront, hback⟩
  rw [offered, List.flatMap_append, ← offered, ← offered]
  exact (List.singleton_sublist.mpr (mem_offered_iff.mpr ⟨hname, hfile, a, hfront, ha⟩)).append
    (List.singleton_sublist.mpr (mem_offered_iff.mpr ⟨hname, hfile, b,
      List.singleton_sublist.mp hback, hb⟩))

end Offered

/-- Different names give listed paths with different keys. -/
theorem orderKey_ne (directory : Path) {a b : List Char} (ha : Path.IsName a) (hb : Path.IsName b)
    (hne : a ≠ b) : (listedPath directory a).orderKey ≠ (listedPath directory b).orderKey := by
  intro hkeys
  rcases exists_child_eq_listedPath directory a with ⟨q, hq⟩
  rcases exists_child_eq_listedPath directory b with ⟨r, hr⟩
  have hlast := Path.getLast?_orderKey_child q ha
  rw [← hq, hkeys, hr, Path.getLast?_orderKey_child r hb, Option.some.injEq,
    Prod.mk.injEq] at hlast
  exact hne hlast.2.symm

section Discover

variable {store : Store} (husable : store.Usable) {directory : Path} {extensions : List String}
  (hslash : ∀ extension ∈ extensions, '/' ∉ extension.toList)
  (hentry : store.entryAt directory = .ok .directory) (hlost : directory.isLost = false)

include husable hslash hentry hlost

/-- In a directory whose path is not lost, level files are discovered if the identifiers of
    all that is offered differ. Otherwise two of what is offered are reported. -/
theorem discover_cases :
    (∃ files, store.discover directory extensions = .ok files ∧
      (store.offered directory extensions).Pairwise fun a b =>
        (listedPath directory a).levelId ≠ (listedPath directory b).levelId) ∨
    ∃ a b id, [a, b].Sublist (store.offered directory extensions) ∧
      (listedPath directory a).levelId = .ok id ∧ (listedPath directory b).levelId = .ok id ∧
      store.discover directory extensions = .error (.duplicate id
        ((listedPath directory a).ordered (listedPath directory b)).1
        ((listedPath directory a).ordered (listedPath directory b)).2) := by
  have hid : ∀ p ∈ (store.offered directory extensions).map (listedPath directory),
      ∃ id, p.levelId = .ok id := by
    intro p hp
    rcases List.mem_map.mp hp with ⟨name, hname, rfl⟩
    exact ⟨_, levelId_listedPath directory
      (((mem_offered hentry hlost husable).mp hname).isName husable)⟩
  have hnone : ∀ file : LevelFile, file ∈ ([] : List LevelFile) ↔
      file.path ∈ ([] : List Path) ∧ file.path.levelId = .ok file.id := by
    simp only [List.not_mem_nil, false_and, implies_true]
  rw [discover_eq hentry hlost hslash]
  rcases LevelFile.addAll_cases hnone hid .nil with
    ⟨files, hfiles, hdistinct⟩ | ⟨p, q, id, hpair, hp, hq, herror⟩
  · rw [List.nil_append, List.pairwise_map] at hdistinct
    exact Or.inl ⟨files, hfiles, hdistinct⟩
  · rw [List.nil_append, List.sublist_map_iff] at hpair
    rcases hpair with ⟨names, hnames, hpq⟩
    rcases List.map_eq_cons_iff.mp hpq.symm with ⟨a, rest, rfl, rfl, hrest⟩
    rcases List.map_eq_cons_iff.mp hrest with ⟨b, none, rfl, rfl, hnone⟩
    rw [List.map_eq_nil_iff.mp hnone] at hnames
    exact Or.inr ⟨a, b, id, hnames, hp, hq, herror⟩

/-- What is reported is a conflict, and if there are two candidates in it, they are reported
    in their order. -/
theorem conflict_of_discover {id : String} {first second : Path}
    (h : store.discover directory extensions = .error (.duplicate id first second)) :
    ∃ a b, store.Conflict directory extensions a b ∧ first = listedPath directory a ∧
      second = listedPath directory b ∧ first.levelId = .ok id ∧
      (a ≠ b → first.Precedes second) := by
  rcases discover_cases husable hslash hentry hlost with
    ⟨files, hfiles, _⟩ | ⟨a, b, found, hpair, ha, hb, herror⟩
  · rw [h] at hfiles
    exact absurd hfiles (by simp only [reduceCtorEq, not_false_eq_true])
  · rw [h, Except.error.injEq, DiscoveryError.duplicate.injEq] at herror
    rcases herror with ⟨rfl, hfirst, hsecond⟩
    have hca := (mem_offered hentry hlost husable).mp (hpair.subset (List.mem_cons_self ..))
    have hcb := (mem_offered hentry hlost husable).mp
      (hpair.subset (List.mem_cons_of_mem _ (List.mem_cons_self ..)))
    have hids := ha.trans hb.symm
    by_cases hsame : a = b
    · subst hsame
      rw [Path.ordered_self] at hfirst hsecond
      exact ⟨a, a, ⟨hca, hca, rfl, fun _ => matchedTwice_of_pair hpair⟩, hfirst, hsecond,
        hfirst ▸ ha, fun hne => absurd rfl hne⟩
    · have hkeys := orderKey_ne directory (hca.isName husable) (hcb.isName husable) hsame
      rcases Path.ordered_cases hkeys with ⟨hordered, hprecedes⟩ | ⟨hordered, hprecedes⟩
      · rw [hordered] at hfirst hsecond
        subst hfirst hsecond
        exact ⟨a, b, ⟨hca, hcb, hids, fun heq => absurd heq hsame⟩, rfl, rfl, ha,
          fun _ => hprecedes⟩
      · rw [hordered] at hfirst hsecond
        subst hfirst hsecond
        exact ⟨b, a, ⟨hcb, hca, hids.symm, fun heq => absurd heq.symm hsame⟩, rfl, rfl, hb,
          fun _ => hprecedes⟩

/-- A conflict is always reported, though it may be another one that is. -/
theorem discover_of_conflict {a b : List Char} (h : store.Conflict directory extensions a b) :
    ∃ id first second,
      store.discover directory extensions = .error (.duplicate id first second) := by
  rcases discover_cases husable hslash hentry hlost with
    ⟨files, hfiles, hdistinct⟩ | ⟨a, b, id, _, _, _, herror⟩
  · exfalso
    have ha := (mem_offered hentry hlost husable).mpr h.first
    have hb := (mem_offered hentry hlost husable).mpr h.second
    by_cases hsame : a = b
    · exact List.pairwise_iff_forall_sublist.mp hdistinct
        (pair_of_matchedTwice (h.twice hsame) ha) rfl
    · have hsymm : Std.Symm fun a b =>
          (listedPath directory a).levelId ≠ (listedPath directory b).levelId :=
        ⟨fun _ _ => Ne.symm⟩
      exact hdistinct.forall ha hb hsame h.same
  · exact ⟨id, _, _, herror⟩

end Discover

/-- In a directory whose path is lost, no level file is discovered. -/
theorem discover_of_isLost {store : Store} {directory : Path}
    (hentry : store.entryAt directory = .ok .directory) (hlost : directory.isLost = true)
    (extensions : List String) : store.discover directory extensions = .ok [] := by
  have hnone : extensions.flatMap (fun extension => store.matching directory extension) = [] :=
    List.flatMap_eq_nil_iff.mpr fun extension _ => matching_of_isLost hlost extension
  rw [discover, hentry]
  simp only [hnone]
  rfl

/-- What comes out of a discovery, other than a fault of the directory, comes out of a
    directory. -/
theorem entryAt_of_discover {store : Store} {directory : Path} {extensions : List String}
    {result : Except DiscoveryError (List LevelFile)}
    (h : store.discover directory extensions = result)
    (hunreadable : ∀ fault, result ≠ .error (.unreadable directory fault))
    (hfile : result ≠ .error (.notDirectory directory)) :
    store.entryAt directory = .ok .directory := by
  revert h
  fun_cases discover store directory extensions with
  | case1 fault hfault => exact fun h => absurd h.symm (hunreadable fault)
  | case2 content hcontent => exact fun h => absurd h.symm hfile
  | case3 hentry => exact fun _ => hentry

/-- An identifier is only found to be taken in a directory whose path is not lost. -/
theorem directory_of_duplicate {store : Store} {directory first second : Path}
    {extensions : List String} {id : String}
    (h : store.discover directory extensions = .error (.duplicate id first second)) :
    store.entryAt directory = .ok .directory ∧ directory.isLost = false := by
  have hentry := entryAt_of_discover h nofun nofun
  refine ⟨hentry, ?_⟩
  rw [Bool.eq_false_iff]
  intro hlost
  rw [discover_of_isLost hentry hlost] at h
  exact absurd h (by simp only [reduceCtorEq, not_false_eq_true])

/-- When an identifier is reported as taken, with the extensions of a good configuration:
    there is a conflict in the directory, and its path is not lost. What is reported is one,
    with the identifier of both, and if two candidates are in it, the lesser path comes
    first. -/
theorem duplicate_iff {store : Store} (husable : store.Usable) {config : Config}
    (hvalid : config.isValid = true) (directory : Path) :
    ((∃ id first second,
        store.discover directory config.extensions = .error (.duplicate id first second)) ↔
      store.entryAt directory = .ok .directory ∧ directory.isLost = false ∧
        ∃ a b, store.Conflict directory config.extensions a b) ∧
    ∀ id first second,
      store.discover directory config.extensions = .error (.duplicate id first second) →
      ∃ a b, store.Conflict directory config.extensions a b ∧
        first = listedPath directory a ∧ second = listedPath directory b ∧
        first.levelId = .ok id ∧ (a ≠ b → first.Precedes second) := by
  have hslash := Config.noSlash_of_isValid hvalid
  have hconflict : ∀ id first second,
      store.discover directory config.extensions = .error (.duplicate id first second) →
      ∃ a b, store.Conflict directory config.extensions a b ∧
        first = listedPath directory a ∧ second = listedPath directory b ∧
        first.levelId = .ok id ∧ (a ≠ b → first.Precedes second) := by
    intro id first second h
    rcases directory_of_duplicate h with ⟨hentry, hlost⟩
    exact conflict_of_discover husable hslash hentry hlost h
  refine ⟨⟨?_, ?_⟩, hconflict⟩
  · rintro ⟨id, first, second, h⟩
    rcases hconflict id first second h with ⟨a, b, hab, _⟩
    exact ⟨(directory_of_duplicate h).1, (directory_of_duplicate h).2, a, b, hab⟩
  · rintro ⟨hentry, hlost, a, b, hab⟩
    exact discover_of_conflict husable hslash hentry hlost hab

/-- A store with one file in a directory. Its name has two dots. -/
def twoDots : Store where
  entries := [(["levels".toList], .directory),
    (["levels".toList, "x.a.txt".toList], .file (.text "S\n"))]

/-- Two extensions, of which one is the end of the other. -/
def overlapping : Config where
  extensions := ["txt", "a.txt"]

/-- The only file of the store is reported as a second one with its own identifier. -/
theorem twoDots_duplicate :
    twoDots.Usable ∧ overlapping.isValid = true ∧
      twoDots.discover (.ofString "levels") overlapping.extensions =
        .error (.duplicate "x.a" (.ofString "levels/x.a.txt") (.ofString "levels/x.a.txt")) ∧
      ∃ a b, twoDots.Conflict (.ofString "levels") overlapping.extensions a b ∧
        .ofString "levels/x.a.txt" = listedPath (.ofString "levels") a ∧
        .ofString "levels/x.a.txt" = listedPath (.ofString "levels") b ∧
        (Path.ofString "levels/x.a.txt").levelId = .ok "x.a" ∧
        (a ≠ b → (Path.ofString "levels/x.a.txt").Precedes (.ofString "levels/x.a.txt")) :=
  have hrun : twoDots.discover (.ofString "levels") overlapping.extensions =
      .error (.duplicate "x.a" (.ofString "levels/x.a.txt") (.ofString "levels/x.a.txt")) := by
    decide +kernel
  ⟨by decide +kernel, by decide +kernel, hrun,
    (duplicate_iff (by decide +kernel) (by decide +kernel) _).2 _ _ _ hrun⟩

end Store

end PuzzleLevel
