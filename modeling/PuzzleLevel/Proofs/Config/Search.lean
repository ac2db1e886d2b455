import PuzzleLevel.Config.Loading
import PuzzleLevel.Proofs.Path.Ascent

/-!
# Searching Upwards

A configuration is searched for from a directory upwards. Each pass asks whether the file
is there, and if it is not, goes on with the parent of the path. `Searches` is such a
search as it goes, pass by pass and with no limit set to it: a relation, since a search
that went on for ever would have no result. That every search has one, and only one, and
that it is the one the program gives, is what there is to prove.

What the result is worth is told by the paths alone, in `Nearest`. A file that is found is
in the first place on the way up that has one, so a configuration further up never stands
in for a nearer one, and if nothing is found there is none in any place. One pass keeps this
in the only way it can go wrong: what is nearest from the parent is nearest from the path as
well, because the path itself has just been seen not to have it.

## Main definitions

* `Store.Searches`: A search from a path, with the number of its passes and its result.
* `Store.Nearest`: What the nearest place of a name on the way up is.

## Theorems

* `Store.search?_of_present`, `Store.search?_of_parent?`, `Store.search?_of_top`: What a
  search gives by its first pass.
* `Store.searches_search?`: A search ends.
* `Store.Searches.unique`: It has one number of passes and one result.
* `Store.Nearest.above`: What is nearest from a parent is nearest from its path.
* `Store.Searches.nearest`: A search results in the nearest place.
* `Store.Nearest.unique`: There is one nearest place at most.
* `Store.search?_eq_iff`: The program finds the nearest place and no other.
* `Store.configSearch_nearest`: A search for a configuration ends with the nearest.
-/

namespace PuzzleLevel

namespace Store

/-- A search for a name from a path upwards, by the number of its passes and its result. -/
inductive Searches (store : Store) (name : String) : Path → Nat → Option Path → Prop
  /-- It ends where the name is present. -/
  | found {p : Path} (h : store.present (p.child name) = true) :
      Searches store name p 1 (some (p.child name))
  /-- It ends where nothing is above. -/
  | ended {p : Path} (h : store.present (p.child name) = false) (htop : p.parent? = none) :
      Searches store name p 1 none
  /-- Otherwise it goes on with the parent. -/
  | above {p q : Path} {passes : Nat} {result : Option Path}
      (h : store.present (p.child name) = false) (hparent : p.parent? = some q)
      (hmore : Searches store name q passes result) :
      Searches store name p (passes + 1) result

/-- The path of a name in the nearest place on the way up from a path, or nothing if no
    place there has it. -/
inductive Nearest (store : Store) (name : String) (start : Path) : Option Path → Prop
  /-- A place has the name, and no place before it does. -/
  | place {steps : Nat} {place : Path} (hreached : start.up? steps = some place)
      (h : store.present (place.child name) = true)
      (hfirst : ∀ fewer below, fewer < steps → start.up? fewer = some below →
        store.present (below.child name) = false) :
      Nearest store name start (some (place.child name))
  /-- No place has it. -/
  | nowhere (h : ∀ steps place, start.up? steps = some place →
      store.present (place.child name) = false) :
      Nearest store name start none

variable {store : Store} {name : String}

/-- A search finds what is present where it starts. -/
theorem search?_of_present {p : Path} (h : store.present (p.child name) = true) :
    store.search? p name = some (p.child name) := by
  rw [search?, Path.ancestors, Path.ancestorsUpTo, List.map_cons, List.find?_cons_of_pos h]

/-- A search goes on with the parent if nothing is present. -/
theorem search?_of_parent? {p q : Path} (h : store.present (p.child name) = false)
    (hparent : p.parent? = some q) : store.search? p name = store.search? q name := by
  rw [search?, Path.ancestors_of_parent? hparent, List.map_cons,
    List.find?_cons_of_neg (by rw [h]; exact Bool.false_ne_true), search?]

/-- A search finds nothing if nothing is present and nothing is above. -/
theorem search?_of_top {p : Path} (h : store.present (p.child name) = false)
    (htop : p.parent? = none) : store.search? p name = none := by
  rw [search?, Path.ancestors_of_top htop, List.map_cons,
    List.find?_cons_of_neg (by rw [h]; exact Bool.false_ne_true), List.map_nil, List.find?_nil]

/-- A search ends, with at most as many passes as its path has characters and one more, and
    with the result that the program gives. -/
theorem searches_search? (store : Store) (name : String) (p : Path) :
    ∃ passes, passes ≤ p.chars.length + 1 ∧
      Searches store name p passes (store.search? p name) := by
  induction p using Path.ascend with
  | top p htop =>
      cases h : store.present (p.child name) with
      | true =>
          rw [search?_of_present h]
          exact ⟨1, by omega, .found h⟩
      | false =>
          rw [search?_of_top h htop]
          exact ⟨1, by omega, .ended h htop⟩
  | step p q hparent ih =>
      cases h : store.present (p.child name) with
      | true =>
          rw [search?_of_present h]
          exact ⟨1, by omega, .found h⟩
      | false =>
          rcases ih with ⟨passes, hpasses, hsearch⟩
          have hshorter := Path.length_of_parent? hparent
          rw [search?_of_parent? h hparent]
          exact ⟨passes + 1, by omega, .above h hparent hsearch⟩

/-- A search has one number of passes and one result. -/
theorem Searches.unique {p : Path} {passes others : Nat} {result other : Option Path}
    (h : Searches store name p passes result) (hother : Searches store name p others other) :
    others = passes ∧ other = result := by
  induction h generalizing others with
  | found h =>
      cases hother with
      | found _ => exact ⟨rfl, rfl⟩
      | ended hno _ => exact absurd (h.symm.trans hno) (by decide)
      | above hno _ _ => exact absurd (h.symm.trans hno) (by decide)
  | ended h htop =>
      cases hother with
      | found hyes => exact absurd (h.symm.trans hyes) (by decide)
      | ended _ _ => exact ⟨rfl, rfl⟩
      | above _ hparent _ =>
          rw [htop] at hparent
          exact absurd hparent (by simp only [reduceCtorEq, not_false_eq_true])
  | above h hparent _ ih =>
      cases hother with
      | found hyes => exact absurd (h.symm.trans hyes) (by decide)
      | ended _ htop =>
          rw [htop] at hparent
          exact absurd hparent (by simp only [reduceCtorEq, not_false_eq_true])
      | above _ hsame hmore =>
          -- There is only one parent to go on with.
          rw [hparent, Option.some.injEq] at hsame
          rw [← hsame] at hmore
          rcases ih hmore with ⟨hpasses, hresult⟩
          exact ⟨by rw [hpasses], hresult⟩

/-- What is nearest from a parent is nearest from its path if the path does not have it. -/
theorem Nearest.above {p q : Path} {result : Option Path}
    (h : store.present (p.child name) = false) (hparent : p.parent? = some q)
    (hnearest : store.Nearest name q result) : store.Nearest name p result := by
  have hup : ∀ steps, p.up? (steps + 1) = q.up? steps := by
    intro steps
    rw [Path.up?, hparent]
  have hself : ∀ below, p.up? 0 = some below → store.present (below.child name) = false := by
    intro below hbelow
    rw [Path.up?, Option.some.injEq] at hbelow
    rw [← hbelow]
    exact h
  cases hnearest with
  | place hreached hpresent hfirst =>
      refine .place ((hup _).trans hreached) hpresent ?_
      intro fewer below hfewer hbelow
      cases fewer with
      | zero => exact hself below hbelow
      | succ fewer =>
          exact hfirst fewer below (Nat.lt_of_succ_lt_succ hfewer) ((hup fewer).symm.trans hbelow)
  | nowhere hnone =>
      refine .nowhere ?_
      intro steps place hplace
      cases steps with
      | zero => exact hself place hplace
      | succ steps => exact hnone steps place ((hup steps).symm.trans hplace)

/-- A search results in the nearest place. -/
theorem Searches.nearest {p : Path} {passes : Nat} {result : Option Path}
    (h : Searches store name p passes result) : store.Nearest name p result := by
  induction h with
  | found h =>
      refine .place (Path.up?.eq_1 _) h ?_
      intro fewer below hfewer
      exact absurd hfewer (Nat.not_lt_zero fewer)
  | @ended p h htop =>
      refine .nowhere ?_
      intro steps place hplace
      cases steps with
      | zero =>
          rw [Path.up?, Option.some.injEq] at hplace
          rw [← hplace]
          exact h
      | succ steps =>
          rw [Path.up?, htop] at hplace
          exact absurd hplace (by simp only [reduceCtorEq, not_false_eq_true])
  | above h hparent _ ih => exact ih.above h hparent

/-- There is one nearest place at most. -/
theorem Nearest.unique {start : Path} {result other : Option Path}
    (h : store.Nearest name start result) (hother : store.Nearest name start other) :
    other = result := by
  cases h with
  | @place steps place hreached hpresent hfirst =>
      cases hother with
      | @place others another hreached' hpresent' hfirst' =>
          -- Of two places the one further up would come behind one that has the name.
          rcases Nat.lt_trichotomy steps others with hlt | rfl | hlt
          · exact absurd (hpresent.symm.trans (hfirst' steps place hlt hreached)) (by decide)
          · rw [hreached, Option.some.injEq] at hreached'
            rw [hreached']
          · exact absurd (hpresent'.symm.trans (hfirst others another hlt hreached')) (by decide)
      | nowhere hnone =>
          exact absurd (hpresent.symm.trans (hnone steps place hreached)) (by decide)
  | nowhere hnone =>
      cases hother with
      | @place steps place hreached hpresent _ =>
          exact absurd (hpresent.symm.trans (hnone steps place hreached)) (by decide)
      | nowhere _ => rfl

/-- The program finds the nearest place and no other. -/
theorem search?_eq_iff {start : Path} {result : Option Path} :
    store.search? start name = result ↔ store.Nearest name start result := by
  rcases searches_search? store name start with ⟨passes, _, hsearch⟩
  constructor
  · intro h
    rw [← h]
    exact hsearch.nearest
  · intro h
    exact h.unique hsearch.nearest

/-- A search for a configuration ends, whatever it starts from, and gives the file in the
    nearest place on the way up that has one. The way goes up to the root from an absolute
    path, and to the empty path from any other. -/
theorem configSearch_nearest (store : Store) (start : Path) :
    (∃ passes, passes ≤ start.chars.length + 1 ∧ ∀ n result,
      store.Searches configFileName start n result ↔
        n = passes ∧ result = store.findConfig? start) ∧
    (∀ result, store.findConfig? start = result ↔
      store.Nearest configFileName start result) ∧
    ∃ height top, start.up? height = some top ∧
      (∀ steps, (start.up? steps).isSome = true ↔ steps ≤ height) ∧
      if start.isAbsolute then top.IsRoot else top = ⟨[]⟩ := by
  refine ⟨?_, fun result => search?_eq_iff, ?_⟩
  · rcases searches_search? store configFileName start with ⟨passes, hpasses, hsearch⟩
    refine ⟨passes, hpasses, fun n result => ⟨hsearch.unique, ?_⟩⟩
    rintro ⟨rfl, rfl⟩
    exact hsearch
  · rcases start.exists_top with ⟨height, top, htop, hparent, habsolute, hheight⟩
    refine ⟨height, top, htop, hheight, ?_⟩
    rcases Path.parent?_eq_none_iff.mp hparent with rfl | hroot
    · rw [← habsolute]
      exact rfl
    · rw [← habsolute, hroot.absolute, if_pos rfl]
      exact hroot

-- The file at the root is not reached from a path that is followed from the directory `a`.
example :
    let store : Store :=
      { entries := [(["a".toList], .directory), (["a".toList, "b".toList], .directory),
          (["a".toList, "levels.toml".toList], .file (.text "")),
          (["levels.toml".toList], .file (.text ""))],
        here := ["a".toList] }
    store.findConfig? (.ofString "b/./") = some (.ofString "levels.toml") := by decide

end Store

end PuzzleLevel
