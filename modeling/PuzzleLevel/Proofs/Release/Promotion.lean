import PuzzleLevel.Proofs.Release.Staging

/-!
# Promotion

The second phase of a release moves every staging file into place. A move takes
the staging file away, so a name can be promoted only once. That no name stands
twice among the promoted ones is therefore a consequence of success and no
assumption; it is how a level that is called like the index makes a release fail.

`Promoted` says what a store is like when a list of contents has been promoted. A
promotion that is refused stops behind a front of the list, and for that front it
says the same.

## Main definitions

* `Promoted`: What a store is like after promotion.

## Theorems

* `promote_ok`: Promotion that succeeds leaves a promoted store.
* `promote_error`: Promotion that fails leaves a promoted front.
* `promote_of_staged`: When promotion succeeds.
-/

namespace PuzzleLevel

/-- The steps that promote contents in a directory. -/
def promotionOf (directory : Path) (contents : List (String × String)) : List Step :=
  contents.map fun c => (Artifact.ofName directory c).promotion

/-- What a store is like after contents were promoted in a directory. -/
structure Promoted (directory : Path) (contents : List (String × String)) (before after : Store) :
    Prop where
  /-- No directory is lost. -/
  keeps : before.KeepsDirectories after
  /-- No name is promoted twice. -/
  nodup : (contents.map Prod.fst).Nodup
  /-- What was staged is in place. -/
  file : ∀ c ∈ contents, ∃ entry,
    before.find? (stagedPlace (before.place directory) c.1) = some entry ∧
      after.find? (levelPlace (before.place directory) c.1) = some entry
  /-- No staging file is left. -/
  gone : ∀ c ∈ contents, after.find? (stagedPlace (before.place directory) c.1) = none
  /-- Other locations are as they were. -/
  other : ∀ l, (∀ c ∈ contents, l ≠ levelPlace (before.place directory) c.1 ∧
    l ≠ stagedPlace (before.place directory) c.1) → after.find? l = before.find? l
  /-- Each path can be followed. -/
  locate : ∀ c ∈ contents, after.locate (levelPath directory c.1) =
    .ok (levelPlace (before.place directory) c.1)

theorem promoted_nil (directory : Path) (store : Store) : Promoted directory [] store store :=
  ⟨.refl store, List.nodup_nil, fun _ h => absurd h List.not_mem_nil,
    fun _ h => absurd h List.not_mem_nil, fun _ _ => rfl, fun _ h => absurd h List.not_mem_nil⟩

theorem levelPlace_ne_nil (home : Location) (id : String) : levelPlace home id ≠ [] :=
  List.append_ne_nil_of_right_ne_nil _ (List.cons_ne_nil _ _)

theorem stagedPlace_ne_nil (home : Location) (id : String) : stagedPlace home id ≠ [] :=
  List.append_ne_nil_of_right_ne_nil _ (List.cons_ne_nil _ _)

namespace Artifact

/-- The store in which the staging file of a name has become its file. -/
def moved (store : Store) (home : Location) (id : String) (entry : Entry) : Store :=
  (store.erase (stagedPlace home id)).put (levelPlace home id) entry

theorem moved_level (store : Store) (home : Location) (id : String) (entry : Entry) :
    (moved store home id entry).find? (levelPlace home id) = some entry :=
  Store.find?_put_self _ _ _ (levelPlace_ne_nil home id)

theorem moved_staged (store : Store) (home : Location) (id : String) (entry : Entry) :
    (moved store home id entry).find? (stagedPlace home id) = none := by
  rw [moved, Store.find?_put_other _ _ _ _ (levelPlace_ne_stagedPlace home id id).symm]
  exact Store.find?_erase_self _ _ (stagedPlace_ne_nil home id)

theorem moved_other (store : Store) {home : Location} {id : String} (entry : Entry) {l : Location}
    (hlevel : l ≠ levelPlace home id) (hstaged : l ≠ stagedPlace home id) :
    (moved store home id entry).find? l = store.find? l := by
  rw [moved, Store.find?_put_other _ _ _ _ hlevel, Store.find?_erase_other _ _ _ hstaged]

theorem moved_keeps {store : Store} {home : Location} {id : String} (entry : Entry)
    (hstaged : store.find? (stagedPlace home id) ≠ some .directory)
    (hlevel : store.find? (levelPlace home id) ≠ some .directory) :
    store.KeepsDirectories (moved store home id entry) := by
  refine ⟨rfl, fun l hl => ?_⟩
  rw [moved_other store entry (fun he => hlevel (he ▸ hl)) fun he => hstaged (he ▸ hl), hl]

/-- Promoting one artifact is refused or takes its staging file into place. -/
theorem run_promotion (store : Store) (directory : Path) {content : String × String}
    (hslash : '/' ∉ content.1.toList) :
    (∃ fault, (ofName directory content).promotion.operation.run store = (store, some fault)) ∨
      ∃ entry,
        store.find? (stagedPlace (store.place directory) content.1) = some entry ∧
        store.locate (levelPath directory content.1) =
          .ok (levelPlace (store.place directory) content.1) ∧
        store.find? (levelPlace (store.place directory) content.1) ≠ some .directory ∧
        (ofName directory content).promotion.operation.run store =
          (moved store (store.place directory) content.1 entry, none) := by
  have hplace : store.place (ofName directory content).path =
      levelPlace (store.place directory) content.1 := place_levelPath store directory hslash
  rcases Operation.run_move store (ofName directory content).staged
      (ofName directory content).path with
    ⟨fault, hrun⟩ | ⟨entry, _, htarget, hentry, hdir, hrun⟩
  · exact Or.inl ⟨fault, hrun⟩
  · rw [place_staged store directory hslash] at hentry hrun
    rw [hplace] at htarget hdir hrun
    exact Or.inr ⟨entry, hentry, htarget, hdir, hrun⟩

/-- Promoting one artifact succeeds if it was staged and no directory is in the way. -/
theorem run_promotion_ok {store : Store} {directory : Path} {content : String × String}
    (hslash : '/' ∉ content.1.toList) {entry : Entry}
    (hsource : store.locate (ofName directory content).staged =
      .ok (stagedPlace (store.place directory) content.1))
    (hentry : store.find? (stagedPlace (store.place directory) content.1) = some entry)
    (htarget : store.locate (levelPath directory content.1) =
      .ok (levelPlace (store.place directory) content.1))
    (hdir : store.find? (levelPlace (store.place directory) content.1) ≠ some .directory) :
    (ofName directory content).promotion.operation.run store =
      (moved store (store.place directory) content.1 entry, none) := by
  have hlevel : store.place (levelPath directory content.1) =
      levelPlace (store.place directory) content.1 := place_levelPath store directory hslash
  have hstaged := place_staged store directory hslash
  rw [← hlevel] at htarget hdir
  rw [← hstaged] at hsource hentry
  have hmove := Operation.move_ok hsource htarget hentry hdir
  rw [hstaged, hlevel] at hmove
  exact hmove

end Artifact

section Cons

variable {directory : Path} {content : String × String} {more : List (String × String)}
  {before after : Store} {entry : Entry}
  (hkeeps : before.KeepsDirectories
    (Artifact.moved before (before.place directory) content.1 entry))
  (hmore : Promoted directory more
    (Artifact.moved before (before.place directory) content.1 entry) after)

include hkeeps hmore

-- The staging file is gone after it was promoted, so its name is not promoted again.
theorem ne_of_promoted : ∀ d ∈ more, d.1 ≠ content.1 := by
  intro d hd he
  rcases hmore.file d hd with ⟨_, hfound, _⟩
  rw [hkeeps.place_eq, he, Artifact.moved_staged] at hfound
  exact absurd hfound (by simp only [reduceCtorEq, not_false_eq_true])

/-- Promoting others leaves the two places of a name alone. -/
theorem find?_of_promoted {l : Location} (hl : l = levelPlace (before.place directory) content.1 ∨
    l = stagedPlace (before.place directory) content.1) :
    after.find? l = (Artifact.moved before (before.place directory) content.1 entry).find? l := by
  have hfresh := ne_of_promoted hkeeps hmore
  refine hmore.other l fun d hd => ?_
  rw [hkeeps.place_eq]
  refine ⟨fun he => ?_, fun he => ?_⟩
  · rcases hl with hl | hl
    · exact hfresh d hd (levelPlace_inj (he.symm.trans hl))
    · exact levelPlace_ne_stagedPlace _ _ _ (he.symm.trans hl)
  · rcases hl with hl | hl
    · exact levelPlace_ne_stagedPlace _ _ _ (hl.symm.trans he)
    · exact hfresh d hd (stagedPlace_inj (he.symm.trans hl))

end Cons

/-- One more content in front of promoted ones. -/
theorem promoted_cons {directory : Path} {content : String × String}
    {more : List (String × String)} {before after : Store} {entry : Entry}
    (hentry : before.find? (stagedPlace (before.place directory) content.1) = some entry)
    (hfile : entry ≠ .directory)
    (hlocate : before.locate (levelPath directory content.1) =
      .ok (levelPlace (before.place directory) content.1))
    (hdir : before.find? (levelPlace (before.place directory) content.1) ≠ some .directory)
    (hmore : Promoted directory more
      (Artifact.moved before (before.place directory) content.1 entry) after) :
    Promoted directory (content :: more) before after := by
  -- Moving a file loses no directory.
  have hkeeps : before.KeepsDirectories
      (Artifact.moved before (before.place directory) content.1 entry) := by
    refine Artifact.moved_keeps entry ?_ hdir
    rw [hentry, ne_eq, Option.some.injEq]
    exact hfile
  -- No later content has this name, since its staging file is used up.
  have hfresh := ne_of_promoted hkeeps hmore
  have hkept := fun l => @find?_of_promoted directory content more before after entry hkeeps hmore l
  rcases hmore with ⟨keeps, nodup, file, gone, other, locate⟩
  rw [hkeeps.place_eq] at file gone other locate
  refine ⟨hkeeps.trans keeps, ?_, fun c hc => ?_, fun c hc => ?_, fun l hl => ?_, fun c hc => ?_⟩
  · -- The names stay different.
    rw [List.map_cons, List.nodup_cons]
    refine ⟨fun hmem => ?_, nodup⟩
    rcases List.mem_map.mp hmem with ⟨d, hd, he⟩
    exact hfresh d hd he
  · -- Later promotions leave this one in place.
    rcases List.mem_cons.mp hc with rfl | hc
    · refine ⟨entry, hentry, ?_⟩
      rw [hkept _ (Or.inl rfl), Artifact.moved_level]
    · rcases file c hc with ⟨found, hfound, hafter⟩
      refine ⟨found, ?_, hafter⟩
      rw [← hfound, Artifact.moved_other before entry (levelPlace_ne_stagedPlace _ _ _).symm
        fun he => hfresh c hc (stagedPlace_inj he)]
  · rcases List.mem_cons.mp hc with rfl | hc
    · rw [hkept _ (Or.inr rfl), Artifact.moved_staged]
    · exact gone c hc
  · have hfirst := hl content (List.mem_cons_self ..)
    rw [other l fun d hd => hl d (List.mem_cons_of_mem _ hd),
      Artifact.moved_other before entry hfirst.1 hfirst.2]
  · rcases List.mem_cons.mp hc with rfl | hc
    · exact (hkeeps.trans keeps).locate_eq hlocate
    · exact locate c hc

/-- Promotion that succeeds leaves a promoted store. -/
theorem promote_ok {directory : Path} {contents : List (String × String)}
    (hslash : ∀ c ∈ contents, '/' ∉ c.1.toList) {before after : Store}
    (hfile : ∀ c ∈ contents,
      before.find? (stagedPlace (before.place directory) c.1) ≠ some .directory)
    (h : Step.runAll before (promotionOf directory contents) = (after, none)) :
    Promoted directory contents before after := by
  induction contents generalizing before with
  | nil =>
      rw [← (Prod.mk.inj h).1]
      exact promoted_nil directory before
  | cons content more ih =>
      have hfirst := hfile content (List.mem_cons_self ..)
      rw [promotionOf, List.map_cons] at h
      -- A promotion that ran has moved a file.
      rcases Artifact.run_promotion before directory (hslash content (List.mem_cons_self ..)) with
        ⟨fault, hrun⟩ | ⟨entry, hentry, hlocate, hdir, hrun⟩
      · rw [Step.runAll_cons_error _ hrun] at h
        exact absurd (Prod.mk.inj h).2 (by simp only [reduceCtorEq, not_false_eq_true])
      · rw [Step.runAll_cons_ok _ hrun] at h
        have hplace := (Artifact.moved_keeps entry hfirst hdir).place_eq directory
        refine promoted_cons hentry (fun he => hfirst (he ▸ hentry)) hlocate hdir
          (ih (fun c hc => hslash c (List.mem_cons_of_mem _ hc)) (fun c hc => ?_) h)
        rw [hplace]
        -- A content of the same name would find its staging file gone, which is no directory.
        by_cases he : c.1 = content.1
        · rw [he, Artifact.moved_staged]
          simp only [ne_eq, reduceCtorEq, not_false_eq_true]
        · rw [Artifact.moved_other before entry (levelPlace_ne_stagedPlace _ _ _).symm
            fun hs => he (stagedPlace_inj hs)]
          exact hfile c (List.mem_cons_of_mem _ hc)

/-- Promotion that fails stops at a content and leaves those before it promoted. -/
theorem promote_error {directory : Path} {contents : List (String × String)}
    (hslash : ∀ c ∈ contents, '/' ∉ c.1.toList) {before after : Store} {error : OutputError}
    (hfile : ∀ c ∈ contents,
      before.find? (stagedPlace (before.place directory) c.1) ≠ some .directory)
    (h : Step.runAll before (promotionOf directory contents) = (after, some error)) :
    ∃ front content behind, contents = front ++ content :: behind ∧
      error.path = levelPath directory content.1 ∧ Promoted directory front before after := by
  have hmake : ∀ (c : String × String) (made : Path),
      (Artifact.ofName directory c).promotion.operation ≠ .ensureDirectory made := fun c made => by
    simp only [Artifact.promotion, ne_eq, reduceCtorEq, not_false_eq_true]
  rcases Step.runAll_map_error hmake h with ⟨front, content, behind, hsplit, hpath, hfront⟩
  have hsub : ∀ c ∈ front, c ∈ contents := fun c hc => by
    rw [hsplit]
    exact List.mem_append_left _ hc
  exact ⟨front, content, behind, hsplit, hpath, promote_ok (fun c hc => hslash c (hsub c hc))
    (fun c hc => hfile c (hsub c hc)) hfront⟩

/-- Promotion succeeds if no name stands twice, every name was staged, and no
    directory is in the way. -/
theorem promote_of_staged {directory : Path} {contents : List (String × String)}
    (hslash : ∀ c ∈ contents, '/' ∉ c.1.toList) (hnodup : (contents.map Prod.fst).Nodup)
    {before : Store}
    (hstaged : ∀ c ∈ contents,
      before.locate (Artifact.ofName directory c).staged =
        .ok (stagedPlace (before.place directory) c.1) ∧
      ∃ content, before.find? (stagedPlace (before.place directory) c.1) = some (.file content))
    (hlevel : ∀ c ∈ contents,
      before.locate (levelPath directory c.1) = .ok (levelPlace (before.place directory) c.1) ∧
      before.find? (levelPlace (before.place directory) c.1) ≠ some .directory) :
    ∃ after, Step.runAll before (promotionOf directory contents) = (after, none) := by
  induction contents generalizing before with
  | nil => exact ⟨before, rfl⟩
  | cons content more ih =>
      have hs := hslash content (List.mem_cons_self ..)
      rw [List.map_cons, List.nodup_cons] at hnodup
      have hfresh : ∀ c ∈ more, c.1 ≠ content.1 := fun c hc he =>
        hnodup.1 (he ▸ List.mem_map_of_mem hc)
      rcases hstaged content (List.mem_cons_self ..) with ⟨hsource, text, hentry⟩
      rcases hlevel content (List.mem_cons_self ..) with ⟨htarget, hdir⟩
      -- The first content is moved; what was assumed of the others still holds behind that.
      have hrun := Artifact.run_promotion_ok hs hsource hentry htarget hdir
      have hkeeps : before.KeepsDirectories
          (Artifact.moved before (before.place directory) content.1 (.file text)) :=
        Artifact.moved_keeps _ (by
          rw [hentry]; simp only [ne_eq, Option.some.injEq, reduceCtorEq, not_false_eq_true]) hdir
      rw [promotionOf, List.map_cons, Step.runAll_cons_ok _ hrun]
      refine ih (fun c hc => hslash c (List.mem_cons_of_mem _ hc)) hnodup.2 (fun c hc => ?_)
        fun c hc => ?_
      · -- A different name has a different staging place.
        rcases hstaged c (List.mem_cons_of_mem _ hc) with ⟨hlocate, other, hother⟩
        rw [hkeeps.place_eq]
        refine ⟨hkeeps.locate_eq hlocate, other, ?_⟩
        rw [Artifact.moved_other _ _ (levelPlace_ne_stagedPlace _ _ _).symm
          fun he => hfresh c hc (stagedPlace_inj he), hother]
      · -- It has a different place, too.
        rcases hlevel c (List.mem_cons_of_mem _ hc) with ⟨hlocate, hother⟩
        rw [hkeeps.place_eq]
        refine ⟨hkeeps.locate_eq hlocate, ?_⟩
        rw [Artifact.moved_other _ _ (fun he => hfresh c hc (levelPlace_inj he))
          (levelPlace_ne_stagedPlace _ _ _)]
        exact hother

end PuzzleLevel
