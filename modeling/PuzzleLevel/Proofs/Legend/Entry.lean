import Mathlib.Data.List.Forall2
import PuzzleLevel.Legend.Entry
import PuzzleLevel.Proofs.Occurrences

/-!
# What a Legend Line Says of a Tile

Binding looks at the shape of an expression, looks its placeholders up in the map,
and makes a tile of both. Here the two are told apart. `Expr.Describes` gives the
shapes and what each of them says of a tile, and leaves open which places its trigger
acts on; these are the places of the placeholders, from left to right. Together they
leave no choice, so an expression and a map determine the tile.

## Main definitions

* `Expr.Describes`: What an expression says of a tile, its places apart.

## Theorems

* `Describes.unique`: An expression describes one tile for given places.
* `lookupAll_ok`: References that are bound have one occurrence each.
* `describes_of_tile`: A tile is what its expression describes, with the places of its
  placeholders.
* `occurrences_of_mem_targets`: Every place it acts on is the only one of some character.
-/

namespace PuzzleLevel

namespace Expr

/-- What an expression says of a tile, apart from the places that it acts on. -/
inductive Describes : Expr → CustomTile → Prop
  /-- A bare name is the name of the tile. -/
  | plain (word : String) : Describes (.name word) ⟨word, none⟩
  /-- A name with placeholders alone is also the action. -/
  | acting (callee : String) (targets : List Char) (places : List Position) :
      Describes (.call callee (targets.map .placeholder))
        ⟨callee, some (.trigger ⟨callee, places⟩)⟩
  /-- A name with one word has a direction or a colour. -/
  | worded (callee word : String) :
      Describes (.call callee [.name word]) ⟨callee, some (.ofWord word)⟩
  /-- A name with one call has the action of the call. -/
  | triggering (callee action : String) (targets : List Char) (places : List Position) :
      Describes (.call callee [.call action (targets.map .placeholder)])
        ⟨callee, some (.trigger ⟨action, places⟩)⟩

theorem targets?_eq_some {arguments : List Expr} {targets : List Char}
    (h : targets? arguments = some targets) : arguments = targets.map .placeholder := by
  induction arguments generalizing targets with
  | nil =>
      rw [targets?, Option.some.injEq] at h
      rw [← h]
      rfl
  | cons e more ih =>
      cases e with
      | placeholder c =>
          rw [targets?, Option.map_eq_some_iff] at h
          rcases h with ⟨rest, hrest, rfl⟩
          rw [ih hrest, List.map_cons]
      | name word => exact absurd h (by simp only [targets?, reduceCtorEq, not_false_eq_true])
      | call callee inner =>
          exact absurd h (by simp only [targets?, reduceCtorEq, not_false_eq_true])

theorem placeholdersAll_map (targets : List Char) :
    placeholdersAll (targets.map .placeholder) = targets := by
  induction targets with
  | nil => rfl
  | cons c more ih => rw [List.map_cons, placeholdersAll, ih, placeholders, List.singleton_append]

/-- Arguments that are all placeholders are no other single argument. -/
theorem map_placeholder_ne_singleton {targets : List Char} {e : Expr}
    (he : ∀ c, e ≠ placeholder c) : targets.map placeholder ≠ [e] := by
  intro h
  cases targets with
  | nil => exact absurd h (by simp only [List.map_nil, reduceCtorEq, not_false_eq_true])
  | cons c more =>
      rw [List.map_cons, List.cons.injEq] at h
      exact he c h.1.symm

/-- An expression describes one tile for given places. -/
theorem Describes.unique {e : Expr} {tile other : CustomTile} (h : e.Describes tile)
    (hother : e.Describes other) (htargets : other.targets = tile.targets) : other = tile := by
  -- What the arguments of the call look like decides which description is the other one.
  cases h with
  | plain word => cases hother with | plain word => rfl
  | acting callee targets places =>
      generalize harguments : targets.map placeholder = arguments at hother
      cases hother with
      | acting callee targets' places' => rw [show places' = places from htargets]
      | worded callee word => exact absurd harguments (map_placeholder_ne_singleton nofun)
      | triggering callee action targets' places' =>
          exact absurd harguments (map_placeholder_ne_singleton nofun)
  | worded callee word =>
      generalize harguments : [name word] = arguments at hother
      cases hother with
      | acting callee targets places =>
          exact absurd harguments.symm (map_placeholder_ne_singleton nofun)
      | worded callee word' =>
          rw [List.cons.injEq, name.injEq] at harguments
          rw [harguments.1]
      | triggering callee action targets places =>
          exact absurd harguments (by simp only [List.cons.injEq, reduceCtorEq, false_and,
            not_false_eq_true])
  | triggering callee action targets places =>
      generalize harguments : [call action (targets.map placeholder)] = arguments at hother
      cases hother with
      | acting callee targets' places' =>
          exact absurd harguments.symm (map_placeholder_ne_singleton nofun)
      | worded callee word =>
          exact absurd harguments (by simp only [List.cons.injEq, reduceCtorEq, false_and,
            not_false_eq_true])
      | triggering callee action' targets' places' =>
          rw [List.cons.injEq, call.injEq] at harguments
          rw [harguments.1.1, show places' = places from htargets]

end Expr

/-- References that are bound have one occurrence each. -/
theorem lookupAll_ok {rows : List (List Char)} {symbol : Char} {targets : List Char}
    {places : List Position} (h : lookupAll rows symbol targets = .ok places) :
    List.Forall₂ (fun c p => occurrences rows c = [p]) targets places := by
  induction targets generalizing places with
  | nil =>
      rw [lookupAll, Except.ok.injEq] at h
      rw [← h]
      exact .nil
  | cons c more ih =>
      rw [lookupAll] at h
      cases hfirst : lookup rows symbol c with
      | error error =>
          rw [hfirst] at h
          exact absurd h (by simp only [reduceCtorEq, not_false_eq_true])
      | ok p =>
          rw [hfirst] at h
          cases hmore : lookupAll rows symbol more with
          | error error =>
              rw [hmore] at h
              exact absurd h (by simp only [reduceCtorEq, not_false_eq_true])
          | ok rest =>
              rw [hmore] at h
              simp only [Except.ok.injEq] at h
              rw [← h]
              exact .cons (occurrences_of_lookup hfirst) (ih hmore)

theorem triggerTile_ok {rows : List (List Char)} {symbol : Char} {name action : String}
    {targets : List Char} {tile : CustomTile}
    (h : triggerTile rows symbol name action targets = .ok tile) :
    ∃ places, tile = ⟨name, some (.trigger ⟨action, places⟩)⟩ ∧
      List.Forall₂ (fun c p => occurrences rows c = [p]) targets places := by
  unfold triggerTile at h
  cases hplaces : lookupAll rows symbol targets with
  | error error =>
      rw [hplaces] at h
      exact absurd h (by simp only [reduceCtorEq, not_false_eq_true])
  | ok places =>
      rw [hplaces, Except.ok.injEq] at h
      exact ⟨places, h.symm, lookupAll_ok hplaces⟩

/-- A word says of a tile that it has a direction or a colour, and nothing of places. -/
theorem targets_ofWord (name word : String) :
    CustomTile.targets ⟨name, some (.ofWord word)⟩ = [] := by
  unfold CustomTile.targets Payload.ofWord
  cases Direction.ofKeyword? word with
  | some d => rfl
  | none => rfl

/-- A tile is what its expression describes, with the places of its placeholders. -/
theorem describes_of_tile {rows : List (List Char)} {symbol : Char} {e : Expr}
    {tile : CustomTile} (h : e.tile rows symbol = .ok tile) :
    e.Describes tile ∧
      List.Forall₂ (fun c p => occurrences rows c = [p]) e.placeholders tile.targets := by
  unfold Expr.tile at h
  cases e with
  | placeholder c => exact absurd h (by simp only [reduceCtorEq, not_false_eq_true])
  | name word =>
      simp only [Except.ok.injEq] at h
      rw [← h]
      exact ⟨.plain word, .nil⟩
  | call callee arguments =>
      cases htargets : Expr.targets? arguments with
      | some targets =>
          simp only [htargets] at h
          rcases triggerTile_ok h with ⟨places, rfl, hplaces⟩
          rw [Expr.targets?_eq_some htargets]
          refine ⟨.acting callee targets places, ?_⟩
          rw [Expr.placeholders, Expr.placeholdersAll_map]
          exact hplaces
      | none =>
          simp only [htargets] at h
          -- Beside placeholders, only one word or one call is taken.
          split at h
          case h_1 word =>
            rw [Except.ok.injEq] at h
            rw [← h]
            refine ⟨.worded callee word, ?_⟩
            rw [targets_ofWord]
            exact .nil
          case h_2 action inner =>
            cases hinner : Expr.targets? inner with
            | some targets =>
                simp only [hinner] at h
                rcases triggerTile_ok h with ⟨places, rfl, hplaces⟩
                rw [Expr.targets?_eq_some hinner]
                refine ⟨.triggering callee action targets places, ?_⟩
                rw [Expr.placeholders, Expr.placeholdersAll, Expr.placeholdersAll, List.append_nil,
                  Expr.placeholders, Expr.placeholdersAll_map]
                exact hplaces
            | none =>
                simp only [hinner] at h
                exact absurd h (by simp only [reduceCtorEq, not_false_eq_true])
          case h_3 => exact absurd h (by simp only [reduceCtorEq, not_false_eq_true])

/-- In two lists that go together, everything in the second has something in the first. -/
theorem exists_of_mem_right {α β : Type} {R : α → β → Prop} {as : List α} {bs : List β}
    (h : List.Forall₂ R as bs) {b : β} (hb : b ∈ bs) : ∃ a ∈ as, R a b := by
  induction h with
  | nil => exact absurd hb List.not_mem_nil
  | @cons a first as bs hfirst _ ih =>
      rcases List.mem_cons.mp hb with rfl | hmore
      · exact ⟨a, List.mem_cons_self .., hfirst⟩
      · rcases ih hmore with ⟨other, hother, hrelated⟩
        exact ⟨other, List.mem_cons_of_mem _ hother, hrelated⟩

/-- And everything in the first has something in the second. -/
theorem exists_of_mem_left {α β : Type} {R : α → β → Prop} {as : List α} {bs : List β}
    (h : List.Forall₂ R as bs) {a : α} (ha : a ∈ as) : ∃ b ∈ bs, R a b :=
  exists_of_mem_right h.flip ha

/-- Every place that a tile acts on is the only place of some character. -/
theorem occurrences_of_mem_targets {rows : List (List Char)} {symbol : Char} {e : Expr}
    {tile : CustomTile} (h : e.tile rows symbol = .ok tile) {p : Position}
    (hp : p ∈ tile.targets) : ∃ c, occurrences rows c = [p] := by
  rcases exists_of_mem_right (describes_of_tile h).2 hp with ⟨c, _, hc⟩
  exact ⟨c, hc⟩

end PuzzleLevel
