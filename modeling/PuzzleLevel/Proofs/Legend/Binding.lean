import PuzzleLevel.Legend.Basic
import PuzzleLevel.Proofs.Legend.Resolution

/-!
# Binding a Legend Line

What becomes of a line that was read, whatever tree its expression is. Two questions are
asked, and in this order: does the expression have a shape that defines a tile, and does
every placeholder in it have a single place? A line with a bad shape and a bad reference is
blamed for its shape.

The four shapes overlap as the program tests them. No arguments at all count as placeholders
alone, and one argument that is a call is looked into a second time. As a relation they do
not: a tile that an expression describes tells the shape, and nothing but the places of its
trigger is left open. So there is one equation for all shapes, `tile_of_describes`, which
looks the placeholders up and puts their places in; and for an expression that describes no
tile nothing is looked up at all.

## Main definitions

* `Expr.Supported`: An expression describes a tile.
* `Payload.Means`: What a bare word says of a tile.
* `FirstMiss`: What is reported of references, some of which miss.
* `CustomTile.withTargets`: A tile that acts on other places.

## Theorems

* `lookupAll_eq_ok_iff`: References are bound if each has a single place.
* `lookupAll_eq_error_iff`: Otherwise the leftmost that misses is reported.
* `tile_of_describes`: What becomes of an expression that describes a tile.
* `tile_of_not_supported`: What becomes of any other.
* `bind_exact`: What becomes of a line.
-/

namespace PuzzleLevel

/-- A tile that acts on other places, if it acts on any. -/
def CustomTile.withTargets (tile : CustomTile) (places : List Position) : CustomTile :=
  match tile.payload with
  | some (.trigger trigger) => { tile with payload := some (.trigger ⟨trigger.action, places⟩) }
  | _ => tile

/-- A tile acts on the places that it acts on. -/
theorem CustomTile.withTargets_targets (tile : CustomTile) :
    tile.withTargets tile.targets = tile := by
  rcases tile with ⟨name, _ | ⟨trigger | direction | tag⟩⟩ <;> rfl

/-- What a bare word says of a tile. -/
inductive Payload.Means : String → Payload → Prop
  | up : Means "Up" (.direction .up)
  | down : Means "Down" (.direction .down)
  | left : Means "Left" (.direction .left)
  | right : Means "Right" (.direction .right)
  /-- Any other word is a colour. -/
  | color (word : String) (h : word ∉ ["Up", "Down", "Left", "Right"]) : Means word (.color word)

/-- The direction that is found for a word has it as its keyword. -/
theorem Direction.keyword_of_ofKeyword? {word : String} {direction : Direction}
    (h : ofKeyword? word = some direction) : direction.keyword = word := by
  simpa only [decide_eq_true_eq] using List.find?_some h

theorem Direction.ofKeyword?_eq_none {word : String}
    (h : word ∉ ["Up", "Down", "Left", "Right"]) : ofKeyword? word = none := by
  cases hword : ofKeyword? word with
  | none => rfl
  | some direction =>
      rw [← keyword_of_ofKeyword? hword] at h
      cases direction <;> exact absurd h (by decide)

theorem Payload.ofWord_eq_iff {word : String} {payload : Payload} :
    ofWord word = payload ↔ Means word payload := by
  constructor
  · intro h
    rw [← h, ofWord]
    cases hword : Direction.ofKeyword? word with
    | some direction =>
        rw [← Direction.keyword_of_ofKeyword? hword]
        cases direction with
        | up => exact .up
        | down => exact .down
        | left => exact .left
        | right => exact .right
    | none =>
        refine .color word fun hmem => ?_
        -- Each of the four words would have been found.
        simp only [List.mem_cons, List.not_mem_nil, or_false] at hmem
        rcases hmem with rfl | rfl | rfl | rfl <;> exact absurd hword (by decide)
  · intro h
    cases h with
    | up => decide
    | down => decide
    | left => decide
    | right => decide
    | color _ hcolor => rw [ofWord, Direction.ofKeyword?_eq_none hcolor]

/-- References are bound if each of them has a single place. -/
theorem lookupAll_eq_ok_iff {rows : List (List Char)} {symbol : Char} {targets : List Char}
    {places : List Position} :
    lookupAll rows symbol targets = .ok places ↔
      List.Forall₂ (StandsOnlyAt rows) targets places := by
  constructor
  · intro h
    exact (lookupAll_ok h).imp fun _ _ => standsOnlyAt_of_occurrences
  · intro h
    induction h with
    | nil => rfl
    | cons hfirst _ ih => rw [lookupAll, lookup_eq_ok_iff.mpr hfirst, ih]

/-- What is reported of references, some of which miss: what there is to report of the
    leftmost that does. -/
def FirstMiss (rows : List (List Char)) (symbol : Char) (targets : List Char)
    (error : ReferenceError) : Prop :=
  ∃ front c back, targets = front ++ c :: back ∧ (∀ d ∈ front, ∃ p, StandsOnlyAt rows d p) ∧
    Misses rows symbol c error

/-- A character that has a single place is not missed. -/
theorem Misses.not_standsOnlyAt {rows : List (List Char)} {symbol c : Char}
    {error : ReferenceError} (h : Misses rows symbol c error) (p : Position) :
    ¬ StandsOnlyAt rows c p := by
  intro hstands
  have hfails := lookup_eq_error_iff.mpr h
  rw [lookup_eq_ok_iff.mpr hstands] at hfails
  exact absurd hfails (by simp only [reduceCtorEq, not_false_eq_true])

/-- If references cannot be bound, the leftmost that misses is reported. -/
theorem lookupAll_eq_error_iff {rows : List (List Char)} {symbol : Char} {targets : List Char}
    {error : ReferenceError} :
    lookupAll rows symbol targets = .error error ↔ FirstMiss rows symbol targets error := by
  constructor
  · intro h
    induction targets with
    | nil => exact absurd h (by simp only [lookupAll, reduceCtorEq, not_false_eq_true])
    | cons c more ih =>
        rw [lookupAll] at h
        cases hfirst : lookup rows symbol c with
        | error found =>
            rw [hfirst] at h
            simp only [Except.error.injEq] at h
            rw [h] at hfirst
            exact ⟨[], c, more, rfl, fun _ hd => absurd hd List.not_mem_nil,
              lookup_eq_error_iff.mp hfirst⟩
        | ok p =>
            rw [hfirst] at h
            cases hmore : lookupAll rows symbol more with
            | ok rest =>
                rw [hmore] at h
                exact absurd h (by simp only [reduceCtorEq, not_false_eq_true])
            | error found =>
                rw [hmore] at h
                simp only [Except.error.injEq] at h
                rw [h] at hmore
                rcases ih hmore with ⟨front, d, back, rfl, hfront, hmiss⟩
                refine ⟨c :: front, d, back, rfl, ?_, hmiss⟩
                exact List.forall_mem_cons.mpr ⟨⟨p, lookup_eq_ok_iff.mp hfirst⟩, hfront⟩
  · rintro ⟨front, c, back, rfl, hfront, hmiss⟩
    -- The references in front of it are bound and passed over one by one.
    induction front with
    | nil => rw [List.nil_append, lookupAll, lookup_eq_error_iff.mpr hmiss]
    | cons d more ih =>
        rw [List.forall_mem_cons] at hfront
        rcases hfront with ⟨⟨p, hp⟩, hmore⟩
        rw [List.cons_append, lookupAll, lookup_eq_ok_iff.mpr hp, ih hmore]

namespace Expr

/-- An expression has a shape that defines a tile. -/
def Supported (e : Expr) : Prop :=
  ∃ tile, e.Describes tile

theorem targets?_map (targets : List Char) :
    targets? (targets.map .placeholder) = some targets := by
  induction targets with
  | nil => rfl
  | cons c more ih => rw [List.map_cons, targets?, ih, Option.map_some]

/-- The tile of an expression that describes one: its placeholders are looked up, and their
    places are what the tile acts on. -/
theorem tile_of_describes {e : Expr} {tile : CustomTile} (h : e.Describes tile)
    (rows : List (List Char)) (symbol : Char) :
    e.tile rows symbol =
      match lookupAll rows symbol e.placeholders with
      | .error error => .error (.reference error)
      | .ok places => .ok (tile.withTargets places) := by
  cases h with
  | plain word => rfl
  | acting callee targets places =>
      simp only [Expr.tile, targets?_map, triggerTile, placeholders, placeholdersAll_map]
      cases lookupAll rows symbol targets <;> rfl
  | worded callee word =>
      simp only [Expr.tile, targets?, placeholders, placeholdersAll, List.append_nil, lookupAll]
      unfold Payload.ofWord
      cases Direction.ofKeyword? word <;> rfl
  | triggering callee action targets places =>
      simp only [Expr.tile, targets?, targets?_map, triggerTile, placeholders, placeholdersAll,
        placeholdersAll_map, List.append_nil]
      cases lookupAll rows symbol targets <;> rfl

/-- An expression that describes no tile is refused, whatever its placeholders are. -/
theorem tile_of_not_supported {e : Expr} (h : ¬ e.Supported) (rows : List (List Char))
    (symbol : Char) : e.tile rows symbol = .error (.line (.unsupported e)) := by
  unfold Expr.tile
  cases e with
  | placeholder c => rfl
  | name word => exact absurd ⟨_, .plain word⟩ h
  | call callee arguments =>
      cases htargets : targets? arguments with
      | some targets =>
          rw [targets?_eq_some htargets] at h
          exact absurd ⟨_, .acting callee targets []⟩ h
      | none =>
          simp only [htargets]
          -- Of other arguments one word is taken, and one call with placeholders alone.
          split
          case h_1 word => exact absurd ⟨_, .worded callee word⟩ h
          case h_2 action inner =>
            cases hinner : targets? inner with
            | some targets =>
                rw [targets?_eq_some hinner] at h
                exact absurd ⟨_, .triggering callee action targets []⟩ h
            | none => rfl
          case h_3 => rfl

variable {rows : List (List Char)} {symbol : Char} {e : Expr}

/-- The tile of an expression is the one that it describes with the places of its
    placeholders, each of which has a single place. -/
theorem tile_eq_ok_iff {tile : CustomTile} :
    e.tile rows symbol = .ok tile ↔
      e.Describes tile ∧ List.Forall₂ (StandsOnlyAt rows) e.placeholders tile.targets := by
  constructor
  · intro h
    rcases describes_of_tile h with ⟨hdescribes, hplaces⟩
    exact ⟨hdescribes, hplaces.imp fun _ _ => standsOnlyAt_of_occurrences⟩
  · rintro ⟨hdescribes, hplaces⟩
    rw [tile_of_describes hdescribes, lookupAll_eq_ok_iff.mpr hplaces]
    exact congrArg Except.ok tile.withTargets_targets

/-- An expression defines no tile because of its shape, or else because of the leftmost of
    its placeholders that misses. -/
theorem tile_eq_error_iff {fault : EntryFault} :
    e.tile rows symbol = .error fault ↔
      (¬ e.Supported ∧ fault = .line (.unsupported e)) ∨
        (e.Supported ∧ ∃ error, FirstMiss rows symbol e.placeholders error ∧
          fault = .reference error) := by
  by_cases hshape : e.Supported
  · rcases hshape with ⟨tile, hdescribes⟩
    simp only [show e.Supported from ⟨tile, hdescribes⟩, not_true_eq_false, false_and, true_and,
      false_or, ← lookupAll_eq_error_iff]
    rw [tile_of_describes hdescribes]
    cases lookupAll rows symbol e.placeholders with
    | error error => simp only [Except.error.injEq, exists_eq_left', eq_comm]
    | ok places => simp only [reduceCtorEq, false_and, exists_false]
  · rw [tile_of_not_supported hshape, Except.error.injEq]
    simp only [hshape, not_false_eq_true, true_and, false_and, or_false, eq_comm]

end Expr

theorem bind_eq_error_iff {rows : List (List Char)} {line : LegendLine} {fault : EntryFault} :
    line.bind rows = .error fault ↔ line.expr.tile rows line.symbol = .error fault := by
  unfold LegendLine.bind
  cases line.expr.tile rows line.symbol with
  | error found => simp only [Except.error.injEq]
  | ok tile => simp only [reduceCtorEq]

/-- A line can be bound exactly if its expression has a shape that defines a tile and each of
    its placeholders has a single place. -/
theorem exists_bind_iff {rows : List (List Char)} {line : LegendLine} :
    (∃ entry, line.bind rows = .ok entry) ↔
      line.expr.Supported ∧ ∀ c ∈ line.expr.placeholders, ∃ p, StandsOnlyAt rows c p := by
  constructor
  · rintro ⟨entry, h⟩
    rcases Expr.tile_eq_ok_iff.mp (bind_eq_ok_iff.mp h).1 with ⟨hdescribes, hplaces⟩
    refine ⟨⟨_, hdescribes⟩, fun c hc => ?_⟩
    rcases exists_of_mem_left hplaces hc with ⟨p, _, hp⟩
    exact ⟨p, hp⟩
  · rintro ⟨hshape, hplaces⟩
    cases hbind : line.bind rows with
    | ok entry => exact ⟨entry, rfl⟩
    | error fault =>
        -- A fault would be the shape, or a placeholder without a single place.
        rcases Expr.tile_eq_error_iff.mp (bind_eq_error_iff.mp hbind) with
          ⟨hbad, _⟩ | ⟨_, error, ⟨front, c, back, hsplit, _, hmiss⟩, _⟩
        · exact absurd hshape hbad
        · have hc : c ∈ line.expr.placeholders := by
            rw [hsplit]
            exact List.mem_append_right _ (List.mem_cons_self ..)
          rcases hplaces c hc with ⟨p, hp⟩
          exact absurd hp (hmiss.not_standsOnlyAt p)

/-- What is reported of a line that cannot be bound. -/
theorem errorAt_bind_iff {rows : List (List Char)} {line : LegendLine} {error : LegendError} :
    (line.bind rows).mapError (Legend.errorAt line.number) = .error error ↔
      (¬ line.expr.Supported ∧ error = .line line.number (.unsupported line.expr)) ∨
        (line.expr.Supported ∧ ∃ reference,
          FirstMiss rows line.symbol line.expr.placeholders reference ∧
            error = .reference reference) := by
  have hfault : (line.bind rows).mapError (Legend.errorAt line.number) = .error error ↔
      ∃ fault, line.bind rows = .error fault ∧ Legend.errorAt line.number fault = error := by
    cases line.bind rows with
    | error fault => simp only [Except.mapError, Except.error.injEq, exists_eq_left']
    | ok entry => simp only [Except.mapError, reduceCtorEq, false_and, exists_false]
  rw [hfault]
  simp only [bind_eq_error_iff, Expr.tile_eq_error_iff]
  constructor
  · rintro ⟨fault, ⟨hbad, rfl⟩ | ⟨hshape, reference, hmiss, rfl⟩, rfl⟩
    · exact Or.inl ⟨hbad, rfl⟩
    · exact Or.inr ⟨hshape, reference, hmiss, rfl⟩
  · rintro (⟨hbad, rfl⟩ | ⟨hshape, reference, hmiss, rfl⟩)
    · exact ⟨_, Or.inl ⟨hbad, rfl⟩, rfl⟩
    · exact ⟨_, Or.inr ⟨hshape, reference, hmiss, rfl⟩, rfl⟩

/-- For every line that was read, whatever the tree of its expression, and for every map: the
    line can be bound exactly if its expression has one of the four shapes and each of its
    placeholders has a single place. The entry is then what the expression describes, with
    these places from left to right; what a bare word in it says is told by the word.
    Otherwise the number of the line and its expression are reported if the shape is bad,
    whatever the placeholders are, and the leftmost placeholder that misses if it is not. -/
theorem bind_exact (rows : List (List Char)) (line : LegendLine) :
    ((∃ entry, line.bind rows = .ok entry) ↔
        line.expr.Supported ∧ ∀ c ∈ line.expr.placeholders, ∃ p, StandsOnlyAt rows c p) ∧
      (∀ entry, line.bind rows = .ok entry ↔
        entry.symbol = line.symbol ∧ entry.line = line.number ∧ line.expr.Describes entry.tile ∧
          List.Forall₂ (StandsOnlyAt rows) line.expr.placeholders entry.tile.targets) ∧
      (∀ word payload, Payload.ofWord word = payload ↔ Payload.Means word payload) ∧
      ∀ error, (line.bind rows).mapError (Legend.errorAt line.number) = .error error ↔
        (¬ line.expr.Supported ∧ error = .line line.number (.unsupported line.expr)) ∨
          (line.expr.Supported ∧ ∃ reference,
            FirstMiss rows line.symbol line.expr.placeholders reference ∧
              error = .reference reference) := by
  refine ⟨exists_bind_iff, fun entry => ?_, fun _ _ => Payload.ofWord_eq_iff,
    fun _ => errorAt_bind_iff⟩
  rw [bind_eq_ok_iff, Expr.tile_eq_ok_iff]
  constructor
  · rintro ⟨⟨hdescribes, hplaces⟩, hsymbol, hline⟩
    exact ⟨hsymbol, hline, hdescribes, hplaces⟩
  · rintro ⟨hsymbol, hline, hdescribes, hplaces⟩
    exact ⟨⟨hdescribes, hplaces⟩, hsymbol, hline⟩

-- A bad shape is reported and not the placeholder in it, which is nowhere in the map.
example : LegendLine.bind ["S".toList] ⟨'X', .call "Door" [.placeholder 'Z', .name "Red"], 7⟩ =
    .error (.line (.unsupported (.call "Door" [.placeholder 'Z', .name "Red"]))) := rfl

end PuzzleLevel
