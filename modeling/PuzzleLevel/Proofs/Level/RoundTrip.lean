import PuzzleLevel.Proofs.Level.Decoding

/-!
# Levels as Texts, and Back

A level or an index is written as the text of its document, in one of two layouts, and
such a text is read as the value that was written. Two values that fit therefore have
different texts, and a text that is accepted at all, however it is laid out and whatever
else stands in it, becomes one that stays as it is when it is read and written once more.

An index is written with the identifiers of its levels in front, and that document has two
readers. The next release takes the identifiers and passes over the levels, a game does the
opposite. Neither says so when it finds something else: the release goes on without an order.

Both types and both layouts are treated alike: reading a text is reading the document
first and what it stands for afterwards, and each step takes one step of writing back.

## Main definitions

* `rewritten?`: A text after its value was read and written.
* `RoundTrips`: What is written is read back.

## Theorems

* `roundTrips_of_document`: What is written is read back if its document is.
* `roundTrips_level`, `roundTrips_index`: Levels and indices are read back from any layout.
* `levels_round_trip`: Levels and indices are read back from both layouts.
* `read?_document`: An index is read back from behind the identifiers of its levels.
* `index_read_back`: What stands in a directory as its index is read back by the next release
  and by a game.
-/

namespace PuzzleLevel

/-- What becomes of a text when the value in it is read and then written, if there is
    one. -/
def rewritten? {α : Type} (read? : List Char → Option α) (write : α → String)
    (text : List Char) : Option (List Char) :=
  (read? text).map fun a => (write a).toList

/-- Values that fit are read back from the texts that are written of them, and so is
    everything that is read. -/
structure RoundTrips {α : Type} (read? : List Char → Option α) (Fits : α → Prop)
    (write : α → String) : Prop where
  /-- A value is read back. -/
  reads : ∀ a, Fits a → read? (write a).toList = some a
  /-- Different values have different texts. -/
  injective : ∀ a b, Fits a → Fits b → write a = write b → a = b
  /-- A value that is read from some text fits. -/
  fits : ∀ text a, read? text = some a → Fits a
  /-- A text that was read and written stays the same when this is done again. -/
  settles : ∀ text next, rewritten? read? write text = some next →
    rewritten? read? write next = some next

/-- What is written is read back if its document is, and the document if its text is. -/
theorem roundTrips_of_document {α : Type} {toJson : α → Json} {ofJson? : Json → Option α}
    {Fits : α → Prop} {layout : Json → String} (hwritable : ∀ a, (toJson a).Writable)
    (hread : ∀ a, Fits a → ofJson? (toJson a) = some a)
    (hfits : ∀ j a, ofJson? j = some a → Fits a)
    (hlayout : ∀ j : Json, j.Writable → Json.read? (layout j).toList = some j) :
    RoundTrips (fun text => (Json.read? text).bind ofJson?) Fits fun a => layout (toJson a) := by
  have hreads : ∀ a, Fits a → (Json.read? (layout (toJson a)).toList).bind ofJson? = some a := by
    intro a ha
    rw [hlayout _ (hwritable a), Option.bind_some, hread a ha]
  have hfound : ∀ text a, (Json.read? text).bind ofJson? = some a → Fits a := by
    intro text a h
    rw [Option.bind_eq_some_iff] at h
    rcases h with ⟨j, _, hj⟩
    exact hfits j a hj
  refine ⟨hreads, fun a b ha hb hsame => ?_, hfound, fun text next hnext => ?_⟩
  · have hb' := hreads b hb
    rw [← hsame, hreads a ha, Option.some.injEq] at hb'
    exact hb'
  · unfold rewritten? at hnext ⊢
    rw [Option.map_eq_some_iff] at hnext
    rcases hnext with ⟨a, ha, rfl⟩
    exact congrArg (Option.map _) (hreads a (hfound text a ha))

section Layout

variable {layout : Json → String}
  (hlayout : ∀ j : Json, j.Writable → Json.read? (layout j).toList = some j)

include hlayout

theorem roundTrips_level : RoundTrips Level.read? Level.Fits fun level => layout level.toJson :=
  roundTrips_of_document writable_level (fun _ h => ofJson?_level h (Nat.zero_le 2))
    (fun _ _ => fits_of_level) hlayout

theorem roundTrips_index :
    RoundTrips LevelIndex.read? LevelIndex.Fits fun index => layout index.toJson :=
  roundTrips_of_document writable_index (fun _ h => ofJson?_index h) (fun _ _ => fits_of_index)
    hlayout

end Layout

/-- Levels and indices whose positions fit into fields of 64 bits are read back from both
    of the texts that are written of them, and nothing else is ever read. -/
theorem levels_round_trip :
    RoundTrips Level.read? Level.Fits (fun level => level.toJson.compact) ∧
      RoundTrips Level.read? Level.Fits (fun level => level.toJson.indented) ∧
      RoundTrips LevelIndex.read? LevelIndex.Fits (fun index => index.toJson.compact) ∧
      RoundTrips LevelIndex.read? LevelIndex.Fits (fun index => index.toJson.indented) :=
  ⟨roundTrips_level fun _ => Json.read?_compact, roundTrips_level fun _ => Json.read?_indented,
    roundTrips_index fun _ => Json.read?_compact, roundTrips_index fun _ => Json.read?_indented⟩

-- A position that does not fit is written, but what is written is no level.
example : Level.read? (Level.mk [] ⟨Json.nat64Bound, 0⟩).toJson.compact.toList = none := by
  decide +kernel

/-- An index is read back from behind the identifiers of its levels. -/
theorem read?_document {index : LevelIndex} (h : index.Fits) (order : List String) :
    LevelIndex.read? (index.document order).indented.toList = some index := by
  rw [LevelIndex.read?, Json.read?_indented (writable_document order index), Option.bind_some,
    ofJson?_document h order]

/-- If the index of a directory is the document of some identifiers and levels, the next
    release reads those identifiers. The levels are read back exactly if their positions fit
    into fields of 64 bits. -/
theorem index_read_back {store : Store} {directory : Path} {order : List String}
    {index : LevelIndex}
    (h : store.readText (directory.child indexFileName) =
      .ok (index.document order).indented) :
    previousOrder store directory = order ∧
      (LevelIndex.read? (index.document order).indented.toList = some index ↔ index.Fits) := by
  have hfits := (roundTrips_index fun _ => Json.read?_indented).fits
  exact ⟨previousOrder_of_readText h, fun hread => hfits _ index hread,
    fun hindex => read?_document hindex order⟩

/-- An index whose levels have odd identifiers, one of them none at all, and whose first level
    has a trigger far away. -/
def oddIndex : LevelIndex :=
  ⟨⟨[[.custom ⟨"\u0001\"", some (.trigger ⟨"open", [⟨18446744073709551615, 0⟩]⟩)⟩], []], ⟨0, 0⟩⟩,
    [⟨[[.floor]], ⟨0, 0⟩⟩]⟩

/-- A directory in which the index has the given text. -/
def indexStore (text : String) : Store :=
  { entries := [(["out".toList], .directory),
      (["out".toList, "index.json".toList], .file (.text text))] }

theorem readText_indexStore (text : String) :
    (indexStore text).readText ((Path.ofString "out").child indexFileName) = .ok text :=
  rfl

theorem odd_index_read_back :
    previousOrder (indexStore (oddIndex.document ["\"\\\n", ""]).indented) (.ofString "out") =
        ["\"\\\n", ""] ∧
      LevelIndex.read? (oddIndex.document ["\"\\\n", ""]).indented.toList = some oddIndex := by
  have hfits : oddIndex.Fits := by
    intro level hlevel
    simp only [LevelIndex.levels, oddIndex, List.mem_cons, List.not_mem_nil, or_false] at hlevel
    rcases hlevel with rfl | rfl
    · refine ⟨fun row hrow tile htile => ?_, ⟨by decide, by decide⟩⟩
      simp only [List.mem_cons, List.not_mem_nil, or_false] at hrow
      rcases hrow with rfl | rfl
      · rw [List.mem_singleton.mp htile]
        intro p hp
        rw [List.mem_singleton.mp hp]
        exact ⟨by decide, by decide⟩
      · exact absurd htile List.not_mem_nil
    · refine ⟨fun row hrow tile htile => ?_, ⟨by decide, by decide⟩⟩
      rw [List.mem_singleton.mp hrow] at htile
      rw [List.mem_singleton.mp htile]
      trivial
  have hback := index_read_back (readText_indexStore (oddIndex.document ["\"\\\n", ""]).indented)
  exact ⟨hback.1, hback.2.mpr hfits⟩

end PuzzleLevel
