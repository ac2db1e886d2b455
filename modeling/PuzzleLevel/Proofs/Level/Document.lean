import PuzzleLevel.Proofs.Json.Writable
import PuzzleLevel.Release

/-!
# The Documents of Levels

Every document that is made of a level or an index can be read back, because its
numbers are whole numbers in plain decimal digits. What the strings in it hold,
names of tiles and identifiers of levels alike, makes no difference.

A release relies on one consequence: the identifiers that it writes into its index
are the identifiers that the next release finds there.

## Theorems

* `writable_level`, `writable_index`, `writable_document`: Documents can be read back.
* `order_document`: The order in an index is the order that was put there.
* `previousOrder_of_readText`, `previousOrder_eq`: The next release finds it.
-/

namespace PuzzleLevel

open Json

theorem writable_position (p : Position) : p.toJson.Writable := by
  refine writable_record fun member hmember => ?_
  simp only [List.mem_cons, List.not_mem_nil, or_false] at hmember
  rcases hmember with rfl | rfl
  · exact writable_ofNat p.row
  · exact writable_ofNat p.column

theorem writable_trigger (trigger : Trigger) : trigger.toJson.Writable := by
  refine writable_record fun member hmember => ?_
  simp only [List.mem_cons, List.not_mem_nil, or_false] at hmember
  rcases hmember with rfl | rfl
  · exact writable_text trigger.action
  · exact writable_array_map writable_position trigger.targets

theorem writable_payload (payload : Payload) : payload.toJson.Writable := by
  cases payload with
  | trigger t =>
      refine writable_record fun member hmember => ?_
      rw [List.mem_singleton.mp hmember]
      exact writable_trigger t
  | direction d =>
      refine writable_record fun member hmember => ?_
      rw [List.mem_singleton.mp hmember]
      exact writable_text d.tag
  | color tag =>
      refine writable_record fun member hmember => ?_
      rw [List.mem_singleton.mp hmember]
      exact writable_text tag

theorem writable_customMembers (tile : CustomTile) :
    ∀ member ∈ tile.members, member.2.Writable := by
  intro member hmember
  rcases List.mem_cons.mp hmember with rfl | hmember
  · exact writable_text tile.name
  · cases hpayload : tile.payload with
    | none =>
        rw [hpayload] at hmember
        exact absurd hmember List.not_mem_nil
    | some payload =>
        rw [hpayload] at hmember
        rw [List.mem_singleton.mp hmember]
        exact writable_payload payload

theorem writable_tile (tile : Tile) : tile.toJson.Writable := by
  cases tile with
  | custom tile =>
      refine writable_record fun member hmember => ?_
      rcases List.mem_cons.mp hmember with rfl | hmember
      · exact writable_text "custom"
      · exact writable_customMembers tile member hmember
  | _ =>
      refine writable_record fun member hmember => ?_
      rw [List.mem_singleton.mp hmember]
      exact writable_text _

/-- The document of a level can be read back. -/
theorem writable_level (level : Level) : level.toJson.Writable := by
  refine writable_record fun member hmember => ?_
  simp only [List.mem_cons, List.not_mem_nil, or_false] at hmember
  rcases hmember with rfl | rfl
  · exact writable_array_map (fun row => writable_array_map writable_tile row) level.tiles
  · exact writable_position level.start

theorem writable_indexMembers (index : LevelIndex) :
    ∀ member ∈ index.members, member.2.Writable := by
  intro member hmember
  simp only [LevelIndex.members, List.mem_cons, List.not_mem_nil, or_false] at hmember
  rcases hmember with rfl | rfl
  · exact writable_level index.first
  · exact writable_array_map writable_level index.rest

/-- The document of an index can be read back, -/
theorem writable_index (index : LevelIndex) : index.toJson.Writable :=
  writable_record (writable_indexMembers index)

/-- and so can the one with the identifiers of its levels. -/
theorem writable_document (order : List String) (index : LevelIndex) :
    (index.document order).Writable := by
  refine writable_record fun member hmember => ?_
  rcases List.mem_cons.mp hmember with rfl | hmember
  · exact writable_texts order
  · exact writable_indexMembers index member hmember

/-- The order in an index is the order that was put there. -/
theorem order_document (order : List String) (index : LevelIndex) :
    LevelIndex.order (index.document order) = order := by
  have hfields : (index.document order).fields? ["order"] = some [some (texts order)] := rfl
  rw [LevelIndex.order, hfields]
  simp only [text?_texts, Option.getD_some]

/-- An index that can be read tells the order that was put there, -/
theorem previousOrder_of_readText {store : Store} {directory : Path} {order : List String}
    {index : LevelIndex}
    (h : store.readText (directory.child indexFileName) =
      .ok (index.document order).indented) :
    previousOrder store directory = order := by
  rw [previousOrder, h]
  simp only [read?_indented (writable_document order index), Option.map_some, Option.getD_some,
    order_document]

/-- so the next release finds the order of the index that stands in its directory. -/
theorem previousOrder_eq {store : Store} {directory : Path} {order : List String}
    {index : LevelIndex}
    (h : store.entryAt (directory.child indexFileName) =
      .ok (.file (.text (index.document order).indented))) :
    previousOrder store directory = order := by
  have hread : store.readText (directory.child indexFileName) =
      .ok (index.document order).indented := by rw [Store.readText, h]
  exact previousOrder_of_readText hread

end PuzzleLevel
