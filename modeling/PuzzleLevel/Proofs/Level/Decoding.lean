import PuzzleLevel.Level.Decoding
import PuzzleLevel.Proofs.Level.Document

/-!
# Documents Stand for What They Were Made Of

A level is made a document and the document is read as a level, which is then the one
that it was made of. This is shown type by type, from positions up to the index; texts
play no part in it.

There is one condition, that positions fit into fields of 64 bits, because a greater
number is written but not read. Whatever is read satisfies it. A tile is taken in whole
before its kind is known, so its document must be plain as well, and not be nested deeper
than what is left of the room. The deepest tile is one with a trigger: its targets stand
five containers deep.

## Main definitions

* `Position.Fits`, `Tile.Fits`, `Level.Fits`, `LevelIndex.Fits`: Positions fit into fields
  of 64 bits.

## Theorems

* `isPlain_tile`: The document of a tile can be taken in whole.
* `ofJson?_position`, `ofJson?_payload`, `ofJson?_tile`, `ofJson?_level`, `ofJson?_index`,
  `ofJson?_document`: A document stands for what it was made of.
* `fits_of_position`, `fits_of_custom`, `fits_of_tile`, `fits_of_level`, `fits_of_index`: What
  is read fits.
-/

namespace PuzzleLevel

/-- A position fits into two fields of 64 bits. -/
structure Position.Fits (p : Position) : Prop where
  row : p.row < Json.nat64Bound
  column : p.column < Json.nat64Bound

/-- The positions in a custom tile fit. -/
def CustomTile.Fits (tile : CustomTile) : Prop :=
  ∀ p ∈ tile.targets, p.Fits

/-- The positions in a tile fit. -/
def Tile.Fits : Tile → Prop
  | .custom tile => tile.Fits
  | _ => True

/-- The positions in a level fit. -/
structure Level.Fits (level : Level) : Prop where
  tiles : ∀ row ∈ level.tiles, ∀ tile ∈ row, tile.Fits
  start : level.start.Fits

/-- The positions in all levels of an index fit. -/
def LevelIndex.Fits (index : LevelIndex) : Prop :=
  ∀ level ∈ index.levels, level.Fits

namespace Json

section Plain

variable {room : Nat}

theorem areItemsPlain_of_forall {items : List Json}
    (h : ∀ item ∈ items, item.isPlain room = true) : areItemsPlain room items = true := by
  induction items with
  | nil => rfl
  | cons item more ih =>
      rw [areItemsPlain, h item (List.mem_cons_self ..),
        ih fun other hother => h other (List.mem_cons_of_mem _ hother)]
      rfl

theorem areMembersPlain_of_forall {members : List (String × Json)}
    (h : ∀ member ∈ members, member.2.isPlain room = true) :
    areMembersPlain room (members.map fun (key, value) => (some key, value)) = true := by
  induction members with
  | nil => rfl
  | cons member more ih =>
      rw [List.map_cons, areMembersPlain, h member (List.mem_cons_self ..),
        ih fun other hother => h other (List.mem_cons_of_mem _ hother)]
      rfl

/-- A list takes up one container. -/
theorem isPlain_array {items : List Json} (h : ∀ item ∈ items, item.isPlain room = true) :
    (array items).isPlain (room + 1) = true := by
  rw [isPlain, Nat.add_sub_cancel, areItemsPlain_of_forall h, Bool.and_true, bne_iff_ne]
  exact Nat.succ_ne_zero room

/-- A record takes up one container. -/
theorem isPlain_record {members : List (String × Json)}
    (h : ∀ member ∈ members, member.2.isPlain room = true) :
    (record members).isPlain (room + 1) = true := by
  rw [record, isPlain, Nat.add_sub_cancel, areMembersPlain_of_forall h, Bool.and_true,
    bne_iff_ne]
  exact Nat.succ_ne_zero room

theorem isPlain_text (s : String) : (text s).isPlain room = true := by
  rw [text, isPlain]
  rfl

theorem isPlain_ofNat {n : Nat} (h : n < nat64Bound) : (ofNat n).isPlain room = true := by
  rw [ofNat, isPlain]
  exact isFinite_toDigits h

end Plain

end Json

open Json

theorem isPlain_position {p : Position} (h : p.Fits) (room : Nat) :
    p.toJson.isPlain (room + 1) = true := by
  refine isPlain_record fun member hmember => ?_
  simp only [List.mem_cons, List.not_mem_nil, or_false] at hmember
  rcases hmember with rfl | rfl
  · exact isPlain_ofNat h.row
  · exact isPlain_ofNat h.column

theorem isPlain_trigger {trigger : Trigger} (h : ∀ p ∈ trigger.targets, p.Fits) (room : Nat) :
    trigger.toJson.isPlain (room + 3) = true := by
  refine isPlain_record fun member hmember => ?_
  simp only [List.mem_cons, List.not_mem_nil, or_false] at hmember
  rcases hmember with rfl | rfl
  · exact isPlain_text trigger.action
  · refine isPlain_array fun item hitem => ?_
    rcases List.mem_map.mp hitem with ⟨p, hp, rfl⟩
    exact isPlain_position (h p hp) room

theorem isPlain_payload {tile : CustomTile} (h : tile.Fits) {payload : Payload}
    (hpayload : tile.payload = some payload) (room : Nat) :
    payload.toJson.isPlain (room + 4) = true := by
  cases payload with
  | trigger t =>
      refine isPlain_record fun member hmember => ?_
      rw [List.mem_singleton.mp hmember]
      unfold CustomTile.Fits CustomTile.targets at h
      rw [hpayload] at h
      exact isPlain_trigger h room
  | direction d =>
      refine isPlain_record fun member hmember => ?_
      rw [List.mem_singleton.mp hmember]
      exact isPlain_text d.tag
  | color tag =>
      refine isPlain_record fun member hmember => ?_
      rw [List.mem_singleton.mp hmember]
      exact isPlain_text tag

/-- The document of a tile can be taken in whole. -/
theorem isPlain_tile {tile : Tile} (h : tile.Fits) (room : Nat) :
    tile.toJson.isPlain (room + 5) = true := by
  cases tile with
  | custom tile =>
      refine isPlain_record fun member hmember => ?_
      rcases List.mem_cons.mp hmember with rfl | hmember
      · exact isPlain_text "custom"
      · rcases List.mem_cons.mp hmember with rfl | hmember
        · exact isPlain_text tile.name
        · cases hpayload : tile.payload with
          | none =>
              rw [hpayload] at hmember
              exact absurd hmember List.not_mem_nil
          | some payload =>
              rw [hpayload] at hmember
              rw [List.mem_singleton.mp hmember]
              exact isPlain_payload h hpayload room
  | _ =>
      refine isPlain_record fun member hmember => ?_
      rw [List.mem_singleton.mp hmember]
      exact isPlain_text _

theorem ofJson?_position {p : Position} (h : p.Fits) : Position.ofJson? p.toJson = some p := by
  have hfields : p.toJson.fields? ["row", "column"] =
    some [some (ofNat p.row), some (ofNat p.column)] := rfl
  rw [Position.ofJson?, hfields]
  simp only [nat64?_ofNat h.row, nat64?_ofNat h.column]

theorem ofJson?_trigger {trigger : Trigger} (h : ∀ p ∈ trigger.targets, p.Fits) :
    Trigger.ofJson? trigger.toJson = some trigger := by
  have hfields : trigger.toJson.fields? ["action", "targets"] =
    some [some (text trigger.action), some (array (trigger.targets.map Position.toJson))] := rfl
  rw [Trigger.ofJson?, hfields]
  simp only [text, text?, items?, Option.bind_some,
    mapM_map_of_mem fun p hp => ofJson?_position (h p hp)]

/-- A direction is read back, wherever it is read from. -/
theorem ofJson?_direction (place : Place) (d : Direction) :
    Direction.ofJson? place d.toJson = some d := by
  cases d
  all_goals rfl

theorem ofJson?_payload {tile : CustomTile} (h : tile.Fits) {payload : Payload}
    (hpayload : tile.payload = some payload) (place : Place) :
    Payload.ofJson? place payload.toJson = some payload := by
  cases payload with
  | trigger t =>
      unfold CustomTile.Fits CustomTile.targets at h
      rw [hpayload] at h
      have hchoice : (Payload.trigger t).toJson.choice? = some ("trigger", some t.toJson) := rfl
      rw [Payload.ofJson?, hchoice]
      simp only [if_true, ofJson?_trigger h, Option.map_some]
  | direction d =>
      have hchoice : (Payload.direction d).toJson.choice? = some ("direction", some d.toJson) := rfl
      rw [Payload.ofJson?, hchoice]
      simp only [ofJson?_direction, Option.map_some]
      rfl
  | color tag => rfl

/-- The fields of a custom tile, which are read past its kind. -/
theorem fields?_custom (tile : CustomTile) :
    (Tile.custom tile).toJson.fields? CustomTile.fieldNames =
      some [some (text tile.name), tile.payload.map Payload.toJson] := by
  rcases tile with ⟨name, payload⟩
  cases payload with
  | none => rfl
  | some payload => rfl

/-- A payload is read as one, because it is not written as null. -/
theorem optional?_payload {tile : CustomTile} (h : tile.Fits) (place : Place) :
    Payload.optional? place (tile.payload.map Payload.toJson) = some tile.payload := by
  cases hpayload : tile.payload with
  | none => rfl
  | some payload =>
      have hread := ofJson?_payload h hpayload place
      rw [Option.map_some]
      cases payload with
      | trigger t => exact congrArg (Option.map some) hread
      | direction d => exact congrArg (Option.map some) hread
      | color tag => exact congrArg (Option.map some) hread

theorem ofJson?_custom {tile : CustomTile} (h : tile.Fits) (place : Place) :
    CustomTile.ofJson? place (Tile.custom tile).toJson = some tile := by
  rw [CustomTile.ofJson?, fields?_custom, Option.bind_some, CustomTile.ofFields?,
    optional?_payload h]
  rfl

/-- A custom tile has one kind among its members. -/
theorem kind_custom (tile : CustomTile) :
    ∃ members, (Tile.custom tile).toJson = .object members ∧
      member? members "kind" = some (some (.string (some "custom"))) := by
  rcases tile with ⟨name, payload⟩
  cases payload with
  | none => exact ⟨_, rfl, rfl⟩
  | some payload => exact ⟨_, rfl, rfl⟩

/-- A tile is read back where there is room for five containers. -/
theorem ofJson?_tile {tile : Tile} (h : tile.Fits) {room : Nat} (hroom : 5 ≤ room) :
    Tile.ofJson? room tile.toJson = some tile := by
  have hplain : tile.toJson.isPlain room = true := by
    rw [← Nat.sub_add_cancel hroom]
    exact isPlain_tile h (room - 5)
  unfold Tile.ofJson?
  rw [if_pos hplain]
  cases tile with
  | custom tile =>
      have hcustom := ofJson?_custom h .held
      rcases kind_custom tile with ⟨members, hjson, hkind⟩
      rw [hjson] at hcustom ⊢
      simp only [hkind, if_true, hcustom, Option.map_some]
  | _ => rfl

theorem ofJson?_level {level : Level} (h : level.Fits) {around : Nat} (haround : around ≤ 2) :
    Level.ofJson? around level.toJson = some level := by
  have hfields : level.toJson.fields? ["tiles", "startingPosition"] =
    some [some (array (level.tiles.map fun row => array (row.map Tile.toJson))),
      some level.start.toJson] := rfl
  have hroom : 5 ≤ maxDepth - (around + 3) := by
    unfold maxDepth
    omega
  have hrows : (level.tiles.map fun row => array (row.map Tile.toJson)).mapM
      (fun row => row.items?.bind fun items =>
        items.mapM (Tile.ofJson? (maxDepth - (around + 3)))) = some level.tiles :=
    mapM_map_of_mem fun row hrow =>
      mapM_map_of_mem fun tile htile => ofJson?_tile (h.tiles row hrow tile htile) hroom
  rw [Level.ofJson?, hfields]
  simp only [items?, Option.bind_some] at hrows ⊢
  simp only [hrows, ofJson?_position h.start]

theorem LevelIndex.Fits.first {index : LevelIndex} (h : index.Fits) : index.first.Fits :=
  h index.first (List.mem_cons_self ..)

theorem LevelIndex.Fits.rest {index : LevelIndex} (h : index.Fits) :
    ∀ level ∈ index.rest, level.Fits :=
  fun level hlevel => h level (List.mem_cons_of_mem _ hlevel)

/-- An index is read from any document that has its members. -/
theorem ofJson?_of_fields {index : LevelIndex} (h : index.Fits) {j : Json}
    (hfields : j.fields? ["firstLevel", "restLevels"] =
      some [some index.first.toJson, some (array (index.rest.map Level.toJson))]) :
    LevelIndex.ofJson? j = some index := by
  rw [LevelIndex.ofJson?, hfields]
  simp only [items?, Option.bind_some, ofJson?_level h.first (Nat.le_succ 1),
    mapM_map_of_mem fun level hlevel => ofJson?_level (h.rest level hlevel) (Nat.le_refl 2)]

theorem ofJson?_index {index : LevelIndex} (h : index.Fits) :
    LevelIndex.ofJson? index.toJson = some index :=
  ofJson?_of_fields h rfl

/-- The identifiers in front of an index do not matter to what is read of it. -/
theorem ofJson?_document {index : LevelIndex} (h : index.Fits) (order : List String) :
    LevelIndex.ofJson? (index.document order) = some index :=
  ofJson?_of_fields h rfl

/-- What is read of a list was read of its items. -/
theorem mem_of_mapM {α : Type} {read? : Json → Option α} {items : List Json} {values : List α}
    (h : items.mapM read? = some values) {a : α} (ha : a ∈ values) :
    ∃ item, read? item = some a := by
  induction items generalizing values with
  | nil =>
      rw [List.mapM_nil, Option.pure_def, Option.some.injEq] at h
      rw [← h] at ha
      exact absurd ha List.not_mem_nil
  | cons item more ih =>
      rw [List.mapM_cons, Option.bind_eq_bind, Option.bind_eq_some_iff] at h
      rcases h with ⟨first, hfirst, h⟩
      rw [Option.bind_eq_bind, Option.bind_eq_some_iff] at h
      rcases h with ⟨rest, hrest, h⟩
      rw [Option.pure_def, Option.some.injEq] at h
      rw [← h] at ha
      rcases List.mem_cons.mp ha with rfl | ha
      · exact ⟨item, hfirst⟩
      · exact ih hrest ha

theorem mem_of_items {α : Type} {read? : Json → Option α} {j : Json} {values : List α}
    (h : (j.items?.bind fun items => items.mapM read?) = some values) {a : α} (ha : a ∈ values) :
    ∃ item, read? item = some a := by
  rw [Option.bind_eq_some_iff] at h
  rcases h with ⟨items, _, hvalues⟩
  exact mem_of_mapM hvalues ha

theorem fits_of_position {j : Json} {p : Position} (h : Position.ofJson? j = some p) : p.Fits := by
  revert h
  fun_cases Position.ofJson? j with
  | case1 row column hfields m n hcolumn hrow =>
      intro h
      rw [Option.some.injEq] at h
      rw [← h]
      exact ⟨lt_of_nat64? hrow, lt_of_nat64? hcolumn⟩
  | _ => exact nofun

theorem fits_of_trigger {j : Json} {trigger : Trigger} (h : Trigger.ofJson? j = some trigger) :
    ∀ p ∈ trigger.targets, p.Fits := by
  revert h
  fun_cases Trigger.ofJson? j with
  | case1 action targets hfields name positions htargets haction =>
      intro h p hp
      rw [Option.some.injEq] at h
      rw [← h] at hp
      rcases mem_of_items htargets hp with ⟨item, hitem⟩
      exact fits_of_position hitem
  | _ => exact nofun

/-- Only a payload that is read as a trigger is one. -/
theorem fits_of_payload {place : Place} {j : Json} {trigger : Trigger}
    (h : Payload.ofJson? place j = some (.trigger trigger)) : ∀ p ∈ trigger.targets, p.Fits := by
  revert h
  fun_cases Payload.ofJson? place j with
  | case1 value hchoice =>
      intro h
      rw [Option.map_eq_some_iff] at h
      rcases h with ⟨found, hfound, he⟩
      rw [Payload.trigger.injEq] at he
      rw [← he]
      exact fits_of_trigger hfound
  | case2 value hchoice htrigger =>
      intro h
      rw [Option.map_eq_some_iff] at h
      rcases h with ⟨_, _, he⟩
      exact absurd he (by simp only [reduceCtorEq, not_false_eq_true])
  | case3 value hchoice htrigger hdirection =>
      intro h
      rw [Option.map_eq_some_iff] at h
      rcases h with ⟨_, _, he⟩
      exact absurd he (by simp only [reduceCtorEq, not_false_eq_true])
  | _ => exact nofun

theorem fits_of_optional {place : Place} {given : Option Json} {trigger : Trigger}
    (h : Payload.optional? place given = some (some (.trigger trigger))) :
    ∀ p ∈ trigger.targets, p.Fits := by
  revert h
  fun_cases Payload.optional? place given with
  | case1 => exact nofun
  | case2 => exact nofun
  | case3 j hj =>
      intro h
      rw [Option.map_eq_some_iff] at h
      rcases h with ⟨payload, hpayload, he⟩
      rw [Option.some.injEq] at he
      rw [he] at hpayload
      exact fits_of_payload hpayload

theorem fits_of_custom {place : Place} {j : Json} {tile : CustomTile}
    (h : CustomTile.ofJson? place j = some tile) : tile.Fits := by
  rw [CustomTile.ofJson?, Option.bind_eq_some_iff] at h
  rcases h with ⟨fields, _, h⟩
  revert h
  fun_cases CustomTile.ofFields? place fields with
  | case1 name given word payload hpayload hname =>
      intro h
      rw [Option.some.injEq] at h
      rw [← h]
      unfold CustomTile.Fits CustomTile.targets
      intro p hp
      cases payload with
      | none => exact absurd hp List.not_mem_nil
      | some payload =>
          cases payload with
          | trigger t => exact fits_of_optional hpayload p hp
          | direction d => exact absurd hp List.not_mem_nil
          | color tag => exact absurd hp List.not_mem_nil
  | _ => exact nofun

/-- A kind that comes with nothing has no positions in it. -/
theorem fits_of_kind {kind : String} {tile : Tile} (h : Tile.ofKind? kind = some tile) :
    tile.Fits := by
  cases tile with
  | custom tile =>
      revert h
      fun_cases Tile.ofKind? kind with
      | _ => exact nofun
  | _ => trivial

theorem fits_of_tile {room : Nat} {j : Json} {tile : Tile} (h : Tile.ofJson? room j = some tile) :
    tile.Fits := by
  have hcustom : ∀ {j}, (CustomTile.ofJson? .held j).map .custom = some tile → tile.Fits := by
    intro j h
    rw [Option.map_eq_some_iff] at h
    rcases h with ⟨found, hfound, rfl⟩
    exact fits_of_custom hfound
  revert h
  fun_cases Tile.ofJson? room j with
  | case1 members hplain hkind => exact hcustom
  | case2 members kind hkind hother hplain => exact fits_of_kind
  | case4 rest hplain => exact hcustom
  | case5 kind rest hother hempty hplain => exact fits_of_kind
  | _ => exact nofun

theorem fits_of_level {around : Nat} {j : Json} {level : Level}
    (h : Level.ofJson? around j = some level) : level.Fits := by
  revert h
  fun_cases Level.ofJson? around j with
  | case1 tiles start hfields room rows grid position hstart hrows =>
      intro h
      rw [Option.some.injEq] at h
      rw [← h]
      refine ⟨fun row hrow tile htile => ?_, fits_of_position hstart⟩
      rcases mem_of_items hrows hrow with ⟨cells, hcells⟩
      rcases mem_of_items hcells htile with ⟨cell, hcell⟩
      exact fits_of_tile hcell
  | _ => exact nofun

theorem fits_of_index {j : Json} {index : LevelIndex}
    (h : LevelIndex.ofJson? j = some index) : index.Fits := by
  revert h
  fun_cases LevelIndex.ofJson? j with
  | case1 first rest hfields head tail htail hhead =>
      intro h level hlevel
      rw [Option.some.injEq] at h
      rw [← h] at hlevel
      rcases List.mem_cons.mp hlevel with rfl | hlevel
      · exact fits_of_level hhead
      · rcases mem_of_items htail hlevel with ⟨item, hitem⟩
        exact fits_of_level hitem
  | _ => exact nofun

end PuzzleLevel
