import Mathlib.Data.List.Forall2
import PuzzleLevel.Progress.Lines
import PuzzleLevel.Proofs.Json.Compact
import PuzzleLevel.Proofs.Json.Writable

/-!
# Events Read Back from Their Lines

Whoever reads progress for programs cuts the text at line feeds and takes every line as a
document. This gives the events back, all of them and nothing else, whatever is in their
strings. Two facts carry it. A compact document is one line, so cutting finds exactly the
places where one event ends and the next begins. And a document stands for one event only: the
name of the kind tells the kinds apart, and where a kind has a field that may be missing, an
identifier or the reason of a failure, what is missing is not written like anything that is
there.

The one condition is that numbers fit into fields of 64 bits. A greater one would be written,
and not be read.

## Main definitions

* `Event.Fits`: The numbers of an event fit.
* `Event.document`: An event as it stands on its line.

## Theorems

* `writable_toJson`: The document of an event can be read back.
* `ofJson?_toJson`: It stands for the event.
* `splitOn_transcript`: The lines of a transcript are those of its events.
* `transcript_framed`: Events are read back from their lines.
-/

namespace PuzzleLevel

namespace Event

open Json

/-- The numbers of an event. -/
def numbers : Event → List Nat
  | buildStarted total => [total]
  | levelStarted _ => []
  | levelCompleted _ _ milliseconds => [milliseconds]
  | buildCompleted _ milliseconds succeeded failed => [milliseconds, succeeded, failed]
  | warning .. => []
  | error .. => []

/-- The numbers of an event fit into fields of 64 bits. -/
def Fits (event : Event) : Prop :=
  ∀ n ∈ event.numbers, n < nat64Bound

/-- An event as it stands on its line. -/
def document (event : Event) : List Char :=
  event.toJson.compact.toList

theorem writable_idJson (id : Option String) : (idJson id).Writable := by
  cases id with
  | none => exact .null
  | some id => exact writable_text id

/-- The document of an event can be read back. -/
theorem writable_toJson (event : Event) : event.toJson.Writable := by
  cases event with
  | levelCompleted id status milliseconds =>
      -- A status with a reason comes with one more field.
      cases status with
      | success => exact writable_record (by simp [writable_ofNat, writable_text])
      | failed reason => exact writable_record (by simp [writable_ofNat, writable_text])
  | buildCompleted success milliseconds succeeded failed =>
      exact writable_record (by simp [writable_ofNat, writable_text, Writable.bool])
  | warning id message => exact writable_record (by simp [writable_text, writable_idJson])
  | error id message => exact writable_record (by simp [writable_text, writable_idJson])
  | buildStarted total => exact writable_record (by simp [writable_ofNat, writable_text])
  | levelStarted id => exact writable_record (by simp [writable_text])

/-- The document of an event is an object. -/
theorem exists_toJson_eq_object (event : Event) : ∃ members, event.toJson = .object members := by
  cases event with
  | levelCompleted id status milliseconds =>
      cases status with
      | success => exact ⟨_, rfl⟩
      | failed reason => exact ⟨_, rfl⟩
  | _ => exact ⟨_, rfl⟩

/-- An identifier that is missing is told from every one that is there. -/
theorem idOfJson?_idJson (id : Option String) : idOfJson? (idJson id) = some id := by
  cases id with
  | none => rfl
  | some id => rfl

/-- The document of an event stands for the event. -/
theorem ofJson?_toJson {event : Event} (h : event.Fits) : ofJson? event.toJson = some event := by
  -- The fields are looked up by evaluation; only the numbers, which fit, need a lemma.
  unfold Fits at h
  cases event with
  | buildStarted total =>
      have htotal := nat64?_ofNat (h total (by simp [numbers]))
      have hfields : (buildStarted total).toJson.fields? fieldNames =
          some [none, none, some (text "build_started"), none, none, none, none, none, none,
            some (ofNat total)] := rfl
      rw [ofJson?, hfields, Option.bind_some, ofFields?]
      rw [htotal]
      rfl
  | levelStarted id => rfl
  | levelCompleted id status milliseconds =>
      have htime := nat64?_ofNat (h milliseconds (by simp [numbers]))
      cases status with
      | success =>
          have hfields : (levelCompleted id .success milliseconds).toJson.fields? fieldNames =
              some [some (ofNat milliseconds), none, some (text "level_completed"), none,
                some (text id), none, some (text "success"), none, none, none] := rfl
          rw [ofJson?, hfields, Option.bind_some, ofFields?, htime]
          rfl
      | failed reason =>
          have hfields : (levelCompleted id (.failed reason) milliseconds).toJson.fields?
              fieldNames =
              some [some (ofNat milliseconds), some (text reason), some (text "level_completed"),
                none, some (text id), none, some (text "failed"), none, none, none] := rfl
          rw [ofJson?, hfields, Option.bind_some, ofFields?, htime]
          rfl
  | buildCompleted success milliseconds succeeded failed =>
      have htime := nat64?_ofNat (h milliseconds (by simp [numbers]))
      have hsucceeded := nat64?_ofNat (h succeeded (by simp [numbers]))
      have hfailed := nat64?_ofNat (h failed (by simp [numbers]))
      have hfields : (buildCompleted success milliseconds succeeded failed).toJson.fields?
          fieldNames =
          some [some (ofNat milliseconds), none, some (text "build_completed"),
            some (ofNat failed), none, none, none, some (ofNat succeeded), some (.bool success),
            none] := rfl
      rw [ofJson?, hfields, Option.bind_some, ofFields?, htime, hsucceeded, hfailed]
      rfl
  | warning id message =>
      have hfields : (warning id message).toJson.fields? fieldNames =
          some [none, none, some (text "warning"), none, some (idJson id), some (text message),
            none, none, none, none] := rfl
      rw [ofJson?, hfields, Option.bind_some, ofFields?, idOfJson?_idJson]
      rfl
  | error id message =>
      have hfields : (error id message).toJson.fields? fieldNames =
          some [none, none, some (text "error"), none, some (idJson id), some (text message),
            none, none, none, none] := rfl
      rw [ofJson?, hfields, Option.bind_some, ofFields?, idOfJson?_idJson]
      rfl

/-- The line of an event is read as its document, -/
theorem read?_document (event : Event) : Json.read? event.document = some event.toJson :=
  read?_compact event.writable_toJson

/-- and so the event is read back from it. -/
theorem ofLine?_document {event : Event} (h : event.Fits) :
    ofLine? event.document = some event := by
  rw [ofLine?, read?_document, Option.bind_some, ofJson?_toJson h]

/-- The first line of a transcript is that of its first event. -/
theorem splitOn_line (event : Event) (rest : List Char) :
    (event.line.toList ++ rest).splitOn '\n' = event.document :: rest.splitOn '\n' := by
  have hline : event.line.toList ++ rest = event.document ++ '\n' :: rest := by
    rw [line, String.toList_append, List.append_assoc]
    rfl
  rw [hline]
  exact List.splitOn_append_cons_self_of_not_mem (newline_notMem_compact event.writable_toJson) rest

/-- The lines of a transcript are those of its events, and nothing stands behind the last. -/
theorem splitOn_transcript (events : List Event) :
    (transcript events).toList.splitOn '\n' = events.map document ++ [[]] := by
  induction events with
  | nil => rfl
  | cons event more ih =>
      rw [transcript, List.map_cons, String.join_cons, String.toList_append, splitOn_line,
        List.map_cons, List.cons_append, ← ih]
      rfl

/-- Events that fit are read back from their lines, one by one. -/
theorem mapM_ofLine?_document {events : List Event} (h : ∀ event ∈ events, event.Fits) :
    (events.map document).mapM ofLine? = some events := by
  induction events with
  | nil => rfl
  | cons event more ih =>
      rw [List.map_cons, List.mapM_cons, ofLine?_document (h event (List.mem_cons_self ..)),
        ih fun other hother => h other (List.mem_cons_of_mem _ hother)]
      rfl

/-- Whatever stands in their strings, the events of a transcript are told by its text: cut at
    line feeds it has one line for each of them and nothing behind the last, each line is an
    object that stands for its event, and no other events have this text. -/
theorem transcript_framed {events : List Event} (h : ∀ event ∈ events, event.Fits) :
    (∃ lines : List (List Char),
      (transcript events).toList.splitOn '\n' = lines ++ [[]] ∧
      List.Forall₂ (fun event line => ∃ members, Json.read? line = some (.object members) ∧
        ofJson? (.object members) = some event) events lines) ∧
    ∀ others : List Event, (∀ event ∈ others, event.Fits) →
      transcript others = transcript events → others = events := by
  refine ⟨⟨events.map document, splitOn_transcript events, ?_⟩, fun others hothers heq => ?_⟩
  · rw [List.forall₂_map_right_iff, List.forall₂_same]
    intro event hevent
    rcases event.exists_toJson_eq_object with ⟨members, hmembers⟩
    refine ⟨members, ?_, ?_⟩
    · rw [read?_document, hmembers]
    · rw [← hmembers, ofJson?_toJson (h event hevent)]
  · -- The same text has the same lines, and these are read as the events.
    have hlines : others.map document = events.map document := by
      have hsplit := congrArg (fun text => text.toList.splitOn '\n') heq
      simp only [splitOn_transcript] at hsplit
      exact List.append_cancel_right hsplit
    have hread := mapM_ofLine?_document hothers
    rw [hlines, mapM_ofLine?_document h, Option.some.injEq] at hread
    exact hread.symm

section OddEvents

/-- Events with strings that could be taken for something else: for the end of a line, for
    another event, or for an identifier that is missing. -/
def oddEvents : List Event :=
  [.levelStarted "a\n\x7b\"event\":\"error\"\x7d\r\n", .warning none "null",
    .warning (some "null") "\x01\\\"\t", .levelCompleted "" (.failed "success\n") 0,
    .levelCompleted "\n" .success (nat64Bound - 1), .error (some "") "\n"]

theorem oddEvents_framed :
    (∀ event ∈ oddEvents, event.Fits) ∧
      (∃ lines : List (List Char),
        (transcript oddEvents).toList.splitOn '\n' = lines ++ [[]] ∧
        List.Forall₂ (fun event line => ∃ members, Json.read? line = some (.object members) ∧
          ofJson? (.object members) = some event) oddEvents lines) ∧
      ∀ others : List Event, (∀ event ∈ others, event.Fits) →
        transcript others = transcript oddEvents → others = oddEvents := by
  have hfits : ∀ event ∈ oddEvents, event.Fits := by
    unfold Fits
    decide
  exact ⟨hfits, transcript_framed hfits⟩

end OddEvents

end Event

end PuzzleLevel
