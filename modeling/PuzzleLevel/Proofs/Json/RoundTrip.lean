import Mathlib.Data.List.TakeWhile
import PuzzleLevel.Proofs.Json.Strings

/-!
# Documents Read Back

What is written in either layout reads back as it was. The claim that goes through
by induction is about a document in the middle of a text: blanks may stand before
it, anything may follow it that no number goes on with, and reading it takes just
it and hands on the rest. `Reads` is that claim for one document. The items of a
list and the members of an object inherit it, because what follows an item is a
blank, a comma or a bracket, and none of these stands in a number.

The one condition on a document is that its numbers are numbers. A string may hold
anything at all.

## Main definitions

* `Json.Writable`: The numbers of a document are numbers.
* `Json.Layout.IsBlank`: A layout puts nothing but blanks between the parts.
* `Json.Reads`: A document reads back wherever it stands.
* `Json.words`: The values that are single words.

## Theorems

* `readItems_charsItems`, `readMembers_charsMembers`: What is inside a list or an
  object reads back.
* `reads_word`, `reads_number`, `reads_string`, `reads_array`, `reads_object`: Each
  kind of document reads back if its parts do.
* `Writable.reads`: A document reads back wherever it stands.
* `read?_indented`, `read?_compact`: A document reads back.
-/

namespace PuzzleLevel

namespace Json

/-- The numbers of a document are numbers. -/
inductive Writable : Json → Prop
  | null : Writable .null
  | bool (value : Bool) : Writable (.bool value)
  | number {literal : List Char} : isNumber literal = true →
      (∀ c ∈ literal, isNumberChar c = true) → Writable (.number literal)
  | string (s : Option String) : Writable (.string s)
  | array {items : List Json} : (∀ item ∈ items, Writable item) → Writable (.array items)
  | object {members : List (Option String × Json)} :
      (∀ member ∈ members, Writable member.2) → Writable (.object members)

/-- A layout puts nothing but blanks between the parts of a document. -/
structure Layout.IsBlank (layout : Layout) : Prop where
  /-- What stands in front of an item. -/
  lineBreak : ∀ depth, ∀ c ∈ layout.lineBreak depth, isSpace c = true
  /-- What stands after a colon. -/
  afterColon : ∀ c ∈ layout.afterColon, isSpace c = true

/-- A text that no number goes on with. -/
def EndsNumber (rest : List Char) : Prop :=
  ∀ c, rest.head? = some c → isNumberChar c = false

/-- A document reads back wherever it stands. -/
def Reads (layout : Layout) (j : Json) : Prop :=
  ∀ depth blanks rest, (∀ c ∈ blanks, isSpace c = true) → EndsNumber rest →
    ∃ h, readValue (blanks ++ (chars layout depth j ++ rest)) = some (j, ⟨rest, h⟩)

theorem isBlank_indented : Layout.indented.IsBlank := by
  refine ⟨fun depth c hc => ?_, fun c hc => ?_⟩
  · rcases List.mem_cons.mp hc with rfl | hc
    · decide
    · rw [List.eq_of_mem_replicate hc]
      decide
  · rw [List.mem_singleton.mp hc]
    decide

theorem isBlank_compact : Layout.compact.IsBlank :=
  ⟨fun _ _ hc => absurd hc List.not_mem_nil, fun _ hc => absurd hc List.not_mem_nil⟩

theorem next?_blanks {blanks : List Char} (hblanks : ∀ c ∈ blanks, isSpace c = true) {c : Char}
    (hc : isSpace c = false) (rest : List Char) :
    ∃ h, next? (blanks ++ c :: rest) = some (c, ⟨rest, h⟩) :=
  Text.next?_spaces rest hblanks hc

theorem endsNumber_cons {c : Char} (h : isNumberChar c = false) (rest : List Char) :
    EndsNumber (c :: rest) := by
  intro d hd
  rw [List.head?_cons, Option.some.injEq] at hd
  rwa [← hd]

theorem isNumberChar_of_isSpace {c : Char} (h : isSpace c = true) : isNumberChar c = false := by
  simp only [isSpace, Bool.or_eq_true, decide_eq_true_eq] at h
  rcases h with ((rfl | rfl) | rfl) | rfl
  all_goals decide

theorem endsNumber_blanks {blanks rest : List Char} (hblanks : ∀ c ∈ blanks, isSpace c = true)
    (hrest : EndsNumber rest) : EndsNumber (blanks ++ rest) := by
  cases blanks with
  | nil => exact hrest
  | cons c more =>
      exact endsNumber_cons (isNumberChar_of_isSpace (hblanks c (List.mem_cons_self ..))) _

theorem readWord_append {s : List Char} (value : Json) (word rest : List Char)
    (h : (word ++ rest).length < s.length) :
    ∃ h', readWord value word (word ++ rest) h = some (value, ⟨rest, h'⟩) := by
  induction word with
  | nil => exact ⟨h, rfl⟩
  | cons c word ih =>
      simp only [List.cons_append, readWord, if_true]
      exact ih _

theorem readNumber_append {first : Char} {more rest : List Char}
    (hnumber : isNumber (first :: more) = true) (hmore : ∀ c ∈ more, isNumberChar c = true)
    (hrest : EndsNumber rest) :
    ∃ h, readNumber first (more ++ rest) = some (.number (first :: more), ⟨rest, h⟩) := by
  have htake : (more ++ rest).takeWhile isNumberChar = more := by
    rw [List.takeWhile_append_of_pos hmore]
    cases rest with
    | nil => rw [List.takeWhile_nil, List.append_nil]
    | cons c rest =>
        rw [List.takeWhile_cons_of_neg (by rw [hrest c rfl]; exact Bool.false_ne_true),
          List.append_nil]
  have hdrop : (more ++ rest).dropWhile isNumberChar = rest := by
    rw [List.dropWhile_append_of_pos hmore]
    cases rest with
    | nil => rfl
    | cons c rest =>
        rw [List.dropWhile_cons_of_neg (by rw [hrest c rfl]; exact Bool.false_ne_true)]
  refine ⟨by rw [List.length_append]; omega, ?_⟩
  simp only [readNumber, htake, hdrop, if_pos hnumber]

-- A number starts with a digit or a minus, and so with no other value.
theorem isNumber_cons {first : Char} {more : List Char} (h : isNumber (first :: more) = true) :
    (first.isDigit || first = '-') = true := by
  by_cases hminus : first = '-'
  · rw [hminus]
    rfl
  · have hwithout : withoutMinus (first :: more) = first :: more := by
      rw [withoutMinus]
      exact fun rest he => hminus (List.cons.inj he).1
    rw [isNumber, hwithout] at h
    by_cases hdigit : first.isDigit = true
    · rw [hdigit]
      rfl
    · rw [List.takeWhile_cons_of_neg hdigit] at h
      exact absurd h (by simp only [List.isEmpty_nil, Bool.not_true, Bool.false_and,
        Bool.false_eq_true, not_false_eq_true])

theorem readValue_number {s rest after : List Char} {value : Json} {c : Char}
    {h : rest.length < s.length} {h₁ : after.length ≤ rest.length}
    (hnext : next? s = some (c, ⟨rest, h⟩)) (hc : (c.isDigit || c = '-') = true)
    (hnumber : readNumber c rest = some (value, ⟨after, h₁⟩)) :
    readValue s = some (value, ⟨after, Nat.lt_of_le_of_lt h₁ h⟩) := by
  -- A number begins with none of the characters that the other values begin with.
  have hne : c ≠ 'n' ∧ c ≠ 't' ∧ c ≠ 'f' ∧ c ≠ '"' ∧ c ≠ '[' ∧ c ≠ '\x7b' := by
    refine ⟨?_, ?_, ?_, ?_, ?_, ?_⟩
    all_goals
      rintro rfl
      exact absurd hc (by decide)
  have hhead : ∀ {d : Char} {tail : Text.Rest s},
      some (c, (⟨rest, h⟩ : Text.Rest s)) = some (d, tail) → c = d :=
    fun he => (Prod.mk.inj (Option.some.inj he)).1
  rw [readValue, hnext]
  split
  · rename_i he
    exact absurd he (by simp only [reduceCtorEq, not_false_eq_true])
  · rename_i he
    exact absurd (hhead he) hne.1
  · rename_i he
    exact absurd (hhead he) hne.2.1
  · rename_i he
    exact absurd (hhead he) hne.2.2.1
  · rename_i he
    exact absurd (hhead he) hne.2.2.2.1
  · rename_i he
    exact absurd (hhead he) hne.2.2.2.2.1
  · rename_i he
    exact absurd (hhead he) hne.2.2.2.2.2
  · rename_i he
    cases he
    rw [if_pos hc]
    simp only [hnumber]

/-- A document does not start with a blank or a closing bracket. -/
theorem Writable.chars_head {j : Json} (hj : j.Writable) (layout : Layout) (depth : Nat) :
    ∃ c more, chars layout depth j = c :: more ∧ isSpace c = false ∧ c ≠ ']' := by
  cases hj with
  | null => exact ⟨'n', _, by rw [chars], by decide, by decide⟩
  | bool value =>
      cases value with
      | true => exact ⟨'t', _, by rw [chars], by decide, by decide⟩
      | false => exact ⟨'f', _, by rw [chars], by decide, by decide⟩
  | @number literal hnumber hchars =>
      cases literal with
      | nil => exact absurd hnumber (by decide)
      | cons first more =>
          refine ⟨first, more, by rw [chars], ?_, ?_⟩
          · -- A blank is no number character, and neither is the bracket.
            by_cases hspace : isSpace first = true
            · have hno := isNumberChar_of_isSpace hspace
              rw [hchars first (List.mem_cons_self ..)] at hno
              exact absurd hno (by decide)
            · exact Bool.eq_false_iff.mpr hspace
          · rintro rfl
            exact absurd (hchars ']' (List.mem_cons_self ..)) (by decide)
  | string s =>
      cases s with
      | none => exact ⟨'"', _, by rw [chars]; rfl, by decide, by decide⟩
      | some text => exact ⟨'"', _, by rw [chars]; rfl, by decide, by decide⟩
  | @array items hitems =>
      cases items with
      | nil => exact ⟨'[', _, by rw [chars], by decide, by decide⟩
      | cons item more => exact ⟨'[', _, by rw [chars]; rfl, by decide, by decide⟩
  | @object members hmembers =>
      cases members with
      | nil => exact ⟨'\x7b', _, by rw [chars], by decide, by decide⟩
      | cons member more => exact ⟨'\x7b', _, by rw [chars]; rfl, by decide, by decide⟩

section Containers

variable {layout : Layout}

theorem endsNumber_charsItems (hlayout : layout.IsBlank) (depth : Nat) (more : List Json)
    (rest : List Char) : EndsNumber (charsItems layout depth more ++ rest) := by
  cases more with
  | nil =>
      rw [charsItems, List.append_assoc]
      exact endsNumber_blanks (hlayout.lineBreak depth) (endsNumber_cons (by decide) _)
  | cons item more =>
      rw [charsItems]
      exact endsNumber_cons (by decide) _

theorem endsNumber_charsMembers (hlayout : layout.IsBlank) (depth : Nat)
    (more : List (Option String × Json)) (rest : List Char) :
    EndsNumber (charsMembers layout depth more ++ rest) := by
  cases more with
  | nil =>
      rw [charsMembers, List.append_assoc]
      exact endsNumber_blanks (hlayout.lineBreak depth) (endsNumber_cons (by decide) _)
  | cons member more =>
      rw [charsMembers]
      exact endsNumber_cons (by decide) _

theorem readItems_last {s rest after : List Char} {item : Json} {h : rest.length < s.length}
    {h₁ : after.length < rest.length} (hitem : readValue s = some (item, ⟨rest, h⟩))
    (hclose : next? rest = some (']', ⟨after, h₁⟩)) :
    ∃ h', readItems s = some ([item], ⟨after, h'⟩) := by
  refine ⟨Nat.lt_trans h₁ h, ?_⟩
  rw [readItems, hitem]
  simp only [hclose]

theorem readItems_more {s rest more after : List Char} {item : Json} {items : List Json}
    {h : rest.length < s.length} {h₁ : more.length < rest.length}
    {h₂ : after.length < more.length} (hitem : readValue s = some (item, ⟨rest, h⟩))
    (hcomma : next? rest = some (',', ⟨more, h₁⟩))
    (hmore : readItems more = some (items, ⟨after, h₂⟩)) :
    ∃ h', readItems s = some (item :: items, ⟨after, h'⟩) := by
  refine ⟨Nat.lt_trans h₂ (Nat.lt_trans h₁ h), ?_⟩
  rw [readItems, hitem]
  simp only [hcomma, hmore]

/-- The items of a list read back, up to its bracket. -/
theorem readItems_charsItems (hlayout : layout.IsBlank) (depth : Nat) {item : Json}
    {more : List Json} (hitems : ∀ i ∈ item :: more, Reads layout i) {blanks : List Char}
    (hblanks : ∀ c ∈ blanks, isSpace c = true) (rest : List Char) :
    ∃ h, readItems (blanks ++ (chars layout (depth + 1) item ++
      (charsItems layout depth more ++ rest))) = some (item :: more, ⟨rest, h⟩) := by
  induction more generalizing item blanks with
  | nil =>
      -- The last item is followed by the bracket that closes the list.
      have hclose := next?_blanks (hlayout.lineBreak depth)
        (show isSpace ']' = false by decide) rest
      rw [show layout.lineBreak depth ++ ']' :: rest = charsItems layout depth [] ++ rest by
        rw [charsItems, List.append_assoc]; rfl] at hclose
      rcases hclose with ⟨_, hclose⟩
      rcases hitems item (List.mem_cons_self ..) (depth + 1) blanks _ hblanks
        (endsNumber_charsItems hlayout depth [] rest) with ⟨_, hitem⟩
      exact readItems_last hitem hclose
  | cons next more ih =>
      -- Any other item is followed by a comma, and then by the rest of the list.
      have hcomma := next?_blanks (fun c hc => absurd hc List.not_mem_nil)
        (show isSpace ',' = false by decide) (layout.lineBreak (depth + 1) ++
          (chars layout (depth + 1) next ++ (charsItems layout depth more ++ rest)))
      rw [show [] ++ ',' :: (layout.lineBreak (depth + 1) ++
          (chars layout (depth + 1) next ++ (charsItems layout depth more ++ rest))) =
          charsItems layout depth (next :: more) ++ rest by
        rw [charsItems]; simp only [List.cons_append, List.append_assoc, List.nil_append]] at hcomma
      rcases hcomma with ⟨_, hcomma⟩
      rcases hitems item (List.mem_cons_self ..) (depth + 1) blanks _ hblanks
        (endsNumber_charsItems hlayout depth (next :: more) rest) with ⟨_, hitem⟩
      rcases ih (fun i hi => hitems i (List.mem_cons_of_mem _ hi)) (hlayout.lineBreak (depth + 1))
        with ⟨_, hmore⟩
      exact readItems_more hitem hcomma hmore

theorem readMembers_last {s start afterKey body rest after : List Char} {key : Option String}
    {value : Json} {h : start.length < s.length} {h₁ : afterKey.length < start.length}
    {h₂ : body.length < afterKey.length} {h₃ : rest.length < body.length}
    {h₄ : after.length < rest.length} (hquote : next? s = some ('"', ⟨start, h⟩))
    (hkey : readString start = some (key, ⟨afterKey, h₁⟩))
    (hcolon : next? afterKey = some (':', ⟨body, h₂⟩))
    (hvalue : readValue body = some (value, ⟨rest, h₃⟩))
    (hclose : next? rest = some ('\x7d', ⟨after, h₄⟩)) :
    ∃ h', readMembers s = some ([(key, value)], ⟨after, h'⟩) := by
  refine ⟨by omega, ?_⟩
  rw [readMembers, hquote]
  simp only [hkey, hcolon, hvalue, hclose]

theorem readMembers_more {s start afterKey body rest more after : List Char}
    {key : Option String} {value : Json} {members : List (Option String × Json)}
    {h : start.length < s.length} {h₁ : afterKey.length < start.length}
    {h₂ : body.length < afterKey.length} {h₃ : rest.length < body.length}
    {h₄ : more.length < rest.length} {h₅ : after.length < more.length}
    (hquote : next? s = some ('"', ⟨start, h⟩))
    (hkey : readString start = some (key, ⟨afterKey, h₁⟩))
    (hcolon : next? afterKey = some (':', ⟨body, h₂⟩))
    (hvalue : readValue body = some (value, ⟨rest, h₃⟩))
    (hcomma : next? rest = some (',', ⟨more, h₄⟩))
    (hmore : readMembers more = some (members, ⟨after, h₅⟩)) :
    ∃ h', readMembers s = some ((key, value) :: members, ⟨after, h'⟩) := by
  refine ⟨by omega, ?_⟩
  rw [readMembers, hquote]
  simp only [hkey, hcolon, hvalue, hcomma, hmore]

/-- A member as it is written, up to its value. -/
def memberText (layout : Layout) (depth : Nat) (member : Option String × Json)
    (rest : List Char) : List Char :=
  quoted member.1 ++ ':' :: (layout.afterColon ++ (chars layout (depth + 1) member.2 ++ rest))

/-- The members after the first one start with a comma and the next of them, -/
theorem charsMembers_cons (layout : Layout) (depth : Nat) (member : Option String × Json)
    (more : List (Option String × Json)) :
    charsMembers layout depth (member :: more) =
      ',' :: (layout.lineBreak (depth + 1) ++
        memberText layout depth member (charsMembers layout depth more)) := by
  rw [charsMembers, memberText]
  simp only [List.cons_append, List.append_assoc]

/-- and an object starts with its brace and the first. -/
theorem chars_object_cons (layout : Layout) (depth : Nat) (member : Option String × Json)
    (more : List (Option String × Json)) :
    chars layout depth (.object (member :: more)) =
      '\x7b' :: (layout.lineBreak (depth + 1) ++
        memberText layout depth member (charsMembers layout depth more)) := by
  rw [chars, memberText]
  simp only [List.cons_append, List.append_assoc]

theorem memberText_append (layout : Layout) (depth : Nat) (member : Option String × Json)
    (front back : List Char) :
    memberText layout depth member front ++ back =
      memberText layout depth member (front ++ back) := by
  unfold memberText
  simp only [List.cons_append, List.append_assoc]

/-- The key of a member reads back, and its value stands behind it. -/
theorem read_memberText (hlayout : layout.IsBlank) (depth : Nat) {member : Option String × Json}
    (hmember : Reads layout member.2) {blanks rest : List Char}
    (hblanks : ∀ c ∈ blanks, isSpace c = true) (hrest : EndsNumber rest) :
    ∃ start afterKey body h h₁ h₂ h₃,
      next? (blanks ++ memberText layout depth member rest) = some ('"', ⟨start, h⟩) ∧
      readString start = some (member.1, ⟨afterKey, h₁⟩) ∧
      next? afterKey = some (':', ⟨body, h₂⟩) ∧
      readValue body = some (member.2, ⟨rest, h₃⟩) := by
  rcases readString_quoted member.1
      (':' :: (layout.afterColon ++ (chars layout (depth + 1) member.2 ++ rest))) with
    ⟨start, h₁, hstart, hkey⟩
  have hquote := next?_blanks hblanks (show isSpace '"' = false by decide) start
  rw [← hstart] at hquote
  rcases hquote with ⟨h, hquote⟩
  rcases next?_blanks (fun c hc => absurd hc List.not_mem_nil)
    (show isSpace ':' = false by decide)
    (layout.afterColon ++ (chars layout (depth + 1) member.2 ++ rest)) with ⟨h₂, hcolon⟩
  rcases hmember (depth + 1) layout.afterColon rest hlayout.afterColon hrest with ⟨h₃, hvalue⟩
  exact ⟨start, _, _, h, h₁, h₂, h₃, hquote, hkey, hcolon, hvalue⟩

/-- The members of an object read back, up to its brace. -/
theorem readMembers_charsMembers (hlayout : layout.IsBlank) (depth : Nat)
    {member : Option String × Json} {more : List (Option String × Json)}
    (hmembers : ∀ m ∈ member :: more, Reads layout m.2) {blanks : List Char}
    (hblanks : ∀ c ∈ blanks, isSpace c = true) (rest : List Char) :
    ∃ h, readMembers (blanks ++ memberText layout depth member
      (charsMembers layout depth more ++ rest)) = some (member :: more, ⟨rest, h⟩) := by
  induction more generalizing member blanks with
  | nil =>
      -- The last member is followed by the brace that closes the object.
      have hclose := next?_blanks (hlayout.lineBreak depth)
        (show isSpace '\x7d' = false by decide) rest
      rw [show layout.lineBreak depth ++ '\x7d' :: rest = charsMembers layout depth [] ++ rest by
        rw [charsMembers, List.append_assoc]; rfl] at hclose
      rcases hclose with ⟨_, hclose⟩
      rcases read_memberText hlayout depth (hmembers member (List.mem_cons_self ..)) hblanks
        (endsNumber_charsMembers hlayout depth [] rest) with
        ⟨_, _, _, _, _, _, _, hquote, hkey, hcolon, hvalue⟩
      exact readMembers_last hquote hkey hcolon hvalue hclose
  | cons next more ih =>
      -- Any other member is followed by a comma, and then by the rest of the object.
      have hcomma := next?_blanks (fun c hc => absurd hc List.not_mem_nil)
        (show isSpace ',' = false by decide) (layout.lineBreak (depth + 1) ++
          memberText layout depth next (charsMembers layout depth more ++ rest))
      have hwritten : charsMembers layout depth (next :: more) ++ rest =
          ',' :: (layout.lineBreak (depth + 1) ++
            memberText layout depth next (charsMembers layout depth more ++ rest)) := by
        rw [charsMembers_cons, List.cons_append, List.append_assoc, memberText_append]
      rw [List.nil_append, ← hwritten] at hcomma
      rcases hcomma with ⟨_, hcomma⟩
      rcases read_memberText hlayout depth (hmembers member (List.mem_cons_self ..)) hblanks
        (endsNumber_charsMembers hlayout depth (next :: more) rest) with
        ⟨_, _, _, _, _, _, _, hquote, hkey, hcolon, hvalue⟩
      rcases ih (fun m hm => hmembers m (List.mem_cons_of_mem _ hm))
        (hlayout.lineBreak (depth + 1)) with ⟨_, hmore⟩
      exact readMembers_more hquote hkey hcolon hvalue hcomma hmore

end Containers

/-- The values that are single words, with their first character apart. -/
def words : List (Char × List Char × Json) :=
  [('n', ['u', 'l', 'l'], .null), ('t', ['r', 'u', 'e'], .bool true),
    ('f', ['a', 'l', 's', 'e'], .bool false)]

theorem readValue_word {s after rest word : List Char} {c : Char} {j : Json}
    {h : after.length < s.length} {h' : rest.length < s.length}
    (hmem : (c, word, j) ∈ words) (hnext : next? s = some (c, ⟨after, h⟩))
    (hword : readWord j word after h = some (j, ⟨rest, h'⟩)) :
    readValue s = some (j, ⟨rest, h'⟩) := by
  simp only [words, List.mem_cons, List.not_mem_nil, or_false, Prod.mk.injEq] at hmem
  rw [readValue, hnext]
  rcases hmem with ⟨rfl, rfl, rfl⟩ | ⟨rfl, rfl, rfl⟩ | ⟨rfl, rfl, rfl⟩
  all_goals exact hword

theorem readValue_items {s rest after tail : List Char} {items : List Json} {c : Char}
    {h : rest.length < s.length} {h₁ : tail.length < rest.length}
    {h₂ : after.length < rest.length} (hnext : next? s = some ('[', ⟨rest, h⟩))
    (hfirst : next? rest = some (c, ⟨tail, h₁⟩)) (hne : c ≠ ']')
    (hitems : readItems rest = some (items, ⟨after, h₂⟩)) :
    readValue s = some (.array items, ⟨after, Nat.lt_trans h₂ h⟩) := by
  rw [readValue, hnext]
  simp only [hfirst, hitems]
  split
  · rename_i he
    exact absurd (Prod.mk.inj (Option.some.inj he)).1 hne
  · rfl

theorem readValue_members {s rest after tail : List Char}
    {members : List (Option String × Json)} {h : rest.length < s.length}
    {h₁ : tail.length < rest.length} {h₂ : after.length < rest.length}
    (hnext : next? s = some ('\x7b', ⟨rest, h⟩)) (hfirst : next? rest = some ('"', ⟨tail, h₁⟩))
    (hmembers : readMembers rest = some (members, ⟨after, h₂⟩)) :
    readValue s = some (.object members, ⟨after, Nat.lt_trans h₂ h⟩) := by
  rw [readValue, hnext]
  simp only [hfirst, hmembers]
  rfl

theorem readValue_noItems {s rest after : List Char} {h : rest.length < s.length}
    {h₁ : after.length < rest.length} (hnext : next? s = some ('[', ⟨rest, h⟩))
    (hclose : next? rest = some (']', ⟨after, h₁⟩)) :
    readValue s = some (.array [], ⟨after, Nat.lt_trans h₁ h⟩) := by
  rw [readValue, hnext]
  simp only [hclose]

theorem readValue_noMembers {s rest after : List Char} {h : rest.length < s.length}
    {h₁ : after.length < rest.length} (hnext : next? s = some ('\x7b', ⟨rest, h⟩))
    (hclose : next? rest = some ('\x7d', ⟨after, h₁⟩)) :
    readValue s = some (.object [], ⟨after, Nat.lt_trans h₁ h⟩) := by
  rw [readValue, hnext]
  simp only [hclose]

section Values

variable {layout : Layout}

theorem reads_word {c : Char} {word : List Char} {j : Json} (hmem : (c, word, j) ∈ words) :
    Reads layout j := by
  have hchars : ∀ depth, chars layout depth j = c :: word ∧ isSpace c = false := by
    intro depth
    simp only [words, List.mem_cons, List.not_mem_nil, or_false, Prod.mk.injEq] at hmem
    rcases hmem with ⟨rfl, rfl, rfl⟩ | ⟨rfl, rfl, rfl⟩ | ⟨rfl, rfl, rfl⟩
    all_goals exact ⟨by rw [chars], by decide⟩
  intro depth blanks rest hblanks _
  rw [(hchars depth).1]
  rcases next?_blanks hblanks (hchars depth).2 (word ++ rest) with ⟨h, hnext⟩
  rcases readWord_append j word rest h with ⟨h', hword⟩
  exact ⟨h', readValue_word hmem hnext hword⟩

theorem reads_number {literal : List Char} (hnumber : isNumber literal = true)
    (hchars : ∀ c ∈ literal, isNumberChar c = true) : Reads layout (.number literal) := by
  intro depth blanks rest hblanks hrest
  rw [chars]
  cases literal with
  | nil => exact absurd hnumber (by decide)
  | cons first more =>
      have hspace : isSpace first = false := by
        rcases (Writable.number hnumber hchars).chars_head layout depth with
          ⟨c, tail, htext, hc, _⟩
        rw [chars] at htext
        rwa [(List.cons.inj htext).1]
      rcases next?_blanks hblanks hspace (more ++ rest) with ⟨h, hnext⟩
      rcases readNumber_append hnumber (fun c hc => hchars c (List.mem_cons_of_mem _ hc)) hrest
        with ⟨h₁, hread⟩
      exact ⟨_, readValue_number hnext (isNumber_cons hnumber) hread⟩

theorem reads_string (s : Option String) : Reads layout (.string s) := by
  intro depth blanks rest hblanks _
  rw [chars]
  rcases readString_quoted s rest with ⟨body, h₁, hbody, hstring⟩
  rw [hbody]
  rcases next?_blanks hblanks (show isSpace '"' = false by decide) body with ⟨h, hnext⟩
  refine ⟨Nat.lt_trans h₁ h, ?_⟩
  rw [readValue, hnext]
  simp only [hstring]

theorem reads_array (hlayout : layout.IsBlank) {items : List Json}
    (hitems : ∀ item ∈ items, Writable item) (ih : ∀ item ∈ items, Reads layout item) :
    Reads layout (.array items) := by
  intro depth blanks rest hblanks _
  cases items with
  | nil =>
      rw [chars]
      rcases next?_blanks hblanks (show isSpace '[' = false by decide) (']' :: rest) with
        ⟨h, hnext⟩
      rcases next?_blanks (fun c hc => absurd hc List.not_mem_nil)
        (show isSpace ']' = false by decide) rest with ⟨h₁, hclose⟩
      exact ⟨_, readValue_noItems hnext hclose⟩
  | cons item more =>
      rw [chars, List.append_assoc]
      rcases readItems_charsItems hlayout depth ih (hlayout.lineBreak (depth + 1)) rest with
        ⟨h₂, hread⟩
      -- The list is not taken for an empty one, because no item starts with a bracket
      -- that closes.
      rcases (hitems item (List.mem_cons_self ..)).chars_head layout (depth + 1) with
        ⟨c, tail, htext, hc, hne⟩
      have hfirst := next?_blanks (hlayout.lineBreak (depth + 1)) hc
        (tail ++ (charsItems layout depth more ++ rest))
      rw [← List.cons_append, ← htext] at hfirst
      rcases hfirst with ⟨h₁, hfirst⟩
      rcases next?_blanks hblanks (show isSpace '[' = false by decide)
        (layout.lineBreak (depth + 1) ++ (chars layout (depth + 1) item ++
          (charsItems layout depth more ++ rest))) with ⟨h, hnext⟩
      rw [List.cons_append, List.cons_append, List.append_assoc]
      exact ⟨_, readValue_items hnext hfirst hne hread⟩

theorem reads_object (hlayout : layout.IsBlank) {members : List (Option String × Json)}
    (ih : ∀ member ∈ members, Reads layout member.2) : Reads layout (.object members) := by
  intro depth blanks rest hblanks _
  cases members with
  | nil =>
      rw [chars]
      rcases next?_blanks hblanks (show isSpace '\x7b' = false by decide) ('\x7d' :: rest) with
        ⟨h, hnext⟩
      rcases next?_blanks (fun c hc => absurd hc List.not_mem_nil)
        (show isSpace '\x7d' = false by decide) rest with ⟨h₁, hclose⟩
      exact ⟨_, readValue_noMembers hnext hclose⟩
  | cons member more =>
      rcases member with ⟨key, value⟩
      rcases readMembers_charsMembers hlayout depth ih (hlayout.lineBreak (depth + 1)) rest with
        ⟨h₂, hread⟩
      rcases read_memberText hlayout depth (ih (key, value) (List.mem_cons_self ..))
        (hlayout.lineBreak (depth + 1)) (endsNumber_charsMembers hlayout depth more rest) with
        ⟨_, _, _, _, _, _, _, hfirst, _⟩
      rcases next?_blanks hblanks (show isSpace '\x7b' = false by decide)
        (layout.lineBreak (depth + 1) ++ memberText layout depth (key, value)
          (charsMembers layout depth more ++ rest)) with ⟨h, hnext⟩
      rw [chars_object_cons, List.cons_append, List.append_assoc, memberText_append]
      exact ⟨_, readValue_members hnext hfirst hread⟩

end Values

/-- A document reads back wherever it stands. -/
theorem Writable.reads {layout : Layout} (hlayout : layout.IsBlank) {j : Json} (hj : j.Writable) :
    Reads layout j := by
  induction hj with
  | null => exact reads_word (List.mem_cons_self ..)
  | bool value =>
      cases value with
      | true => exact reads_word (List.mem_cons_of_mem _ (List.mem_cons_self ..))
      | false =>
          exact reads_word (List.mem_cons_of_mem _ (List.mem_cons_of_mem _ (List.mem_cons_self ..)))
  | number hnumber hchars => exact reads_number hnumber hchars
  | string s => exact reads_string s
  | array hitems ih => exact reads_array hlayout hitems ih
  | object _ ih => exact reads_object hlayout ih

theorem read?_of_readValue {s rest : List Char} {j : Json}
    (h : ∃ h', readValue s = some (j, ⟨rest, h'⟩)) (hrest : ∀ c ∈ rest, isSpace c = true) :
    read? s = some j := by
  rcases h with ⟨h', hread⟩
  have hskip : Text.skip isSpace rest = [] := List.dropWhile_eq_nil_iff.mpr hrest
  rw [read?, hread]
  simp only [hskip, List.isEmpty_nil, if_true]

/-- A document in the layout of artifacts reads back. -/
theorem read?_indented {j : Json} (hj : j.Writable) : read? j.indented.toList = some j := by
  have hread := hj.reads isBlank_indented 0 [] ['\n'] (fun c hc => absurd hc List.not_mem_nil)
    (endsNumber_cons (by decide) [])
  rw [indented, String.toList_ofList]
  refine read?_of_readValue hread fun c hc => ?_
  rw [List.mem_singleton.mp hc]
  rfl

/-- A document on one line reads back. -/
theorem read?_compact {j : Json} (hj : j.Writable) : read? j.compact.toList = some j := by
  have hread := hj.reads isBlank_compact 0 [] [] (fun c hc => absurd hc List.not_mem_nil)
    (fun c hc => absurd hc (by simp only [List.head?_nil, reduceCtorEq, not_false_eq_true]))
  rw [List.append_nil] at hread
  rw [compact, String.toList_ofList]
  exact read?_of_readValue hread fun c hc => absurd hc List.not_mem_nil

end Json

end PuzzleLevel
