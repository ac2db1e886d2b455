import Mathlib.Data.List.Basic
import Mathlib.Data.List.TakeWhile
import PuzzleLevel.Store.Access

/-!
# Paths of Files in a Directory

What the text of a path says about the directory in front of its last name. A
release never walks a directory; it puts names behind one path, takes the last
name off again and puts another one there. Each of these steps leaves the names
in front alone, but not their text: what names nothing at the end of the
directory is dropped when the last name is taken off. `bare` is the directory
after that, and it is what every staging name is put behind.

`names` are the segments that a path is followed through, and everything here is
said about them, because they decide where a path leads and its text does not.

## Main definitions

* `Path.IsName`: A text that can be the name of an entry.
* `Path.names`: The segments of a path that are not empty.
* `Path.bare`: A path without what names nothing at its end.

## Theorems

* `names_child`: A name put behind a path is one more name.
* `parent?_child`, `fileName?_child`, `withFileName_child`: What is put behind a
  path can be taken off and replaced.
* `names_bare`: The dropped end of a path names nothing.
* `names_of_mem_ancestors`: The names of an ancestor stand at the front.
-/

namespace PuzzleLevel

namespace Path

/-- A text that can be the name of an entry. -/
structure IsName (name : List Char) : Prop where
  /-- It is one segment. -/
  noSlash : '/' ∉ name
  /-- It names something. -/
  notSilent : isSilent name = false
  /-- It does not go up. -/
  notUp : name ≠ ['.', '.']

/-- The segments of a path that are not empty. -/
def names (p : Path) : List (List Char) :=
  (segments p.chars).filter (· ≠ [])

/-- What stands behind the front of a path. -/
def rest (p : Path) : List Char :=
  p.chars.drop (frontLength p.chars)

/-- A path without what names nothing at its end. -/
def bare (p : Path) : Path :=
  ⟨p.front ++ joinSegments p.reversedNames.reverse⟩

theorem segments_ne_nil (cs : List Char) : segments cs ≠ [] := by
  cases cs with
  | nil => exact List.cons_ne_nil _ _
  | cons c rest =>
      rw [segments]
      by_cases hc : c = '/'
      · rw [if_pos hc]
        exact List.cons_ne_nil _ _
      · rw [if_neg hc]
        cases segments rest <;> exact List.cons_ne_nil _ _

/-- A slash separates what stands before it from what stands behind it. -/
theorem segments_append_slash (a b : List Char) :
    segments (a ++ '/' :: b) = segments a ++ segments b := by
  induction a with
  | nil => simp only [List.nil_append, segments, if_true, List.cons_append]
  | cons c a ih =>
      rw [List.cons_append, segments, segments, ih]
      by_cases hc : c = '/'
      · rw [if_pos hc, if_pos hc, List.cons_append]
      · rw [if_neg hc, if_neg hc]
        cases hs : segments a with
        | nil => exact absurd hs (segments_ne_nil a)
        | cons first more => rfl

theorem segments_of_noSlash {s : List Char} (h : '/' ∉ s) : segments s = [s] := by
  induction s with
  | nil => rfl
  | cons c s ih =>
      rw [List.mem_cons, not_or] at h
      rw [segments, if_neg (Ne.symm h.1), ih h.2]

/-- The characters in the segments of a text are its characters but the slashes. -/
theorem exists_mem_segments {c : Char} {cs : List Char} :
    (∃ s ∈ segments cs, c ∈ s) ↔ c ∈ cs ∧ c ≠ '/' := by
  induction cs with
  | nil =>
      simp only [segments, List.mem_singleton, exists_eq_left, List.not_mem_nil, false_and]
  | cons d cs ih =>
      rw [segments]
      by_cases hd : d = '/'
      · -- A slash starts another segment, so the first is empty.
        rw [if_pos hd, List.exists_mem_cons_iff, ih, List.mem_cons]
        refine ⟨fun h => ?_, fun h => ?_⟩
        · rcases h with h | h
          · exact absurd h List.not_mem_nil
          · exact ⟨Or.inr h.1, h.2⟩
        · rcases h.1 with rfl | hc
          · exact absurd hd h.2
          · exact Or.inr ⟨hc, h.2⟩
      · rw [if_neg hd]
        -- Any other character belongs to the first segment.
        cases hsegments : segments cs with
        | nil => exact absurd hsegments (segments_ne_nil cs)
        | cons first more =>
            rw [hsegments, List.exists_mem_cons_iff] at ih
            rw [List.exists_mem_cons_iff, List.mem_cons, List.mem_cons, or_assoc, ih]
            refine ⟨fun h => ?_, fun h => ?_⟩
            · rcases h with rfl | h
              · exact ⟨Or.inl rfl, hd⟩
              · exact ⟨Or.inr h.1, h.2⟩
            · rcases h.1 with rfl | hc
              · exact Or.inl rfl
              · exact Or.inr ⟨hc, h.2⟩

/-- The text is its segments, with slashes set before all but the first. -/
theorem eq_of_segments {cs s : List Char} {more : List (List Char)} (h : segments cs = s :: more) :
    cs = s ++ more.flatMap ('/' :: ·) := by
  induction cs generalizing s more with
  | nil =>
      rw [segments, List.cons.injEq] at h
      rw [← h.1, ← h.2]
      rfl
  | cons c cs ih =>
      rw [segments] at h
      by_cases hslash : c = '/'
      · rw [if_pos hslash, List.cons.injEq] at h
        rcases hsegments : segments cs with _ | ⟨first, rest⟩
        · exact absurd hsegments (segments_ne_nil cs)
        · rw [← h.1, ← h.2, hsegments, List.flatMap_cons, ih hsegments, hslash]
          rfl
      · rw [if_neg hslash] at h
        rcases hsegments : segments cs with _ | ⟨first, rest⟩
        · exact absurd hsegments (segments_ne_nil cs)
        · rw [hsegments] at h
          simp only [List.cons.injEq] at h
          rw [← h.1, ← h.2, ih hsegments]
          rfl

theorem noSlash_of_mem_segments {s cs : List Char} (h : s ∈ segments cs) : '/' ∉ s :=
  fun hc => (exists_mem_segments.mp ⟨s, h, hc⟩).2 rfl

/-- What is put behind a text goes to its last segment if no slash is in it. -/
theorem segments_append_noSlash (a : List Char) {b : List Char} (h : '/' ∉ b) :
    ∃ front last, segments (a ++ b) = front ++ [last ++ b] := by
  induction a with
  | nil => exact ⟨[], [], by rw [List.nil_append, segments_of_noSlash h]; rfl⟩
  | cons c a ih =>
      rcases ih with ⟨front, last, hsegments⟩
      rw [List.cons_append, segments, hsegments]
      by_cases hc : c = '/'
      · rw [if_pos hc]
        exact ⟨[] :: front, last, rfl⟩
      · rw [if_neg hc]
        cases front with
        | nil => exact ⟨[], c :: last, rfl⟩
        | cons first more => exact ⟨(c :: first) :: more, last, rfl⟩

theorem joinSegments_cons_cons (s t : List Char) (more : List (List Char)) :
    joinSegments (s :: t :: more) = s ++ '/' :: joinSegments (t :: more) := by
  simp only [joinSegments, List.intercalate, List.intersperse_cons_cons, List.flatten_cons,
    List.cons_append, List.nil_append]

theorem joinSegments_singleton (s : List Char) : joinSegments [s] = s := by
  simp only [joinSegments, List.intercalate, List.intersperse, List.flatten_cons,
    List.flatten_nil, List.append_nil]

/-- Pieces without slashes are the segments of the text they are joined to. -/
theorem segments_joinSegments (pieces : List (List Char)) (hne : pieces ≠ [])
    (h : ∀ s ∈ pieces, '/' ∉ s) : segments (joinSegments pieces) = pieces := by
  induction pieces with
  | nil => exact absurd rfl hne
  | cons s more ih =>
      cases more with
      | nil => rw [joinSegments_singleton, segments_of_noSlash (h s (List.mem_cons_self ..))]
      | cons t more =>
          rw [joinSegments_cons_cons, segments_append_slash,
            segments_of_noSlash (h s (List.mem_cons_self ..)),
            ih (List.cons_ne_nil _ _) fun u hu => h u (List.mem_cons_of_mem _ hu)]
          rfl

/-- Joining the first of the segments of a text gives the start of the text. -/
theorem joinSegments_isPrefix {pieces : List (List Char)} {cs : List Char}
    (h : pieces <+: segments cs) : joinSegments pieces <+: cs := by
  induction cs generalizing pieces with
  | nil =>
      rcases pieces with _ | ⟨s, more⟩
      · exact List.nil_prefix
      · rcases h with ⟨t, ht⟩
        simp only [segments, List.cons_append, List.cons.injEq, List.append_eq_nil_iff] at ht
        have hnil : joinSegments (s :: more) = [] := by
          rw [ht.1, ht.2.1, joinSegments_singleton]
        exact hnil ▸ List.nil_prefix
  | cons c cs ih =>
      rw [segments] at h
      by_cases hc : c = '/'
      · rw [if_pos hc] at h
        -- One piece is empty before the slash; more of them go on behind it.
        rcases pieces with _ | ⟨s, _ | ⟨t, more⟩⟩
        · exact List.nil_prefix
        · rw [(List.cons_prefix_cons.mp h).1, joinSegments_singleton]
          exact List.nil_prefix
        · rw [List.cons_prefix_cons] at h
          rw [joinSegments_cons_cons, h.1, hc, List.nil_append, List.cons_prefix_cons]
          exact ⟨rfl, ih h.2⟩
      · rw [if_neg hc] at h
        cases hs : segments cs with
        | nil => exact absurd hs (segments_ne_nil cs)
        | cons first behind =>
            rw [hs] at h
            rcases pieces with _ | ⟨s, more⟩
            · exact List.nil_prefix
            · rw [List.cons_prefix_cons] at h
              -- The character belongs to the first piece, which is there if there are any.
              have hmore : joinSegments (first :: more) <+: cs :=
                ih (hs ▸ List.cons_prefix_cons.mpr ⟨rfl, h.2⟩)
              have hcons : joinSegments ((c :: first) :: more)
                  = c :: joinSegments (first :: more) := by
                cases more with
                | nil => rw [joinSegments_singleton, joinSegments_singleton]
                | cons t more => rw [joinSegments_cons_cons, joinSegments_cons_cons]; rfl
              rw [h.1, hcons, List.cons_prefix_cons]
              exact ⟨rfl, hmore⟩

theorem front_append_rest (p : Path) : p.front ++ p.rest = p.chars :=
  List.take_append_drop ..

/-- The three fronts. Behind a dot stands nothing or a slash, and behind no front
    at all the text is neither absolute nor led by a dot of its own. -/
theorem front_cases (p : Path) :
    (p.front = ['/'] ∧ p.chars = '/' :: p.rest) ∨
      (p.front = ['.'] ∧ (p.rest = [] ∨ ∃ r, p.rest = '/' :: r)) ∨
        (p.front = [] ∧ p.rest = p.chars ∧ p.chars.head? ≠ some '/' ∧ p.chars ≠ ['.'] ∧
          ∀ r, p.chars ≠ '.' :: '/' :: r) := by
  rcases p with ⟨cs⟩
  unfold front rest
  simp only []
  unfold frontLength
  split
  · exact Or.inl ⟨rfl, rfl⟩
  · exact Or.inr (Or.inl ⟨rfl, Or.inl rfl⟩)
  · exact Or.inr (Or.inl ⟨rfl, Or.inr ⟨_, rfl⟩⟩)
  · rename_i hslash hdot hdots
    refine Or.inr (Or.inr ⟨rfl, rfl, ?_, hdot, hdots⟩)
    intro hhead
    cases cs with
    | nil => exact absurd hhead (by simp only [List.head?_nil, reduceCtorEq, not_false_eq_true])
    | cons c cs =>
        rw [List.head?_cons, Option.some.injEq] at hhead
        exact hslash cs (hhead ▸ rfl)

/-- What a slash is put behind keeps its front, and the front does not depend on
    what follows the slash. -/
theorem frontLength_append_slash (cs more : List Char) (h : cs ≠ []) :
    frontLength (cs ++ '/' :: more) = frontLength cs := by
  rcases cs with _ | ⟨c, _ | ⟨d, cs⟩⟩
  · exact absurd rfl h
  · by_cases hslash : c = '/'
    · rw [hslash]; rfl
    · by_cases hdot : c = '.'
      · rw [hdot]; rfl
      · simp only [List.cons_append, List.nil_append, frontLength]
        split <;> simp_all
  · simp only [List.cons_append, frontLength]
    split <;> split <;> simp_all

theorem frontLength_le (cs : List Char) : frontLength cs ≤ cs.length := by
  unfold frontLength
  split
  · exact Nat.succ_le_succ (Nat.zero_le _)
  · exact Nat.le_refl 1
  · exact Nat.succ_le_succ (Nat.zero_le _)
  · exact Nat.zero_le _

/-- A name has no front of its own. -/
theorem frontLength_name {name : List Char} (h : IsName name) : frontLength name = 0 := by
  unfold frontLength
  split
  · exact absurd (List.mem_cons_self ..) h.noSlash
  · exact absurd h.notSilent (by decide)
  · exact absurd (List.mem_cons_of_mem _ (List.mem_cons_self ..)) h.noSlash
  · rfl

/-- The three ways in which a name is put behind a path. -/
theorem child_cases (p : Path) (name : String) (h : IsName name.toList) :
    (p.chars = [] ∧ (p.child name).chars = name.toList) ∨
      (∃ b, p.chars = b ++ ['/'] ∧ (p.child name).chars = b ++ '/' :: name.toList) ∨
        (p.chars ≠ [] ∧ (p.child name).chars = p.chars ++ '/' :: name.toList) := by
  have habs : (ofString name).isAbsolute = false := by
    rw [isAbsolute, decide_eq_false_iff_not]
    intro hhead
    exact h.noSlash (List.mem_of_mem_head? (Option.mem_def.mpr hhead))
  have hjoin : p.child name =
      if p.chars.isEmpty || p.chars.getLast? = some '/' then ⟨p.chars ++ name.toList⟩
      else ⟨p.chars ++ '/' :: name.toList⟩ := by
    rw [child, join, habs, if_neg Bool.false_ne_true]
    rfl
  rw [hjoin]
  by_cases hnil : p.chars = []
  · refine Or.inl ⟨hnil, ?_⟩
    rw [hnil, if_pos (by rfl), List.nil_append]
  · by_cases hlast : p.chars.getLast? = some '/'
    · rcases List.getLast?_eq_some_iff.mp hlast with ⟨b, hb⟩
      refine Or.inr (Or.inl ⟨b, hb, ?_⟩)
      rw [if_pos (by simp only [hlast, decide_true, Bool.or_true]), hb, List.append_assoc]
      rfl
    · refine Or.inr (Or.inr ⟨hnil, ?_⟩)
      rw [if_neg (by simp only [List.isEmpty_iff, hnil, hlast, decide_false, Bool.or_false,
        not_false_eq_true])]

theorem child_append (p : Path) (a b : String) :
    ∃ front, (p.child (a ++ b)).chars = front ++ b.toList := by
  rw [child, join]
  simp only [ofString, String.toList_append]
  split
  · exact ⟨a.toList, rfl⟩
  · split
    · exact ⟨p.chars ++ a.toList, (List.append_assoc ..).symm⟩
    · exact ⟨p.chars ++ '/' :: a.toList, by
        rw [List.append_assoc, List.cons_append]⟩

/-- A name put behind a path is one more segment, and the segments before it are
    those of the path but for an empty one at their end. -/
theorem child_parts (p : Path) (name : String) (h : IsName name.toList) :
    (p.child name).front = p.front ∧
      ∃ before, segments (p.child name).rest = before ++ [name.toList] ∧
        before.reverse.dropWhile isSilent = p.reversedNames ∧
        before.filter (· ≠ []) = (segments p.rest).filter (· ≠ []) := by
  rcases child_cases p name h with ⟨hp, hc⟩ | ⟨b, hp, hc⟩ | ⟨hp, hc⟩
  · -- Nothing stands before the name.
    have hrest : p.rest = [] := by rw [rest, hp]; rfl
    refine ⟨?_, [], ?_, ?_, ?_⟩
    · rw [front, front, hc, hp, frontLength_name h]; rfl
    · rw [rest, hc, frontLength_name h, List.drop_zero, segments_of_noSlash h.noSlash]; rfl
    · rw [reversedNames, hp]; rfl
    · rw [hrest]; rfl
  · by_cases hb : b = []
    · -- The root itself, which is all front.
      rw [hb, List.nil_append] at hp hc
      refine ⟨?_, [], ?_, ?_, ?_⟩
      · rw [front, front, hc, hp]; rfl
      · rw [rest, hc]
        exact segments_of_noSlash h.noSlash
      · rw [reversedNames, hp]; rfl
      · rw [rest, hp]; rfl
    · have hk := frontLength_le b
      have hrest : p.rest = b.drop (frontLength b) ++ ['/'] := by
        rw [rest, hp, frontLength_append_slash b [] hb, List.drop_append_of_le_length hk]
      refine ⟨?_, segments (b.drop (frontLength b)), ?_, ?_, ?_⟩
      · rw [front, front, hc, hp, frontLength_append_slash b _ hb,
          frontLength_append_slash b [] hb, List.take_append_of_le_length hk,
          List.take_append_of_le_length hk]
      · rw [rest, hc, frontLength_append_slash b _ hb, List.drop_append_of_le_length hk,
          segments_append_slash, segments_of_noSlash h.noSlash]
      · rw [reversedNames, ← rest.eq_1 p, hrest, segments_append_slash]
        simp only [segments, List.reverse_append, List.reverse_cons, List.reverse_nil,
          List.nil_append, List.cons_append]
        rw [List.dropWhile_cons_of_pos (by decide)]
      · rw [hrest, segments_append_slash]
        simp only [segments, List.filter_append, ne_eq, not_true_eq_false, decide_false,
          List.filter_cons, Bool.false_eq_true, if_false, List.filter_nil, List.append_nil]
  · have hk := frontLength_le p.chars
    -- The name is set off by a new slash.
    refine ⟨?_, segments p.rest, ?_, rfl, rfl⟩
    · rw [front, front, hc, frontLength_append_slash _ _ hp, List.take_append_of_le_length hk]
    · rw [rest, hc, frontLength_append_slash _ _ hp, List.drop_append_of_le_length hk,
        segments_append_slash, segments_of_noSlash h.noSlash, rest]

theorem reversedNames_child (p : Path) (name : String) (h : IsName name.toList) :
    ∃ before, (p.child name).reversedNames = name.toList :: before ∧
      before.dropWhile isSilent = p.reversedNames := by
  rcases (child_parts p name h).2 with ⟨before, hseg, hbefore, _⟩
  refine ⟨before.reverse, ?_, hbefore⟩
  rw [reversedNames, ← rest.eq_1, hseg, List.reverse_append, List.reverse_singleton,
    List.singleton_append, List.dropWhile_cons_of_neg (by rw [h.notSilent]; decide)]

/-- The directory of a name put behind a path is the bare path. -/
theorem parent?_child (p : Path) (name : String) (h : IsName name.toList) :
    (p.child name).parent? = some p.bare := by
  rcases reversedNames_child p name h with ⟨before, hnames, hbefore⟩
  simp only [parent?, hnames, hbefore, (child_parts p name h).1, bare]

theorem lastName?_child (p : Path) (name : String) (h : IsName name.toList) :
    (p.child name).lastName? = some name.toList := by
  rcases reversedNames_child p name h with ⟨before, hnames, _⟩
  simp only [lastName?, hnames, if_neg h.notUp]

theorem fileName?_child (p : Path) (name : String) (h : IsName name.toList) :
    (p.child name).fileName? = some name := by
  rw [fileName?, lastName?_child p name h, Option.map_some, String.ofList_toList]

/-- Replacing the name behind a path puts the new one behind the bare path. -/
theorem withFileName_child (p : Path) (name other : String) (h : IsName name.toList) :
    (p.child name).withFileName other = p.bare.child other := by
  simp only [withFileName, lastName?_child p name h, parent?_child p name h, Option.getD_some]

/-- The names of a path are its dot, if it is led by one, and the segments behind
    its front that are not empty. -/
theorem names_eq (p : Path) :
    p.names = (if p.front = ['.'] then [['.']] else []) ++
      (segments p.rest).filter (· ≠ []) := by
  rw [names, ← front_append_rest p]
  rcases front_cases p with ⟨hf, _⟩ | ⟨hf, hr | ⟨r, hr⟩⟩ | ⟨hf, _⟩
  · rw [hf, if_neg (by decide), List.nil_append]
    exact List.filter_cons_of_neg (by decide)
  · rw [hf, hr]; rfl
  · rw [hf, hr, if_pos rfl, segments_append_slash, List.filter_append]
    congr 1
  · rw [hf, if_neg (by decide)]; rfl

/-- A name put behind a path is one more name to follow. -/
theorem names_child (p : Path) (name : String) (h : IsName name.toList) :
    (p.child name).names = p.names ++ [name.toList] := by
  rcases child_parts p name h with ⟨hfront, before, hseg, _, hbefore⟩
  have hne : name.toList ≠ [] := fun he => absurd h.notSilent (by rw [he]; decide)
  rw [names_eq, names_eq p, hfront, hseg, List.filter_append, hbefore, List.append_assoc]
  simp only [ne_eq, hne, not_false_eq_true, decide_true, List.filter_cons, if_true,
    List.filter_nil]

theorem isAbsolute_child (p : Path) (name : String) (h : IsName name.toList) :
    (p.child name).isAbsolute = p.isAbsolute := by
  have hname : name.toList.head? ≠ some '/' := fun hc => h.noSlash (List.mem_of_mem_head? hc)
  rcases child_cases p name h with ⟨hp, hc⟩ | ⟨b, hp, hc⟩ | ⟨hp, hc⟩
  · rw [isAbsolute, isAbsolute, hc, hp, decide_eq_false hname]; rfl
  · rw [isAbsolute, isAbsolute, hc, hp]
    cases b <;> rfl
  · rcases p with ⟨_ | ⟨c, cs⟩⟩
    · exact absurd rfl hp
    · rw [isAbsolute, isAbsolute, hc]; rfl

/-- The path that ends with the first of the segments behind the front. -/
def cut (p : Path) (pieces : List (List Char)) : Path :=
  ⟨p.front ++ joinSegments pieces⟩

/-- The segments of joined pieces are the pieces, except that there is always at
    least one. -/
theorem filter_segments_joinSegments (pieces : List (List Char)) (h : ∀ s ∈ pieces, '/' ∉ s) :
    (segments (joinSegments pieces)).filter (· ≠ []) = pieces.filter (· ≠ []) := by
  cases pieces with
  | nil => rfl
  | cons s more => rw [segments_joinSegments _ (List.cons_ne_nil _ _) h]

theorem names_cut (p : Path) {pieces : List (List Char)} (h : pieces <+: segments p.rest) :
    (p.cut pieces).names = (if p.front = ['.'] then [['.']] else []) ++
      pieces.filter (· ≠ []) := by
  have hslash : ∀ s ∈ pieces, '/' ∉ s := fun s hs => noSlash_of_mem_segments (h.subset hs)
  rw [names, cut]
  rcases front_cases p with ⟨hf, _⟩ | ⟨hf, hr⟩ | ⟨hf, _⟩
  · rw [hf, if_neg (by decide), List.nil_append, ← filter_segments_joinSegments pieces hslash]
    exact List.filter_cons_of_neg (by decide)
  · rw [hf, if_pos rfl]
    -- Behind a dot the first piece is the empty one in front of the slash.
    have hfirst : pieces = [] ∨ ∃ more, pieces = [] :: more := by
      rcases pieces with _ | ⟨s, more⟩
      · exact Or.inl rfl
      · refine Or.inr ⟨more, ?_⟩
        rcases hr with hr | ⟨r, hr⟩
        · rw [hr] at h
          rw [(List.cons_prefix_cons.mp h).1]
        · rw [hr] at h
          rw [(List.cons_prefix_cons.mp h).1]
    rcases hfirst with rfl | ⟨more, rfl⟩
    · rfl
    · cases more with
      | nil => rfl
      | cons t more =>
          rw [joinSegments_cons_cons, List.nil_append, segments_append_slash,
            segments_joinSegments _ (List.cons_ne_nil _ _)
              fun u hu => hslash u (List.mem_cons_of_mem _ hu), List.filter_append]
          rfl
  · rw [hf, if_neg (by decide), List.nil_append, List.nil_append,
      filter_segments_joinSegments pieces hslash]

theorem isAbsolute_cut (p : Path) {pieces : List (List Char)} (h : pieces <+: segments p.rest) :
    (p.cut pieces).isAbsolute = p.isAbsolute := by
  rw [isAbsolute, isAbsolute, cut]
  rcases front_cases p with ⟨hf, hc⟩ | ⟨hf, _⟩ | ⟨hf, hr, hhead, _⟩
  · rw [hf, hc]; rfl
  · rw [← front_append_rest p, hf]; rfl
  · rw [hf, List.nil_append, decide_eq_false hhead, decide_eq_false_iff_not]
    have hpre : joinSegments pieces <+: p.chars := hr ▸ joinSegments_isPrefix h
    intro hc
    exact hhead (List.head?_eq_some_iff.mpr (by
      rcases List.head?_eq_some_iff.mp hc with ⟨tail, htail⟩
      rcases hpre with ⟨more, hmore⟩
      exact ⟨tail ++ more, by rw [← hmore]; exact congrArg (· ++ more) htail⟩))

theorem bare_eq_cut (p : Path) : p.bare = p.cut p.reversedNames.reverse := rfl

theorem reversedNames_isPrefix (p : Path) :
    p.reversedNames.reverse <+: segments p.rest := by
  rw [← List.reverse_reverse (segments p.rest), List.reverse_prefix]
  exact List.dropWhile_suffix _

theorem isAbsolute_bare (p : Path) : p.bare.isAbsolute = p.isAbsolute :=
  isAbsolute_cut p (reversedNames_isPrefix p)

/-- What ends the names of a path behind its front is not silent. -/
theorem head_reversedNames {p : Path} {name : List Char} {before : List (List Char)}
    (h : p.reversedNames = name :: before) : isSilent name = false := by
  have hhead := List.head?_dropWhile_not isSilent (segments p.rest).reverse
  rw [← show p.reversedNames = (segments p.rest).reverse.dropWhile isSilent from rfl, h,
    List.head?_cons] at hhead
  exact hhead

-- A dot alone would be a silent segment at the end of the names.
theorem joinSegments_reversedNames_ne_dot (p : Path) :
    joinSegments p.reversedNames.reverse ≠ ['.'] := by
  intro hj
  cases hnames : p.reversedNames with
  | nil =>
      rw [hnames] at hj
      exact absurd hj (by decide)
  | cons name before =>
      have hsilent := head_reversedNames hnames
      have hall : ∀ s ∈ p.reversedNames.reverse, '/' ∉ s := fun s hs =>
        noSlash_of_mem_segments ((reversedNames_isPrefix p).subset hs)
      have hseg := segments_joinSegments p.reversedNames.reverse
        (by rw [hnames]; exact List.reverse_ne_nil_iff.mpr (List.cons_ne_nil _ _)) hall
      rw [hj, hnames, List.reverse_cons] at hseg
      have hlast := congrArg List.getLast? hseg
      rw [List.getLast?_concat] at hlast
      rw [← Option.some.inj hlast] at hsilent
      exact absurd hsilent (by decide)

/-- The front of a path stays the front when its end is dropped. -/
theorem frontLength_bare (p : Path) : frontLength p.bare.chars = p.front.length := by
  have hpre := joinSegments_isPrefix (reversedNames_isPrefix p)
  rw [bare]
  rcases front_cases p with ⟨hf, _⟩ | ⟨hf, hr⟩ | ⟨hf, hr, hslash, _, hdots⟩
  · -- With a slash, the front is the slash.
    rw [hf]; rfl
  · rw [hf]
    -- With a dot, what follows the dot is a slash or nothing.
    cases hj : joinSegments p.reversedNames.reverse with
    | nil => rfl
    | cons c cs =>
        rw [hj] at hpre
        rcases hr with hr | ⟨r, hr⟩
        · rw [hr] at hpre
          exact absurd (List.prefix_nil.mp hpre) (List.cons_ne_nil _ _)
        · rw [hr] at hpre
          rw [(List.cons_prefix_cons.mp hpre).1]
          rfl
  · -- Without a front, what is left starts neither with a slash nor with a dot and one.
    rw [hf, List.nil_append]
    change frontLength (joinSegments p.reversedNames.reverse) = 0
    rw [hr] at hpre
    rcases hpre with ⟨more, hmore⟩
    unfold frontLength
    split
    · rename_i tail hj
      rw [hj] at hmore
      exact absurd (by rw [← hmore]; rfl) hslash
    · rename_i hj
      exact absurd hj (joinSegments_reversedNames_ne_dot p)
    · rename_i tail hj
      rw [hj] at hmore
      exact absurd hmore.symm (hdots (tail ++ more))
    · rfl

/-- What is bare stays as it is. -/
theorem bare_bare (p : Path) : p.bare.bare = p.bare := by
  have hlen := frontLength_bare p
  have hfront : p.bare.front = p.front := by
    rw [front, hlen, bare, List.take_left]
  have hrest : p.bare.rest = joinSegments p.reversedNames.reverse := by
    rw [rest, hlen, bare, List.drop_left]
  have hnames : p.bare.reversedNames = p.reversedNames := by
    rw [show p.bare.reversedNames = (segments p.bare.rest).reverse.dropWhile isSilent from rfl,
      hrest]
    cases h : p.reversedNames with
    | nil => rfl
    | cons name before =>
        have hall : ∀ s ∈ p.reversedNames.reverse, '/' ∉ s := fun s hs =>
          noSlash_of_mem_segments ((reversedNames_isPrefix p).subset hs)
        rw [h] at hall
        rw [segments_joinSegments _ (List.reverse_ne_nil_iff.mpr (List.cons_ne_nil _ _)) hall,
          List.reverse_reverse,
          List.dropWhile_cons_of_neg (by rw [head_reversedNames h]; decide)]
  rw [show p.bare.bare = ⟨p.bare.front ++ joinSegments p.bare.reversedNames.reverse⟩ from rfl,
    hfront, hnames]
  rfl

/-- The end of a path that its bare form drops consists of dots. -/
theorem names_bare (p : Path) :
    ∃ dots, p.names = p.bare.names ++ dots ∧ ∀ d ∈ dots, d = ['.'] := by
  refine ⟨((segments p.rest).reverse.takeWhile isSilent).reverse.filter (· ≠ []), ?_, ?_⟩
  · rw [bare_eq_cut, names_cut p (reversedNames_isPrefix p), names_eq p,
      List.append_assoc, ← List.filter_append, reversedNames, ← rest.eq_1 p,
      ← List.reverse_append, List.takeWhile_append_dropWhile, List.reverse_reverse]
  · intro d hd
    rw [List.mem_filter, List.mem_reverse] at hd
    have hsilent := List.mem_takeWhile_imp hd.1
    rw [isSilent, Bool.or_eq_true, decide_eq_true_eq, decide_eq_true_eq] at hsilent
    rcases hsilent with hnil | hdot
    · exact absurd hnil (of_decide_eq_true hd.2)
    · exact hdot

/-- The segments that a parent has behind its front are the first of those of its path. -/
theorem parentNames_isPrefix {p : Path} {last : List Char} {before : List (List Char)}
    (h : p.reversedNames = last :: before) :
    (before.dropWhile isSilent).reverse <+: segments p.rest := by
  refine List.IsPrefix.trans ?_ (reversedNames_isPrefix p)
  rw [h, List.reverse_prefix]
  exact (List.dropWhile_suffix _).trans (List.suffix_cons _ _)

/-- The names of a parent stand at the front of the names of its path. -/
theorem names_of_parent? {p q : Path} (h : p.parent? = some q) :
    q.names <+: p.names ∧ q.isAbsolute = p.isAbsolute := by
  unfold parent? at h
  split at h
  · rename_i last before hnames
    rw [Option.some.injEq] at h
    have hpre := parentNames_isPrefix hnames
    have hq : q = p.cut (before.dropWhile isSilent).reverse := h.symm
    rw [hq]
    refine ⟨?_, isAbsolute_cut p hpre⟩
    rw [names_cut p hpre, names_eq p, List.prefix_append_right_inj]
    exact hpre.filter _
  · split at h
    · rename_i hfront
      rw [Option.some.injEq] at h
      rw [← h]
      refine ⟨List.nil_prefix, ?_⟩
      rw [isAbsolute, isAbsolute, ← front_append_rest p, hfront]
      rfl
    · exact absurd h (by simp only [reduceCtorEq, not_false_eq_true])

theorem names_of_mem_ancestorsUpTo (limit : Nat) {p a : Path} (h : a ∈ ancestorsUpTo limit p) :
    a.names <+: p.names ∧ a.isAbsolute = p.isAbsolute := by
  induction limit generalizing p with
  | zero => exact absurd h List.not_mem_nil
  | succ limit ih =>
      rw [ancestorsUpTo, List.mem_cons] at h
      rcases h with rfl | h
      · exact ⟨List.prefix_refl _, rfl⟩
      · cases hparent : p.parent? with
        | none =>
            rw [hparent] at h
            exact absurd h List.not_mem_nil
        | some q =>
            rw [hparent] at h
            have hq := names_of_parent? hparent
            have ha := ih h
            exact ⟨ha.1.trans hq.1, ha.2.trans hq.2⟩

/-- The names of an ancestor stand at the front of the names of its path. -/
theorem names_of_mem_ancestors {p a : Path} (h : a ∈ p.ancestors) :
    a.names <+: p.names ∧ a.isAbsolute = p.isAbsolute :=
  names_of_mem_ancestorsUpTo _ h

/-- What is in a path and neither a slash nor a dot is in its bare form. -/
theorem mem_bare_of_mem {p : Path} {c : Char} (hc : c ∈ p.chars) (hslash : c ≠ '/')
    (hdot : c ≠ '.') : c ∈ p.bare.chars := by
  rcases exists_mem_segments.mpr ⟨hc, hslash⟩ with ⟨s, hs, hmem⟩
  have hname : s ∈ p.names := List.mem_filter.mpr
    ⟨hs, decide_eq_true (List.ne_nil_of_mem hmem)⟩
  rcases names_bare p with ⟨dots, hnames, hdots⟩
  rw [hnames] at hname
  rcases List.mem_append.mp hname with hname | hname
  · exact (exists_mem_segments.mp ⟨_, (List.mem_filter.mp hname).1, hmem⟩).1
  · rw [hdots s hname] at hmem
    exact absurd (List.mem_singleton.mp hmem) hdot

theorem prefix_child (p : Path) (name : String) (h : IsName name.toList) :
    p.chars <+: (p.child name).chars := by
  rcases child_cases p name h with ⟨hp, _⟩ | ⟨b, hp, hc⟩ | ⟨_, hc⟩
  · rw [hp]
    exact List.nil_prefix
  · rw [hp, hc]
    exact ⟨name.toList, by rw [List.append_assoc]; rfl⟩
  · rw [hc]
    exact List.prefix_append _ _

theorem mem_child {p : Path} {name : String} (h : IsName name.toList) {c : Char}
    (hslash : c ≠ '/') : c ∈ (p.child name).chars ↔ c ∈ p.chars ∨ c ∈ name.toList := by
  rcases child_cases p name h with ⟨hp, hchild⟩ | ⟨b, hp, hchild⟩ | ⟨_, hchild⟩
  · rw [hchild, hp]
    simp only [List.not_mem_nil, false_or]
  · rw [hchild, hp]
    simp only [List.mem_append, List.mem_cons, hslash, List.not_mem_nil, or_false, false_or]
  · rw [hchild]
    simp only [List.mem_append, List.mem_cons, hslash, false_or]

end Path

end PuzzleLevel
