/-!
# Patterns

A pattern is a row of pieces that take characters from the front of a text, one piece after the
other.  A piece may have several ways to do so, in an order of preference: it may rather take many
characters, or rather few.  The match is the first one that is found when every piece tries its ways
in their order and falls back on the next one when the pieces behind it fail.

* `Piece`, `Piece.ways`  — the pieces, and their ways to take characters in the order of preference;
* `Pattern.firstMatch?`  — the match of a pattern: what each of its pieces takes;
* `Pattern.firstMatch?_many_cons`, `Pattern.firstMatch?_few_cons` — in which order a piece tries to
  go on and to end;
* `Pattern.firstMatch?_many_of_blocked` — a piece that has no use for falling back.
-/

namespace Propositional.Text

/-- A piece of a pattern. -/
inductive Piece where
  -- One character of a class.
  | one (admits : Char → Bool)
  -- One character of a class if possible, else none.
  | optional (admits : Char → Bool)
  -- Any number of characters of a class, rather more than fewer.
  | many (admits : Char → Bool)
  -- At least one character of a class, rather fewer than more.
  | few (admits : Char → Bool)
  -- No character, at the end of the text or in front of a newline that ends it.
  | stop

/-- The ways to take one character of a class: what is taken, and what is left. -/
def single (admits : Char → Bool) : List Char → List (List Char × List Char)
  | [] => []
  | c :: rest => if admits c then [([c], rest)] else []

/-- The ways to take characters of a class, from none to as many as there are. -/
def takings (admits : Char → Bool) : List Char → List (List Char × List Char)
  | [] => [([], [])]
  | c :: rest =>
    ([], c :: rest) ::
      if admits c then (takings admits rest).map fun way => (c :: way.1, way.2) else []

theorem takings_of_not {admits : Char → Bool} {text : List Char}
    (h : ∀ c ∈ text.head?, admits c = false) : takings admits text = [([], text)] := by
  cases text with
  | nil => rfl
  | cons c rest => rw [takings, h c rfl, if_neg Bool.false_ne_true]

/-- The first way is to take nothing. -/
theorem exists_takings_eq_cons (admits : Char → Bool) (text : List Char) :
    ∃ more, takings admits text = ([], text) :: more := by
  cases text with
  | nil => exact ⟨[], rfl⟩
  | cons c rest => exact ⟨_, rfl⟩

/-- The ways of a piece to take characters from the front of a text, the preferred ones first. -/
def Piece.ways (text : List Char) : Piece → List (List Char × List Char)
  | .one admits => single admits text
  | .optional admits => single admits text ++ [([], text)]
  | .many admits => (takings admits text).reverse
  | .few admits => (takings admits text).tail
  | .stop => if text = [] ∨ text = ['\n'] then [([], text)] else []

/-- A row of pieces. -/
abbrev Pattern : Type :=
  List Piece

namespace Pattern

/-- The first match of a pattern at the front of a text: what each of the pieces takes. -/
def firstMatch? : Pattern → List Char → Option (List (List Char))
  | [], _ => some []
  | piece :: pieces, text =>
    (piece.ways text).findSome? fun way => (firstMatch? pieces way.2).map (way.1 :: ·)

/-- The parts of a match with one more character in the first of them. -/
def extend (c : Char) : List (List Char) → List (List Char)
  | [] => []
  | part :: parts => (c :: part) :: parts

variable {admits : Char → Bool} {pieces : Pattern} {text rest : List Char} {c : Char}

/-- A row of ways that all begin with one more character leads to the same match with this character
in front. -/
theorem findSome?_map_cons (c : Char) (pieces : Pattern) (ways : List (List Char × List Char)) :
    ((ways.map fun way => (c :: way.1, way.2)).findSome? fun way =>
        (firstMatch? pieces way.2).map (way.1 :: ·)) =
      (ways.findSome? fun way => (firstMatch? pieces way.2).map (way.1 :: ·)).map (extend c) := by
  rw [List.findSome?_map, List.map_findSome?]
  congr 1
  funext way
  simp only [Function.comp_apply, Option.map_map]
  rfl

theorem firstMatch?_one_cons :
    firstMatch? (.one admits :: pieces) (c :: rest) =
      if admits c then (firstMatch? pieces rest).map ([c] :: ·) else none := by
  rw [firstMatch?, Piece.ways, single]
  split
  · rw [List.findSome?_singleton]
  · rfl

/-- An optional character is taken if the rest matches behind it, and left otherwise. -/
theorem firstMatch?_optional :
    firstMatch? (.optional admits :: pieces) text =
      (firstMatch? (.one admits :: pieces) text).or ((firstMatch? pieces text).map ([] :: ·)) := by
  rw [firstMatch?, Piece.ways, List.findSome?_append, List.findSome?_singleton]
  rfl

/-- A piece that rather takes more characters ends only if it cannot go on. -/
theorem firstMatch?_many_cons (h : admits c = true) :
    firstMatch? (.many admits :: pieces) (c :: rest) =
      ((firstMatch? (.many admits :: pieces) rest).map (extend c)).or
        ((firstMatch? pieces (c :: rest)).map ([] :: ·)) := by
  rw [firstMatch?, firstMatch?, Piece.ways, Piece.ways, takings, if_pos h, List.reverse_cons,
    List.findSome?_append, ← List.map_reverse, findSome?_map_cons, List.findSome?_singleton]

/-- Where no admitted character stands, a repetition takes nothing. -/
theorem firstMatch?_many_of_not (h : ∀ c ∈ text.head?, admits c = false) :
    firstMatch? (.many admits :: pieces) text = (firstMatch? pieces text).map ([] :: ·) := by
  rw [firstMatch?, Piece.ways, takings_of_not h, List.reverse_singleton, List.findSome?_singleton]

/-- A piece that rather takes fewer characters goes on only if it cannot end. -/
theorem firstMatch?_few_cons (h : admits c = true) :
    firstMatch? (.few admits :: pieces) (c :: rest) =
      ((firstMatch? pieces rest).map ([c] :: ·)).or
        ((firstMatch? (.few admits :: pieces) rest).map (extend c)) := by
  obtain ⟨more, hmore⟩ := exists_takings_eq_cons admits rest
  rw [firstMatch?, firstMatch?, Piece.ways, Piece.ways, takings, if_pos h, hmore, List.map_cons,
    List.tail_cons, List.findSome?_cons, findSome?_map_cons, List.tail_cons]
  cases (firstMatch? pieces rest).map ([c] :: ·) <;> rfl

/-- A repetition that needs a character fails where none stands. -/
theorem firstMatch?_few_of_not (h : ∀ c ∈ text.head?, admits c = false) :
    firstMatch? (.few admits :: pieces) text = none := by
  rw [firstMatch?, Piece.ways, takings_of_not h]
  rfl

theorem firstMatch?_stop :
    firstMatch? (.stop :: pieces) text =
      if text = [] ∨ text = ['\n'] then (firstMatch? pieces text).map ([] :: ·) else none := by
  rw [firstMatch?, Piece.ways]
  split
  · rw [List.findSome?_singleton]
  · rfl

/-- When the pieces behind cannot begin with a character of the class, all characters are taken, and
falling back is of no use. -/
theorem firstMatch?_many_of_blocked
    (h : ∀ c rest, admits c = true → firstMatch? pieces (c :: rest) = none) (text : List Char) :
    firstMatch? (.many admits :: pieces) text =
      (firstMatch? pieces (text.dropWhile admits)).map (text.takeWhile admits :: ·) := by
  induction text with
  | nil => exact firstMatch?_many_of_not (by simp)
  | cons c rest ih =>
    cases hc : admits c with
    | true =>
      rw [firstMatch?_many_cons hc, h c rest hc, Option.map_none, Option.or_none, ih,
        Option.map_map, List.dropWhile_cons_of_pos hc, List.takeWhile_cons_of_pos hc]
      rfl
    | false =>
      have hnot : ∀ d ∈ (c :: rest).head?, admits d = false := by simp [hc]
      rw [firstMatch?_many_of_not hnot, List.dropWhile_cons_of_neg (by simp [hc]),
        List.takeWhile_cons_of_neg (by simp [hc])]

end Pattern

end Propositional.Text
