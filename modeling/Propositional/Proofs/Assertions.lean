import Mathlib.Data.List.DropRight
import Propositional.Interpretation.Assertion
import Propositional.Proofs.Lists

/-!
# Which texts are assertions

A text is an assertion when it consists of the letter `I` and a relation, with white space in front
of each, and something that has a body in it.  A body is cut out by cutting off white space at both
ends; where nothing is left, one character of the white space is the body.

* `Text.strip_of_bare`, `Text.exists_bare` — what is left when white space is cut off at both ends;
* `Assertion.BodyIn`, `Assertion.Says`     — the parts of an assertion;
* `Assertion.ofChars?_eq_some_iff`         — reading finds the parts, whatever the white space;
* `Assertion.LiteralIn`                    — the parts of a body that is a literal;
* `readInterpretation_eq_ok_iff`, `readInterpretation_eq_error_iff` — which texts fix a value, and
  why the other ones do not.
-/

namespace Propositional

/-! ## Cutting off white space -/

namespace Text

/-- A text that neither begins nor ends with white space, and has something in it. -/
structure Bare (text : List Char) : Prop where
  head : ∃ c ∈ text.head?, isBlank c = false
  last : ∃ c ∈ text.getLast?, isBlank c = false

variable {text before body after : List Char} {c : Char}

/-- A bare text is not empty. -/
theorem Bare.ne_nil (h : Bare text) : text ≠ [] := by
  rintro rfl
  obtain ⟨c, hc, -⟩ := h.head
  cases hc

theorem bare_cons (hc : isBlank c = false) (hlast : ∀ d ∈ text.getLast?, isBlank d = false) :
    Bare (c :: text) := by
  refine ⟨⟨c, rfl, hc⟩, ⟨text.getLast?.getD c, List.getLast?_cons, ?_⟩⟩
  cases h : text.getLast? with
  | none => exact hc
  | some d => exact hlast d h

/-- Blanks in front of a text go away with its own. -/
theorem stripLeft_append (h : ∀ c ∈ before, isBlank c = true) (text : List Char) :
    stripLeft (before ++ text) = stripLeft text :=
  List.dropWhile_append_of_pos h

theorem stripLeft_cons (h : isBlank c = false) (text : List Char) :
    stripLeft (c :: text) = c :: text :=
  List.dropWhile_cons_of_neg (Bool.eq_false_iff.mp h)

/-- What is cut off in front is white space, up to a character that is none. -/
theorem stripLeft_eq_cons_iff {rest : List Char} (hc : isBlank c = false) :
    stripLeft text = c :: rest ↔
      ∃ before, (∀ d ∈ before, isBlank d = true) ∧ text = before ++ c :: rest := by
  constructor
  · intro h
    refine ⟨text.takeWhile isBlank, fun d hd => List.mem_takeWhile_imp hd, ?_⟩
    rw [← h]
    exact List.takeWhile_append_dropWhile.symm
  · rintro ⟨before, hbefore, rfl⟩
    rw [stripLeft_append hbefore, stripLeft_cons hc]

/-- Of blanks alone nothing is left. -/
theorem strip_eq_nil (h : ∀ c ∈ text, isBlank c = true) : strip text = [] := by
  rw [strip, stripLeft, List.dropWhile_eq_nil_iff.mpr h]
  rfl

/-- White space around a text that has none at its ends is cut off, and nothing else is. -/
theorem strip_of_bare (hbefore : ∀ c ∈ before, isBlank c = true) (hbody : Bare body)
    (hafter : ∀ c ∈ after, isBlank c = true) : strip (before ++ (body ++ after)) = body := by
  obtain ⟨c, hhead, hc⟩ := hbody.head
  obtain ⟨more, rfl⟩ := List.head?_eq_some_iff.mp hhead
  obtain ⟨d, hlast, hd⟩ := hbody.last
  obtain ⟨init, hinit⟩ := List.getLast?_eq_some_iff.mp hlast
  rw [strip, stripLeft_append hbefore, List.cons_append, stripLeft_cons hc, ← List.cons_append,
    hinit, stripRight, List.reverse_append, List.dropWhile_append_of_pos (by simpa using hafter),
    List.reverse_append, List.reverse_singleton, List.singleton_append,
    List.dropWhile_cons_of_neg (Bool.eq_false_iff.mp hd), List.reverse_cons, List.reverse_reverse]

/-- A text with something other than white space in it has white space around a text that has none
at its ends. -/
theorem exists_bare (h : ∃ c ∈ text, isBlank c = false) :
    ∃ before body after, (∀ c ∈ before, isBlank c = true) ∧ Bare body ∧
      (∀ c ∈ after, isBlank c = true) ∧ text = before ++ (body ++ after) := by
  have hne : text.dropWhile isBlank ≠ [] := by
    obtain ⟨c, hc, hbare⟩ := h
    rw [Ne, List.dropWhile_eq_nil_iff]
    intro hblank
    rw [hblank c hc] at hbare
    cases hbare
  obtain ⟨c, rest, hcore⟩ := List.exists_cons_of_ne_nil hne
  have hc : isBlank c = false := by
    have hhead := List.head_dropWhile_not isBlank hne
    simpa only [hcore, List.head_cons] using hhead
  obtain ⟨before, hbefore, rfl⟩ := (stripLeft_eq_cons_iff hc).mp hcore
  -- from the first character on, the same is done from the end
  let body := (c :: rest).rdropWhile isBlank
  let after := (c :: rest).rtakeWhile isBlank
  have hsplit : body ++ after = c :: rest := List.rdropWhile_append_rtakeWhile
  have hbody : body ≠ [] := by
    rw [Ne, List.rdropWhile_eq_nil_iff]
    intro hblank
    rw [hblank c List.mem_cons_self] at hc
    cases hc
  have hhead : body.head? = some c := by
    rw [← List.head?_append_of_ne_nil body hbody, hsplit]
    rfl
  have hlast := List.rdropWhile_last_not isBlank (c :: rest) hbody
  exact ⟨before, body, after, hbefore,
    ⟨⟨c, hhead, hc⟩, ⟨_, List.getLast?_eq_some_getLast hbody, Bool.eq_false_iff.mpr hlast⟩⟩,
    fun d hd => List.mem_rtakeWhile_imp hd, by rw [hsplit]⟩

end Text

open Text (isBlank stripLeft strip Bare)

namespace Assertion

/-! ## The parts of an assertion -/

/-- What may stand behind the relation, and the body in it: a text on one line with white space
around it, or white space alone, of which the last character other than a newline counts. -/
inductive BodyIn : List Char → List Char → Prop
  | text {before body after : List Char} (hbefore : ∀ c ∈ before, isBlank c = true)
      (hbody : Bare body) (hline : '\n' ∉ body) (hafter : ∀ c ∈ after, isBlank c = true) :
      BodyIn (before ++ (body ++ after)) body
  | blank {before after : List Char} {c : Char} (hbefore : ∀ d ∈ before, isBlank d = true)
      (hc : isBlank c = true) (hline : c ≠ '\n') (hafter : ∀ d ∈ after, d = '\n') :
      BodyIn (before ++ c :: after) [c]

/-- The sign for a relation. -/
def relationGlyph (holds : Bool) : Char :=
  if holds then modelsGlyph else notModelsGlyph

/-- The assertion that a text makes, said by the parts of the text. -/
inductive Says : List Char → Assertion → Prop
  | intro {before between rest body : List Char} (holds : Bool)
      (hbefore : ∀ c ∈ before, isBlank c = true) (hbetween : ∀ c ∈ between, isBlank c = true)
      (hbody : BodyIn rest body) :
      Says (before ++ 'I' :: (between ++ relationGlyph holds :: rest)) ⟨holds, String.ofList body⟩

variable {text rest body : List Char} {a : Assertion}

/-- The body of a statement is never empty. -/
theorem BodyIn.ne_nil (h : BodyIn rest body) : body ≠ [] := by
  cases h with
  | text _ hbody => exact hbody.ne_nil
  | blank => exact List.cons_ne_nil _ _

/-- A body stays on one line. -/
theorem BodyIn.newline_notMem (h : BodyIn rest body) : '\n' ∉ body := by
  cases h with
  | text _ _ hline => exact hline
  | blank _ _ hline => exact fun h => hline (List.mem_singleton.mp h).symm

/-- The last character other than a newline has newlines alone behind it. -/
theorem getLast?_filter_eq_some_iff {c : Char} :
    (rest.filter fun d => d ≠ '\n').getLast? = some c ↔
      ∃ before after, rest = before ++ c :: after ∧ c ≠ '\n' ∧ ∀ d ∈ after, d = '\n' := by
  constructor
  · intro h
    rw [List.getLast?_filter, List.find?_eq_some_iff_append] at h
    obtain ⟨hc, after, before, hrest, hafter⟩ := h
    refine ⟨before.reverse, after.reverse, ?_, by simpa using hc, fun d hd => ?_⟩
    · rw [← List.reverse_reverse rest, hrest]
      simp
    · simpa using hafter d (List.mem_reverse.mp hd)
  · rintro ⟨before, after, rfl, hc, hafter⟩
    have hnone : (after.filter fun d => d ≠ '\n') = [] := by simpa using hafter
    rw [List.filter_append, List.filter_cons_of_pos (by simpa using hc), hnone,
      List.getLast?_concat]

/-- Of white space, the last character that is no newline is the body. -/
theorem bodyOf_eq_some_iff_of_blank (h : ∀ c ∈ rest, isBlank c = true) :
    bodyOf rest = some body ↔ BodyIn rest body := by
  rw [bodyOf, Text.strip_eq_nil h]
  constructor
  · intro hbody
    obtain ⟨c, hlast, rfl⟩ := Option.map_eq_some_iff.mp hbody
    obtain ⟨before, after, rfl, hline, hafter⟩ := getLast?_filter_eq_some_iff.mp hlast
    exact .blank (fun d hd => h d (List.mem_append_left _ hd))
      (h c (List.mem_append_right _ List.mem_cons_self)) hline hafter
  · intro hbody
    cases hbody with
    | text _ hbody =>
      obtain ⟨c, hc, hbare⟩ := hbody.head
      rw [h c (by simp [List.mem_of_mem_head? hc])] at hbare
      cases hbare
    | blank _ _ hline hafter =>
      exact Option.map_eq_some_iff.mpr
        ⟨_, getLast?_filter_eq_some_iff.mpr ⟨_, _, rfl, hline, hafter⟩, rfl⟩

/-- Of anything else, the body is what is left when white space is cut off, if it is on one line. -/
theorem bodyOf_eq_some_iff_of_bare {before core after : List Char}
    (hbefore : ∀ c ∈ before, isBlank c = true) (hcore : Bare core)
    (hafter : ∀ c ∈ after, isBlank c = true) :
    bodyOf (before ++ (core ++ after)) = some body ↔ BodyIn (before ++ (core ++ after)) body := by
  have hnonempty : core.isEmpty = false := by simpa using hcore.ne_nil
  rw [bodyOf, Text.strip_of_bare hbefore hcore hafter, hnonempty, if_neg Bool.false_ne_true]
  constructor
  · intro h
    split at h
    · cases h
    · next hline =>
      cases h
      exact .text hbefore hcore (by simpa using hline) hafter
  · intro h
    generalize hrest : before ++ (core ++ after) = rest at h
    -- both decompositions are what is left when white space is cut off
    have hsame := congrArg strip hrest
    rw [Text.strip_of_bare hbefore hcore hafter] at hsame
    cases h with
    | text hbefore' hbody hline hafter' =>
      rw [Text.strip_of_bare hbefore' hbody hafter'] at hsame
      rw [hsame, if_neg (by simpa using hline)]
    | @blank before' after' c hbefore' hc _ hafter' =>
      have hblank : ∀ d ∈ before' ++ c :: after', isBlank d = true := by
        refine List.forall_mem_append.mpr ⟨hbefore', List.forall_mem_cons.mpr ⟨hc, fun d hd => ?_⟩⟩
        rw [hafter' d hd]
        decide
      rw [Text.strip_eq_nil hblank] at hsame
      exact absurd hsame hcore.ne_nil

/-- Behind the relation the body is found, and nothing else is. -/
theorem bodyOf_eq_some_iff : bodyOf rest = some body ↔ BodyIn rest body := by
  by_cases hblank : ∀ c ∈ rest, isBlank c = true
  · exact bodyOf_eq_some_iff_of_blank hblank
  · have hbare : ∃ c ∈ rest, isBlank c = false := by simpa using hblank
    obtain ⟨before, core, after, hbefore, hcore, hafter, rfl⟩ := Text.exists_bare hbare
    exact bodyOf_eq_some_iff_of_bare hbefore hcore hafter

theorem isBlank_relationGlyph (holds : Bool) : isBlank (relationGlyph holds) = false := by
  cases holds <;> decide

/-- Behind the subject comes the relation, and what is left gives the body. -/
theorem afterSubject_eq (holds : Bool) {tail : List Char}
    (h : stripLeft text = relationGlyph holds :: tail) :
    afterSubject text = (bodyOf tail).map fun body => ⟨holds, String.ofList body⟩ := by
  rw [afterSubject, h]
  cases holds with
  | true => exact if_pos rfl
  | false => exact (if_neg (by decide)).trans (if_pos rfl)

/-- What is found behind the subject is the relation with a body. -/
theorem afterSubject_eq_some_iff :
    afterSubject text = some a ↔
      ∃ holds tail, stripLeft text = relationGlyph holds :: tail ∧
        ∃ body, BodyIn tail body ∧ a = ⟨holds, String.ofList body⟩ := by
  constructor
  · intro h
    -- something is found only behind one of the two relations
    have hrelation : ∃ holds tail, stripLeft text = relationGlyph holds :: tail := by
      unfold afterSubject at h
      split at h
      · cases h
      · next relation tail hstrip =>
        split at h
        · next hmodels => exact ⟨true, tail, by rw [hstrip, hmodels]; rfl⟩
        split at h
        · next hnotModels => exact ⟨false, tail, by rw [hstrip, hnotModels]; rfl⟩
        · cases h
    obtain ⟨holds, tail, hstrip⟩ := hrelation
    rw [afterSubject_eq holds hstrip, Option.map_eq_some_iff] at h
    obtain ⟨body, hbody, rfl⟩ := h
    exact ⟨holds, tail, hstrip, body, bodyOf_eq_some_iff.mp hbody, rfl⟩
  · rintro ⟨holds, tail, hstrip, body, hbody, rfl⟩
    rw [afterSubject_eq holds hstrip, bodyOf_eq_some_iff.mpr hbody]
    rfl

/-- Reading finds the assertion that the parts of the text say. -/
theorem ofChars?_eq_some_iff : ofChars? text = some a ↔ Says text a := by
  constructor
  · intro h
    unfold ofChars? at h
    split at h
    · next rest hstrip =>
      obtain ⟨before, hbefore, rfl⟩ := (Text.stripLeft_eq_cons_iff (by decide)).mp hstrip
      obtain ⟨holds, tail, hrelation, body, hbody, rfl⟩ := afterSubject_eq_some_iff.mp h
      obtain ⟨between, hbetween, rfl⟩ :=
        (Text.stripLeft_eq_cons_iff (isBlank_relationGlyph holds)).mp hrelation
      exact .intro holds hbefore hbetween hbody
    · cases h
  · rintro ⟨holds, hbefore, hbetween, hbody⟩
    rw [ofChars?, Text.stripLeft_append hbefore, Text.stripLeft_cons (by decide)]
    refine afterSubject_eq_some_iff.mpr ⟨holds, _, ?_, _, hbody, rfl⟩
    rw [Text.stripLeft_append hbetween, Text.stripLeft_cons (isBlank_relationGlyph holds)]

/-! ## Literals -/

/-- The body of an assertion that fixes the value of a letter: a negation sign if it is negated,
white space, and the letter. -/
inductive LiteralIn : List Char → Bool → Letter → Prop
  | plain {between : List Char} (hbetween : ∀ c ∈ between, isBlank c = true) (x : Letter) :
      LiteralIn (between ++ [x.char]) false x
  | negated {between : List Char} (hbetween : ∀ c ∈ between, isBlank c = true) (x : Letter) :
      LiteralIn ('¬' :: (between ++ [x.char])) true x

/-- No letter is white space. -/
theorem isBlank_char (x : Letter) : isBlank x.char = false := by
  obtain ⟨hlow, hhigh⟩ := Letter.isLower_iff.mp x.isLower
  have hlow' : 97 ≤ x.char.toNat := UInt32.le_iff_toNat_le.mp hlow
  have hhigh' : x.char.toNat ≤ 122 := UInt32.le_iff_toNat_le.mp hhigh
  simp only [isBlank, Text.blankRanges, List.any_cons, List.any_nil, Bool.or_eq_false_iff,
    Bool.and_eq_false_iff, decide_eq_false_iff_not, and_true]
  omega

/-- The letter that a text consists of, apart from white space in front of it. -/
def letterAlone? (text : List Char) : Option Letter :=
  match stripLeft text with
  | [c] => Letter.ofChar? c
  | _ => none

/-- A letter alone is a letter behind blanks. -/
theorem letterAlone?_eq_some_iff {x : Letter} :
    letterAlone? text = some x ↔
      ∃ between, (∀ c ∈ between, isBlank c = true) ∧ text = between ++ [x.char] := by
  rw [← Text.stripLeft_eq_cons_iff (isBlank_char x), letterAlone?]
  constructor
  · intro h
    split at h
    · next c hc => rw [hc, Letter.ofChar?_eq_some_iff.mp h]
    · cases h
  · intro h
    rw [h]
    exact Letter.ofChar?_eq_some_iff.mpr rfl

/-- The sign of a literal is read off its first character, the letter off the rest. -/
theorem bodyLiteral?_eq (body : List Char) :
    bodyLiteral? body =
      (letterAlone? (if body.head? = some '¬' then body.tail else body)).map fun x =>
        (decide (body.head? = some '¬'), x) := by
  rw [bodyLiteral?, letterAlone?]
  generalize stripLeft _ = stripped
  rcases stripped with - | ⟨c, - | _⟩ <;> rfl

theorem bodyLiteral?_negated (text : List Char) :
    bodyLiteral? ('¬' :: text) = (letterAlone? text).map fun x => (true, x) :=
  bodyLiteral?_eq ('¬' :: text)

theorem bodyLiteral?_plain (h : body.head? ≠ some '¬') :
    bodyLiteral? body = (letterAlone? body).map fun x => (false, x) := by
  rw [bodyLiteral?_eq, if_neg h, decide_eq_false h]

/-- The literals that are found in bodies are those that stand in them. -/
theorem bodyLiteral?_eq_some_iff {negated : Bool} {x : Letter} :
    bodyLiteral? body = some (negated, x) ↔ LiteralIn body negated x := by
  constructor
  · intro h
    -- the first character says which of the two forms the body has
    by_cases hsign : body.head? = some '¬'
    · obtain ⟨rest, rfl⟩ := List.head?_eq_some_iff.mp hsign
      rw [bodyLiteral?_negated] at h
      obtain ⟨y, hy, heq⟩ := Option.map_eq_some_iff.mp h
      cases heq
      obtain ⟨between, hbetween, rfl⟩ := letterAlone?_eq_some_iff.mp hy
      exact .negated hbetween x
    · rw [bodyLiteral?_plain hsign] at h
      obtain ⟨y, hy, heq⟩ := Option.map_eq_some_iff.mp h
      cases heq
      obtain ⟨between, hbetween, rfl⟩ := letterAlone?_eq_some_iff.mp hy
      exact .plain hbetween x
  · intro h
    cases h with
    | @plain between hbetween =>
      -- neither a blank nor a letter is a negation sign
      have hsign : (between ++ [x.char]).head? ≠ some '¬' := by
        cases between with
        | nil => simpa using x.char_ne rfl
        | cons c between =>
          rintro heq
          cases heq
          exact absurd (hbetween '¬' List.mem_cons_self) (by decide)
      rw [bodyLiteral?_plain hsign, letterAlone?_eq_some_iff.mpr ⟨_, hbetween, rfl⟩]
      rfl
    | negated hbetween =>
      rw [bodyLiteral?_negated, letterAlone?_eq_some_iff.mpr ⟨_, hbetween, rfl⟩]
      rfl

/-! ## Reading -/

variable {input : Input}

/-- An input is read as an assertion when its text says the assertion. -/
theorem read_eq_ok_iff : read input = .ok a ↔ Says input.content.toList a := by
  rw [← ofChars?_eq_some_iff, read]
  cases ofChars? input.content.toList <;> simp

/-- An input is refused, with its text in the message, when it says no assertion. -/
theorem read_eq_error_iff {e : Error} :
    read input = .error e ↔ (∀ a, ¬ Says input.content.toList a) ∧ e = .assertion input := by
  simp only [← ofChars?_eq_some_iff, read, ← Option.eq_none_iff_forall_ne_some]
  cases ofChars? input.content.toList <;> simp [eq_comm]

theorem Says.body_ne_nil (h : Says text a) : a.body.toList ≠ [] := by
  obtain ⟨holds, -, -, hbody⟩ := h
  rw [String.toList_ofList]
  exact hbody.ne_nil

/-- The body of what a text says has no line break in it. -/
theorem Says.newline_notMem (h : Says text a) : '\n' ∉ a.body.toList := by
  obtain ⟨holds, -, -, hbody⟩ := h
  rw [String.toList_ofList]
  exact hbody.newline_notMem

/-- An assertion about a literal gives its letter the value with which the literal has the stated
one. -/
theorem literal_eq_ok_iff {x : Letter} {value : Bool} :
    a.literal = .ok (x, value) ↔
      ∃ negated, LiteralIn a.body.toList negated x ∧ value = xor a.holds negated := by
  simp only [← bodyLiteral?_eq_some_iff, literal]
  cases bodyLiteral? a.body.toList with
  | none => simp
  | some found =>
    obtain ⟨negated, y⟩ := found
    constructor
    · intro h
      cases h
      exact ⟨negated, rfl, rfl⟩
    · rintro ⟨_, h, rfl⟩
      cases h
      rfl

/-- An assertion about anything but a literal is refused. -/
theorem literal_eq_error_iff {e : Error} :
    a.literal = .error e ↔
      (∀ negated x, ¬ LiteralIn a.body.toList negated x) ∧ e = .literal a.body := by
  simp only [← bodyLiteral?_eq_some_iff, literal]
  cases bodyLiteral? a.body.toList with
  | none => simp [eq_comm]
  | some found =>
    obtain ⟨negated, x⟩ := found
    constructor
    · intro h
      cases h
    · rintro ⟨hnone, -⟩
      exact absurd rfl (hnone negated x)

end Assertion

open Assertion (Says LiteralIn)

variable {input : Input}

theorem readInterpretation_eq_bind (input : Input) :
    readInterpretation input =
      Assertion.read input >>= fun a => a.literal >>= fun named => .ok (Table.ofList [named]) := by
  unfold readInterpretation
  cases Assertion.read input with
  | error e => rfl
  | ok a =>
    dsimp only
    change _ = a.literal >>= fun named => .ok (Table.ofList [named])
    cases a.literal <;> rfl

/-- An interpretation gives a value to the letter of a literal. -/
theorem readInterpretation_eq_ok_iff {s : Assignment Letter} :
    readInterpretation input = .ok s ↔
      ∃ a negated x, Says input.content.toList a ∧ LiteralIn a.body.toList negated x ∧
        s = Table.ofList [(x, xor a.holds negated)] := by
  simp only [readInterpretation_eq_bind, bind_eq_ok_iff, Assertion.read_eq_ok_iff]
  constructor
  · rintro ⟨a, ha, ⟨x, value⟩, hliteral, hs⟩
    obtain ⟨negated, hbody, rfl⟩ := Assertion.literal_eq_ok_iff.mp hliteral
    exact ⟨a, negated, x, ha, hbody, (Except.ok.inj hs).symm⟩
  · rintro ⟨a, negated, x, ha, hbody, rfl⟩
    exact ⟨a, ha, _, Assertion.literal_eq_ok_iff.mpr ⟨negated, hbody, rfl⟩, rfl⟩

/-- An interpretation is refused because it is no assertion, or because it asserts too much. -/
theorem readInterpretation_eq_error_iff {e : Error} :
    readInterpretation input = .error e ↔
      (∀ a, ¬ Says input.content.toList a) ∧ e = .assertion input ∨
      ∃ a, Says input.content.toList a ∧ (∀ negated x, ¬ LiteralIn a.body.toList negated x) ∧
        e = .literal a.body := by
  simp only [readInterpretation_eq_bind, bind_eq_error_iff, Assertion.read_eq_error_iff,
    Assertion.read_eq_ok_iff, Assertion.literal_eq_error_iff]
  simp

end Propositional
