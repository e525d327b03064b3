import Propositional.Proofs.Assertions
import Propositional.Text.Pattern

/-!
# Assertions are what a pattern matches

A pattern for assertions takes as much white space as it can and a body that is as short as it can
be, and falls back where this leads to no match.  White space in front of the letter `I` and of the
relation is taken in one way only, since neither of the two is white space.  Behind the relation
falling back matters: the body starts at the first character that is not white space, unless there
is none, and ends where white space alone is left.

* `Assertion.pattern`, `Assertion.literalPattern` — the patterns of assertions and of literals;
* `Assertion.of_firstMatch?_core` — the shortest body that has white space alone behind it;
* `Assertion.of_firstMatch?_body`, `Assertion.BodyIn.exists_firstMatch?` — a match takes the body,
  and there is one where there is a body;
* `Assertion.read_exact` — which texts are read as assertions and as interpretations.
-/

namespace Propositional

open Text (isBlank stripLeft Pattern)

namespace Assertion

variable {text rest body : List Char} {a : Assertion}

/-! ## The pattern of assertions -/

open Text.Pattern

/-- The pattern of what stands behind the relation. -/
def bodyPattern : Pattern :=
  [.many isBlank, .few fun c => c ≠ '\n', .many isBlank, .stop]

/-- The pattern of assertions. -/
def pattern : Pattern :=
  .many isBlank :: .one (fun c => c = 'I') :: .many isBlank ::
    .one (fun c => c = modelsGlyph || c = notModelsGlyph) :: bodyPattern

/-- The assertion that the parts of a match make. -/
def ofParts? : List (List Char) → Option Assertion
  | [_, _, _, relation, _, body, _, _] => some ⟨relation = [modelsGlyph], String.ofList body⟩
  | _ => none

/-- White space up to the end is matched, and nothing else is. -/
theorem firstMatch?_blanks (text : List Char) :
    firstMatch? [.many isBlank, .stop] text =
      if text.all isBlank then some [text, []] else none := by
  induction text with
  | nil => rfl
  | cons c rest ih =>
    -- a text that ends at a newline is one of white space alone, so the end is reached there too
    have hstop : (isBlank c && rest.all isBlank) = false →
        firstMatch? [.stop] (c :: rest) = none := by
      intro h
      rw [firstMatch?_stop, if_neg]
      rintro (hnil | hnewline)
      · cases hnil
      · cases hnewline
        cases h
    rw [List.all_cons]
    cases hc : isBlank c with
    | true =>
      rw [firstMatch?_many_cons hc, ih, Bool.true_and]
      cases hrest : rest.all isBlank with
      | true => rfl
      | false =>
        rw [hstop (by rw [hc, hrest]; rfl)]
        rfl
    | false =>
      rw [firstMatch?_many_of_not (by simpa using hc), hstop (by rw [hc]; rfl)]
      rfl

/-- What comes after the white space in front of a body: the fewest characters with white space
alone behind them. -/
theorem of_firstMatch?_core {parts : List (List Char)}
    (h : firstMatch? [.few fun c => c ≠ '\n', .many isBlank, .stop] text = some parts) :
    ∃ c more after, parts = [c :: more, after, []] ∧ text = c :: (more ++ after) ∧
      '\n' ∉ c :: more ∧ (∀ d ∈ after, isBlank d = true) ∧
      ∀ d ∈ more.getLast?, isBlank d = false := by
  induction text generalizing parts with
  | nil => cases h
  | cons c rest ih =>
    by_cases hc : c = '\n'
    · rw [firstMatch?_few_of_not (by simp [hc])] at h
      cases h
    rw [firstMatch?_few_cons (by simpa using hc), firstMatch?_blanks] at h
    cases hrest : rest.all isBlank with
    | true =>
      rw [hrest, if_pos rfl] at h
      cases h
      exact ⟨c, [], rest, rfl, rfl, by simpa using Ne.symm hc, List.all_eq_true.mp hrest, by simp⟩
    | false =>
      rw [hrest, if_neg Bool.false_ne_true, Option.map_none, Option.none_or,
        Option.map_eq_some_iff] at h
      obtain ⟨parts, hparts, rfl⟩ := h
      obtain ⟨d, more, after, rfl, rfl, hline, hafter, hlast⟩ := ih hparts
      refine ⟨c, d :: more, after, rfl, rfl, ?_, hafter, ?_⟩
      · exact List.not_mem_cons_of_ne_of_not_mem (Ne.symm hc) hline
      · cases more with
        | nil =>
          -- were the second character white space too, nothing else would follow the first
          intro e he
          cases he
          rw [Bool.eq_false_iff]
          intro hd
          have hall : (d :: after).all isBlank = true :=
            List.all_eq_true.mpr (List.forall_mem_cons.mpr ⟨hd, hafter⟩)
          cases hall.symm.trans hrest
        | cons e more => exact hlast

/-- Wherever a line is left that has white space alone behind it, there is a match. -/
theorem exists_firstMatch?_core {after : List Char} (hbody : body ≠ []) (hline : '\n' ∉ body)
    (hafter : ∀ c ∈ after, isBlank c = true) :
    ∃ parts, firstMatch? [.few fun c => c ≠ '\n', .many isBlank, .stop] (body ++ after) =
      some parts := by
  induction body with
  | nil => exact absurd rfl hbody
  | cons c more ih =>
    have hc : c ≠ '\n' := fun h => hline (by simp [h])
    rw [List.cons_append, firstMatch?_few_cons (by simpa using hc), firstMatch?_blanks]
    cases more with
    | nil =>
      rw [List.nil_append, if_pos (List.all_eq_true.mpr hafter)]
      exact ⟨_, rfl⟩
    | cons d more =>
      -- what follows has a match, if the first character alone is not one
      obtain ⟨parts, hparts⟩ := ih (List.cons_ne_nil d more) fun h =>
        hline (List.mem_cons_of_mem c h)
      rw [hparts]
      split
      · exact ⟨_, rfl⟩
      · exact ⟨_, rfl⟩

/-- White space in front of a text with a match is no obstacle. -/
theorem exists_firstMatch?_body {before : List Char} (hbefore : ∀ c ∈ before, isBlank c = true)
    (h : ∃ parts, firstMatch? [.few fun c => c ≠ '\n', .many isBlank, .stop] text = some parts) :
    ∃ parts, firstMatch? bodyPattern (before ++ text) = some parts := by
  -- with a blank less in front there is a match, and it serves with one more blank
  induction before with
  | nil =>
    obtain ⟨parts, hparts⟩ := h
    cases text with
    | nil => cases hparts
    | cons c rest =>
      rw [List.nil_append, bodyPattern]
      cases hc : isBlank c with
      | true =>
        rw [firstMatch?_many_cons hc, hparts]
        cases firstMatch? _ rest <;> exact ⟨_, rfl⟩
      | false =>
        rw [firstMatch?_many_of_not (by simpa using hc), hparts]
        exact ⟨_, rfl⟩
  | cons c before ih =>
    obtain ⟨hc, hbefore⟩ := List.forall_mem_cons.mp hbefore
    obtain ⟨parts, hparts⟩ := ih hbefore
    rw [bodyPattern] at hparts
    rw [List.cons_append, bodyPattern, firstMatch?_many_cons hc, hparts]
    exact ⟨_, rfl⟩

theorem BodyIn.exists_firstMatch? (h : BodyIn rest body) :
    ∃ parts, firstMatch? bodyPattern rest = some parts := by
  cases h with
  | text hbefore hbody hline hafter =>
    exact exists_firstMatch?_body hbefore (exists_firstMatch?_core hbody.ne_nil hline hafter)
  | blank hbefore hc hline hafter =>
    refine exists_firstMatch?_body hbefore
      (exists_firstMatch?_core (List.cons_ne_nil _ []) ?_ fun d hd => ?_)
    · exact fun h => hline (List.mem_singleton.mp h).symm
    · rw [hafter d hd]
      decide

theorem BodyIn.cons {c : Char} (hc : isBlank c = true) (h : BodyIn rest body) :
    BodyIn (c :: rest) body := by
  cases h with
  | text hbefore hbody hline hafter =>
    exact .text (List.forall_mem_cons.mpr ⟨hc, hbefore⟩) hbody hline hafter
  | blank hbefore hd hline hafter =>
    exact .blank (List.forall_mem_cons.mpr ⟨hc, hbefore⟩) hd hline hafter

/-- White space behind which nothing has a match consists of newlines: any other character would be
a body. -/
theorem newlines_of_no_match (hblank : ∀ c ∈ text, isBlank c = true)
    (hnone : ∀ parts, firstMatch? bodyPattern text ≠ some parts) : ∀ c ∈ text, c = '\n' := by
  intro c hc
  by_contra hline
  obtain ⟨before, after, rfl⟩ := List.append_of_mem hc
  obtain ⟨hbefore, hrest⟩ := List.forall_mem_append.mp hblank
  obtain ⟨parts, hparts⟩ := exists_firstMatch?_body hbefore
    (exists_firstMatch?_core (List.cons_ne_nil c []) (by simpa using Ne.symm hline)
      (List.forall_mem_cons.mp hrest).2)
  exact hnone parts hparts

/-- The match takes the body. -/
theorem of_firstMatch?_body {parts : List (List Char)}
    (h : firstMatch? bodyPattern rest = some parts) :
    ∃ before body after, parts = [before, body, after, []] ∧ BodyIn rest body := by
  induction rest generalizing parts with
  | nil => cases h
  | cons c rest ih =>
    rw [bodyPattern] at h
    cases hc : isBlank c with
    | true =>
      -- white space belongs to the body only if what follows it has no match
      rw [firstMatch?_many_cons hc, Option.or_eq_some_iff] at h
      rcases h with h | ⟨hnone, h⟩
      · obtain ⟨parts, hparts, rfl⟩ := Option.map_eq_some_iff.mp h
        obtain ⟨before, body, after, rfl, hbody⟩ := ih hparts
        exact ⟨c :: before, body, after, rfl, hbody.cons hc⟩
      · obtain ⟨parts, hparts, rfl⟩ := Option.map_eq_some_iff.mp h
        obtain ⟨c', more, after, rfl, hsplit, hline, hafter, -⟩ := of_firstMatch?_core hparts
        obtain ⟨rfl, rfl⟩ := List.cons.inj hsplit
        have hunmatched : ∀ parts, firstMatch? bodyPattern (more ++ after) ≠ some parts := by
          intro parts hparts
          rw [bodyPattern] at hparts
          rw [hparts] at hnone
          cases hnone
        have hmore : more = [] := by
          by_contra hmore
          have hline' : '\n' ∉ more := fun h => hline (List.mem_cons_of_mem c h)
          obtain ⟨parts, hparts⟩ := exists_firstMatch?_body (List.forall_mem_nil _)
            (exists_firstMatch?_core hmore hline' hafter)
          exact hunmatched parts hparts
        subst hmore
        exact ⟨[], [c], after, rfl, @BodyIn.blank [] after c (List.forall_mem_nil _) hc
          (fun h => hline (by simp [h])) (newlines_of_no_match hafter hunmatched)⟩
    | false =>
      rw [firstMatch?_many_of_not (by simpa using hc), Option.map_eq_some_iff] at h
      obtain ⟨parts, hparts, rfl⟩ := h
      obtain ⟨c', more, after, rfl, hsplit, hline, hafter, hlast⟩ := of_firstMatch?_core hparts
      obtain ⟨rfl, rfl⟩ := List.cons.inj hsplit
      exact ⟨[], c :: more, after, rfl,
        @BodyIn.text [] (c :: more) after (List.forall_mem_nil _) (Text.bare_cons hc hlast) hline
          hafter⟩

/-- The part of a match that is the body. -/
def bodyPart? : List (List Char) → Option (List Char)
  | [_, body, _, _] => some body
  | _ => none

theorem bodyOf_eq_firstMatch? (rest : List Char) :
    bodyOf rest = (firstMatch? bodyPattern rest).bind bodyPart? := by
  cases hmatch : firstMatch? bodyPattern rest with
  | none =>
    rw [Option.bind_none, Option.eq_none_iff_forall_ne_some]
    intro body hbody
    obtain ⟨parts, hparts⟩ := (bodyOf_eq_some_iff.mp hbody).exists_firstMatch?
    rw [hmatch] at hparts
    cases hparts
  | some parts =>
    obtain ⟨before, body, after, rfl, hbody⟩ := of_firstMatch?_body hmatch
    exact bodyOf_eq_some_iff.mpr hbody

/-- White space in front of a character that is none is matched in one way only. -/
theorem firstMatch?_blanks_one {admits : Char → Bool} {pieces : Pattern}
    (h : ∀ c, isBlank c = true → admits c = false) (text : List Char) :
    firstMatch? (.many isBlank :: .one admits :: pieces) text =
      match stripLeft text with
      | [] => none
      | c :: rest =>
        if admits c then
          (firstMatch? pieces rest).map fun parts => text.takeWhile isBlank :: [c] :: parts
        else none := by
  -- giving back a blank does not help, since the next piece admits none
  have hblocked : ∀ c rest, isBlank c = true →
      firstMatch? (.one admits :: pieces) (c :: rest) = none := by
    intro c rest hc
    rw [firstMatch?_one_cons, h c hc, if_neg Bool.false_ne_true]
  rw [firstMatch?_many_of_blocked hblocked, stripLeft]
  cases text.dropWhile isBlank with
  | nil => rfl
  | cons c rest =>
    rw [firstMatch?_one_cons]
    dsimp only
    split
    · rw [Option.map_map]
      rfl
    · rfl

theorem ofParts?_eq (before subject between relation : List Char) (parts : List (List Char)) :
    ofParts? (before :: subject :: between :: relation :: parts) =
      (bodyPart? parts).map fun body => ⟨relation = [modelsGlyph], String.ofList body⟩ := by
  rcases parts with - | ⟨_, - | ⟨_, - | ⟨_, - | ⟨_, - | _⟩⟩⟩⟩ <;> rfl

theorem afterSubject_eq_firstMatch? (before subject : List Char) (text : List Char) :
    afterSubject text =
      (firstMatch? (.many isBlank ::
        .one (fun c => c = modelsGlyph || c = notModelsGlyph) :: bodyPattern) text).bind
          fun parts => ofParts? (before :: subject :: parts) := by
  -- the relations are not blanks, so all blanks are taken in front of them
  have hrelation : ∀ c, isBlank c = true →
      (decide (c = modelsGlyph) || decide (c = notModelsGlyph)) = false := by
    intro c hc
    rw [Bool.or_eq_false_iff, decide_eq_false_iff_not, decide_eq_false_iff_not]
    constructor
    · rintro rfl
      cases hc
    · rintro rfl
      cases hc
  rw [firstMatch?_blanks_one hrelation, afterSubject]
  cases stripLeft text with
  | nil => rfl
  | cons relation tail =>
    dsimp only
    rw [bodyOf_eq_firstMatch?]
    by_cases hmodels : relation = modelsGlyph
    · rw [if_pos hmodels, if_pos (by simp [hmodels])]
      cases firstMatch? bodyPattern tail with
      | none => rfl
      | some parts => simp [ofParts?_eq, hmodels]
    · rw [if_neg hmodels]
      by_cases hnotModels : relation = notModelsGlyph
      · rw [if_pos hnotModels, if_pos (by simp [hnotModels])]
        cases firstMatch? bodyPattern tail with
        | none => rfl
        | some parts => simp [ofParts?_eq, hmodels]
      · rw [if_neg hnotModels, if_neg (by simp [hmodels, hnotModels])]
        rfl

/-- Reading finds what the pattern matches. -/
theorem ofChars?_eq_firstMatch? (text : List Char) :
    ofChars? text = (firstMatch? pattern text).bind ofParts? := by
  -- the subject is not a blank, so all blanks are taken in front of it
  have hsubject : ∀ c, isBlank c = true → decide (c = 'I') = false := by
    intro c hc
    rw [decide_eq_false_iff_not]
    rintro rfl
    cases hc
  rw [pattern, firstMatch?_blanks_one hsubject, ofChars?]
  cases stripLeft text with
  | nil => rfl
  | cons c rest =>
    dsimp only
    by_cases hc : c = 'I'
    · subst hc
      rw [if_pos (decide_eq_true rfl), Option.bind_map]
      exact afterSubject_eq_firstMatch? _ _ rest
    · rw [if_neg (by simpa using hc)]
      split
      · next heq =>
        cases heq
        exact absurd rfl hc
      · rfl

/-! ## The pattern of literals -/

/-- The pattern of bodies that are literals. -/
def literalPattern : Pattern :=
  [.optional fun c => c = '¬', .many isBlank, .one Char.isLower, .stop]

/-- The letter that the parts of a match name, and whether it is negated. -/
def literalOfParts? : List (List Char) → Option (Bool × Letter)
  | [sign, _, [c], _] => (Letter.ofChar? c).map fun x => (sign = ['¬'], x)
  | _ => none

/-- In a text without newlines, white space and a letter are matched up to the end. -/
theorem firstMatch?_letterAlone (hline : '\n' ∉ text) (sign : List Char) :
    ((firstMatch? [.many isBlank, .one Char.isLower, .stop] text).bind fun parts =>
        literalOfParts? (sign :: parts)) =
      (letterAlone? text).map fun x => (decide (sign = ['¬']), x) := by
  -- letters are not blanks, so all blanks are taken in front of the letter
  have hletter : ∀ c, isBlank c = true → c.isLower = false := by
    intro c hc
    rw [Bool.eq_false_iff]
    intro hlower
    rw [isBlank_char ⟨c, hlower⟩] at hc
    cases hc
  rw [firstMatch?_blanks_one hletter, letterAlone?]
  cases hstrip : stripLeft text with
  | nil => rfl
  | cons c rest =>
    -- the pattern could end in front of a line break, but the body has none
    have hrest : rest ≠ ['\n'] := by
      rintro rfl
      have hmem : '\n' ∈ stripLeft text := by simp [hstrip]
      exact hline ((List.dropWhile_suffix isBlank).subset hmem)
    dsimp only
    rw [firstMatch?_stop]
    cases rest with
    | nil =>
      rw [if_pos (Or.inl rfl)]
      by_cases hlower : c.isLower = true
      · rw [if_pos hlower]
        rfl
      · have hnone : Letter.ofChar? c = none := dif_neg hlower
        rw [if_neg hlower]
        show none = (Letter.ofChar? c).map _
        rw [hnone]
        rfl
    | cons d rest =>
      have hnot : ¬ (d :: rest = [] ∨ d :: rest = ['\n']) := by simpa using hrest
      rw [if_neg hnot]
      split <;> rfl

/-- Reading a literal finds what its pattern matches. -/
theorem bodyLiteral?_eq_firstMatch? (hline : '\n' ∉ body) :
    bodyLiteral? body = (firstMatch? literalPattern body).bind literalOfParts? := by
  rw [literalPattern, firstMatch?_optional]
  cases body with
  | nil => rfl
  | cons c rest =>
    have hrest : '\n' ∉ rest := fun h => hline (List.mem_cons_of_mem c h)
    rw [firstMatch?_one_cons]
    by_cases hc : c = '¬'
    · subst hc
      -- a negation sign is no letter, so there is no match without it
      have hhead : ∀ c ∈ ('¬' :: rest).head?, isBlank c = false := by
        rintro c hc
        cases hc
        decide
      have hunsigned :
          firstMatch? [.many isBlank, .one Char.isLower, .stop] ('¬' :: rest) = none := by
        rw [firstMatch?_many_of_not hhead, firstMatch?_one_cons]
        rfl
      rw [if_pos (decide_eq_true rfl), hunsigned, Option.map_none, Option.or_none, Option.bind_map,
        bodyLiteral?_negated]
      exact (firstMatch?_letterAlone hrest ['¬']).symm
    · have hhead : (c :: rest).head? ≠ some '¬' := by simpa using hc
      rw [if_neg (by simpa using hc), Option.none_or, Option.bind_map, bodyLiteral?_plain hhead]
      exact (firstMatch?_letterAlone hline []).symm

/-- An assertion has something in its body, so a check for a missing body never fails. -/
theorem Says.body_ne_empty (h : Says text a) : a.body ≠ "" := fun hempty =>
  h.body_ne_nil (by rw [hempty]; rfl)

/-- **Exactly the texts that have the parts of an assertion are read as one**, whatever their white
space and their newlines, and what is read is what the pattern of assertions matches first.  The
body that is found is never empty, so that a check for an empty body changes nothing.  An
interpretation is an assertion whose body is a literal, and gives the letter the value for which the
assertion is right; every other text is refused. -/
theorem read_exact (input : Input) :
    (∀ a, read input = .ok a ↔ Says input.content.toList a) ∧
    (∀ e, read input = .error e ↔
      (∀ a, ¬ Says input.content.toList a) ∧ e = .assertion input) ∧
    (read input).toOption = (firstMatch? pattern input.content.toList).bind ofParts? ∧
    (∀ a, Says input.content.toList a →
      a.body ≠ "" ∧
      bodyLiteral? a.body.toList =
        (firstMatch? literalPattern a.body.toList).bind literalOfParts?) ∧
    (∀ e : Error,
      (read input >>= fun a => if a.body.isEmpty then .error e else .ok a) = read input) ∧
    (∀ s, readInterpretation input = .ok s ↔
      ∃ a negated x, Says input.content.toList a ∧ LiteralIn a.body.toList negated x ∧
        s = Table.ofList [(x, xor a.holds negated)]) ∧
    (∀ e, readInterpretation input = .error e ↔
      (∀ a, ¬ Says input.content.toList a) ∧ e = .assertion input ∨
      ∃ a, Says input.content.toList a ∧ (∀ negated x, ¬ LiteralIn a.body.toList negated x) ∧
        e = .literal a.body) := by
  have hmatch :
      (read input).toOption = (firstMatch? pattern input.content.toList).bind ofParts? := by
    rw [← ofChars?_eq_firstMatch?, read]
    cases ofChars? input.content.toList <;> rfl
  -- the check for an empty body comes after the pattern, which refuses empty bodies
  have hchecked : ∀ e : Error,
      (read input >>= fun a => if a.body.isEmpty then .error e else .ok a) = read input := by
    intro e
    cases hread : read input with
    | error => rfl
    | ok a =>
      have hbody : a.body.isEmpty = false := by
        rw [Bool.eq_false_iff, Ne, String.isEmpty_iff]
        exact (read_eq_ok_iff.mp hread).body_ne_empty
      show (if a.body.isEmpty then _ else _) = _
      rw [hbody, if_neg Bool.false_ne_true]
  exact ⟨fun a => read_eq_ok_iff, fun e => read_eq_error_iff, hmatch,
    fun a ha => ⟨ha.body_ne_empty, bodyLiteral?_eq_firstMatch? ha.newline_notMem⟩, hchecked,
    fun s => readInterpretation_eq_ok_iff, fun e => readInterpretation_eq_error_iff⟩

example : ofChars? "I⊨ \t\n".toList = some ⟨true, "\t"⟩ := by decide

end Assertion

end Propositional
