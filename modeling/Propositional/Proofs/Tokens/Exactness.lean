import Propositional.Proofs.Reading

/-!
# Scanning is exact

A text is cut into its characters other than separators: each is a token of its own, at its own
place and of the class that the table of signs gives to it.  Only a character that is neither a
separator nor in the table stops this, and then the first such character is the error, because the
whole text is scanned before any of it is read.

Separators move the tokens, and nothing else.  A token leads the reader to the same state wherever
it stands, so texts that differ in separators alone are read as the same formula, or fail with
errors that differ in the place alone.

* `Token.classOf?`, `Token.classOf?_eq_some_iff` — the table of signs, and that it is the one
  scanned with;
* `Token.Foreign`, `Token.foreign_iff` — characters that are neither separators nor in the table;
* `Token.Cuts`, `Token.cuts_of_scan`   — what the tokens of a text are;
* `SyntaxError.unplaced`               — an error without its place;
* `Token.found_scanFrom`               — what scanning finds, apart from places, does not depend on
  separators;
* `Reader.step_unplaced`, `Reader.run_unplaced` — neither does where tokens lead the reader;
* `Token.scan_exact`                   — all of this about texts over letters.
-/

namespace Propositional

variable {α : Type}

namespace Token

/-! ## The classes of characters -/

/-- The classes of the signs. -/
def signClasses : List (Char × String) :=
  [('¬', "NOT"), ('∧', "AND"), ('∨', "OR"), ('→', "IMPLIES"), ('↔', "IFF"), ('⊤', "TOP"),
    ('⊥', "BOTTOM"), ('(', "LPAREN"), (')', "RPAREN")]

/-- The class of the token that a character makes, if it makes one: letters are variables, and the
other characters are looked up. -/
def classOf? (c : Char) : Option String :=
  if 'a' ≤ c ∧ c ≤ 'z' then some "VAR" else signClasses.lookup c

/-- A character that is neither skipped nor makes a token. -/
def Foreign (c : Char) : Prop :=
  isSeparator c = false ∧ classOf? c = none

instance (c : Char) : Decidable (Foreign c) :=
  inferInstanceAs (Decidable (_ ∧ _))

/-- A symbol over letters is of the class that the table gives to its character. -/
theorem classOf?_glyph (s : Symbol Letter) : classOf? s.glyph = some s.className := by
  cases s with
  | atom a => exact if_pos (Letter.isLower_iff.mp a.isLower)
  | const b => cases b <;> rfl
  | neg => rfl
  | op c => cases c <;> rfl
  | leftParen => rfl
  | rightParen => rfl

theorem classOf?_eq_some_iff {c : Char} {name : String} :
    classOf? c = some name ↔ ∃ s : Symbol Letter, s.glyph = c ∧ s.className = name := by
  constructor
  · intro h
    have hglyph : ∃ s : Symbol Letter, s.glyph = c := by
      unfold classOf? at h
      split at h
      · next hc => exact ⟨.atom ⟨c, Letter.isLower_iff.mpr hc⟩, rfl⟩
      · obtain ⟨before, after, hsigns, -⟩ := List.lookup_eq_some_iff.mp h
        have hmem : (c, name) ∈ signClasses := by rw [hsigns]; simp
        have hread : ∀ entry ∈ signClasses,
            (Symbol.ofChar? entry.1 : Option (Symbol Letter)).isSome = true := by decide
        obtain ⟨s, hs⟩ := Option.isSome_iff_exists.mp (hread _ hmem)
        exact ⟨s, Symbol.ofChar?_eq_some_iff.mp hs⟩
    obtain ⟨s, rfl⟩ := hglyph
    rw [classOf?_glyph, Option.some.injEq] at h
    exact ⟨s, rfl, h⟩
  · rintro ⟨s, rfl, rfl⟩
    exact classOf?_glyph s

theorem foreign_iff {c : Char} : Foreign c ↔ ¬ InAlphabet Letter c := by
  have hnone : classOf? c = none ↔ ¬ ∃ s : Symbol Letter, s.glyph = c := by
    simp [Option.eq_none_iff_forall_ne_some, classOf?_eq_some_iff]
  rw [Foreign, hnone, InAlphabet, not_or, Bool.not_eq_true]

theorem not_foreign_iff {c : Char} : ¬ Foreign c ↔ InAlphabet Letter c := by
  rw [foreign_iff, Classical.not_not]

/-! ## The tokens of a text -/

/-- What the tokens of a text are: its characters other than separators, in order and each with its
index. -/
structure Cuts (tokens : List (Token Letter)) (text : String) : Prop where
  characters : tokens.map (fun t => (t.glyph, t.index)) =
    text.toList.zipIdx.filter fun placed => !isSeparator placed.1
  -- Each is of the class of its character, and its value is what the text has at its place.
  class_eq : ∀ t ∈ tokens, classOf? t.glyph = some t.symbol.className
  value_eq : ∀ t ∈ tokens, text.toList.extract t.index t.stop = [t.glyph]
  stop_eq : ∀ t ∈ tokens, t.stop = t.index + 1
  ordered : tokens.Pairwise fun t u => t.index < u.index

theorem cuts_of_scan {text : String} {tokens : List (Token Letter)} (h : scan text = .ok tokens) :
    Cuts tokens text := by
  have hcharacters := map_of_scanFrom h
  refine ⟨hcharacters, fun t _ => classOf?_glyph t.symbol, ?_, fun _ _ => rfl,
    (pairwise_of_scanFrom h).2⟩
  intro t ht
  have hplaced : (t.glyph, t.index) ∈ tokens.map fun t => (t.glyph, t.index) :=
    List.mem_map_of_mem ht
  rw [hcharacters, List.mem_filter, List.mem_zipIdx_iff_getElem?] at hplaced
  obtain ⟨hlt, hchar⟩ : ∃ hlt : t.index < text.toList.length, text.toList[t.index] = t.glyph :=
    List.getElem?_eq_some_iff.mp hplaced.1
  rw [List.extract_eq_take_drop, stop, Nat.add_sub_cancel_left, List.drop_eq_getElem_cons hlt,
    List.take_succ_cons, List.take_zero, hchar]

/-- A text with foreign characters has a first one. -/
theorem exists_first_foreign {text : List Char} (h : ∃ c ∈ text, Foreign c) :
    ∃ before c after, text = before ++ c :: after ∧ (∀ d ∈ before, ¬ Foreign d) ∧ Foreign c := by
  obtain ⟨d, hd, hforeign⟩ := h
  have hfound : (text.find? fun c => decide (Foreign c)).isSome = true :=
    List.find?_isSome.mpr ⟨d, hd, decide_eq_true hforeign⟩
  obtain ⟨c, hc⟩ := Option.isSome_iff_exists.mp hfound
  obtain ⟨hc, before, after, htext, hbefore⟩ := List.find?_eq_some_iff_append.mp hc
  refine ⟨before, c, after, htext, fun d hd => ?_, of_decide_eq_true hc⟩
  simpa using hbefore d hd

/-- The first foreign character of a text is its error, whatever stands around it. -/
theorem scan_eq_error {text : String} {before after : List Char} {c : Char}
    (htext : text.toList = before ++ c :: after) (hbefore : ∀ d ∈ before, ¬ Foreign d)
    (hc : Foreign c) : scan (α := Letter) text = .error (.invalidCharacter c before.length) := by
  have halphabet : ∀ d ∈ before, InAlphabet Letter d := fun d hd =>
    not_foreign_iff.mp (hbefore d hd)
  rw [scan, htext, scanFrom_eq_error halphabet (foreign_iff.mp hc), Nat.zero_add]

end Token

/-! ## Places do not matter -/

/-- An error without the place that it names. -/
def SyntaxError.unplaced : SyntaxError → SyntaxError
  | .invalidCharacter character _ => .invalidCharacter character 0
  | .unexpectedToken glyph _ => .unexpectedToken glyph 0
  | .trailingTokens glyph _ => .trailingTokens glyph 0
  | .absent => .absent
  | .unexpectedEnd => .unexpectedEnd
  | .missingParenthesis => .missingParenthesis

/-- The same of the error that an analysis ends with. -/
def Error.unplaced : Error → Error
  | .formula reason => .formula reason.unplaced
  | other => other

namespace SyntaxError

variable {β γ : Type} {x y : Except SyntaxError β}

/-- Two outcomes agree up to places when their results look the same, or their errors differ in the
place alone. -/
theorem map_unplaced_eq_iff {view : β → γ} :
    (x.mapError unplaced).map view = (y.mapError unplaced).map view ↔
      (∃ b b', x = .ok b ∧ y = .ok b' ∧ view b = view b') ∨
        ∃ e e', x = .error e ∧ y = .error e' ∧ e.unplaced = e'.unplaced := by
  constructor
  · intro h
    cases x with
    | ok b =>
      cases y with
      | ok b' => exact Or.inl ⟨b, b', rfl, rfl, Except.ok.inj h⟩
      | error e' => cases h
    | error e =>
      cases y with
      | ok b' => cases h
      | error e' => exact Or.inr ⟨e, e', rfl, rfl, Except.error.inj h⟩
  · rintro (⟨b, b', rfl, rfl, hview⟩ | ⟨e, e', rfl, rfl, hplace⟩)
    · exact congrArg Except.ok hview
    · exact congrArg Except.error hplace

theorem mapError_unplaced_eq_iff :
    x.mapError unplaced = y.mapError unplaced ↔
      (∃ b b', x = .ok b ∧ y = .ok b' ∧ b = b') ∨
        ∃ e e', x = .error e ∧ y = .error e' ∧ e.unplaced = e'.unplaced := by
  have h := @map_unplaced_eq_iff β β x y id
  rw [Except.map_id] at h
  exact h

end SyntaxError

variable [Atom α]

/-- What scanning has found, apart from the places: the symbols, or the character that is none. -/
def Token.found (scanned : Except SyntaxError (List (Token α))) :
    Except SyntaxError (List (Symbol α)) :=
  (scanned.mapError SyntaxError.unplaced).map fun tokens => tokens.map (·.symbol)

/-- Scanning finds the same without the separators, and from any index on. -/
theorem Token.found_scanFrom (text : List Char) (index index' : Nat) :
    found (scanFrom (α := α) index text) = found (scanFrom index' (withoutSeparators text)) := by
  -- a separator moves one index and not the other, so they are independent
  induction text generalizing index index' with
  | nil => rfl
  | cons c rest ih =>
    cases hsep : isSeparator c with
    | true =>
      rw [scanFrom, if_pos hsep, withoutSeparators_cons_of_separator hsep]
      exact ih (index + 1) index'
    | false =>
      rw [withoutSeparators_cons_of_kept hsep, scanFrom, scanFrom, hsep]
      cases (Symbol.ofChar? c : Option (Symbol α)) with
      | none => rfl
      | some s =>
        rcases SyntaxError.map_unplaced_eq_iff.mp (ih (index + 1) (index' + 1)) with
          ⟨later, later', hscan, hscan', hsymbols⟩ | ⟨e, e', hscan, hscan', hplace⟩
        · rw [hscan, hscan']
          exact SyntaxError.map_unplaced_eq_iff.mpr
            (Or.inl ⟨_, _, rfl, rfl, congrArg (List.cons s) hsymbols⟩)
        · rw [hscan, hscan']
          exact SyntaxError.map_unplaced_eq_iff.mpr (Or.inr ⟨e, e', rfl, rfl, hplace⟩)

namespace Reader

/-- Tokens with the same symbol lead to the same state, or to errors that differ in the place
alone. -/
theorem step_unplaced (r : Reader α) {t u : Token α} (h : t.symbol = u.symbol) :
    (r.step t).mapError SyntaxError.unplaced = (r.step u).mapError SyntaxError.unplaced := by
  obtain ⟨symbol, i⟩ := t
  obtain ⟨_, j⟩ := u
  obtain rfl : symbol = _ := h
  obtain ⟨stack, operand⟩ := r
  cases operand with
  | none => cases symbol <;> rfl
  | some f =>
    -- what is open and the symbol decide; the token is named in the errors only
    simp only [step, stepOperator]
    cases symbol with
    | op op => rfl
    | _ =>
      dsimp only
      split <;> rfl

/-- Neither does it matter where the tokens of a row stand. -/
theorem run_unplaced (r : Reader α) {tokens tokens' : List (Token α)}
    (h : tokens.map (·.symbol) = tokens'.map (·.symbol)) :
    (r.run tokens).mapError SyntaxError.unplaced =
      (r.run tokens').mapError SyntaxError.unplaced := by
  induction tokens generalizing r tokens' with
  | nil =>
    obtain rfl := List.map_eq_nil_iff.mp h.symm
    rfl
  | cons t rest ih =>
    obtain ⟨u, rest', rfl, hsymbol, hrest⟩ := List.map_eq_cons_iff.mp h.symm
    rw [run, run]
    rcases SyntaxError.mapError_unplaced_eq_iff.mp (r.step_unplaced hsymbol.symm) with
      ⟨next, _, ht, hu, rfl⟩ | ⟨e, e', ht, hu, hplace⟩
    · rw [ht, hu]
      exact ih next hrest.symm
    · rw [ht, hu]
      exact congrArg Except.error hplace

end Reader

namespace Formula

theorem ofTokens_unplaced {tokens tokens' : List (Token α)}
    (h : tokens.map (·.symbol) = tokens'.map (·.symbol)) :
    (ofTokens tokens).mapError SyntaxError.unplaced =
      (ofTokens tokens').mapError SyntaxError.unplaced := by
  rw [ofTokens, ofTokens]
  rcases SyntaxError.mapError_unplaced_eq_iff.mp (Reader.start.run_unplaced h) with
    ⟨r, _, hrun, hrun', rfl⟩ | ⟨e, e', hrun, hrun', hplace⟩
  · rw [hrun, hrun']
  · rw [hrun, hrun']
    exact congrArg Except.error hplace

/-- Texts that differ in separators alone are read alike, up to the place that an error names. -/
theorem read_unplaced {text other : String}
    (h : withoutSeparators text.toList = withoutSeparators other.toList) :
    (read (α := α) text).mapError SyntaxError.unplaced =
      (read other).mapError SyntaxError.unplaced := by
  have hfound : Token.found (Token.scan (α := α) text) = Token.found (Token.scan other) := by
    rw [Token.scan, Token.scan, Token.found_scanFrom text.toList 0 0, h, ← Token.found_scanFrom]
  rw [read, read]
  rcases SyntaxError.map_unplaced_eq_iff.mp hfound with
    ⟨tokens, tokens', hscan, hscan', hsymbols⟩ | ⟨e, e', hscan, hscan', hplace⟩
  · rw [hscan, hscan']
    exact ofTokens_unplaced hsymbols
  · rw [hscan, hscan']
    exact congrArg Except.error hplace

end Formula

/-- An analysis ends like the reader, so what holds of reading up to places holds of it. -/
theorem Checked.run_readFormula_unplaced {text other : String}
    (h : (Formula.read (α := Letter) text).mapError SyntaxError.unplaced =
      (Formula.read other).mapError SyntaxError.unplaced) (threshold : Level) :
    ((readFormula (.text text)).run threshold).2.mapError Error.unplaced =
      ((readFormula (.text other)).run threshold).2.mapError Error.unplaced := by
  rw [run_readFormula_text, run_readFormula_text]
  rcases SyntaxError.mapError_unplaced_eq_iff.mp h with
    ⟨f, _, hread, hread', rfl⟩ | ⟨e, e', hread, hread', hplace⟩
  · rw [hread, hread']
  · rw [hread, hread']
    exact congrArg (fun reason => Except.error (Error.formula reason)) hplace

namespace Token

/-- **Scanning is exact.**  A text with a foreign character is refused by the scanner and by the
reader: the error names the first such character with its index, whatever else is wrong with the
text.  Any other text is cut into its characters other than separators.  Texts that differ in
separators alone have the same formula, or errors that differ in the place alone. -/
theorem scan_exact (text : String) :
    ((∃ c ∈ text.toList, Foreign c) →
      ∃ before c after, text.toList = before ++ c :: after ∧ (∀ d ∈ before, ¬ Foreign d) ∧
        Foreign c ∧
        scan (α := Letter) text = .error (.invalidCharacter c before.length) ∧
        Formula.read (α := Letter) text = .error (.invalidCharacter c before.length) ∧
        ∀ threshold, ((Checked.readFormula (.text text)).run threshold).2 =
          .error (.formula (.invalidCharacter c before.length))) ∧
    ((∀ c ∈ text.toList, ¬ Foreign c) → ∃ tokens, scan text = .ok tokens ∧ Cuts tokens text) ∧
    ∀ other : String, withoutSeparators text.toList = withoutSeparators other.toList →
      (Formula.read (α := Letter) text).mapError SyntaxError.unplaced =
          (Formula.read other).mapError SyntaxError.unplaced ∧
        ∀ threshold,
          ((Checked.readFormula (.text text)).run threshold).2.mapError Error.unplaced =
            ((Checked.readFormula (.text other)).run threshold).2.mapError Error.unplaced := by
  refine ⟨?_, ?_, ?_⟩
  · intro hforeign
    -- the scan stops at the first foreign character
    obtain ⟨before, c, after, htext, hbefore, hc⟩ := exists_first_foreign hforeign
    have hscan := scan_eq_error htext hbefore hc
    have hread : Formula.read (α := Letter) text =
        .error (.invalidCharacter c before.length) := by rw [Formula.read, hscan]
    refine ⟨before, c, after, htext, hbefore, hc, hscan, hread, fun threshold => ?_⟩
    rw [Checked.run_readFormula_text, hread]
  · intro halphabet
    obtain ⟨tokens, hscan⟩ := exists_scanFrom_eq_ok_iff.mpr fun c hc =>
      not_foreign_iff.mp (halphabet c hc)
    exact ⟨tokens, hscan, cuts_of_scan hscan⟩
  · intro other hother
    have hread : (Formula.read (α := Letter) text).mapError SyntaxError.unplaced =
        (Formula.read other).mapError SyntaxError.unplaced := Formula.read_unplaced hother
    exact ⟨hread, Checked.run_readFormula_unplaced hread⟩

/-- A parenthesis too many does not hide the question mark behind it, and a blank moves the variable
that cannot be read, but not the error. -/
theorem scan_exact_past_syntax_errors :
    ((∃ c ∈ "a ) ?b#".toList, Foreign c) ∧
      ∃ before after, "a ) ?b#".toList = before ++ '?' :: after ∧ before.length = 4 ∧
        ∀ d ∈ before, ¬ Foreign d) ∧
    ((∀ c ∈ "a b".toList, ¬ Foreign c) ∧ ∃ tokens, scan "a b" = .ok tokens ∧ Cuts tokens "a b") ∧
    withoutSeparators "a b".toList = withoutSeparators "ab".toList ∧
    Formula.read (α := Letter) "a b" = .error (.trailingTokens 'b' 2) ∧
    (Formula.read (α := Letter) "ab").mapError SyntaxError.unplaced =
      .error (.trailingTokens 'b' 0) := by
  have hforeign : ∃ c ∈ "a ) ?b#".toList, Foreign c := ⟨'?', by decide, by decide⟩
  have halphabet : ∀ c ∈ "a b".toList, ¬ Foreign c := fun c hc =>
    not_foreign_iff.mpr
      (exists_scanFrom_eq_ok_iff.mp ⟨_, show scanFrom 0 _ = .ok _ from rfl⟩ c hc)
  have hread : Formula.read (α := Letter) "a ) ?b#" = .error (.invalidCharacter '?' 4) := rfl
  have htrailing : Formula.read (α := Letter) "a b" = .error (.trailingTokens 'b' 2) := rfl
  obtain ⟨before, c, after, htext, hbefore, -, -, hfirst, -⟩ := (scan_exact _).1 hforeign
  rw [hread] at hfirst
  obtain ⟨rfl, hlength⟩ := SyntaxError.invalidCharacter.inj (Except.error.inj hfirst)
  obtain ⟨-, htokens, hblanks⟩ := scan_exact "a b"
  refine ⟨⟨hforeign, before, after, htext, hlength.symm, hbefore⟩,
    ⟨halphabet, htokens halphabet⟩, rfl, htrailing, ?_⟩
  rw [← (hblanks "ab" rfl).1, htrailing]
  rfl

end Token

end Propositional
