import Propositional.Token

/-!
# Symbols and the characters that write them

Every symbol is written with one character, which reads as that symbol and is no separator.  So a
text is cut into just the symbols that it is written with, wherever separators stand in it.

* `Symbol.isSeparator_glyph`, `Symbol.ofChar?_eq_some_iff` — the character of a symbol;
* `Formula.symbols`           — the symbols that a formula is written with;
* `Formula.glyphs_eq_map`     — the text of a formula consists of their characters;
* `InAlphabet`, `withoutSeparators`, `exists_symbols_iff` — texts over the alphabet;
* `Token.exists_scanFrom_iff`, `Token.exists_scanFrom_eq_ok_iff` — scanning finds the symbols that
  a text is written with, and succeeds on texts over the alphabet;
* `Token.scanFrom_eq_error`   — a text with a character outside the alphabet fails at the first one;
* `Token.pairwise_of_scanFrom`, `Token.map_of_scanFrom` — tokens stand in the order of their
  indices, each at the place of its character.
-/

namespace Propositional

variable {α : Type}

/-- The symbols that a formula is written with. -/
def Formula.symbols : Formula α → List (Symbol α)
  | .var a => [.atom a]
  | .const b => [.const b]
  | .neg f => .neg :: f.symbols
  | .bin op l r => .leftParen :: (l.symbols ++ .op op :: (r.symbols ++ [.rightParen]))

variable [Atom α]

namespace Symbol

/-- Atoms are written with letters, and no other symbol is. -/
theorem glyph_atom_ne {c : Char} (a : α) (hc : c.isAlpha = false) : Atom.glyph a ≠ c := by
  intro heq
  have halpha := Atom.isAlpha_glyph a
  rw [heq, hc] at halpha
  cases halpha

/-- No sign is a separator. -/
theorem isSeparator_glyph (s : Symbol α) : isSeparator s.glyph = false := by
  cases s with
  | atom a =>
    have hspace := glyph_atom_ne a (c := ' ') (by decide)
    have htab := glyph_atom_ne a (c := '\t') (by decide)
    have hreturn := glyph_atom_ne a (c := '\r') (by decide)
    have hnewline := glyph_atom_ne a (c := '\n') (by decide)
    simp [isSeparator, glyph, hspace, htab, hreturn, hnewline]
  | const b => cases b <;> rfl
  | neg => rfl
  | op c => cases c <;> rfl
  | leftParen => rfl
  | rightParen => rfl

theorem ofGlyph?_atom (a : α) : Connective.ofGlyph? (Atom.glyph a) = none := by
  rw [Option.eq_none_iff_forall_ne_some]
  intro op hop
  refine glyph_atom_ne a (c := op.glyph) ?_ (Connective.ofGlyph?_eq_some_iff.mp hop).symm
  cases op <;> decide

/-- The character of a symbol reads as that symbol. -/
theorem ofChar?_glyph (s : Symbol α) : ofChar? s.glyph = some s := by
  cases s with
  | atom a =>
    -- none of the tests for signs can succeed on a letter
    have hneg := glyph_atom_ne a (c := negationGlyph) (by decide)
    have htop := glyph_atom_ne a (c := truthGlyph true) (by decide)
    have hbottom := glyph_atom_ne a (c := truthGlyph false) (by decide)
    have hleft := glyph_atom_ne a (c := '(') (by decide)
    have hright := glyph_atom_ne a (c := ')') (by decide)
    have hread : Atom.ofGlyph? (Atom.glyph a) = some a := Atom.ofGlyph?_eq_some_iff.mpr rfl
    rw [glyph, ofChar?, if_neg hneg, if_neg htop, if_neg hbottom, if_neg hleft, if_neg hright,
      ofGlyph?_atom, hread]
    rfl
  | const b => cases b <;> rfl
  | neg => rfl
  | op c => cases c <;> rfl
  | leftParen => rfl
  | rightParen => rfl

/-- A character reads as the symbol that it writes, and as no other. -/
theorem ofChar?_eq_some_iff {c : Char} {s : Symbol α} : ofChar? c = some s ↔ s.glyph = c := by
  constructor
  · intro h
    unfold ofChar? at h
    split at h
    · next hc => cases h; exact hc.symm
    split at h
    · next hc => cases h; exact hc.symm
    split at h
    · next hc => cases h; exact hc.symm
    split at h
    · next hc => cases h; exact hc.symm
    split at h
    · next hc => cases h; exact hc.symm
    -- what is no sign is a connective or an atom
    split at h
    · next op hop =>
      cases h
      exact Connective.ofGlyph?_eq_some_iff.mp hop
    · obtain ⟨a, ha, rfl⟩ := Option.map_eq_some_iff.mp h
      exact Atom.ofGlyph?_eq_some_iff.mp ha
  · rintro rfl
    exact s.ofChar?_glyph

end Symbol

namespace Formula

/-- A formula is written as the signs of its symbols. -/
theorem glyphs_eq_map (f : Formula α) : f.glyphs = f.symbols.map Symbol.glyph := by
  induction f with
  | var a => rfl
  | const b => rfl
  | neg f ih => rw [glyphs, symbols, List.map_cons, ih, Symbol.glyph]
  | bin op l r ihl ihr =>
    rw [glyphs, symbols, ihl, ihr]
    simp [Symbol.glyph]

end Formula

/-! ## Scanning -/

/-- The characters that may stand in the text of a formula: the separators, and those that write a
symbol. -/
def InAlphabet (α : Type) [Atom α] (c : Char) : Prop :=
  isSeparator c = true ∨ ∃ s : Symbol α, s.glyph = c

/-- What is left of a text when the separators are taken out. -/
def withoutSeparators (text : List Char) : List Char :=
  text.filter fun c => !isSeparator c

theorem withoutSeparators_cons_of_separator {c : Char} (hc : isSeparator c = true)
    (rest : List Char) : withoutSeparators (c :: rest) = withoutSeparators rest := by
  rw [withoutSeparators, List.filter_cons, hc]
  rfl

theorem withoutSeparators_cons_of_kept {c : Char} (hc : isSeparator c = false)
    (rest : List Char) : withoutSeparators (c :: rest) = c :: withoutSeparators rest := by
  rw [withoutSeparators, List.filter_cons, hc]
  rfl

theorem withoutSeparators_cons_of_glyph (s : Symbol α) (rest : List Char) :
    withoutSeparators (s.glyph :: rest) = s.glyph :: withoutSeparators rest :=
  withoutSeparators_cons_of_kept s.isSeparator_glyph rest

/-- Signs contain nothing to leave out. -/
theorem withoutSeparators_map_glyph (symbols : List (Symbol α)) :
    withoutSeparators (symbols.map Symbol.glyph) = symbols.map Symbol.glyph := by
  induction symbols with
  | nil => rfl
  | cons s rest ih => rw [List.map_cons, withoutSeparators_cons_of_glyph, ih]

/-- The texts that are written with the symbols of some row are those over the alphabet. -/
theorem exists_symbols_iff {text : List Char} :
    (∃ w : List (Symbol α), withoutSeparators text = w.map Symbol.glyph) ↔
      ∀ c ∈ text, InAlphabet α c := by
  constructor
  · -- characters that are kept are written for symbols
    rintro ⟨w, hw⟩ c hc
    cases hsep : isSeparator c with
    | true => exact Or.inl hsep
    | false =>
      have hmem : c ∈ withoutSeparators text := List.mem_filter.mpr ⟨hc, by rw [hsep]; rfl⟩
      rw [hw, List.mem_map] at hmem
      obtain ⟨s, -, hs⟩ := hmem
      exact Or.inr ⟨s, hs⟩
  · intro h
    induction text with
    | nil => exact ⟨[], rfl⟩
    | cons c rest ih =>
      obtain ⟨w, hw⟩ := ih fun d hd => h d (List.mem_cons_of_mem _ hd)
      rcases h c List.mem_cons_self with hc | ⟨s, rfl⟩
      · exact ⟨w, by rw [withoutSeparators_cons_of_separator hc, hw]⟩
      · exact ⟨s :: w, by rw [withoutSeparators_cons_of_glyph, hw, List.map_cons]⟩

namespace Token

/-- Scanning passes over a separator, and makes a token of a character that writes a symbol. -/
theorem scanFrom_cons_eq_ok_iff {index : Nat} {c : Char} {rest : List Char}
    {tokens : List (Token α)} :
    scanFrom index (c :: rest) = .ok tokens ↔
      (isSeparator c = true ∧ scanFrom (index + 1) rest = .ok tokens) ∨
        ∃ s later, s.glyph = c ∧ scanFrom (index + 1) rest = .ok later ∧
          tokens = ⟨s, index⟩ :: later := by
  rw [scanFrom]
  -- no symbol is written as a separator, and none is written in two ways
  cases hc : isSeparator c with
  | true =>
    have hnone : ∀ s : Symbol α, s.glyph ≠ c := by
      rintro s rfl
      rw [s.isSeparator_glyph] at hc
      cases hc
    simp [hnone]
  | false =>
    cases hs : (Symbol.ofChar? c : Option (Symbol α)) with
    | none =>
      have hnone : ∀ s : Symbol α, s.glyph ≠ c := by
        rintro s rfl
        rw [s.ofChar?_glyph] at hs
        cases hs
      simp [hnone]
    | some s =>
      have hglyph : ∀ s' : Symbol α, s'.glyph = c ↔ s' = s := by
        intro s'
        rw [← Symbol.ofChar?_eq_some_iff, hs, Option.some.injEq, eq_comm]
      simp only [Bool.false_eq_true, if_false, false_and, false_or, hglyph, exists_and_left,
        exists_eq_left]
      cases (scanFrom (index + 1) rest : Except SyntaxError (List (Token α))) with
      | error e => simp
      | ok later => simp [eq_comm]

/-- Scanning finds a row of symbols exactly in the texts that are written with them, wherever
separators stand. -/
theorem exists_scanFrom_iff {index : Nat} {text : List Char} {w : List (Symbol α)} :
    (∃ tokens, scanFrom index text = .ok tokens ∧ tokens.map (·.symbol) = w) ↔
      withoutSeparators text = w.map Symbol.glyph := by
  -- the index changes with every character, whether or not it makes a token
  induction text generalizing index w with
  | nil =>
    rw [show withoutSeparators [] = [] from rfl, eq_comm (a := []), List.map_eq_nil_iff]
    constructor
    · rintro ⟨tokens, hscan, rfl⟩
      cases hscan
      rfl
    · rintro rfl
      exact ⟨[], rfl, rfl⟩
  | cons c rest ih =>
    constructor
    · rintro ⟨tokens, hscan, rfl⟩
      rcases scanFrom_cons_eq_ok_iff.mp hscan with ⟨hc, hrest⟩ | ⟨s, later, rfl, hrest, rfl⟩
      · rw [withoutSeparators_cons_of_separator hc]
        exact ih.mp ⟨tokens, hrest, rfl⟩
      · rw [withoutSeparators_cons_of_glyph, ih.mp ⟨later, hrest, rfl⟩, List.map_cons,
          List.map_cons]
    · intro h
      cases hc : isSeparator c with
      | true =>
        rw [withoutSeparators_cons_of_separator hc] at h
        obtain ⟨tokens, hscan, hsymbols⟩ := (@ih (index + 1) _).mpr h
        exact ⟨tokens, scanFrom_cons_eq_ok_iff.mpr (Or.inl ⟨hc, hscan⟩), hsymbols⟩
      | false =>
        rw [withoutSeparators_cons_of_kept hc] at h
        obtain ⟨s, w, rfl, rfl, hw⟩ := List.map_eq_cons_iff.mp h.symm
        obtain ⟨later, hscan, rfl⟩ := (@ih (index + 1) _).mpr hw.symm
        exact ⟨⟨s, index⟩ :: later,
          scanFrom_cons_eq_ok_iff.mpr (Or.inr ⟨s, later, rfl, hscan, rfl⟩), rfl⟩

/-- Scanning succeeds on the texts over the alphabet. -/
theorem exists_scanFrom_eq_ok_iff {index : Nat} {text : List Char} :
    (∃ tokens : List (Token α), scanFrom index text = .ok tokens) ↔
      ∀ c ∈ text, InAlphabet α c := by
  rw [← exists_symbols_iff]
  constructor
  · rintro ⟨tokens, hscan⟩
    exact ⟨_, exists_scanFrom_iff.mp ⟨tokens, hscan, rfl⟩⟩
  · rintro ⟨w, hw⟩
    obtain ⟨tokens, hscan, -⟩ := exists_scanFrom_iff.mpr hw
    exact ⟨tokens, hscan⟩

/-- Characters of symbols are cut into these symbols. -/
theorem scanFrom_map_glyph (symbols : List (Symbol α)) (index : Nat) :
    ∃ tokens, scanFrom index (symbols.map Symbol.glyph) = .ok tokens ∧
      tokens.map (·.symbol) = symbols :=
  exists_scanFrom_iff.mpr (withoutSeparators_map_glyph symbols)

/-- A character that is no separator and writes no symbol ends the scan, when all characters in
front of it are in the alphabet.  What follows it is not looked at. -/
theorem scanFrom_eq_error {index : Nat} {before after : List Char} {c : Char}
    (hbefore : ∀ d ∈ before, InAlphabet α d) (hc : ¬ InAlphabet α c) :
    scanFrom (α := α) index (before ++ c :: after) =
      .error (.invalidCharacter c (index + before.length)) := by
  induction before generalizing index with
  | nil =>
    have hsep : isSeparator c = false := Bool.eq_false_iff.mpr fun h => hc (Or.inl h)
    have hnone : (Symbol.ofChar? c : Option (Symbol α)) = none :=
      Option.eq_none_iff_forall_ne_some.mpr fun s hs =>
        hc (Or.inr ⟨s, Symbol.ofChar?_eq_some_iff.mp hs⟩)
    rw [List.nil_append, scanFrom, hsep, hnone]
    rfl
  | cons d rest ih =>
    -- the foreign character is one place closer behind the first one
    have hrest : scanFrom (α := α) (index + 1) (rest ++ c :: after) =
        .error (.invalidCharacter c (index + (d :: rest).length)) := by
      rw [ih fun e he => hbefore e (List.mem_cons_of_mem _ he), List.length_cons,
        Nat.add_right_comm, Nat.add_assoc]
    rw [List.cons_append, scanFrom]
    rcases hbefore d List.mem_cons_self with hd | ⟨s, rfl⟩
    · rw [if_pos hd, hrest]
    · simp [s.isSeparator_glyph, s.ofChar?_glyph, hrest]

/-- Tokens stand in the order of their indices. -/
theorem pairwise_of_scanFrom {index : Nat} {text : List Char} {tokens : List (Token α)}
    (h : scanFrom index text = .ok tokens) :
    (∀ t ∈ tokens, index ≤ t.index) ∧ tokens.Pairwise fun t u => t.index < u.index := by
  induction text generalizing index tokens with
  | nil =>
    cases h
    simp
  | cons c rest ih =>
    rcases scanFrom_cons_eq_ok_iff.mp h with ⟨-, hscan⟩ | ⟨s, later, -, hscan, rfl⟩
    · obtain ⟨hle, hordered⟩ := ih hscan
      exact ⟨fun t ht => Nat.le_of_succ_le (hle t ht), hordered⟩
    · obtain ⟨hle, hordered⟩ := ih hscan
      refine ⟨?_, List.pairwise_cons.mpr ⟨hle, hordered⟩⟩
      intro t ht
      rcases List.mem_cons.mp ht with rfl | ht
      · exact Nat.le_refl _
      · exact Nat.le_of_succ_le (hle t ht)

/-- The tokens of a text are its characters other than separators, each with its index. -/
theorem map_of_scanFrom {index : Nat} {text : List Char} {tokens : List (Token α)}
    (h : scanFrom index text = .ok tokens) :
    tokens.map (fun t => (t.glyph, t.index)) =
      (text.zipIdx index).filter fun placed => !isSeparator placed.1 := by
  induction text generalizing index tokens with
  | nil =>
    cases h
    rfl
  | cons c rest ih =>
    rw [List.zipIdx_cons, List.filter_cons]
    rcases scanFrom_cons_eq_ok_iff.mp h with ⟨hc, hscan⟩ | ⟨s, later, rfl, hscan, rfl⟩
    · rw [hc, ih hscan]
      rfl
    · rw [s.isSeparator_glyph, List.map_cons, ih hscan]
      rfl

end Token

end Propositional
