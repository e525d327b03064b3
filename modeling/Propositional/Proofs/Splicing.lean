import Propositional.Interpretation.Template
import Propositional.Proofs.Grammar
import Propositional.Proofs.Lists

/-!
# Splicing the text of a formula into a body

Putting the text of a formula in parentheses in place of the placeholder, and reading the result,
is the same as reading the body with the placeholder as an atom and filling the formula in.

On the spliced tokens the reader does what it does on the tokens of the body, with every formula in
its state filled: the tokens that stand for a placeholder lead to the formula itself as an operand,
because it is a group of its own.

* `Symbol.splice`             — the symbols that stand for one of a body;
* `Reader.fill`, `Reader.reduce_fill` — a state with its formulas filled in;
* `Reader.step_splice`, `Reader.run_splice` — a token, and a row of tokens;
* `Formula.read_splice`       — texts;
* `Formula.spliced_reads_as_filled` — which bodies read, and as what.
-/

namespace Propositional

theorem toOption_eq_some_iff {ε β : Type} {x : Except ε β} {b : β} :
    x.toOption = some b ↔ x = .ok b := by
  cases x <;> simp [Except.toOption]

/-- The symbols that stand for one of a body: for the placeholder, those of a formula in
parentheses. -/
def Symbol.splice (s : Formula Letter) : Symbol (Option Letter) → List (Symbol Letter)
  | .atom (some a) => [.atom a]
  | .atom none => .leftParen :: (s.symbols ++ [.rightParen])
  | .const b => [.const b]
  | .neg => [.neg]
  | .op c => [.op c]
  | .leftParen => [.leftParen]
  | .rightParen => [.rightParen]

namespace Reader

variable {α : Type} [Atom α]

theorem run_singleton (r : Reader α) (t : Token α) : r.run [t] = r.step t := by
  rw [run]
  cases r.step t <;> rfl

/-- A formula in parentheses is taken as an operand, whatever is open. -/
theorem run_group (f : Formula α) (stack : List (Frame α)) {tokens : List (Token α)}
    (h : tokens.map (·.symbol) = .leftParen :: (f.symbols ++ [.rightParen])) :
    run ⟨stack, none⟩ tokens = .ok ⟨stack, some f⟩ := by
  obtain ⟨opening, rest, rfl, hopening, hrest⟩ := List.map_eq_cons_iff.mp h
  obtain ⟨inner, rest, rfl, hinner, hrest⟩ := List.map_eq_append_iff.mp hrest
  obtain ⟨closing, rfl, hclosing⟩ := List.map_eq_singleton_iff.mp hrest
  obtain ⟨stack', g, hrun, hreduce⟩ := run_symbols f (.paren :: stack) hinner
  exact run_enclosed hopening hclosing hrun ((hreduce 0).trans (reduce_paren 0 stack f))

/-! ## States with a formula filled in -/

variable (s : Formula Letter)

def fillFrame : Frame (Option Letter) → Frame Letter
  | .neg => .neg
  | .left l op => .left (.fill s l) op
  | .paren => .paren

/-- A state with a formula filled in. -/
def fill (r : Reader (Option Letter)) : Reader Letter :=
  ⟨r.stack.map (fillFrame s), r.operand.map (Formula.fill s)⟩

/-- Closing frames does not depend on what is filled in. -/
theorem reduce_fill (strength : Nat) (stack : List (Frame (Option Letter))) (f : Template) :
    reduce strength (stack.map (fillFrame s)) (.fill s f) =
      ((reduce strength stack f).1.map (fillFrame s), .fill s (reduce strength stack f).2) := by
  induction stack generalizing f with
  | nil => rfl
  | cons frame rest ih =>
    cases frame with
    | neg =>
      rw [List.map_cons, fillFrame, reduce_neg, reduce_neg, ← ih]
      rfl
    | left l op =>
      rw [List.map_cons, fillFrame, reduce, reduce]
      -- whether the frame is reduced depends on its connective alone
      by_cases h : strength ≤ op.strength
      · rw [if_pos h, if_pos h, ← ih]
        rfl
      · rw [if_neg h, if_neg h]
        rfl
    | paren => rfl

/-! ## Tokens -/

variable {s} {t : Token (Option Letter)} {tokens : List (Token Letter)}

/-- Where an operand has to follow, the tokens that stand for one of a body are taken with what is
filled in, or refused as that one is. -/
theorem stepOperand_splice (stack : List (Frame (Option Letter)))
    (h : tokens.map (·.symbol) = t.symbol.splice s) :
    ((fill s ⟨stack, none⟩).run tokens).toOption = (stepOperand stack t).toOption.map (fill s) := by
  unfold stepOperand
  split
  · next a ht =>
    rw [ht] at h
    cases a with
    -- the placeholder becomes a group, which is an operand whatever is open
    | none => rw [fill, Option.map_none, run_group s _ h]; rfl
    | some a =>
      obtain ⟨u, rfl, hu⟩ := List.map_eq_singleton_iff.mp h
      rw [run_singleton, fill, Option.map_none, step, stepOperand, hu]
      rfl
  all_goals
    next ht =>
    rw [ht] at h
    obtain ⟨u, rfl, hu⟩ := List.map_eq_singleton_iff.mp h
    rw [run_singleton, fill, Option.map_none, step, stepOperand, hu]
    rfl

/-- Behind an operand, tokens that begin neither with a connective nor with a closing parenthesis
are refused. -/
theorem exists_run_eq_error {β : Type} [Atom β] {first : Symbol β} {more : List (Symbol β)}
    {tokens : List (Token β)} (stack : List (Frame β)) (f : Formula β)
    (h : tokens.map (·.symbol) = first :: more) (hop : ∀ op, first ≠ .op op)
    (hparen : first ≠ .rightParen) : ∃ e, run ⟨stack, some f⟩ tokens = .error e := by
  obtain ⟨u, rest, rfl, rfl, -⟩ := List.map_eq_cons_iff.mp h
  have hstep : ∃ e, stepOperator stack f u = .error e := by
    unfold stepOperator
    split
    · next op hu => exact absurd hu (hop op)
    · next hu => exact absurd hu hparen
    · split
      · exact ⟨_, rfl⟩
      · exact ⟨_, rfl⟩
  obtain ⟨e, he⟩ := hstep
  refine ⟨e, ?_⟩
  rw [run, show step ⟨stack, some f⟩ u = .error e from he]

theorem stepOperator_rightParen_of_nil {β : Type} [Atom β] {stack : List (Frame β)}
    {f g : Formula β} {u : Token β} (hu : u.symbol = .rightParen)
    (h : reduce 0 stack f = ([], g)) :
    stepOperator stack f u = .error (.trailingTokens u.glyph u.index) := by
  unfold stepOperator
  rw [hu]
  simp only [h]

/-- Behind an operand, what begins no operator is refused, and so is what stands for it. -/
theorem stepOperator_splice_of_refused (stack : List (Frame (Option Letter))) (f : Template)
    {first : Symbol Letter} {more : List (Symbol Letter)}
    (h : tokens.map (·.symbol) = first :: more)
    (hfirst : (∀ op, first ≠ .op op) ∧ first ≠ .rightParen)
    (ht : (∀ op, t.symbol ≠ .op op) ∧ t.symbol ≠ .rightParen) :
    ((fill s ⟨stack, some f⟩).run tokens).toOption =
      (stepOperator stack f t).toOption.map (fill s) := by
  obtain ⟨e, he⟩ :=
    exists_run_eq_error (stack.map (fillFrame s)) (Formula.fill s f) h hfirst.1 hfirst.2
  have hsingle : [t].map (·.symbol) = [t.symbol] := rfl
  obtain ⟨e', he'⟩ := exists_run_eq_error stack f hsingle ht.1 ht.2
  have hstep : stepOperator stack f t = .error e' := (run_singleton _ t).symm.trans he'
  rw [hstep]
  exact congrArg Except.toOption he

/-- After an operand, the tokens that stand for one of a body are taken or refused as that one
is. -/
theorem stepOperator_splice (stack : List (Frame (Option Letter))) (f : Template)
    (h : tokens.map (·.symbol) = t.symbol.splice s) :
    ((fill s ⟨stack, some f⟩).run tokens).toOption =
      (stepOperator stack f t).toOption.map (fill s) := by
  cases ht : t.symbol with
  | op op =>
    rw [ht] at h
    obtain ⟨u, rfl, hu⟩ := List.map_eq_singleton_iff.mp h
    have hfilled := stepOperator_op hu (reduce_fill s op.strength stack f)
    rw [run_singleton, stepOperator_op ht rfl]
    exact congrArg Except.toOption hfilled
  | rightParen =>
    rw [ht] at h
    obtain ⟨u, rfl, hu⟩ := List.map_eq_singleton_iff.mp h
    have hfilled := reduce_fill s 0 stack f
    rw [run_singleton]
    -- both readers find the same frames left, up to what is filled in
    rcases reduce_zero_fst stack f with hnil | ⟨rest, hrest⟩
    · rw [hnil] at hfilled
      rw [stepOperator_rightParen_of_nil ht (Prod.ext hnil rfl)]
      exact congrArg Except.toOption (stepOperator_rightParen_of_nil hu hfilled)
    · rw [hrest] at hfilled
      rw [stepOperator_rightParen ht (Prod.ext hrest rfl)]
      exact congrArg Except.toOption (stepOperator_rightParen hu hfilled)
  | leftParen =>
    rw [ht] at h
    exact stepOperator_splice_of_refused stack f h (by simp) (by simp [ht])
  | neg =>
    rw [ht] at h
    exact stepOperator_splice_of_refused stack f h (by simp) (by simp [ht])
  | const b =>
    rw [ht] at h
    exact stepOperator_splice_of_refused stack f h (by simp) (by simp [ht])
  | atom a =>
    rw [ht] at h
    cases a with
    | some a => exact stepOperator_splice_of_refused stack f h (by simp) (by simp [ht])
    | none => exact stepOperator_splice_of_refused stack f h (by simp) (by simp [ht])

theorem step_splice (r : Reader (Option Letter)) (h : tokens.map (·.symbol) = t.symbol.splice s) :
    ((r.fill s).run tokens).toOption = (r.step t).toOption.map (fill s) := by
  obtain ⟨stack, operand⟩ := r
  cases operand with
  | none => exact stepOperand_splice stack h
  | some f => exact stepOperator_splice stack f h

/-- Tokens that stand for those of a body are taken with what is filled in, or refused as those
are. -/
theorem run_splice (r : Reader (Option Letter)) {body : List (Token (Option Letter))}
    (h : tokens.map (·.symbol) = (body.map (·.symbol)).flatMap (Symbol.splice s)) :
    ((r.fill s).run tokens).toOption = (r.run body).toOption.map (fill s) := by
  induction body generalizing r tokens with
  | nil =>
    rw [List.map_nil, List.flatMap_nil, List.map_eq_nil_iff] at h
    subst h
    rfl
  | cons t rest ih =>
    rw [List.map_cons, List.flatMap_cons] at h
    obtain ⟨now, later, rfl, hnow, hlater⟩ := List.map_eq_append_iff.mp h
    have hstep := step_splice r hnow
    rw [run_append, run]
    cases ht : r.step t with
    | error e =>
      rw [ht] at hstep
      cases hrun : (r.fill s).run now with
      | error e' => rfl
      | ok next =>
        rw [hrun] at hstep
        cases hstep
    | ok next =>
      -- both readers go on, from a state and from the same state filled in
      rw [ht] at hstep
      rw [toOption_eq_some_iff.mp hstep]
      exact ih next hlater

/-- What the tokens amount to when no more follow does not depend on what is filled in. -/
theorem finish_fill (s : Formula Letter) (r : Reader (Option Letter)) :
    (r.fill s).finish.toOption = r.finish.toOption.map (Formula.fill s) := by
  obtain ⟨stack, operand⟩ := r
  cases operand with
  | none => rfl
  | some f =>
    have hfilled := reduce_fill s 0 stack f
    simp only [fill, finish, Option.map_some, hfilled]
    rcases reduce_zero_fst stack f with hnil | ⟨rest, hrest⟩
    · rw [show reduce 0 stack f = ([], (reduce 0 stack f).2) from Prod.ext hnil rfl]
      rfl
    · rw [show reduce 0 stack f = (.paren :: rest, (reduce 0 stack f).2) from Prod.ext hrest rfl]
      rfl

end Reader

/-! ## Texts -/

namespace Formula

variable {s : Formula Letter}

theorem ofTokens_splice {tokens : List (Token Letter)} {body : List (Token (Option Letter))}
    (h : tokens.map (·.symbol) = (body.map (·.symbol)).flatMap (Symbol.splice s)) :
    (ofTokens tokens).toOption = (ofTokens body).toOption.map (fill s) := by
  have hrun := Reader.run_splice Reader.start h
  have hstart : Reader.start.fill s = Reader.start := rfl
  rw [hstart] at hrun
  rw [ofTokens, ofTokens]
  -- both runs fail, or both end and the one reader is the other one filled
  cases hbody : Reader.start.run body with
  | error e =>
    rw [hbody] at hrun
    cases htokens : Reader.start.run tokens with
    | error e' => rfl
    | ok r =>
      rw [htokens] at hrun
      cases hrun
  | ok r =>
    rw [hbody] at hrun
    rw [toOption_eq_some_iff.mp hrun]
    exact Reader.finish_fill s r

/-- A character that writes a symbol of a body is spliced into the characters of the symbols that
stand for it. -/
theorem spliceChar_glyph (s : Formula Letter) (symbol : Symbol (Option Letter)) :
    spliceChar s symbol.glyph = (symbol.splice s).map Symbol.glyph := by
  cases symbol with
  | atom a =>
    cases a with
    | some a =>
      have hne : a.char ≠ placeholder := a.char_ne rfl
      exact if_neg hne
    | none =>
      -- the placeholder is the one character that becomes a text, with parentheses around it
      have hglyphs := glyphs_eq_map s
      simp [spliceChar, Symbol.glyph, Symbol.splice, Atom.glyph, hglyphs]
  | const b => cases b <;> rfl
  | neg => rfl
  | op c => cases c <;> rfl
  | leftParen => rfl
  | rightParen => rfl

/-- The characters of a spliced body other than separators. -/
theorem withoutSeparators_splice {body : List Char} {w : List (Symbol (Option Letter))}
    (h : withoutSeparators body = w.map Symbol.glyph) :
    withoutSeparators (body.flatMap (spliceChar s)) =
      (w.flatMap (Symbol.splice s)).map Symbol.glyph := by
  induction body generalizing w with
  | nil =>
    rw [eq_comm, show withoutSeparators [] = [] from rfl, List.map_eq_nil_iff] at h
    subst h
    rfl
  | cons c rest ih =>
    rw [List.flatMap_cons, withoutSeparators, List.filter_append]
    cases hc : isSeparator c with
    | true =>
      -- a separator is no placeholder, so it stays and does not count
      rw [withoutSeparators_cons_of_separator hc] at h
      have hne : c ≠ placeholder := by
        rintro rfl
        cases hc
      rw [spliceChar, if_neg hne, List.filter_cons, hc]
      exact ih h
    | false =>
      rw [withoutSeparators_cons_of_kept hc] at h
      obtain ⟨symbol, w, rfl, rfl, hw⟩ := List.map_eq_cons_iff.mp h.symm
      have hhead := withoutSeparators_map_glyph (symbol.splice s)
      have htail := ih hw.symm
      rw [withoutSeparators] at hhead htail
      rw [spliceChar_glyph, hhead, htail, List.flatMap_cons, List.map_append]

/-- A spliced body is a text over the alphabet when the body is one with the placeholder. -/
theorem inAlphabet_splice {body : List Char}
    (h : ∀ c ∈ body.flatMap (spliceChar s), InAlphabet Letter c) :
    ∀ c ∈ body, InAlphabet (Option Letter) c := by
  intro c hc
  by_cases hplaceholder : c = placeholder
  · exact Or.inr ⟨.atom none, hplaceholder.symm⟩
  · have hmem : c ∈ body.flatMap (spliceChar s) :=
      List.mem_flatMap.mpr ⟨c, hc, by simp [spliceChar, hplaceholder]⟩
    rcases h c hmem with hsep | ⟨symbol, rfl⟩
    · exact Or.inl hsep
    · -- the same symbol, with its letter as an atom of a body
      refine Or.inr ?_
      cases symbol with
      | atom a => exact ⟨.atom (some a), rfl⟩
      | const b => exact ⟨.const b, rfl⟩
      | neg => exact ⟨.neg, rfl⟩
      | op c => exact ⟨.op c, rfl⟩
      | leftParen => exact ⟨.leftParen, rfl⟩
      | rightParen => exact ⟨.rightParen, rfl⟩

/-- Reading a body with the text of a formula in place of the placeholder is reading the body and
filling the formula in. -/
theorem read_splice (body : String) (s : Formula Letter) :
    (read (splice body s)).toOption = (read body).toOption.map (fill s) := by
  rw [read, read, Token.scan, Token.scan, splice, String.toList_ofList]
  cases hbody : (Token.scanFrom 0 body.toList : Except _ (List (Token (Option Letter)))) with
  | error e =>
    -- some character of the body is outside the alphabet, and splicing keeps it
    cases hspliced : (Token.scanFrom 0 (body.toList.flatMap (spliceChar s)) :
        Except _ (List (Token Letter))) with
    | error e' => rfl
    | ok tokens =>
      have halphabet := inAlphabet_splice (Token.exists_scanFrom_eq_ok_iff.mp ⟨tokens, hspliced⟩)
      obtain ⟨tokens', hscan⟩ := (@Token.exists_scanFrom_eq_ok_iff _ _ 0 _).mpr halphabet
      cases hscan.symm.trans hbody
  | ok tokens =>
    have hglyphs := Token.exists_scanFrom_iff.mp ⟨tokens, hbody, rfl⟩
    obtain ⟨spliced, hscan, hsymbols⟩ :=
      (@Token.exists_scanFrom_iff _ _ 0 _ _).mpr (withoutSeparators_splice hglyphs)
    rw [hscan]
    exact ofTokens_splice hsymbols

/-- A spliced body is what stands between its placeholders, with the text of the formula in
parentheses in each gap. -/
theorem splice_eq_intercalate (body : String) (s : Formula Letter) :
    splice body s =
      ("(" ++ s.text ++ ")").intercalate
        ((body.toList.splitOn placeholder).map String.ofList) := by
  have hchars := flatMap_ite_eq_intercalate placeholder ('(' :: (s.glyphs ++ [')'])) body.toList
  rw [← String.toList_inj, splice, String.toList_ofList, String.toList_intercalate]
  unfold spliceChar
  rw [hchars]
  simp [text, Function.comp_def]

/-- **Splicing texts is filling in trees.**  A body with the text of a formula in parentheses in
place of every placeholder reads exactly when the body itself reads with the placeholder as a
further atom, and it reads as that tree with the formula filled in.  So the formula that it is read
as, also when given as an input, is what the grammar derives from the symbols of the body, with the
formula filled in: no text makes a malformed body well-formed, and none takes part in the grouping
around it. -/
theorem spliced_reads_as_filled (body : String) (s : Formula Letter) :
    splice body s =
        ("(" ++ s.text ++ ")").intercalate
          ((body.toList.splitOn placeholder).map String.ofList) ∧
      ((∃ g : Formula Letter, read (splice body s) = .ok g) ↔
        ∃ t : Template, read body = .ok t) ∧
      (∀ t : Template, read body = .ok t → read (splice body s) = .ok (fill s t)) ∧
      ∀ (g : Formula Letter) (threshold : Level),
        ((Checked.readFormula (.text (splice body s))).run threshold).2 = .ok g ↔
          ∃ (w : List (Symbol (Option Letter))) (t : Template),
            withoutSeparators body.toList = w.map Symbol.glyph ∧ Derives 1 w t ∧
              fill s t = g := by
  -- the spliced text reads as a filled template, or not at all
  have hread (g : Formula Letter) :
      read (splice body s) = .ok g ↔ ∃ t : Template, read body = .ok t ∧ fill s t = g := by
    rw [← toOption_eq_some_iff, read_splice, Option.map_eq_some_iff]
    simp only [toOption_eq_some_iff]
  refine ⟨splice_eq_intercalate body s, ?_, fun t ht => (hread _).mpr ⟨t, ht, rfl⟩, ?_⟩
  · constructor
    · rintro ⟨g, hg⟩
      obtain ⟨t, ht, -⟩ := (hread g).mp hg
      exact ⟨t, ht⟩
    · rintro ⟨t, ht⟩
      exact ⟨fill s t, (hread _).mpr ⟨t, ht, rfl⟩⟩
  · intro g threshold
    rw [Checked.run_readFormula_eq_ok_iff, Input.content, hread]
    constructor
    · rintro ⟨t, ht, hg⟩
      obtain ⟨w, hw, hderives⟩ := read_eq_ok_iff.mp ht
      exact ⟨w, t, hw, hderives, hg⟩
    · rintro ⟨w, t, hw, hderives, hg⟩
      exact ⟨t, read_eq_ok_iff.mpr ⟨w, hw, hderives⟩, hg⟩

/-- A disjunction stays one operand below a negation and in a conjunction; and a body that ends in a
connective does not read, whatever is spliced in. -/
theorem spliced_reads_as_filled_grouped :
    let p : Letter := ⟨'p', rfl⟩
    let q : Letter := ⟨'q', rfl⟩
    let s : Formula Letter := .bin .or (.var p) (.var q)
    splice "¬A → A∧p" s = "¬((p∨q)) → ((p∨q))∧p" ∧
      read "¬((p∨q)) → ((p∨q))∧p" =
        .ok (.bin .implies (.neg s) (.bin .and s (.var p))) ∧
      ∀ g : Formula Letter, read (splice "A∧" s) ≠ .ok g := by
  intro p q s
  let t : Template :=
    .bin .implies (.neg (.var none)) (.bin .and (.var none) (.var (some p)))
  have htext : splice "¬A → A∧p" s = "¬((p∨q)) → ((p∨q))∧p" := rfl
  have hbody : read "¬A → A∧p" = .ok t := rfl
  have hmalformed : (read "A∧" : Except SyntaxError Template) = .error .unexpectedEnd := rfl
  refine ⟨htext, htext ▸ (spliced_reads_as_filled "¬A → A∧p" s).2.2.1 t hbody, fun g hg => ?_⟩
  obtain ⟨t', ht'⟩ := (spliced_reads_as_filled "A∧" s).2.1.mp ⟨g, hg⟩
  cases hmalformed.symm.trans ht'

end Formula

end Propositional
