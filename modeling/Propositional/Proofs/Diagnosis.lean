import Propositional.Formula.Diagnosis
import Propositional.Proofs.Grammar

/-!
# Syntax errors come as early as possible

A row of symbols is viable if some formula begins with it.  The reader stops at the first token
with which the row is no longer viable, and the error that it reports is the one that can be worked
out from the tokens in front: from the last of them and from the number of open parentheses.

* `Viable`, `viable_take_iff` — beginnings of formulas, and the longest one of a row;
* `Reader.viable_iff_run`     — the reader takes exactly the viable rows;
* `Reader.completesOperand_eq`, `Reader.isOpen_iff` — the state of the reader, read off the symbols
  that it has taken;
* `Reader.classify_of_step`, `Reader.classify_of_finish` — the error of a step, and of the end;
* `Formula.error_at_first_obstacle` — the error for every text over the alphabet that is no
  formula.
-/

namespace Propositional

variable {α : Type} {u v w : List (Symbol α)}

/-! ## Counting parentheses -/

/-- The open parentheses of two words are counted together. -/
theorem openParens_append (u v : List (Symbol α)) :
    openParens (u ++ v) = openParens u + openParens v := by
  induction u with
  | nil => simp [openParens]
  | cons s u ih =>
    cases s <;> simp only [List.cons_append, openParens, ih]
    all_goals omega

theorem completesOperand_append_singleton (u : List (Symbol α)) (s : Symbol α) :
    completesOperand (u ++ [s]) = s.endsOperand := by
  simp [completesOperand]

theorem completesOperand_append (u : List (Symbol α)) (h : completesOperand v = true) :
    completesOperand (u ++ v) = true := by
  have hv : v ≠ [] := by
    rintro rfl
    cases h
  -- only the last symbol counts, and it is that of the second row
  obtain ⟨v, s, rfl⟩ := List.eq_nil_or_concat v |>.resolve_left hv
  rw [List.concat_eq_append, completesOperand_append_singleton] at h
  rw [List.concat_eq_append, ← List.append_assoc, completesOperand_append_singleton, h]

namespace Derives

variable {n : Nat} {f : Formula α}

/-- In a formula every parenthesis that is opened is closed. -/
theorem openParens_eq_zero (h : Derives n w f) : openParens w = 0 := by
  induction h with
  | atom a => rfl
  | const b => rfl
  | neg _ ih => exact ih
  | group _ ih =>
    rw [openParens, openParens_append, ih]
    rfl
  | @bin op u v l r _ _ ihl ihr =>
    have hop : openParens (.op op :: v) = openParens v := rfl
    rw [openParens_append, ihl, hop, ihr]
    rfl
  | tighter _ _ _ ih => exact ih

theorem completesOperand_eq_true (h : Derives n w f) : completesOperand w = true := by
  induction h with
  | atom a => rfl
  | const b => rfl
  | @neg w f _ ih => exact completesOperand_append [.neg] ih
  | @group w f _ _ => exact completesOperand_append_singleton (.leftParen :: w) .rightParen
  | @bin op u v l r _ _ _ ihr =>
    have happend := completesOperand_append (u ++ [.op op]) ihr
    simpa using happend
  | tighter _ _ _ ih => exact ih

end Derives

/-! ## Beginnings of formulas -/

/-- Some formula begins with these symbols. -/
def Viable (w : List (Symbol α)) : Prop :=
  ∃ v f, Derives 1 (w ++ v) f

/-- What a viable word begins with is viable. -/
theorem Viable.of_append (h : Viable (u ++ v)) : Viable u := by
  obtain ⟨w, f, hf⟩ := h
  exact ⟨v ++ w, f, by rwa [← List.append_assoc]⟩

theorem Viable.take {k : Nat} (h : Viable (w.take k)) {j : Nat} (hj : j ≤ k) :
    Viable (w.take j) := by
  have hsplit := List.take_append_drop j (w.take k)
  rw [List.take_take, Nat.min_eq_left hj] at hsplit
  rw [← hsplit] at h
  exact h.of_append

/-- A viable beginning that cannot be continued is the longest one. -/
theorem viable_take_iff {k : Nat} (hk : Viable (w.take k))
    (hnext : k < w.length → ¬ Viable (w.take (k + 1))) {j : Nat} (hj : j ≤ w.length) :
    Viable (w.take j) ↔ j ≤ k := by
  constructor
  · intro h
    rcases Nat.lt_or_ge k j with hlt | hge
    · exact absurd (h.take hlt) (hnext (by omega))
    · exact hge
  · exact hk.take

namespace Reader

/-- What is open can be completed: groups are closed from the inside, and everything else waits
only for the operand that is there. -/
theorem Opens.viable {stack : List (Frame α)} {n : Nat} {f : Formula α} (hopen : Opens stack u)
    (hf : Derives n v f) (hfit : layer stack ≤ n) : Viable (u ++ v) := by
  induction hopen generalizing v f n with
  | nil => exact ⟨[], f, by simpa using hf.loosen (Nat.le_refl 1) hfit⟩
  | @paren stack u _ ih =>
    -- the group is closed behind its operand and is an operand of the frames below
    have hgroup := Derives.group (hf.loosen (Nat.le_refl 1) hfit)
    obtain ⟨z, g, hg⟩ := ih hgroup (layer_le_five stack)
    exact ⟨.rightParen :: z, g, by simpa using hg⟩
  | @neg stack u _ ih =>
    have hn := hf.le_five
    have hneg := Derives.neg (hf.loosen (by omega) hfit)
    obtain ⟨z, g, hg⟩ := ih hneg (layer_le_five stack)
    exact ⟨z, g, by simpa using hg⟩
  | @left stack u w l op _ hlayer hl ih =>
    have hbin := Derives.bin hl (hf.loosen (by omega) hfit)
    obtain ⟨z, g, hg⟩ := ih hbin hlayer
    exact ⟨z, g, by simpa using hg⟩

/-- What has been accepted can be continued to a formula. -/
theorem Reached.viable {r : Reader α} (hr : Reached r w) : Viable w := by
  obtain ⟨stack, operand⟩ := r
  cases operand with
  | none =>
    -- where an operand has to follow, a constant may
    have hopen : Opens stack w := hr
    exact (hopen.viable (.const true) (layer_le_five stack)).of_append
  | some f =>
    obtain ⟨u, v, rfl, hopen, hf⟩ := hr
    exact hopen.viable hf (layer_le_five stack)

variable [Atom α]

/-- The reader takes exactly the tokens that some formula begins with. -/
theorem viable_iff_run {tokens : List (Token α)} :
    Viable (tokens.map (·.symbol)) ↔ ∃ r, start.run tokens = .ok r := by
  constructor
  · -- the reader would take the whole formula, so it takes its beginning
    rintro ⟨v, f, hf⟩
    let later : List (Token α) := v.map fun s => ⟨s, 0⟩
    have hlater : later.map (·.symbol) = v := by simp [later, Function.comp_def]
    rw [← hlater, ← List.map_append] at hf
    have hfits : layer ([] : List (Frame α)) ≤ 1 := Nat.le_refl 1
    obtain ⟨stack, g, hrun, -⟩ := run_of_derives hf hfits rfl
    rw [run_append] at hrun
    cases htokens : run ⟨[], none⟩ tokens with
    | error e =>
      rw [htokens] at hrun
      cases hrun
    | ok r => exact ⟨r, htokens⟩
  · rintro ⟨r, hrun⟩
    exact (reached_run reached_start hrun).viable

/-! ## The state of the reader and the symbols taken -/

omit [Atom α] in
theorem Opens.completesOperand_eq_false {stack : List (Frame α)} (h : Opens stack u) :
    completesOperand u = false := by
  cases h with
  | nil => rfl
  | neg _ => exact completesOperand_append_singleton _ _
  | paren _ => exact completesOperand_append_singleton _ _
  | left _ _ _ =>
    rw [← List.append_assoc]
    exact completesOperand_append_singleton _ _

omit [Atom α] in
/-- The open parentheses are those that stand on the stack. -/
theorem Opens.openParens_eq {stack : List (Frame α)} (h : Opens stack u) :
    openParens u = (stack.countP Frame.isParen : Int) := by
  induction h with
  | nil => rfl
  | neg _ ih =>
    rw [openParens_append, ih, List.countP_cons]
    simp [openParens, Frame.isParen]
  | paren _ ih =>
    rw [openParens_append, ih, List.countP_cons]
    simp [openParens, Frame.isParen]
  | left _ _ hl ih =>
    -- a left side is a formula, so it closes what it opens
    rw [openParens_append, openParens_append, ih, hl.openParens_eq_zero, List.countP_cons]
    simp [openParens, Frame.isParen]

omit [Atom α] in
/-- An operand is complete when the last symbol taken says so. -/
theorem completesOperand_eq {r : Reader α} (hr : Reached r w) :
    completesOperand w = r.operand.isSome := by
  obtain ⟨stack, operand⟩ := r
  cases operand with
  | none => exact hr.completesOperand_eq_false
  | some f =>
    obtain ⟨u, v, rfl, -, hf⟩ := hr
    exact completesOperand_append u hf.completesOperand_eq_true

omit [Atom α] in
/-- A parenthesis is open when more have been opened than closed. -/
theorem isOpen_iff {r : Reader α} (hr : Reached r w) :
    isOpen r.stack = true ↔ 0 < openParens w := by
  have hcount : openParens w = (r.stack.countP Frame.isParen : Int) := by
    obtain ⟨stack, operand⟩ := r
    cases operand with
    | none => exact hr.openParens_eq
    | some f =>
      obtain ⟨u, v, rfl, hopen, hf⟩ := hr
      rw [openParens_append, hopen.openParens_eq, hf.openParens_eq_zero]
      omega
  rw [hcount, isOpen, List.any_eq_true, Int.natCast_pos, List.countP_pos_iff]

omit [Atom α] in
/-- A reduction stops at an open parenthesis and leaves it where it is. -/
theorem isOpen_reduce (strength : Nat) (stack : List (Frame α)) (f : Formula α) :
    isOpen (reduce strength stack f).1 = isOpen stack := by
  induction stack generalizing f with
  | nil => rfl
  | cons frame rest ih =>
    cases frame with
    | neg =>
      rw [reduce_neg, ih]
      rfl
    | left l op =>
      rw [reduce]
      split
      · rw [ih]
        rfl
      · rfl
    | paren => rfl

/-! ## The errors -/

/-- Where an operand has to follow, any token that is not taken is unexpected. -/
theorem error_of_stepOperand {stack : List (Frame α)} {t : Token α} {e : SyntaxError}
    (h : stepOperand stack t = .error e) : e = .unexpectedToken t.glyph t.index := by
  unfold stepOperand at h
  split at h
  · cases h
  · cases h
  · cases h
  · cases h
  · exact (Except.error.inj h).symm
  · exact (Except.error.inj h).symm

/-- After an operand, the tokens that are not taken are no connectives; what they show depends on
whether a group is open. -/
theorem error_of_stepOperator {stack : List (Frame α)} {f : Formula α} {t : Token α}
    {e : SyntaxError} (h : stepOperator stack f t = .error e) :
    t.symbol.isConnective = false ∧
      e = if isOpen stack then .missingParenthesis else .trailingTokens t.glyph t.index := by
  unfold stepOperator at h
  split at h
  · cases h
  · next ht =>
    refine ⟨by rw [ht]; rfl, ?_⟩
    split at h
    · cases h
    · next hreduce =>
      -- no parenthesis was reached, so none was open
      have hempty : (reduce 0 stack f).1 = [] := by
        rcases reduce_zero_fst stack f with hnil | ⟨rest, hrest⟩
        · exact hnil
        · exact (hreduce rest _ (Prod.ext hrest rfl)).elim
      have hclosed := isOpen_reduce 0 stack f
      rw [hempty] at hclosed
      rw [← hclosed]
      exact (Except.error.inj h).symm
  · next hop _ =>
    constructor
    · cases ht : t.symbol with
      | op op => exact absurd ht (hop op)
      | _ => rfl
    · split at h
      · next hopen => rw [hopen]; exact (Except.error.inj h).symm
      · next hopen => rw [if_neg hopen]; exact (Except.error.inj h).symm

/-- The error of a step is the one that the symbols taken before it show. -/
theorem classify_of_step {r : Reader α} {t : Token α} {e : SyntaxError} (hr : Reached r w)
    (h : r.step t = .error e) :
    SyntaxError.classify w (some t) = e ∧
      e = if completesOperand w then
          if 0 < openParens w then .missingParenthesis else .trailingTokens t.glyph t.index
        else .unexpectedToken t.glyph t.index := by
  -- the tokens read so far show whether an operand is complete and a parenthesis open
  have hcompletes := completesOperand_eq hr
  have hparens := isOpen_iff hr
  obtain ⟨stack, operand⟩ := r
  cases operand with
  | none =>
    have he := error_of_stepOperand h
    simp [SyntaxError.classify, hcompletes, he]
  | some f =>
    obtain ⟨hconnective, he⟩ := error_of_stepOperator h
    simp only [hparens] at he
    simp [SyntaxError.classify, hcompletes, hconnective, he]

omit [Atom α] in
/-- When no token follows, either an operand is missing, or a parenthesis. -/
theorem error_of_finish {r : Reader α} {e : SyntaxError} (h : r.finish = .error e) :
    if r.operand.isSome then isOpen r.stack = true ∧ e = .missingParenthesis
    else e = .unexpectedEnd := by
  obtain ⟨stack, operand⟩ := r
  cases operand with
  | none => exact (Except.error.inj h).symm
  | some f =>
    simp only [finish] at h
    split at h
    · cases h
    · next hreduce =>
      refine ⟨?_, (Except.error.inj h).symm⟩
      rw [← isOpen_reduce 0 stack f]
      -- a reduction at the end stops at an open parenthesis, if not at nothing
      rcases reduce_zero_fst stack f with hnil | ⟨rest, hrest⟩
      · exact (hreduce _ (Prod.ext hnil rfl)).elim
      · rw [hrest]
        rfl

theorem classify_of_finish {r : Reader α} {e : SyntaxError} (hr : Reached r w)
    (h : r.finish = .error e) :
    SyntaxError.classify w none = e ∧
      if completesOperand w then 0 < openParens w ∧ e = .missingParenthesis
      else e = .unexpectedEnd := by
  have hfinish := error_of_finish h
  rw [← completesOperand_eq hr, isOpen_iff hr] at hfinish
  refine ⟨?_, hfinish⟩
  rw [SyntaxError.classify]
  cases hcompletes : completesOperand w with
  | true =>
    rw [hcompletes] at hfinish
    simp [hfinish.1, hfinish.2]
  | false =>
    rw [hcompletes] at hfinish
    simpa using hfinish.symm

/-- A run that fails has taken the tokens before the one at which it fails. -/
theorem run_eq_error {r : Reader α} {tokens : List (Token α)} {e : SyntaxError}
    (h : r.run tokens = .error e) :
    ∃ before t after next, tokens = before ++ t :: after ∧ r.run before = .ok next ∧
      next.step t = .error e := by
  induction tokens generalizing r with
  | nil => cases h
  | cons t rest ih =>
    rw [run] at h
    split at h
    · next middle hstep =>
      obtain ⟨before, t', after, next, rfl, hrun, hfail⟩ := ih h
      exact ⟨t :: before, t', after, next, rfl, (run_cons_of_step hstep before).trans hrun, hfail⟩
    · next hstep =>
      cases h
      exact ⟨[], t, rest, r, rfl, rfl, hstep⟩

end Reader

/-! ## Diagnosing a row of tokens -/

/-- The tokens in front of one are those before its place, if it does not stand there already. -/
theorem Token.takenBefore_eq_some [DecidableEq α] {before after : List (Token α)} {t : Token α}
    (h : t ∉ before) : takenBefore (before ++ t :: after) (some t) = some before := by
  have hmem : t ∈ before ++ t :: after := List.mem_append_right before List.mem_cons_self
  have hbefore : ∀ u ∈ before, decide (u ≠ t) = true := by
    intro u hu
    rw [decide_eq_true_eq]
    rintro rfl
    exact h hu
  rw [takenBefore, if_pos hmem, List.takeWhile_append_of_pos hbefore, List.takeWhile_cons]
  simp

/-- A token of a text does not stand before its own place. -/
theorem Token.notMem_of_scan [Atom α] {text : String} {before after : List (Token α)} {t : Token α}
    (h : scan text = .ok (before ++ t :: after)) : t ∉ before := by
  obtain ⟨-, hordered⟩ := pairwise_of_scanFrom h
  intro hmem
  have hlt := (List.pairwise_append.mp hordered).2.2 t hmem t List.mem_cons_self
  exact Nat.lt_irrefl _ hlt

namespace Formula

variable [Atom α] [DecidableEq α]

/-- What the reader reports about the tokens of a text that is no formula: the error that can be
worked out from the tokens of the longest viable beginning and from what follows it. -/
theorem error_of_not_derives {text : String} {tokens : List (Token α)}
    (hscan : Token.scan text = .ok tokens)
    (hnone : ∀ f, ¬ Derives 1 (tokens.map (·.symbol)) f) :
    ∃ k e, k ≤ tokens.length ∧ ofTokens tokens = .error e ∧
      (∀ j ≤ tokens.length, Viable ((tokens.take j).map (·.symbol)) ↔ j ≤ k) ∧
      SyntaxError.diagnose tokens tokens[k]? = some e ∧
      (k = tokens.length →
        if completesOperand ((tokens.take k).map (·.symbol)) then
          0 < openParens ((tokens.take k).map (·.symbol)) ∧ e = .missingParenthesis
        else e = .unexpectedEnd) ∧
      ∀ t, tokens[k]? = some t →
        e = if completesOperand ((tokens.take k).map (·.symbol)) then
            if 0 < openParens ((tokens.take k).map (·.symbol)) then .missingParenthesis
            else .trailingTokens t.glyph t.index
          else .unexpectedToken t.glyph t.index := by
  simp only [List.map_take]
  cases hrun : Reader.start.run tokens with
  | ok r =>
    -- every token was taken, so it is the end that comes too early
    have hr := Reader.reached_run Reader.reached_start hrun
    have hread : ofTokens tokens = r.finish := by rw [ofTokens, hrun]
    cases hfinish : r.finish with
    | ok f => exact absurd (Reader.derives_of_finish hr hfinish) (hnone f)
    | error e =>
      obtain ⟨hclassify, hcases⟩ := Reader.classify_of_finish hr hfinish
      have hend : tokens[tokens.length]? = none := List.getElem?_eq_none (Nat.le_refl _)
      have hall : (tokens.map (·.symbol)).take tokens.length = tokens.map (·.symbol) :=
        List.take_of_length_le (by simp)
      refine ⟨tokens.length, e, Nat.le_refl _, hread.trans hfinish, ?_, ?_, ?_, ?_⟩
      · intro j hj
        refine viable_take_iff ?_ (by simp) (by simpa using hj)
        rw [hall]
        exact hr.viable
      · rw [hend, SyntaxError.diagnose, Token.takenBefore]
        exact congrArg some hclassify
      · intro _
        rw [hall]
        exact hcases
      · intro t ht
        rw [hend] at ht
        cases ht
  | error e =>
    -- some token could not be taken, and then no formula begins with it either
    obtain ⟨before, t, after, next, rfl, hbefore, hfail⟩ := Reader.run_eq_error hrun
    have hr := Reader.reached_run Reader.reached_start hbefore
    obtain ⟨hclassify, hcases⟩ := Reader.classify_of_step hr hfail
    have hread : ofTokens (before ++ t :: after) = .error e := by rw [ofTokens, hrun]
    have hstop : (before ++ t :: after)[before.length]? = some t := by simp
    have hfront : ((before ++ t :: after).map (·.symbol)).take before.length =
        before.map (·.symbol) := by simp
    refine ⟨before.length, e, by simp, hread, ?_, ?_, ?_, ?_⟩
    · intro j hj
      refine viable_take_iff ?_ ?_ (by simpa using hj)
      · rw [hfront]
        exact hr.viable
      · intro _ hviable
        have hmore : ((before ++ t :: after).map (·.symbol)).take (before.length + 1) =
            (before ++ [t]).map (·.symbol) := by
          rw [List.map_append, List.take_append, List.take_of_length_le (by simp)]
          simp
        rw [hmore, Reader.viable_iff_run, Reader.run_append, hbefore] at hviable
        obtain ⟨r, hr⟩ := hviable
        have hstep : next.run [t] = .ok r := hr
        rw [Reader.run, hfail] at hstep
        cases hstep
    · rw [hstop, SyntaxError.diagnose, Token.takenBefore_eq_some (Token.notMem_of_scan hscan)]
      exact congrArg some hclassify
    · intro hlength
      rw [List.length_append, List.length_cons] at hlength
      omega
    · intro t' ht'
      rw [hstop] at ht'
      cases ht'
      rw [hfront]
      exact hcases

/-- **The first obstacle is reported.**  A text over the alphabet that is no formula is refused at
the end of its longest viable beginning.  If that is the whole text, a parenthesis is missing when
an operand has just been completed, one being open, and otherwise the text ends too early.  If a
token follows, it is unexpected where an operand has to follow; behind an operand, a parenthesis is
missing if one is open, and the token is a trailing one if not.  The error can be worked out from
the tokens in front of the obstacle. -/
theorem error_at_first_obstacle (text : String)
    (halphabet : ∀ c ∈ text.toList, InAlphabet Letter c) :
    ∃ tokens : List (Token Letter), Token.scan text = .ok tokens ∧
      ((∀ f, ¬ Derives 1 (tokens.map (·.symbol)) f) →
        ∃ k e, k ≤ tokens.length ∧ read (α := Letter) text = .error e ∧
          (∀ threshold, ((Checked.readFormula (.text text)).run threshold).2 =
            .error (.formula e)) ∧
          (∀ j ≤ tokens.length, Viable ((tokens.take j).map (·.symbol)) ↔ j ≤ k) ∧
          SyntaxError.diagnose tokens tokens[k]? = some e ∧
          (k = tokens.length →
            if completesOperand ((tokens.take k).map (·.symbol)) then
              0 < openParens ((tokens.take k).map (·.symbol)) ∧ e = .missingParenthesis
            else e = .unexpectedEnd) ∧
          ∀ t, tokens[k]? = some t →
            e = if completesOperand ((tokens.take k).map (·.symbol)) then
                if 0 < openParens ((tokens.take k).map (·.symbol)) then .missingParenthesis
                else .trailingTokens t.glyph t.index
              else .unexpectedToken t.glyph t.index) := by
  obtain ⟨tokens, hscan⟩ := Token.exists_scanFrom_eq_ok_iff.mpr halphabet
  refine ⟨tokens, hscan, fun hnone => ?_⟩
  -- the reader stops behind the longest viable prefix
  obtain ⟨k, e, hk, hread, hlongest⟩ := error_of_not_derives hscan hnone
  have htext : read (α := Letter) text = .error e := by
    rw [read, Token.scan, hscan]
    exact hread
  refine ⟨k, e, hk, htext, fun threshold => ?_, hlongest⟩
  rw [Checked.run_readFormula_text, htext]

/-- The second closing parenthesis is the first that closes nothing. -/
theorem error_at_trailing_parenthesis :
    (∀ c ∈ "¬(a∨b) )∧c".toList, InAlphabet Letter c) ∧
      ∃ (tokens : List (Token Letter)) (k : Nat), Token.scan "¬(a∨b) )∧c" = .ok tokens ∧
        (∀ f, ¬ Derives 1 (tokens.map (·.symbol)) f) ∧
        (∀ j ≤ tokens.length, Viable ((tokens.take j).map (·.symbol)) ↔ j ≤ k) ∧
        SyntaxError.diagnose tokens tokens[k]? = some (.trailingTokens ')' 7) := by
  have hread : read (α := Letter) "¬(a∨b) )∧c" = .error (.trailingTokens ')' 7) := rfl
  have halphabet : ∀ c ∈ "¬(a∨b) )∧c".toList, InAlphabet Letter c :=
    Token.exists_scanFrom_eq_ok_iff.mp ⟨_, show Token.scanFrom 0 _ = .ok _ from rfl⟩
  obtain ⟨tokens, hscan, herror⟩ := error_at_first_obstacle "¬(a∨b) )∧c" halphabet
  have hnone : ∀ f, ¬ Derives 1 (tokens.map (·.symbol)) f := by
    intro f hf
    rw [read, hscan] at hread
    have hok : ofTokens tokens = .ok f := ofTokens_eq_ok_iff.mpr hf
    cases hok.symm.trans hread
  obtain ⟨k, e, -, he, -, hlongest, hdiagnose, -⟩ := herror hnone
  rw [hread] at he
  cases he
  exact ⟨halphabet, tokens, k, hscan, hnone, hlongest, hdiagnose⟩

end Formula

end Propositional
