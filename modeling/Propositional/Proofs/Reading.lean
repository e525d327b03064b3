import Propositional.Formula.Reader
import Propositional.Proofs.Checked
import Propositional.Proofs.Tokens

/-!
# Reading what was written

The text of a formula reads as that formula.  The reader meets the text of a subformula with some
frames already open.  When it has taken the symbols of the subformula, an operand is complete, but
negations in front of it are still frames of their own: they are closed by the next operator, by a
parenthesis or by the end.  What the reader has then is as good as the subformula on the frames
that were open before, because closing frames leads to the same from both.

* `Reader.run_append`       — taking tokens one row after the other;
* `Reader.run_enclosed`, `Reader.run_connective` — parentheses around an operand, and a connective
  behind one;
* `Reader.run_symbols`      — taking the symbols of a formula, whatever is open;
* `Formula.read_text_eq_ok`, `Formula.text_injective` — the text of a formula reads as that formula,
  for atoms of any type, so no other formula has it;
* `Formula.text_round_trip` — the same for formulas over letters, also when given as an input.
-/

namespace Propositional

variable {α : Type}

namespace Reader

/-- A finished operand takes its negation from the stack. -/
theorem reduce_neg (strength : Nat) (stack : List (Frame α)) (f : Formula α) :
    reduce strength (.neg :: stack) f = reduce strength stack (.neg f) := by
  rw [reduce]

/-- An open parenthesis stops the reduction. -/
theorem reduce_paren (strength : Nat) (stack : List (Frame α)) (f : Formula α) :
    reduce strength (.paren :: stack) f = (.paren :: stack, f) := by
  rw [reduce]

/-- At the end of a group every left side gets its right side. -/
theorem reduce_zero_left (stack : List (Frame α)) (l r : Formula α) (op : Connective) :
    reduce 0 (.left l op :: stack) r = reduce 0 stack (.bin op l r) := by
  rw [reduce, if_pos (Nat.zero_le _)]

variable [Atom α]

/-! ## Single tokens -/

variable {stack : List (Frame α)} {t : Token α}

theorem step_atom {a : α} (ht : t.symbol = .atom a) (stack : List (Frame α)) :
    step ⟨stack, none⟩ t = .ok ⟨stack, some (.var a)⟩ := by
  rw [step, stepOperand, ht]

theorem step_const {b : Bool} (ht : t.symbol = .const b) (stack : List (Frame α)) :
    step ⟨stack, none⟩ t = .ok ⟨stack, some (.const b)⟩ := by
  rw [step, stepOperand, ht]

theorem step_neg (ht : t.symbol = .neg) (stack : List (Frame α)) :
    step ⟨stack, none⟩ t = .ok ⟨.neg :: stack, none⟩ := by
  rw [step, stepOperand, ht]

theorem step_leftParen (ht : t.symbol = .leftParen) (stack : List (Frame α)) :
    step ⟨stack, none⟩ t = .ok ⟨.paren :: stack, none⟩ := by
  rw [step, stepOperand, ht]

/-- A connective takes as its left side what the frames that bind as tightly amount to. -/
theorem stepOperator_op {rest : List (Frame α)} {f l : Formula α} {op : Connective}
    (ht : t.symbol = .op op) (h : reduce op.strength stack f = (rest, l)) :
    stepOperator stack f t = .ok ⟨.left l op :: rest, none⟩ := by
  unfold stepOperator
  rw [ht]
  simp only [h]

/-- A closing parenthesis completes the group that began with the last open one. -/
theorem stepOperator_rightParen {rest : List (Frame α)} {f group : Formula α}
    (ht : t.symbol = .rightParen) (h : reduce 0 stack f = (.paren :: rest, group)) :
    stepOperator stack f t = .ok ⟨rest, some group⟩ := by
  unfold stepOperator
  rw [ht]
  simp only [h]

/-! ## Rows of tokens -/

/-- Two rows of tokens are taken one after the other. -/
theorem run_append (r : Reader α) (xs ys : List (Token α)) :
    r.run (xs ++ ys) = (r.run xs).bind fun next => next.run ys := by
  induction xs generalizing r with
  | nil => rfl
  | cons t xs ih =>
    rw [List.cons_append, run, run]
    cases r.step t with
    | error e => rfl
    | ok next => exact ih next

theorem run_cons_of_step {r next : Reader α} {t : Token α} (h : r.step t = .ok next)
    (rest : List (Token α)) : r.run (t :: rest) = next.run rest := by
  rw [run, h]

/-- Parentheses around tokens that lead to an operand lead to the same operand, as soon as it can be
closed down to the opening one. -/
theorem run_enclosed {stack' : List (Frame α)} {f g : Formula α} {opening closing : Token α}
    {inner : List (Token α)} (hopening : opening.symbol = .leftParen)
    (hclosing : closing.symbol = .rightParen)
    (hinner : run ⟨.paren :: stack, none⟩ inner = .ok ⟨stack', some g⟩)
    (hreduce : reduce 0 stack' g = (.paren :: stack, f)) :
    run ⟨stack, none⟩ (opening :: (inner ++ [closing])) = .ok ⟨stack, some f⟩ := by
  have hclose : step ⟨stack', some g⟩ closing = .ok ⟨stack, some f⟩ :=
    stepOperator_rightParen hclosing hreduce
  rw [run_cons_of_step (step_leftParen hopening stack), run_append, hinner]
  exact run_cons_of_step hclose []

/-- A connective behind tokens that lead to its left side opens its right side. -/
theorem run_connective {rest stack' : List (Frame α)} {l g : Formula α} {op : Connective}
    {left : List (Token α)} (ht : t.symbol = .op op)
    (hleft : run ⟨stack, none⟩ left = .ok ⟨stack', some g⟩)
    (hreduce : reduce op.strength stack' g = (rest, l)) (right : List (Token α)) :
    run ⟨stack, none⟩ (left ++ t :: right) = run ⟨.left l op :: rest, none⟩ right := by
  have hstep : step ⟨stack', some g⟩ t = .ok ⟨.left l op :: rest, none⟩ :=
    stepOperator_op ht hreduce
  rw [run_append, hleft]
  exact run_cons_of_step hstep right

omit [Atom α] in
/-- When no token follows, everything that is open is closed. -/
theorem finish_of_reduce {f g : Formula α} (h : reduce 0 stack g = ([], f)) :
    finish ⟨stack, some g⟩ = .ok f := by
  rw [finish]
  simp only [h]

/-- After the symbols of a formula an operand is complete.  Closing frames from there leads to the
same as closing them from the formula itself on what was open before. -/
theorem run_symbols (f : Formula α) (stack : List (Frame α)) {tokens : List (Token α)}
    (h : tokens.map (·.symbol) = f.symbols) :
    ∃ stack' g, run ⟨stack, none⟩ tokens = .ok ⟨stack', some g⟩ ∧
      ∀ strength, reduce strength stack' g = reduce strength stack f := by
  induction f generalizing stack tokens with
  | var a =>
    obtain ⟨t, rfl, ht⟩ := List.map_eq_singleton_iff.mp h
    exact ⟨stack, .var a, run_cons_of_step (step_atom ht stack) [], fun _ => rfl⟩
  | const b =>
    obtain ⟨t, rfl, ht⟩ := List.map_eq_singleton_iff.mp h
    exact ⟨stack, .const b, run_cons_of_step (step_const ht stack) [], fun _ => rfl⟩
  | neg f ih =>
    rw [Formula.symbols, List.map_eq_cons_iff] at h
    obtain ⟨t, rest, rfl, ht, hrest⟩ := h
    -- the negation stays open: its operand is completed above it
    obtain ⟨stack', g, hrun, hreduce⟩ := ih (.neg :: stack) hrest
    refine ⟨stack', g, ?_, ?_⟩
    · rw [run_cons_of_step (step_neg ht stack), hrun]
    · intro strength
      rw [hreduce, reduce_neg]
  | bin op l r ihl ihr =>
    rw [Formula.symbols, List.map_eq_cons_iff] at h
    obtain ⟨opening, rest, rfl, hopening, hrest⟩ := h
    obtain ⟨left, rest, rfl, hleft, hrest⟩ := List.map_eq_append_iff.mp hrest
    obtain ⟨middle, rest, rfl, hmiddle, hrest⟩ := List.map_eq_cons_iff.mp hrest
    obtain ⟨right, rest, rfl, hright, hrest⟩ := List.map_eq_append_iff.mp hrest
    obtain ⟨closing, rfl, hclosing⟩ := List.map_eq_singleton_iff.mp hrest
    -- the left side lies on the open parenthesis, so the connective closes all of it
    obtain ⟨stackl, gl, hrunl, hreducel⟩ := ihl (.paren :: stack) hleft
    have hclosed : reduce op.strength stackl gl = (.paren :: stack, l) :=
      (hreducel op.strength).trans (reduce_paren _ stack l)
    -- the closing parenthesis closes the right side and the connective
    obtain ⟨stackr, gr, hrunr, hreducer⟩ := ihr (.left l op :: .paren :: stack) hright
    have hwhole : reduce 0 stackr gr = (.paren :: stack, .bin op l r) := by
      rw [hreducer, reduce_zero_left, reduce_paren]
    have hinner : run ⟨.paren :: stack, none⟩ (left ++ middle :: right) =
        .ok ⟨stackr, some gr⟩ := (run_connective hmiddle hrunl hclosed right).trans hrunr
    refine ⟨stack, .bin op l r, ?_, fun _ => rfl⟩
    have hgroup := run_enclosed hopening hclosing hinner hwhole
    rwa [List.append_assoc, List.cons_append] at hgroup

end Reader

namespace Formula

variable [Atom α]

/-- The symbols of a formula, wherever they stand, write that formula. -/
theorem ofTokens_symbols {f : Formula α} {tokens : List (Token α)}
    (h : tokens.map (·.symbol) = f.symbols) : ofTokens tokens = .ok f := by
  obtain ⟨stack, g, hrun, hreduce⟩ := Reader.run_symbols f [] h
  have hwhole : Reader.reduce 0 stack g = ([], f) := hreduce 0
  rw [ofTokens, Reader.start, hrun]
  exact Reader.finish_of_reduce hwhole

/-- The text of a formula reads as that formula. -/
theorem read_text_eq_ok (f : Formula α) : read f.text = .ok f := by
  obtain ⟨tokens, hscan, hsymbols⟩ := Token.scanFrom_map_glyph f.symbols 0
  rw [read, Token.scan, text, String.toList_ofList, glyphs_eq_map, hscan]
  exact ofTokens_symbols hsymbols

/-- Formulas that are written alike are equal. -/
theorem text_injective : Function.Injective (text : Formula α → String) := by
  intro f g hfg
  have hread : (Except.ok f : Except SyntaxError (Formula α)) = .ok g := by
    rw [← read_text_eq_ok f, ← read_text_eq_ok g, hfg]
  exact Except.ok.inj hread

/-- The text of every formula is a formula text, and reading it gives the formula back.  So no two
formulas are written alike. -/
theorem text_round_trip :
    (∀ f : Formula Letter, read f.text = .ok f ∧
      ∀ threshold, ((Checked.readFormula (.text f.text)).run threshold).2 = .ok f) ∧
    Function.Injective (text : Formula Letter → String) := by
  refine ⟨?_, text_injective⟩
  intro f
  have hread : read f.text = .ok f := read_text_eq_ok f
  exact ⟨hread, fun threshold => (Checked.run_readFormula_eq_ok_iff threshold).mpr hread⟩

end Formula

end Propositional
