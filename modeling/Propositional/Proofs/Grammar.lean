import Propositional.Formula.Grammar
import Propositional.Proofs.Reading

/-!
# The reader and the grammar

The reader accepts a row of tokens with a formula exactly when the layered grammar derives the
formula from their symbols.

Frames and layers fit together through `Reader.layer`: an operand that is put on the open frames
has to come from a layer at least as tight.  In one direction a derivation is followed by the
reader, from any frames that it fits on.  In the other, the symbols that have been taken are split
up along the frames (`Reader.Opens`), and every step keeps such a splitting.

* `Reader.run_of_derives`   — what the grammar derives, the reader takes;
* `Reader.Reached`, `Reader.reached_step`, `Reader.reached_run` — what the symbols taken so far
  amount to, kept by every step and so by every run;
* `Formula.ofTokens_eq_ok_iff` — the reader accepts what the grammar derives, with the same formula;
* `Derives.unique`          — the grammar is unambiguous;
* `Formula.read_iff_derives` — both for texts over the alphabet.
-/

namespace Propositional

variable {α : Type}

/-! ## Layers -/

namespace Connective

theorem one_le_strength (op : Connective) : 1 ≤ op.strength := by
  cases op <;> decide

theorem strength_le_four (op : Connective) : op.strength ≤ 4 := by
  cases op <;> decide

end Connective

namespace Derives

variable {m n : Nat} {w : List (Symbol α)} {f : Formula α}

/-- The fifth layer, that of operands and negations, is the tightest one. -/
theorem le_five (h : Derives n w f) : n ≤ 5 := by
  induction h with
  | atom a => omega
  | const b => omega
  | neg _ _ => omega
  | group _ _ => omega
  | @bin op _ _ _ _ _ _ _ _ =>
    have hop := op.strength_le_four
    omega
  | tighter _ hn _ _ => omega

/-- What a layer writes, all looser layers write. -/
theorem loosen (h : Derives n w f) (hm : 1 ≤ m) (hmn : m ≤ n) : Derives m w f := by
  obtain ⟨k, rfl⟩ := Nat.exists_eq_add_of_le hmn
  induction k with
  | zero => exact h
  | succ k ih =>
    have hn := h.le_five
    have hlooser : Derives (m + k) w f := .tighter (by omega) (by omega) h
    exact ih hlooser (Nat.le_add_right m k)

end Derives

namespace Reader

/-- The layer from which an operand on the open frames has to come. -/
def layer : List (Frame α) → Nat
  | .neg :: _ => 5
  | .left _ op :: _ => op.strength + 1
  | _ => 1

theorem layer_le_five (stack : List (Frame α)) : layer stack ≤ 5 := by
  unfold layer
  split
  · omega
  · next op _ =>
    have hop := op.strength_le_four
    omega
  · omega

/-- A connective closes nothing on frames that a left side of its strength fits on. -/
theorem reduce_of_layer_le {stack : List (Frame α)} {strength : Nat} (f : Formula α)
    (hlayer : layer stack ≤ strength) (hstrength : strength ≤ 4) :
    reduce strength stack f = (stack, f) := by
  match stack with
  | [] => rfl
  | .paren :: rest => rfl
  | .neg :: rest =>
    rw [layer] at hlayer
    omega
  | .left l op :: rest =>
    rw [layer] at hlayer
    rw [reduce, if_neg (by omega)]

theorem reduce_left {op : Connective} {strength : Nat} (stack : List (Frame α)) (l r : Formula α)
    (h : strength ≤ op.strength) :
    reduce strength (.left l op :: stack) r = reduce strength stack (.bin op l r) := by
  rw [reduce, if_pos h]

/-- The end of a group closes as much as the loosest connective. -/
theorem reduce_zero (stack : List (Frame α)) (f : Formula α) :
    reduce 0 stack f = reduce 1 stack f := by
  induction stack generalizing f with
  | nil => rfl
  | cons frame rest ih =>
    cases frame with
    | neg => rw [reduce_neg, reduce_neg, ih]
    | left l op => rw [reduce_zero_left, reduce_left rest l f op.one_le_strength, ih]
    | paren => rfl

/-- At the end of a group, frames are closed down to its parenthesis, or all of them. -/
theorem reduce_zero_fst (stack : List (Frame α)) (f : Formula α) :
    (reduce 0 stack f).1 = [] ∨ ∃ rest, (reduce 0 stack f).1 = .paren :: rest := by
  induction stack generalizing f with
  | nil => exact Or.inl rfl
  | cons frame rest ih =>
    cases frame with
    | neg =>
      rw [reduce_neg]
      exact ih _
    | left l op =>
      rw [reduce_zero_left]
      exact ih _
    | paren => exact Or.inr ⟨rest, rfl⟩

/-! ## Following a derivation -/

variable [Atom α]

/-- The reader takes what the grammar derives, on any frames that an operand of that layer fits on.
Closing frames from there leads to the same as closing them from the whole operand. -/
theorem run_of_derives {n : Nat} {w : List (Symbol α)} {f : Formula α} (h : Derives n w f)
    {stack : List (Frame α)} (hfit : layer stack ≤ n) {tokens : List (Token α)}
    (htokens : tokens.map (·.symbol) = w) :
    ∃ stack' g, run ⟨stack, none⟩ tokens = .ok ⟨stack', some g⟩ ∧
      ∀ strength ≤ n, reduce strength stack' g = reduce strength stack f := by
  induction h generalizing stack tokens with
  | atom a =>
    obtain ⟨t, rfl, ht⟩ := List.map_eq_singleton_iff.mp htokens
    exact ⟨stack, .var a, run_cons_of_step (step_atom ht stack) [], fun _ _ => rfl⟩
  | const b =>
    obtain ⟨t, rfl, ht⟩ := List.map_eq_singleton_iff.mp htokens
    exact ⟨stack, .const b, run_cons_of_step (step_const ht stack) [], fun _ _ => rfl⟩
  | neg _ ih =>
    obtain ⟨t, rest, rfl, ht, hrest⟩ := List.map_eq_cons_iff.mp htokens
    have hfits : layer (.neg :: stack) ≤ 5 := Nat.le_refl 5
    obtain ⟨stack', g, hrun, hreduce⟩ := ih hfits hrest
    refine ⟨stack', g, ?_, ?_⟩
    · rw [run_cons_of_step (step_neg ht stack), hrun]
    · intro strength hstrength
      rw [hreduce strength hstrength, reduce_neg]
  | @group w f _ ih =>
    obtain ⟨opening, rest, rfl, hopening, hrest⟩ := List.map_eq_cons_iff.mp htokens
    obtain ⟨inner, rest, rfl, hinner, hrest⟩ := List.map_eq_append_iff.mp hrest
    obtain ⟨closing, rfl, hclosing⟩ := List.map_eq_singleton_iff.mp hrest
    -- the group lies on its own parenthesis, so nothing below it is touched
    have hfits : layer (.paren :: stack) ≤ 1 := Nat.le_refl 1
    obtain ⟨stack', g, hrun, hreduce⟩ := ih hfits hinner
    have hwhole := (hreduce 0 (Nat.zero_le 1)).trans (reduce_paren 0 stack f)
    exact ⟨stack, f, run_enclosed hopening hclosing hrun hwhole, fun _ _ => rfl⟩
  | @bin op u v l r _ _ ihl ihr =>
    obtain ⟨left, rest, rfl, hleft, hrest⟩ := List.map_eq_append_iff.mp htokens
    obtain ⟨middle, right, rfl, hmiddle, hright⟩ := List.map_eq_cons_iff.mp hrest
    -- the connective closes the left side completely, and nothing that was open before
    obtain ⟨stackl, gl, hrunl, hreducel⟩ := ihl hfit hleft
    have hclosed : reduce op.strength stackl gl = (stack, l) :=
      (hreducel op.strength (Nat.le_refl _)).trans (reduce_of_layer_le l hfit op.strength_le_four)
    have hfits : layer (.left l op :: stack) ≤ op.strength + 1 := Nat.le_refl _
    obtain ⟨stackr, gr, hrunr, hreducer⟩ := ihr hfits hright
    refine ⟨stackr, gr, (run_connective hmiddle hrunl hclosed right).trans hrunr, ?_⟩
    intro strength hstrength
    rw [hreducer strength (by omega), reduce_left stack l r hstrength]
  | tighter _ hn _ ih =>
    obtain ⟨stack', g, hrun, hreduce⟩ := ih (Nat.le_succ_of_le hfit) htokens
    exact ⟨stack', g, hrun, fun strength hstrength => hreduce strength (by omega)⟩

/-! ## What has been taken -/

/-- `Opens stack u`: the symbols `u` lead to the open frames, innermost last.  A left side was
closed as far as its connective reaches. -/
inductive Opens : List (Frame α) → List (Symbol α) → Prop where
  | nil : Opens [] []
  | neg {stack : List (Frame α)} {u : List (Symbol α)} :
    Opens stack u → Opens (.neg :: stack) (u ++ [.neg])
  | paren {stack : List (Frame α)} {u : List (Symbol α)} :
    Opens stack u → Opens (.paren :: stack) (u ++ [.leftParen])
  | left {stack : List (Frame α)} {u v : List (Symbol α)} {l : Formula α} {op : Connective} :
    Opens stack u → layer stack ≤ op.strength → Derives op.strength v l →
      Opens (.left l op :: stack) (u ++ (v ++ [.op op]))

omit [Atom α] in
/-- Closing frames regroups the symbols: what is left open fits the strength, and everything behind
it has become one operand of that strength. -/
theorem reduce_sound {stack rest : List (Frame α)} {u v : List (Symbol α)} {f g : Formula α}
    {strength n : Nat} (hopen : Opens stack u) (hf : Derives n v f) (hfit : layer stack ≤ n)
    (hpos : 1 ≤ strength) (hle : strength ≤ n) (h : reduce strength stack f = (rest, g)) :
    ∃ u' v', u ++ v = u' ++ v' ∧ Opens rest u' ∧ layer rest ≤ strength ∧
      Derives strength v' g := by
  induction hopen generalizing v f n with
  | nil =>
    cases h
    exact ⟨[], v, rfl, .nil, hpos, hf.loosen hpos hle⟩
  | @paren stack u hopen _ =>
    cases h
    exact ⟨_, v, rfl, .paren hopen, hpos, hf.loosen hpos hle⟩
  | @neg stack u _ ih =>
    -- only an operand of the tightest layer fits behind a negation
    have hn := hf.le_five
    have hfive : Derives 5 v f := hf.loosen (by omega) hfit
    rw [reduce_neg] at h
    obtain ⟨u', v', hsplit, hrest⟩ := ih (.neg hfive) (layer_le_five stack) (by omega) h
    exact ⟨u', v', by rw [← hsplit, List.append_assoc]; rfl, hrest⟩
  | @left stack u w l op hopen hlayer hl ih =>
    have hop := op.one_le_strength
    have hright : Derives (op.strength + 1) v f := hf.loosen (by omega) hfit
    by_cases hstrength : strength ≤ op.strength
    · -- the connective is closed: both sides are one operand now, still on the frames below
      rw [reduce_left stack l f hstrength] at h
      obtain ⟨u', v', hsplit, hrest⟩ := ih (.bin hl hright) hlayer hstrength h
      exact ⟨u', v', by rw [← hsplit]; simp, hrest⟩
    · -- it stays open, as it binds less tightly than what comes
      rw [reduce, if_neg hstrength] at h
      cases h
      have hfits : layer (.left l op :: stack) ≤ strength := Nat.lt_of_not_le hstrength
      exact ⟨_, v, rfl, .left hopen hlayer hl, hfits, hf.loosen hpos hle⟩

/-- What the symbols taken so far amount to: the open frames and, behind them, the operand that has
just been completed. -/
def Reached (r : Reader α) (w : List (Symbol α)) : Prop :=
  match r.operand with
  | none => Opens r.stack w
  | some f => ∃ u v, w = u ++ v ∧ Opens r.stack u ∧ Derives 5 v f

omit [Atom α] in
/-- At the beginning nothing has been read. -/
theorem reached_start : Reached (start : Reader α) [] :=
  Opens.nil

/-- A token that is accepted in the place of an operand is read behind the others. -/
theorem reached_stepOperand {stack : List (Frame α)} {w : List (Symbol α)} {t : Token α}
    {next : Reader α} (hopen : Opens stack w) (h : stepOperand stack t = .ok next) :
    Reached next (w ++ [t.symbol]) := by
  unfold stepOperand at h
  -- a letter, a constant, a negation, an open parenthesis; other tokens are refused
  split at h
  · next a ht =>
    cases h
    rw [ht]
    exact ⟨w, _, rfl, hopen, .atom a⟩
  · next b ht =>
    cases h
    rw [ht]
    exact ⟨w, _, rfl, hopen, .const b⟩
  · next ht =>
    cases h
    rw [ht]
    exact hopen.neg
  · next ht =>
    cases h
    rw [ht]
    exact hopen.paren
  · cases h
  · cases h

/-- So is a token that is accepted behind an operand. -/
theorem reached_stepOperator {stack : List (Frame α)} {u v : List (Symbol α)} {f : Formula α}
    {t : Token α} {next : Reader α} (hopen : Opens stack u) (hf : Derives 5 v f)
    (h : stepOperator stack f t = .ok next) : Reached next (u ++ v ++ [t.symbol]) := by
  have hfit := layer_le_five stack
  unfold stepOperator at h
  split at h
  · next op ht =>
    have hop := op.one_le_strength
    have hop' := op.strength_le_four
    -- what the connective closes becomes its left side
    obtain ⟨u', v', hsplit, hrest, hlayer, hleft⟩ :=
      reduce_sound hopen hf hfit hop (by omega) rfl
    cases h
    rw [ht, hsplit, List.append_assoc]
    exact .left hrest hlayer hleft
  · next ht =>
    split at h
    · next rest group hreduce =>
      cases h
      rw [reduce_zero] at hreduce
      obtain ⟨u', v', hsplit, hrest, -, hgroup⟩ :=
        reduce_sound hopen hf hfit (Nat.le_refl 1) (by omega) hreduce
      -- the innermost frame left is the parenthesis in front of the group
      cases hrest with
      | @paren _ u hrest =>
        rw [ht, hsplit]
        exact ⟨u, _, by simp, hrest, .group hgroup⟩
    · cases h
  · split at h
    · cases h
    · cases h

theorem reached_step {r next : Reader α} {w : List (Symbol α)} {t : Token α} (hr : Reached r w)
    (h : r.step t = .ok next) : Reached next (w ++ [t.symbol]) := by
  obtain ⟨stack, operand⟩ := r
  cases operand with
  | none => exact reached_stepOperand hr h
  | some f =>
    obtain ⟨u, v, rfl, hopen, hf⟩ := hr
    exact reached_stepOperator hopen hf h

/-- Every run keeps what the symbols taken so far amount to. -/
theorem reached_run {r next : Reader α} {w : List (Symbol α)} {tokens : List (Token α)}
    (hr : Reached r w) (h : r.run tokens = .ok next) :
    Reached next (w ++ tokens.map (·.symbol)) := by
  induction tokens generalizing r w with
  | nil =>
    cases h
    simpa using hr
  | cons t rest ih =>
    rw [run] at h
    split at h
    · next middle hstep =>
      have hnext := ih (reached_step hr hstep) h
      simpa using hnext
    · cases h

omit [Atom α] in
/-- When no token follows, everything that has been taken is one formula. -/
theorem derives_of_finish {r : Reader α} {w : List (Symbol α)} {f : Formula α} (hr : Reached r w)
    (h : r.finish = .ok f) : Derives 1 w f := by
  obtain ⟨stack, operand⟩ := r
  cases operand with
  | none => cases h
  | some g =>
    obtain ⟨u, v, rfl, hopen, hg⟩ := hr
    simp only [finish] at h
    split at h
    · next whole hreduce =>
      cases h
      rw [reduce_zero] at hreduce
      obtain ⟨u', v', hsplit, hrest, -, hwhole⟩ :=
        reduce_sound hopen hg (layer_le_five stack) (Nat.le_refl 1) (by omega) hreduce
      -- no frame is left, so nothing stands in front of the operand
      cases hrest
      rw [hsplit]
      exact hwhole
    · cases h

end Reader

/-! ## The grammar decides -/

variable [Atom α]

namespace Formula

/-- The reader accepts exactly the rows of tokens that the grammar derives, with the formula that
it derives. -/
theorem ofTokens_eq_ok_iff {tokens : List (Token α)} {f : Formula α} :
    ofTokens tokens = .ok f ↔ Derives 1 (tokens.map (·.symbol)) f := by
  constructor
  · intro h
    rw [ofTokens] at h
    split at h
    · next r hrun => exact Reader.derives_of_finish (Reader.reached_run Reader.reached_start hrun) h
    · cases h
  · intro h
    have hfits : Reader.layer ([] : List (Frame α)) ≤ 1 := Nat.le_refl 1
    obtain ⟨stack, g, hrun, hreduce⟩ := Reader.run_of_derives h hfits rfl
    have hwhole : Reader.reduce 0 stack g = ([], f) := hreduce 0 (Nat.zero_le 1)
    rw [ofTokens, Reader.start, hrun]
    exact Reader.finish_of_reduce hwhole

end Formula

/-- The grammar derives at most one formula from a row of symbols. -/
theorem Derives.unique {w : List (Symbol α)} {f g : Formula α} (hf : Derives 1 w f)
    (hg : Derives 1 w g) : f = g := by
  -- the reader takes any tokens with these symbols, and it has one answer
  let tokens : List (Token α) := w.map fun s => ⟨s, 0⟩
  have htokens : tokens.map (·.symbol) = w := by simp [tokens, Function.comp_def]
  rw [← htokens, ← Formula.ofTokens_eq_ok_iff] at hf hg
  exact Except.ok.inj (hf.symm.trans hg)

namespace Formula

/-- A text reads as a formula exactly when it is written with symbols from which the grammar
derives the formula. -/
theorem read_eq_ok_iff {text : String} {f : Formula α} :
    read text = .ok f ↔
      ∃ w, withoutSeparators text.toList = w.map Symbol.glyph ∧ Derives 1 w f := by
  rw [read]
  constructor
  · intro h
    split at h
    · next tokens hscan =>
      exact ⟨_, Token.exists_scanFrom_iff.mp ⟨tokens, hscan, rfl⟩, ofTokens_eq_ok_iff.mp h⟩
    · cases h
  · rintro ⟨w, hw, hf⟩
    obtain ⟨tokens, hscan, rfl⟩ := Token.exists_scanFrom_iff.mpr hw
    rw [Token.scan, hscan]
    exact ofTokens_eq_ok_iff.mpr hf

/-- **The reader decides an unambiguous grammar.**  A text over the alphabet is cut into tokens for
its characters other than separators, and it reads as a formula, also when given as an input,
exactly when the grammar derives the formula from these tokens.  The grammar derives at most one
formula from any row of symbols. -/
theorem read_iff_derives :
    (∀ text : String, (∀ c ∈ text.toList, InAlphabet Letter c) →
      ∃ tokens : List (Token Letter), Token.scan text = .ok tokens ∧
        tokens.map Token.glyph = withoutSeparators text.toList ∧
        ∀ f, (read text = .ok f ↔ Derives 1 (tokens.map (·.symbol)) f) ∧
          ∀ threshold, ((Checked.readFormula (.text text)).run threshold).2 = .ok f ↔
            Derives 1 (tokens.map (·.symbol)) f) ∧
    ∀ (w : List (Symbol Letter)) (f g : Formula Letter),
      Derives 1 w f → Derives 1 w g → f = g := by
  refine ⟨?_, fun w f g hf hg => hf.unique hg⟩
  intro text halphabet
  obtain ⟨tokens, hscan⟩ := Token.exists_scanFrom_eq_ok_iff.mpr halphabet
  have hglyphs : withoutSeparators text.toList = (tokens.map (·.symbol)).map Symbol.glyph :=
    Token.exists_scanFrom_iff.mp ⟨tokens, hscan, rfl⟩
  have hread : ∀ f, read text = .ok f ↔ Derives 1 (tokens.map (·.symbol)) f := by
    intro f
    rw [read, Token.scan, hscan]
    exact ofTokens_eq_ok_iff
  refine ⟨tokens, hscan, ?_, fun f => ⟨hread f, fun threshold => ?_⟩⟩
  · rw [hglyphs, List.map_map]
    rfl
  · rw [Checked.run_readFormula_eq_ok_iff]
    exact hread f

/-- Negation binds tightest, then disjunction, then the two implications from the left. -/
theorem read_iff_derives_ladder :
    (∀ c ∈ "¬a∨b → (c)\t→ d".toList, InAlphabet Letter c) ∧
      ∃ (tokens : List (Token Letter)) (f : Formula Letter),
        Token.scan "¬a∨b → (c)\t→ d" = .ok tokens ∧ f.text = "(((¬a∨b)→c)→d)" ∧
        Derives 1 (tokens.map (·.symbol)) f ∧
        ∀ g, Derives 1 (tokens.map (·.symbol)) g → g = f := by
  let letter (c : Char) (h : c.isLower = true) : Formula Letter := .var ⟨c, h⟩
  let f : Formula Letter :=
    .bin .implies
      (.bin .implies (.bin .or (.neg (letter 'a' rfl)) (letter 'b' rfl)) (letter 'c' rfl))
      (letter 'd' rfl)
  have halphabet : ∀ c ∈ "¬a∨b → (c)\t→ d".toList, InAlphabet Letter c :=
    Token.exists_scanFrom_eq_ok_iff.mp ⟨_, show Token.scanFrom 0 _ = .ok _ from rfl⟩
  obtain ⟨tokens, hscan, -, hread⟩ := read_iff_derives.1 "¬a∨b → (c)\t→ d" halphabet
  have hf : Derives 1 (tokens.map (·.symbol)) f := (hread f).1.mp rfl
  exact ⟨halphabet, tokens, f, hscan, rfl, hf, fun g hg => read_iff_derives.2 _ g f hg hf⟩

end Formula

end Propositional
