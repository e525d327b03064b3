import Propositional.Token

/-!
# The grammar of formulas

The language of formulas as a grammar in layers, one for each strength of binding, said without the
reader.  Layers 1 to 4 belong to the connectives `↔`, `→`, `∨` and `∧`, layer 5 to everything that
no connective can split.

* `Derives` — the words of each layer with the formula that they write.

A layer's connective takes a left side from its own layer and a right side from the next tighter
one, which is what associating to the left means.
-/

namespace Propositional

/-- `Derives n w f`: the symbols `w` write the formula `f` in the layer of strength `n`. -/
inductive Derives {α : Type} : Nat → List (Symbol α) → Formula α → Prop where
  | atom (a : α) : Derives 5 [.atom a] (.var a)
  | const (b : Bool) : Derives 5 [.const b] (.const b)
  -- Negation takes an operand of the tightest layer.
  | neg {w : List (Symbol α)} {f : Formula α} :
    Derives 5 w f → Derives 5 (.neg :: w) (.neg f)
  -- A formula of any layer in parentheses cannot be split.
  | group {w : List (Symbol α)} {f : Formula α} :
    Derives 1 w f → Derives 5 (.leftParen :: (w ++ [.rightParen])) f
  -- A connective joins a left side of its own layer and a right side of the next.
  | bin {op : Connective} {u v : List (Symbol α)} {l r : Formula α} :
    Derives op.strength u l → Derives (op.strength + 1) v r →
      Derives op.strength (u ++ .op op :: v) (.bin op l r)
  -- Whatever a tighter layer writes, the looser one writes too.
  | tighter {n : Nat} {w : List (Symbol α)} {f : Formula α} :
    1 ≤ n → n ≤ 4 → Derives (n + 1) w f → Derives n w f

end Propositional
