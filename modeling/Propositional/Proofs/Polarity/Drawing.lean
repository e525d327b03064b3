import Propositional.Proofs.Positions.Depths
import Propositional.Proofs.Reading

/-!
# Drawings of formulas

The drawing of a formula has one line for each position, in pre-order.  In front of what stands at
a position there are pieces of four characters, one for each step of the position: the last one is
the branch to the node, the others continue the branches to the nodes above it.  Each piece says
whether the node that it leads to is the last child of its parent.

The pieces in front are handed down with every node, so the induction on the tree is about a
subformula at some position, after the pieces that this position asks for.

No position and no formula begins with a character of these pieces, so the depth of a line is read
off its characters, and the parent of a line is the nearest one before it that is one level less
deep.

* `Formula.IsLastChild`       — no later child of the parent is there;
* `Annotated.Cells`, `Annotated.DrawnAt` — what is in front of a node, and its line;
* `Annotated.forall₂_drawBelow`, `Annotated.forall₂_drawLines` — the lines of a drawing;
* `Annotated.linesOf`, `Annotated.depthOf` — lines and their depths as read off a drawing;
* `Annotated.IsOutline`, `Annotated.drawing_exact` — the main result.
-/

namespace Propositional

namespace Formula

variable {α : Type} {f g : Formula α} {p : Position} {s : Step}

/-! ## Last children -/

/-- The position is that of a child, and no later child of the same parent is there. -/
def IsLastChild (f : Formula α) (p : Position) : Prop :=
  ∃ (q : Position) (s : Step), p = q ++ [s] ∧
    ∀ t : Step, s.number < t.number → f.at? (q ++ [t]) = none

/-- A node is the last child when no child with a larger step stands beside it. -/
theorem isLastChild_append_singleton_iff (hg : f.at? p = some g) :
    f.IsLastChild (p ++ [s]) ↔ ∀ t : Step, s.number < t.number → g.child? t = none := by
  constructor
  · rintro ⟨q, s', heq, hlast⟩ t hst
    obtain ⟨rfl, hs⟩ := List.append_inj' heq rfl
    obtain rfl : s = s' := List.singleton_inj.mp hs
    rw [← at?_append_singleton hg]
    exact hlast t hst
  · intro h
    refine ⟨p, s, rfl, fun t hst => ?_⟩
    rw [at?_append_singleton hg]
    exact h t hst

/-- The operand of a negation is its only child, so it is the last one. -/
theorem isLastChild_operand (hg : f.at? p = some (.neg g)) : f.IsLastChild (p ++ [.first]) := by
  rw [isLastChild_append_singleton_iff hg]
  intro t ht
  cases t with
  | first => exact absurd ht (Nat.lt_irrefl _)
  | second => rfl

/-- The left side of a connective has the right one behind it. -/
theorem not_isLastChild_first {op : Connective} {l r : Formula α}
    (hg : f.at? p = some (.bin op l r)) : ¬ f.IsLastChild (p ++ [.first]) := by
  rw [isLastChild_append_singleton_iff hg]
  intro hlast
  cases hlast .second Nat.one_lt_two

/-- A right side is always the last child. -/
theorem isLastChild_second (hg : f.at? p = some g) : f.IsLastChild (p ++ [.second]) := by
  rw [isLastChild_append_singleton_iff hg]
  intro t ht
  cases t with
  | first => exact absurd ht (by decide)
  | second => exact absurd ht (Nat.lt_irrefl _)

end Formula

namespace Annotated

variable {α : Type} {f g : Formula α} {p : Position} {cells : List String} {last : Bool}

/-! ## Lines -/

/-- Of two pieces one is drawn: `closed` where the node at the position is the last child of its
parent, and `opened` where it is not. -/
def Shows (f : Formula α) (p : Position) (opened closed drawn : String) : Prop :=
  (drawn = closed ↔ f.IsLastChild p) ∧ (drawn = opened ↔ ¬ f.IsLastChild p)

/-- The cells in front of the branch to a node. -/
structure Cells (f : Formula α) (p : Position) (cells : List String) : Prop where
  -- There is one for every step but the last.
  count : cells.length + 1 = p.length
  width : ∀ c ∈ cells, c.length = 4
  -- There is a bar below a node that is not the last child of its parent.
  shown : ∀ k c, cells[k]? = some c → Shows f (p.take (k + 1)) "│   " "    " c

/-- The line for what stands at a position. -/
inductive DrawnAt [Atom α] (f : Formula α) : Position → String → Prop
  -- The root has nothing in front.
  | root : DrawnAt f [] (f.text ++ " [positive]")
  -- Every other node has cells, a branch and its position in front.
  | below {p : Position} {cells : List String} {glyph : String} {g : Formula α} {sign : Int}
      (hcells : Cells f p cells) (hglyph : Shows f p "├── " "└── " glyph)
      (hg : f.at? p = some g) (hsign : f.signAt? p = some sign) :
      DrawnAt f p (String.join cells ++ glyph ++ p.text ++ ": " ++
        (g.text ++ " [" ++ (Polarity.ofSign sign).name ++ "]"))

/-- A sign that is chosen by whether a child is the last one shows just that. -/
theorem shows_ite {opened closed : String} (hne : opened ≠ closed)
    (hlast : last = true ↔ f.IsLastChild p) :
    Shows f p opened closed (if last = true then closed else opened) := by
  rw [Shows, ← hlast]
  cases last with
  | true => simp [hne.symm]
  | false => simp [hne]

theorem shows_branch (hlast : last = true ↔ f.IsLastChild p) :
    Shows f p "├── " "└── " (branch last) :=
  shows_ite (by decide) hlast

theorem shows_cell (hlast : last = true ↔ f.IsLastChild p) :
    Shows f p "│   " "    " (cell last) :=
  shows_ite (by decide) hlast

theorem Shows.eq_or {opened closed drawn : String} (h : Shows f p opened closed drawn) :
    drawn = opened ∨ drawn = closed := by
  by_cases hlast : f.IsLastChild p
  · exact Or.inr (h.1.mpr hlast)
  · exact Or.inl (h.2.mpr hlast)

theorem cells_singleton (f : Formula α) (s : Step) : Cells f [s] [] where
  count := rfl
  width := nofun
  shown := nofun

/-- One level further down, one more cell says of the node what its branch says. -/
theorem Cells.append_singleton (h : Cells f p cells) (hlast : last = true ↔ f.IsLastChild p)
    (s : Step) : Cells f (p ++ [s]) (cells ++ [cell last]) where
  count := by
    have hcount := h.count
    rw [List.length_append, List.length_append, List.length_singleton, List.length_singleton]
    omega
  width := by
    refine List.forall_mem_append.mpr ⟨h.width, List.forall_mem_singleton.mpr ?_⟩
    cases last <;> decide
  shown := by
    intro k c hk
    have hcount := h.count
    by_cases hkc : k < cells.length
    · rw [List.getElem?_append_left hkc] at hk
      rw [List.take_append_of_le_length (by omega)]
      exact h.shown k c hk
    · -- the only other cell is the new one, and it stands for the node itself
      rw [List.getElem?_append_right (by omega), List.getElem?_singleton] at hk
      split at hk
      · next hlength =>
        obtain rfl : cell last = c := Option.some.inj hk
        have hwhole : k + 1 = p.length := by omega
        rw [hwhole, List.take_left' rfl]
        exact shows_cell hlast
      · cases hk

/-! ## Characters -/

/-- The characters of cells and branches. -/
def isBranching (c : Char) : Bool :=
  [' ', '│', '├', '└', '─'].contains c

/-- Cells are four characters wide, so a line is indented by four characters a level. -/
theorem length_join (h : ∀ c ∈ cells, c.length = 4) :
    (String.join cells).length = 4 * cells.length := by
  induction cells with
  | nil => rfl
  | cons c cells ih =>
    obtain ⟨hc, hcells⟩ := List.forall_mem_cons.mp h
    rw [String.join_cons, String.length_append, hc, ih hcells, List.length_cons]
    omega

/-- In front of the position of a node there are four characters for each of its steps. -/
theorem length_front {glyph : String} (hcells : Cells f p cells)
    (hglyph : Shows f p "├── " "└── " glyph) :
    (String.join cells ++ glyph).length = 4 * p.length := by
  have hfour : glyph.length = 4 := by
    rcases hglyph.eq_or with rfl | rfl <;> rfl
  rw [String.length_append, length_join hcells.width, hfour, ← hcells.count]
  rfl

/-- In front of the label a line has branches and blanks alone. -/
theorem isBranching_front {glyph : String} (hcells : Cells f p cells)
    (hglyph : Shows f p "├── " "└── " glyph) :
    ∀ c ∈ (String.join cells ++ glyph).toList, isBranching c = true := by
  rw [String.toList_append, String.toList_join]
  refine List.forall_mem_append.mpr ⟨fun c hc => ?_, ?_⟩
  · obtain ⟨piece, hpiece, hmem⟩ := List.mem_flatMap.mp hc
    obtain ⟨k, hk⟩ := List.getElem?_of_mem hpiece
    have hall : piece.toList.all isBranching = true := by
      rcases (hcells.shown k piece hk).eq_or with rfl | rfl <;> decide
    exact List.all_eq_true.mp hall c hmem
  · have hall : glyph.toList.all isBranching = true := by
      rcases hglyph.eq_or with rfl | rfl <;> decide
    exact List.all_eq_true.mp hall

theorem newline_notMem_position (p : Position) : '\n' ∉ p.text.toList := by
  rw [Position.text, String.toList_ofList]
  intro hmem
  rcases Position.mem_glyphs hmem with hdot | ⟨s, hs⟩
  · cases hdot
  · cases s <;> cases hs

theorem newline_notMem_name (polarity : Polarity) : '\n' ∉ polarity.name.toList := by
  cases polarity <;> decide

/-! ## The lines of a drawing -/

variable [Atom α]

theorem map_append_map_cons (p : Position) (s : Step) (ps : List Position) :
    (ps.map (s :: ·)).map (p ++ ·) = ps.map ((p ++ [s]) ++ ·) := by
  simp

/-- A cell that is put behind the others stands at the end of their text. -/
theorem join_append_singleton (cells : List String) (c : String) :
    String.join cells ++ c = String.join (cells ++ [c]) := by
  simp

/-- The first line for a subformula is that of its root. -/
theorem drawnAt_first {sign : Int} (hg : f.at? p = some g) (hsign : f.signAt? p = some sign)
    (hcells : Cells f p cells) (hlast : last = true ↔ f.IsLastChild p) :
    DrawnAt f (p ++ [])
      (String.join cells ++ branch last ++ p.text ++ ": " ++ label ⟨g, p.text, sign⟩) := by
  rw [List.append_nil]
  exact .below hcells (shows_branch hlast) hg hsign

/-- A subformula below the root is drawn after the cells and the branch of its position. -/
theorem forall₂_drawBelow {sign : Int} (hg : f.at? p = some g) (hsign : f.signAt? p = some sign)
    (hcells : Cells f p cells) (hlast : last = true ↔ f.IsLastChild p) :
    List.Forall₂ (DrawnAt f) (g.positions.map (p ++ ·))
      ((g.annotate sign p.text).drawBelow (String.join cells) last) := by
  -- one step further down, there is one more cell, and what is drawn there is a child
  induction g generalizing p sign cells last with
  | var a => exact .cons (drawnAt_first hg hsign hcells hlast) .nil
  | const b => exact .cons (drawnAt_first hg hsign hcells hlast) .nil
  | neg g ih =>
    have hchild : (Formula.neg g).child? .first = some g := rfl
    refine .cons (drawnAt_first hg hsign hcells hlast) ?_
    rw [map_append_map_cons, Position.below_text, join_append_singleton]
    exact ih ((Formula.at?_append_singleton hg .first).trans hchild)
      (Formula.signAt?_append_singleton hg hsign hchild) (hcells.append_singleton hlast .first)
      (iff_of_true rfl (Formula.isLastChild_operand hg))
  | bin op l r ihl ihr =>
    have hleft : (Formula.bin op l r).child? .first = some l := rfl
    have hright : (Formula.bin op l r).child? .second = some r := rfl
    refine .cons (drawnAt_first hg hsign hcells hlast) ?_
    rw [List.map_append]
    refine List.rel_append ?_ ?_
    · rw [map_append_map_cons, Position.below_text, join_append_singleton]
      exact ihl ((Formula.at?_append_singleton hg .first).trans hleft)
        (Formula.signAt?_append_singleton hg hsign hleft) (hcells.append_singleton hlast .first)
        (iff_of_false Bool.false_ne_true (Formula.not_isLastChild_first hg))
    · rw [map_append_map_cons, Position.below_text, join_append_singleton]
      exact ihr ((Formula.at?_append_singleton hg .second).trans hright)
        (Formula.signAt?_append_singleton hg hsign hright) (hcells.append_singleton hlast .second)
        (iff_of_true rfl (Formula.isLastChild_second hg))

/-- At the root the label tells the whole formula and that it occurs positively. -/
theorem label_root (f : Formula α) : label ⟨f, "", 1⟩ = f.text ++ " [positive]" := by
  rw [label, String.append_assoc, String.append_assoc]
  rfl

/-- Line by line, a drawing shows what stands at the positions of its formula. -/
theorem forall₂_drawLines (f : Formula α) :
    List.Forall₂ (DrawnAt f) f.positions f.annotated.drawLines := by
  -- the children of the root have branches, but there are no cells in front of these
  have hroot : f.at? [] = some f := rfl
  have hfirst : DrawnAt f [] (label ⟨f, "", 1⟩) := by
    rw [label_root]
    exact .root
  cases f with
  | var a => exact .cons hfirst .nil
  | const b => exact .cons hfirst .nil
  | neg g =>
    exact .cons hfirst (forall₂_drawBelow rfl rfl (cells_singleton _ .first)
      (iff_of_true rfl (Formula.isLastChild_operand hroot)))
  | bin op l r =>
    refine .cons hfirst (List.rel_append ?_ ?_)
    · exact forall₂_drawBelow rfl rfl (cells_singleton _ .first)
        (iff_of_false Bool.false_ne_true (Formula.not_isLastChild_first hroot))
    · exact forall₂_drawBelow rfl rfl (cells_singleton _ .second)
        (iff_of_true rfl (Formula.isLastChild_second hroot))

example : (Formula.bin .and (.neg (.var ⟨'a', rfl⟩)) (.var ⟨'b', rfl⟩) :
      Formula Letter).annotated.drawLines =
    ["(¬a∧b) [positive]", "├── 1: ¬a [positive]", "│   └── 1.1: a [negative]",
      "└── 2: b [positive]"] := by
  decide

/-! ## Reading a drawing -/

/-- The lines of a text. -/
def linesOf (text : String) : List String :=
  (text.toList.splitOn '\n').map String.ofList

/-- The depth of a line: how many pieces of four characters it has in front. -/
def depthOf (line : String) : Nat :=
  (line.toList.takeWhile isBranching).length / 4

/-- No symbol of a formula is written with a character of branches. -/
theorem isBranching_glyph (s : Symbol α) : isBranching s.glyph = false := by
  cases s with
  | atom a =>
    have hblank := Symbol.glyph_atom_ne a (c := ' ') (by decide)
    have hbar := Symbol.glyph_atom_ne a (c := '│') (by decide)
    have hopened := Symbol.glyph_atom_ne a (c := '├') (by decide)
    have hclosed := Symbol.glyph_atom_ne a (c := '└') (by decide)
    have hdash := Symbol.glyph_atom_ne a (c := '─') (by decide)
    simp [isBranching, Symbol.glyph, hblank, hbar, hopened, hclosed, hdash]
  | const b => cases b <;> rfl
  | neg => rfl
  | op c => cases c <;> rfl
  | leftParen => rfl
  | rightParen => rfl

/-- The text of a formula stays on its line. -/
theorem newline_notMem_text (f : Formula α) : '\n' ∉ f.text.toList := by
  rw [Formula.text, String.toList_ofList, Formula.glyphs_eq_map]
  intro hmem
  obtain ⟨s, -, hs⟩ := List.mem_map.mp hmem
  have hseparator := s.isSeparator_glyph
  rw [hs] at hseparator
  cases hseparator

/-- What is drawn for one node stays on one line. -/
theorem newline_notMem_of_drawnAt {line : String} (h : DrawnAt f p line) : '\n' ∉ line.toList := by
  cases h with
  | root => simp [newline_notMem_text f]
  | below hcells hglyph hg hsign =>
    have hfront := mt (isBranching_front hcells hglyph '\n') (by decide)
    simpa [newline_notMem_text, newline_notMem_position, newline_notMem_name] using hfront

/-- The front of a line ends where anything else begins. -/
theorem depthOf_append {front rest : String} (hfront : ∀ c ∈ front.toList, isBranching c = true)
    (hrest : ∀ c ∈ rest.toList.head?, isBranching c = false) :
    depthOf (front ++ rest) = front.length / 4 := by
  have hnone : rest.toList.takeWhile isBranching = [] := by
    cases hchars : rest.toList with
    | nil => rfl
    | cons c cs =>
      rw [hchars] at hrest
      rw [List.takeWhile_cons_of_neg]
      simp [hrest c rfl]
  rw [depthOf, String.toList_append, List.takeWhile_append_of_pos hfront, hnone, List.append_nil,
    String.length_toList]

/-- The depth that is read off a line is that of the position. -/
theorem depthOf_of_drawnAt {line : String} (h : DrawnAt f p line) : depthOf line = p.length := by
  -- behind the front, a formula begins with a symbol and a position with a digit
  cases h with
  | root =>
    have hfirst : ∀ c ∈ (f.text ++ " [positive]").toList.head?, isBranching c = false := by
      obtain ⟨s, rest, hs⟩ : ∃ s rest, f.symbols = s :: rest := by cases f <;> exact ⟨_, _, rfl⟩
      rw [Formula.text, String.toList_append, String.toList_ofList, Formula.glyphs_eq_map, hs]
      intro c hc
      obtain rfl : s.glyph = c := Option.some.inj hc
      exact isBranching_glyph s
    have hdepth := @depthOf_append "" _ (by simp) hfirst
    rwa [String.empty_append] at hdepth
  | @below _ cells glyph g sign hcells hglyph hg hsign =>
    have hfirst : ∀ rest : String, ∀ c ∈ (p.text ++ rest).toList.head?, isBranching c = false := by
      intro rest c hc
      have hcount := hcells.count
      cases p with
      | nil => cases hcount
      | cons s q =>
        obtain ⟨cs, hcs⟩ : ∃ cs, Position.glyphs (s :: q) = s.digit :: cs := by
          cases q <;> exact ⟨_, rfl⟩
        rw [Position.text, String.toList_append, String.toList_ofList, hcs] at hc
        obtain rfl : s.digit = c := Option.some.inj hc
        cases s <;> decide
    rw [String.append_assoc, String.append_assoc,
      depthOf_append (isBranching_front hcells hglyph) (hfirst _), length_front hcells hglyph,
      Nat.mul_div_cancel_left _ (by decide)]

/-- The lines of the drawing are the lines drawn for the nodes. -/
theorem linesOf_drawing (f : Formula α) : linesOf f.annotated.drawing = f.annotated.drawLines := by
  have hne : f.annotated.drawLines.map String.toList ≠ [] := by
    cases f <;> exact List.cons_ne_nil _ _
  have hnewline : ∀ cs ∈ f.annotated.drawLines.map String.toList, '\n' ∉ cs := by
    rw [List.forall_mem_map]
    exact forall_mem_of_forall₂ (forall₂_drawLines f) newline_notMem_of_drawnAt
  have hsplit : f.annotated.drawing.toList.splitOn '\n' =
      f.annotated.drawLines.map String.toList := by
    rw [drawing, String.toList_intercalate]
    exact List.splitOn_intercalate '\n' hnewline hne
  rw [linesOf, hsplit, List.map_map]
  simp

/-- The first line is the label of the root, with nothing in front of it. -/
theorem drawLines_eq_cons (f : Formula α) :
    ∃ rest, f.annotated.drawLines = (f.text ++ " [positive]") :: rest := by
  rw [← label_root]
  cases f <;> exact ⟨_, rfl⟩

/-- Different formulas have different drawings: the first line shows the whole formula. -/
theorem drawing_injective : Function.Injective fun f : Formula α => f.annotated.drawing := by
  intro f g h
  have hlines : f.annotated.drawLines = g.annotated.drawLines := by
    rw [← linesOf_drawing, ← linesOf_drawing]
    exact congrArg linesOf h
  obtain ⟨rest, hrest⟩ := drawLines_eq_cons f
  obtain ⟨rest', hrest'⟩ := drawLines_eq_cons g
  rw [hrest, hrest'] at hlines
  have hchars := congrArg String.toList (List.cons.inj hlines).1
  rw [String.toList_append, String.toList_append] at hchars
  exact Formula.text_injective (String.toList_injective (List.append_cancel_right hchars))

/-- The lines show the tree of a formula, with its positions in the given order. -/
structure IsOutline (lines : List String) (ps : List Position) (f : Formula α) : Prop where
  -- There is one line for each position, in pre-order.
  preorder : ps.Pairwise Position.Precedes
  complete : ∀ p, p ∈ ps ↔ (f.at? p).isSome = true
  drawn : List.Forall₂ (DrawnAt f) ps lines
  -- The depth of a position is read off its line.
  depths : lines.map depthOf = ps.map List.length
  -- The parent of a line is the nearest one before it that is one level less deep.
  parents : ∀ i p, ps[i]? = some p → p ≠ [] →
    ∀ j, NearestAbove (lines.map depthOf) i j ↔ ps[j]? = some p.dropLast

/-- **A drawing determines its tree.**  It has one line for each position, in pre-order.  A position
of `d` steps has `d - 1` cells and a branch in front, which say of every node on the way whether it
is the last child of its parent; then the position and its formula are shown.  So depths are read
off the lines, the parent of a line is the nearest one before it that is one level less deep, and
the position shown there is the one of the line without its last step.  The depths alone determine
the positions, and the drawing determines the formula. -/
theorem drawing_exact (f : Formula α) :
    (∃ ps, IsOutline (linesOf f.annotated.drawing) ps f) ∧
      (∀ g : Formula α, (linesOf g.annotated.drawing).map depthOf =
        (linesOf f.annotated.drawing).map depthOf → g.positions = f.positions) ∧
      ∀ g : Formula α, g.annotated.drawing = f.annotated.drawing → g = f := by
  -- the indentation of a line tells how deep its node stands
  have hdepths : ∀ g : Formula α, (linesOf g.annotated.drawing).map depthOf =
      g.positions.map List.length := by
    intro g
    rw [linesOf_drawing, ← List.forall₂_eq_eq_eq, List.forall₂_map_left_iff,
      List.forall₂_map_right_iff]
    exact (forall₂_drawLines g).flip.imp fun _ _ h => depthOf_of_drawnAt h
  refine ⟨⟨f.positions, ?_⟩, ?_, fun g h => drawing_injective h⟩
  · refine ⟨f.pairwise_positions, fun p => Formula.mem_positions, ?_, hdepths f, ?_⟩
    · rw [linesOf_drawing]
      exact forall₂_drawLines f
    · intro i p hi hp j
      rw [hdepths]
      exact Formula.nearestAbove_iff hi hp
  · intro g h
    rw [hdepths, hdepths] at h
    exact Formula.positions_eq_of_depths h

end Annotated

end Propositional
