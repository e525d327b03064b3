import Propositional.Diagram
import Propositional.Proofs.Polarity

/-!
# Diagrams are the trees of their formulas

The diagram of a formula has one node for each position and one edge into each position but the
root.  The identifier of a position is its text with other characters for the dots, so positions
with the same identifier have the same text.

The edges of a node come right behind it in a diagram, before everything below the node.  So they
are not in the order of the positions, and the induction on the tree says that they are a
permutation of the edges that lead to the positions in pre-order.  Everything else is said of the
latter.

* `Diagram.identifier_text_injective` — positions and their identifiers;
* `Diagram.nodes`, `Diagram.edges`    — what a diagram declares;
* `Diagram.edges_itemsOf`             — the edges lead to the positions below the root;
* `Diagram.symbol`, `Diagram.heading` — what the label of a node is to show;
* `Diagram.IsTreeOf`                  — a diagram is the tree of a formula;
* `Diagram.ofFormula_isTreeOf`        — the main result.
-/

namespace Propositional

/-! ## Positions below the root -/

namespace Formula

variable {α : Type} {f : Formula α} {p : Position}

/-- The first position is the root. -/
theorem positions_eq_cons (f : Formula α) : f.positions = [] :: f.positions.tail := by
  cases f <;> rfl

/-- The other positions are those below the root. -/
theorem mem_tail_positions : p ∈ f.positions.tail ↔ p ∈ f.positions ∧ p ≠ [] := by
  have hnodup := f.nodup_positions
  rw [positions_eq_cons, List.nodup_cons] at hnodup
  rw [f.positions_eq_cons, List.tail_cons, List.mem_cons]
  constructor
  · refine fun h => ⟨Or.inr h, ?_⟩
    rintro rfl
    exact hnodup.1 h
  · rintro ⟨rfl | h, hne⟩
    · exact absurd rfl hne
    · exact h

theorem text_mem_positionTexts_iff : p.text ∈ f.positionTexts ↔ p ∈ f.positions := by
  rw [text_mem_positionTexts, mem_positions]

theorem below_mem_positionTexts_iff {s : Step} :
    Position.below p.text s ∈ f.positionTexts ↔ p ++ [s] ∈ f.positions := by
  rw [Position.below_text, text_mem_positionTexts_iff]

/-- The texts of the positions without that of the root. -/
theorem filter_positionTexts_perm (f : Formula α) :
    (f.positionTexts.filter fun text => text ≠ "").Perm (f.positions.tail.map Position.text) := by
  refine (f.positionTexts_perm.filter _).trans (List.Perm.of_eq ?_)
  have hbelow : ∀ text ∈ f.positions.tail.map Position.text, decide (text ≠ "") = true := by
    intro text htext
    obtain ⟨p, hp, rfl⟩ := List.mem_map.mp htext
    rw [decide_eq_true_eq, Ne, Position.text_eq_empty_iff]
    exact (mem_tail_positions.mp hp).2
  rw [f.positions_eq_cons, List.map_cons, List.filter_cons_of_neg (by decide), List.tail_cons,
    List.filter_eq_self.mpr hbelow]

end Formula

namespace Diagram

/-! ## Identifiers -/

/-- The identifier of a position below the root has lines for the dots. -/
theorem identifier_text {p : Position} (hp : p ≠ []) :
    identifier p.text =
      "p_" ++ String.ofList (p.glyphs.map fun c => if c = '.' then '_' else c) := by
  rw [identifier, Position.isEmpty_text hp, if_neg Bool.false_ne_true, Position.text,
    String.toList_ofList]

/-- No position but the root has the identifier of the root. -/
theorem identifier_text_eq_root_iff {p : Position} : identifier p.text = "root" ↔ p = [] := by
  constructor
  · intro h
    by_contra hp
    have hchars := congrArg String.toList h
    rw [identifier_text hp, String.toList_append] at hchars
    cases hchars
  · rintro rfl
    rfl

/-- Different positions have different identifiers. -/
theorem identifier_text_injective : Function.Injective fun p : Position => identifier p.text := by
  intro p q h
  dsimp only at h
  by_cases hp : p = []
  · subst hp
    exact (identifier_text_eq_root_iff.mp h.symm).symm
  by_cases hq : q = []
  · subst hq
    exact identifier_text_eq_root_iff.mp h
  -- the dots are found again, since no digit is written like what stands for them
  have hdots : ∀ p : Position, (p.glyphs.map fun c => if c = '.' then '_' else c).map
      (fun c => if c = '_' then '.' else c) = p.glyphs := by
    intro p
    rw [List.map_map]
    refine (List.map_congr_left fun c hc => ?_).trans (List.map_id p.glyphs)
    rcases Position.mem_glyphs hc with rfl | ⟨s, rfl⟩
    · rfl
    · cases s <;> rfl
  rw [identifier_text hp, identifier_text hq] at h
  have hchars := congrArg String.toList h
  simp only [String.toList_append, String.toList_ofList, List.append_cancel_left_eq] at hchars
  have hglyphs := congrArg (List.map fun c => if c = '_' then '.' else c) hchars
  rw [hdots, hdots] at hglyphs
  exact Position.text_injective (congrArg String.ofList hglyphs)

/-! ## Nodes and edges -/

/-- The node that a line declares, if it declares one. -/
def Item.node? : Item → Option Node
  | .node n => some n
  | .edge _ => none

/-- The edge that a line declares, if it declares one. -/
def Item.edge? : Item → Option Edge
  | .node _ => none
  | .edge e => some e

/-- The nodes of a diagram. -/
def nodes (d : Diagram) : List Node :=
  d.items.filterMap Item.node?

/-- The edges of a diagram. -/
def edges (d : Diagram) : List Edge :=
  d.items.filterMap Item.edge?

/-- The edge that leads to a position from the one above it; none leads to the root. -/
def edgeInto? (p : Position) : Option Edge :=
  p.getLast?.map fun s => ⟨identifier (Position.text p.dropLast), identifier p.text, s⟩

variable {α : Type} {f : Formula α} {p : Position} {e : Edge}

theorem edgeInto?_append_singleton (p : Position) (s : Step) :
    edgeInto? (p ++ [s]) =
      some ⟨identifier p.text, identifier (Position.text (p ++ [s])), s⟩ := by
  rw [edgeInto?, List.getLast?_concat, List.dropLast_concat]
  rfl

/-- The edge into a position comes from the position right above and carries the last step. -/
theorem edgeInto?_eq_some_iff :
    edgeInto? p = some e ↔
      ∃ (q : Position) (s : Step), p = q ++ [s] ∧
        e = ⟨identifier q.text, identifier p.text, s⟩ := by
  constructor
  · intro h
    obtain ⟨s, hs, rfl⟩ := Option.map_eq_some_iff.mp h
    obtain ⟨q, rfl⟩ := List.getLast?_eq_some_iff.mp hs
    exact ⟨q, s, rfl, by rw [List.dropLast_concat]⟩
  · rintro ⟨q, s, rfl, rfl⟩
    exact edgeInto?_append_singleton q s

/-- The edges to all positions that begin with a step: first the one to the child. -/
theorem filterMap_edgeInto?_cons (p : Position) (s : Step) (g : Formula α) :
    (g.positions.map (s :: ·)).filterMap (fun q => edgeInto? (p ++ q)) =
      ⟨identifier p.text, identifier (Position.text (p ++ [s])), s⟩ ::
        g.positions.tail.filterMap fun q => edgeInto? ((p ++ [s]) ++ q) := by
  have hstep : ∀ q, edgeInto? (p ++ s :: q) = edgeInto? ((p ++ [s]) ++ q) := by
    intro q
    rw [List.append_assoc, List.singleton_append]
  rw [List.filterMap_map, g.positions_eq_cons]
  simp only [Function.comp_def, hstep, List.tail_cons]
  rw [List.filterMap_cons_some (by rw [List.append_nil, edgeInto?_append_singleton])]

/-- The edge from an occurrence to the tree of a side. -/
theorem edgeTo_annotate (o : Occurrence α) (s : Step) (g : Formula α) (sign : Int)
    (text : String) :
    edgeTo o s (g.annotate sign text) = ⟨identifier o.position, identifier text, s⟩ := by
  rw [edgeTo, Formula.here_annotate]

variable [Atom α]

/-- The nodes of a diagram are those of the occurrences, in their order. -/
theorem nodes_itemsOf (t : Annotated α) :
    (itemsOf t).filterMap Item.node? = t.nodes.map nodeOf := by
  induction t with
  | leaf o => rfl
  | one o t ih =>
    show nodeOf o :: (itemsOf t).filterMap Item.node? = _
    rw [ih]
    rfl
  | two o l r ihl ihr =>
    show nodeOf o :: (itemsOf l ++ itemsOf r).filterMap Item.node? = _
    rw [List.filterMap_append, ihl, ihr, ← List.map_append]
    rfl

/-- The edges of the diagram of a subformula lead to the positions below its root. -/
theorem edges_itemsOf (f : Formula α) (sign : Int) (p : Position) :
    ((itemsOf (f.annotate sign p.text)).filterMap Item.edge?).Perm
      (f.positions.tail.filterMap fun q => edgeInto? (p ++ q)) := by
  induction f generalizing sign p with
  | var a => exact List.Perm.refl _
  | const b => exact List.Perm.refl _
  | neg g ih =>
    rw [Formula.annotate, itemsOf, edgeTo_annotate, Position.below_text, Formula.positions,
      List.tail_cons, filterMap_edgeInto?_cons]
    exact (ih _ _).cons _
  | bin op l r ihl ihr =>
    rw [Formula.annotate, itemsOf, edgeTo_annotate, edgeTo_annotate, Position.below_text,
      Position.below_text, Formula.positions, List.tail_cons, List.filterMap_append,
      filterMap_edgeInto?_cons, filterMap_edgeInto?_cons]
    -- the edge to the right side comes before what is below the left one
    have hbelow := List.Perm.append
      (ihl ((Formula.bin op l r).signBelow .first sign) (p ++ [.first]))
      (ihr ((Formula.bin op l r).signBelow .second sign) (p ++ [.second]))
    rw [← List.filterMap_append] at hbelow
    exact ((hbelow.cons _).trans List.perm_middle.symm).cons _

theorem nodes_ofFormula (f : Formula α) : (ofFormula f).nodes = f.annotated.nodes.map nodeOf :=
  nodes_itemsOf f.annotated

/-- The edges of a diagram lead to all positions below the root. -/
theorem edges_ofFormula (f : Formula α) :
    (ofFormula f).edges.Perm (f.positions.tail.filterMap edgeInto?) :=
  edges_itemsOf f 1 []

/-- There is an edge for each step from one position to the next, and no other edge. -/
theorem mem_edges_ofFormula :
    e ∈ (ofFormula f).edges ↔
      ∃ (p : Position) (s : Step), p ++ [s] ∈ f.positions ∧
        e = ⟨identifier p.text, identifier (Position.text (p ++ [s])), s⟩ := by
  rw [(edges_ofFormula f).mem_iff, List.mem_filterMap]
  constructor
  · rintro ⟨p, hp, he⟩
    obtain ⟨q, s, rfl, rfl⟩ := edgeInto?_eq_some_iff.mp he
    exact ⟨q, s, (Formula.mem_tail_positions.mp hp).1, rfl⟩
  · rintro ⟨p, s, hp, rfl⟩
    exact ⟨p ++ [s], Formula.mem_tail_positions.mpr ⟨hp, List.concat_ne_nil s p⟩,
      edgeInto?_append_singleton p s⟩

/-- The nodes have the identifiers of all positions. -/
theorem ids_ofFormula (f : Formula α) :
    (ofFormula f).nodes.map (·.id) = f.positions.map fun p => identifier p.text := by
  have htexts := congrArg (List.map identifier) f.map_position_annotated
  rw [List.map_map, List.map_map] at htexts
  rw [nodes_ofFormula, List.map_map]
  exact htexts

/-- Every edge leads to a position below the root, and there is one for each. -/
theorem targets_ofFormula (f : Formula α) :
    ((ofFormula f).edges.map (·.target)).Perm
      (f.positions.tail.map fun p => identifier p.text) := by
  refine ((edges_ofFormula f).map _).trans (.of_eq ?_)
  rw [List.map_filterMap, ← List.filterMap_eq_map]
  refine List.filterMap_congr fun p hp => ?_
  obtain ⟨s, hs⟩ := Option.ne_none_iff_exists'.mp
    (mt List.getLast?_eq_none_iff.mp (Formula.mem_tail_positions.mp hp).2)
  rw [edgeInto?, hs]
  rfl

/-- No two nodes have the same identifier. -/
theorem nodup_ids (f : Formula α) : ((ofFormula f).nodes.map (·.id)).Nodup := by
  rw [ids_ofFormula]
  exact f.nodup_positions.map identifier_text_injective

/-- As many edges lead to a position as it has positions right above it. -/
theorem countP_target_ofFormula (hp : p ∈ f.positions) :
    (ofFormula f).edges.countP (fun e => e.target = identifier p.text) =
      if p = [] then 0 else 1 := by
  have hcount : (ofFormula f).edges.countP (fun e => e.target = identifier p.text) =
      ((ofFormula f).edges.map (·.target)).count (identifier p.text) := by
    rw [List.count_eq_countP, List.countP_map]
    rfl
  have hnodup : (f.positions.tail.map fun p => identifier p.text).Nodup :=
    (f.nodup_positions.tail).map identifier_text_injective
  have hmem : identifier p.text ∈ (f.positions.tail.map fun p => identifier p.text) ↔ p ≠ [] := by
    rw [List.mem_map_of_injective identifier_text_injective, Formula.mem_tail_positions]
    exact and_iff_right hp
  rw [hcount, (targets_ofFormula f).count_eq, hnodup.count]
  by_cases hroot : p = []
  · rw [if_pos hroot, if_neg fun h => hmem.mp h hroot]
  · rw [if_neg hroot, if_pos (hmem.mpr hroot)]

/-! ## Labels -/

/-- What a node is to show of a formula: the leaf that it is, or the operator at its root. -/
def symbol : Formula α → Char
  | .var a => Atom.glyph a
  | .const true => '⊤'
  | .const false => '⊥'
  | .neg _ => '¬'
  | .bin .and _ _ => '∧'
  | .bin .or _ _ => '∨'
  | .bin .implies _ _ => '→'
  | .bin .iff _ _ => '↔'

/-- What is drawn for a formula is what a node is to show. -/
theorem rootGlyph_eq_symbol (g : Formula α) : g.rootGlyph = symbol g := by
  cases g with
  | var a => rfl
  | const b => cases b <;> rfl
  | neg g => rfl
  | bin op l r => cases op <;> rfl

/-- The operator or the leaf at the root of a formula and, on a second line, the text of a
position. -/
def heading (g : Formula α) (text : String) : String :=
  String.ofList [symbol g] ++ "\n" ++ if text = "" then "ε" else text

/-- A label is its heading and, in brackets, the polarity. -/
theorem labelOf_eq (o : Occurrence α) :
    labelOf o = heading o.node o.position ++ (" [" ++ o.polarity.name ++ "]") := by
  simp only [labelOf, heading, ← rootGlyph_eq_symbol, String.isEmpty_iff, String.append_assoc]
  rfl

/-- A sign is one or minus one, so the node of an occurrence is never shown as mixed. -/
theorem nodeOf_shows {o : Occurrence α} (hsign : f.signAt? p = some o.sign) :
    f.signAt? p = some 1 ∧ (nodeOf o).label = heading o.node o.position ++ " [positive]" ∧
        (nodeOf o).color = "palegreen" ∨
      f.signAt? p = some (-1) ∧ (nodeOf o).label = heading o.node o.position ++ " [negative]" ∧
        (nodeOf o).color = "lightcoral" := by
  rw [hsign, nodeOf, labelOf_eq, Occurrence.polarity]
  rcases Formula.signAt?_eq_one_or hsign with h | h
  · rw [h]
    exact Or.inl ⟨rfl, rfl, rfl⟩
  · rw [h]
    exact Or.inr ⟨rfl, rfl, rfl⟩

/-- The diagram is the tree of the formula. -/
structure IsTreeOf (d : Diagram) (f : Formula α) : Prop where
  -- There is one node for each position.
  declared : (d.nodes.map (·.id)).Perm (f.positionTexts.map identifier)
  distinct : (d.nodes.map (·.id)).Nodup
  root : ∀ text ∈ f.positionTexts, identifier text = "root" ↔ text = ""
  -- There is one edge to each position but the root.
  reached : (d.edges.map (·.target)).Perm
    ((f.positionTexts.filter fun text => text ≠ "").map identifier)
  -- The edges lead from the positions to those one step below.
  steps : ∀ e, e ∈ d.edges ↔
    ∃ text ∈ f.positionTexts, ∃ s, Position.below text s ∈ f.positionTexts ∧
      e = ⟨identifier text, identifier (Position.below text s), s⟩
  joined : ∀ e ∈ d.edges, e.source ∈ d.nodes.map (·.id) ∧ e.target ∈ d.nodes.map (·.id)
  incoming : ∀ n ∈ d.nodes,
    d.edges.countP (fun e => e.target = n.id) = if n.id = "root" then 0 else 1
  -- A node shows what is found at its position, the position, and the sign that is found there.
  shown : ∀ n ∈ d.nodes, ∃ text ∈ f.positionTexts, ∃ g,
    n.id = identifier text ∧ f.atText? (some text) = some g ∧
      (f.signAtText (some text) = .ok 1 ∧ n.label = heading g text ++ " [positive]" ∧
          n.color = "palegreen" ∨
        f.signAtText (some text) = .ok (-1) ∧ n.label = heading g text ++ " [negative]" ∧
          n.color = "lightcoral")

/-- **The diagram of a formula is its tree.**  It declares one node for each position, and no two of
them have the same identifier.  One edge leads to each position but the root; it comes from the
position right above and carries the last step.  So edges join declared nodes, and one edge leads to
every node except for the root, to which none does.  A node shows the operator or the leaf that is
found at its position, the position, and the sign that is found there, which is positive or negative
and never mixed. -/
theorem ofFormula_isTreeOf (f : Formula α) : (ofFormula f).IsTreeOf f where
  declared := by
    have htexts := (f.positionTexts_perm.map identifier).symm
    rw [List.map_map] at htexts
    rw [ids_ofFormula]
    exact htexts
  distinct := nodup_ids f
  root := by
    intro text htext
    obtain ⟨p, -, rfl⟩ := Formula.mem_positionTexts.mp htext
    rw [identifier_text_eq_root_iff, Position.text_eq_empty_iff]
  reached := by
    have htexts := (f.filter_positionTexts_perm.map identifier).symm
    rw [List.map_map] at htexts
    exact (targets_ofFormula f).trans htexts
  steps := by
    intro e
    rw [mem_edges_ofFormula]
    constructor
    · rintro ⟨p, s, hp, rfl⟩
      rw [← Position.below_text]
      exact ⟨p.text, Formula.text_mem_positionTexts_iff.mpr (Formula.mem_positions_of_append hp), s,
        Formula.below_mem_positionTexts_iff.mpr hp, rfl⟩
    · rintro ⟨text, htext, s, hbelow, rfl⟩
      obtain ⟨p, -, rfl⟩ := Formula.mem_positionTexts.mp htext
      rw [Position.below_text]
      exact ⟨p, s, Formula.below_mem_positionTexts_iff.mp hbelow, rfl⟩
  joined := by
    intro e he
    obtain ⟨p, s, hp, rfl⟩ := mem_edges_ofFormula.mp he
    rw [ids_ofFormula]
    exact ⟨List.mem_map_of_mem (Formula.mem_positions_of_append hp), List.mem_map_of_mem hp⟩
  incoming := by
    intro n hn
    have hid : n.id ∈ (ofFormula f).nodes.map (·.id) := List.mem_map_of_mem hn
    rw [ids_ofFormula] at hid
    obtain ⟨p, hp, hpid⟩ := List.mem_map.mp hid
    rw [← hpid, countP_target_ofFormula hp]
    simp only [identifier_text_eq_root_iff]
  shown := by
    rw [nodes_ofFormula, List.forall_mem_map]
    refine forall_mem_of_forall₂ f.forall₂_annotated ?_
    rintro p o ⟨hposition, hnode, hsign, -⟩
    have hthere : (f.at? p).isSome = true := Option.isSome_of_eq_some hnode
    refine ⟨p.text, Formula.text_mem_positionTexts.mpr hthere, o.node, ?_, ?_, ?_⟩
    · rw [nodeOf, hposition]
    · rw [Formula.atText?_text, hnode]
    · rw [Formula.signAtText_text, Formula.signAtText_text, ← hposition]
      exact nodeOf_shows hsign

/-- The four nodes of `¬(p→⊥)`: the implication and its right side are negative. -/
theorem ofFormula_isTreeOf_negated_implication :
    let p : Letter := ⟨'p', rfl⟩
    let d := ofFormula (.neg (.bin .implies (.var p) (.const false)))
    d.nodes.length = 4 ∧ ∀ n ∈ d.nodes,
      n = ⟨"root", "¬\nε [positive]", "palegreen"⟩ ∨ n = ⟨"p_1", "→\n1 [negative]", "lightcoral"⟩ ∨
      n = ⟨"p_1_1", "p\n1.1 [positive]", "palegreen"⟩ ∨
      n = ⟨"p_1_2", "⊥\n1.2 [negative]", "lightcoral"⟩ := by
  intro p d
  let f : Formula Letter := .neg (.bin .implies (.var p) (.const false))
  have htree : d.IsTreeOf f := ofFormula_isTreeOf f
  have htexts : f.positionTexts.Perm ["", "1", "1.1", "1.2"] := f.positionTexts_perm
  constructor
  · rw [← List.length_map (·.id), htree.declared.length_eq, List.length_map, htexts.length_eq]
    rfl
  intro n hn
  obtain ⟨text, htext, g, hid, hg, hshown⟩ := htree.shown n hn
  obtain ⟨id, label, color⟩ := n
  dsimp only at hid hshown
  subst hid
  have hlisted := htexts.mem_iff.mp htext
  simp only [List.mem_cons, List.not_mem_nil, or_false] at hlisted
  -- at each of the four positions, one formula and one sign are found
  rcases hlisted with rfl | rfl | rfl | rfl
  · obtain rfl : f = g := Option.some.inj hg
    obtain ⟨-, rfl, rfl⟩ | ⟨hother, -, -⟩ := hshown
    · exact Or.inl rfl
    · cases (show f.signAtText (some "") = .ok 1 from rfl).symm.trans hother
  · obtain rfl : .bin .implies (.var p) (.const false) = g := Option.some.inj hg
    obtain ⟨hother, -, -⟩ | ⟨-, rfl, rfl⟩ := hshown
    · cases (show f.signAtText (some "1") = .ok (-1) from rfl).symm.trans hother
    · exact Or.inr (Or.inl rfl)
  · obtain rfl : .var p = g := Option.some.inj hg
    obtain ⟨-, rfl, rfl⟩ | ⟨hother, -, -⟩ := hshown
    · exact Or.inr (Or.inr (Or.inl rfl))
    · cases (show f.signAtText (some "1.1") = .ok 1 from rfl).symm.trans hother
  · obtain rfl : .const false = g := Option.some.inj hg
    obtain ⟨hother, -, -⟩ | ⟨-, rfl, rfl⟩ := hshown
    · cases (show f.signAtText (some "1.2") = .ok (-1) from rfl).symm.trans hother
    · exact Or.inr (Or.inr (Or.inr rfl))

end Diagram

end Propositional
