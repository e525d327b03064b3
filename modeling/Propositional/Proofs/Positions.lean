import Mathlib.Data.List.Forall2
import Mathlib.Data.List.Induction
import Mathlib.Data.List.Nodup
import Propositional.Polarity.Analysis
import Propositional.Position.Replacement
import Propositional.Proofs.Lists

/-!
# Positions

The ways to say where a subformula occurs agree: the text of a position is listed exactly when it
leads to a subformula and when it leads to a sign, and the annotated tree carries at each of its
nodes the text under which the node, its formula and its sign are found again.

All traversals are compared with going along a row of steps.  A text is as good as the row of steps
that it writes, since reading and writing undo each other.  The annotated tree of a formula is
followed step by step from the root, where one more step puts one more digit behind the text.

* `Position.read_eq_some_iff`, `Position.glyphs_append`, `Position.below_text` — texts and the rows
  of steps that they write;
* `Formula.mem_positions`, `Formula.pairwise_positions` — the positions of a formula in pre-order;
* `Formula.pairwise_positionTexts` — their texts are listed in strictly increasing order;
* `Formula.at?_cons_eq_some_iff`, `Formula.signAt?_cons_eq_some_iff` — positions below a child;
* `Formula.signAt?_append`       — the sign of an occurrence within a subformula;
* `Formula.at?_annotated`        — the node that the annotated tree has at a position;
* `Annotated.forall₂_nodes`      — its nodes and the positions of the formula go in parallel;
* `Formula.addresses_agree`      — the main result.
-/

namespace Propositional

/-! ## Texts of positions -/

/-- The digit of a step is read as the step. -/
theorem Step.ofDigit?_digit (s : Step) : ofDigit? s.digit = some s := by
  cases s <;> rfl

theorem Step.digit_of_ofDigit? {c : Char} {s : Step} (h : ofDigit? c = some s) : s.digit = c := by
  unfold ofDigit? at h
  split at h
  · next hc => cases h; exact hc.symm
  split at h
  · next hc => cases h; exact hc.symm
  · cases h

namespace Position

variable {p q : Position}

theorem glyphs_cons (s : Step) (hp : p ≠ []) : glyphs (s :: p) = s.digit :: '.' :: glyphs p := by
  cases p with
  | nil => exact absurd rfl hp
  | cons t rest => rfl

/-- A written position consists of dots and of the digits of steps. -/
theorem mem_glyphs {c : Char} (h : c ∈ p.glyphs) : c = '.' ∨ ∃ s : Step, c = s.digit := by
  fun_induction glyphs p with
  | case1 => cases h
  | case2 s => exact Or.inr ⟨s, List.mem_singleton.mp h⟩
  | case3 s rest _ ih =>
    rcases List.mem_cons.mp h with rfl | h
    · exact Or.inr ⟨s, rfl⟩
    rcases List.mem_cons.mp h with rfl | h
    · exact Or.inl rfl
    · exact ih h

/-- A written position is read as the position. -/
theorem ofGlyphs?_glyphs (hp : p ≠ []) : ofGlyphs? p.glyphs = some p := by
  -- the last step has no dot behind it, so a single step is a case of its own
  induction p with
  | nil => exact absurd rfl hp
  | cons s rest ih =>
    cases rest with
    | nil => rw [glyphs, ofGlyphs?, s.ofDigit?_digit, Option.map_some]
    | cons t rest =>
      have hrest := ih (List.cons_ne_nil t rest)
      rw [glyphs_cons s (List.cons_ne_nil t rest), ofGlyphs?, s.ofDigit?_digit, hrest]

/-- What is read as a position is the way it is written, so no other text denotes it. -/
theorem glyphs_of_ofGlyphs? {cs : List Char} (h : ofGlyphs? cs = some p) :
    p ≠ [] ∧ p.glyphs = cs := by
  -- only the cases of one digit and of a digit with a dot and more behind it give a position
  fun_induction ofGlyphs? cs generalizing p with
  | case1 => cases h
  | case2 c =>
    obtain ⟨s, hs, rfl⟩ := Option.map_eq_some_iff.mp h
    have hdigit := Step.digit_of_ofDigit? hs
    exact ⟨List.cons_ne_nil _ _, by rw [glyphs, hdigit]⟩
  | case3 c rest s p' hp' hs ih =>
    obtain ⟨hne, hglyphs⟩ := ih hp'
    have hdigit := Step.digit_of_ofDigit? hs
    cases h
    exact ⟨List.cons_ne_nil _ _, by rw [glyphs_cons s hne, hglyphs, hdigit]⟩
  | case4 => cases h
  | case5 => cases h

/-- A text reads as the position that it writes, and as no other. -/
theorem read_eq_some_iff {text : String} : read text = some p ↔ p.text = text := by
  constructor
  · intro h
    unfold read at h
    split at h
    · next hnil =>
      cases h
      rw [Position.text, glyphs, ← hnil, String.ofList_toList]
    · have hglyphs := (glyphs_of_ofGlyphs? h).2
      rw [Position.text, hglyphs, String.ofList_toList]
  · rintro rfl
    cases p with
    | nil => rw [read, Position.text, String.toList_ofList, glyphs]
    | cons s rest =>
      have hne : s :: rest ≠ [] := List.cons_ne_nil s rest
      have hread := ofGlyphs?_glyphs hne
      rw [read, Position.text, String.toList_ofList]
      -- the characters are not empty, so they are read one by one
      split
      · next hnil =>
        rw [hnil] at hread
        cases hread
      · exact hread

/-- Different positions are written differently. -/
theorem text_injective : Function.Injective text := by
  intro p q hpq
  have hp : read p.text = some p := read_eq_some_iff.mpr rfl
  have hq : read p.text = some q := read_eq_some_iff.mpr hpq.symm
  exact Option.some.inj (hp.symm.trans hq)

/-- The digits of two rows of steps after each other stand with a dot between them. -/
theorem glyphs_append (hp : p ≠ []) (hq : q ≠ []) :
    glyphs (p ++ q) = glyphs p ++ '.' :: glyphs q := by
  induction p with
  | nil => exact absurd rfl hp
  | cons t rest ih =>
    cases rest with
    | nil => exact glyphs_cons t hq
    | cons u rest =>
      have hne : (u :: rest) ++ q ≠ [] := List.cons_ne_nil _ _
      have hrest := ih (List.cons_ne_nil u rest)
      rw [List.cons_append, glyphs_cons t hne, hrest, glyphs_cons t (List.cons_ne_nil u rest)]
      rfl

theorem text_eq_empty_iff : p.text = "" ↔ p = [] :=
  text_injective.eq_iff' rfl

theorem isEmpty_text (hp : p ≠ []) : p.text.isEmpty = false := by
  rw [Bool.eq_false_iff, Ne, String.isEmpty_iff, text_eq_empty_iff]
  exact hp

/-- One more step is written behind the text of the position that it starts from. -/
theorem below_text (p : Position) (s : Step) : below p.text s = (p ++ [s]).text := by
  cases p with
  | nil => rfl
  | cons t rest =>
    have hne : t :: rest ≠ [] := List.cons_ne_nil t rest
    rw [below, isEmpty_text hne, if_neg Bool.false_ne_true, Position.text, Position.text,
      glyphs_append hne (List.cons_ne_nil s []), String.ofList_append]
    rfl

/-! ## The order of listing -/

/-- The order in which positions are listed, said strictly: by length, then alphabetically. -/
def ListedBefore (p q : String) : Prop :=
  p.length < q.length ∨ p.length = q.length ∧ p < q

/-- Shorter texts are listed before longer ones, and texts of one length in alphabetical order. -/
theorem listedBefore_iff {p q : String} :
    listedBefore p q = true ↔ p.length < q.length ∨ p.length = q.length ∧ p ≤ q := by
  simp [listedBefore]

/-- The order of the list is transitive. -/
theorem listedBefore_trans {p q r : String} (hpq : listedBefore p q = true)
    (hqr : listedBefore q r = true) : listedBefore p r = true := by
  rw [listedBefore_iff] at *
  rcases hpq with hpq | ⟨hpq, hle⟩
  · rcases hqr with hqr | ⟨hqr, -⟩
    · exact Or.inl (by omega)
    · exact Or.inl (by omega)
  · rcases hqr with hqr | ⟨hqr, hle'⟩
    · exact Or.inl (by omega)
    · exact Or.inr ⟨by omega, String.le_trans hle hle'⟩

/-- Of two texts one is listed before the other, so sorting by the order is well determined. -/
theorem listedBefore_total (p q : String) : (listedBefore p q || listedBefore q p) = true := by
  rw [Bool.or_eq_true, listedBefore_iff, listedBefore_iff]
  rcases Nat.lt_trichotomy p.length q.length with hlt | heq | hgt
  · exact Or.inl (Or.inl hlt)
  · rcases String.le_total p q with hle | hle
    · exact Or.inl (Or.inr ⟨heq, hle⟩)
    · exact Or.inr (Or.inr ⟨heq.symm, hle⟩)
  · exact Or.inr (Or.inl hgt)

/-- Different texts stand in the strict order. -/
theorem ListedBefore.of_ne {p q : String} (h : listedBefore p q = true) (hne : p ≠ q) :
    ListedBefore p q := by
  rcases listedBefore_iff.mp h with hlt | ⟨heq, hle⟩
  · exact Or.inl hlt
  · have hlt : p < q := by
      by_contra hnot
      exact hne (String.le_antisymm hle (String.not_lt.mp hnot))
    exact Or.inr ⟨heq, hlt⟩

/-- The order of a walk through a tree in which a node comes before what lies below it, and what
lies below its first child before what lies below its second. -/
def Precedes : Position → Position → Prop :=
  List.Lex fun s t => s.number < t.number

theorem Precedes.irrefl (p : Position) : ¬ Precedes p p :=
  List.lex_irrefl (fun s => Nat.lt_irrefl s.number) p

theorem Precedes.asymm {p q : Position} (h : Precedes p q) : ¬ Precedes q p :=
  List.lex_asymm (fun hst => Nat.lt_asymm hst) h

theorem precedes_cons_iff {s t : Step} {p q : Position} :
    Precedes (s :: p) (t :: q) ↔ s.number < t.number ∨ s = t ∧ Precedes p q :=
  List.cons_lex_cons_iff

/-- Below one position, the order is that of the steps from there. -/
theorem precedes_append_left_iff (p q q' : Position) :
    Precedes (p ++ q) (p ++ q') ↔ Precedes q q' := by
  induction p with
  | nil => rfl
  | cons s rest ih =>
    rw [List.cons_append, List.cons_append, precedes_cons_iff, ih]
    simp

/-- Below two positions of which neither is above the other, the order is that of the two. -/
theorem precedes_append_iff {p p' : Position} (h : ¬ p <+: p') (h' : ¬ p' <+: p)
    (q q' : Position) : Precedes (p ++ q) (p' ++ q') ↔ Precedes p p' := by
  induction p generalizing p' with
  | nil => exact absurd List.nil_prefix h
  | cons s rest ih =>
    cases p' with
    | nil => exact absurd List.nil_prefix h'
    | cons t rest' =>
      rw [List.cons_append, List.cons_append, precedes_cons_iff, precedes_cons_iff]
      -- the first steps decide, unless they are equal
      by_cases hst : s = t
      · subst hst
        rw [ih (fun hprefix => h (List.cons_prefix_cons.mpr ⟨rfl, hprefix⟩))
          fun hprefix => h' (List.cons_prefix_cons.mpr ⟨rfl, hprefix⟩)]
      · simp [hst]

end Position

/-! ## The positions of a formula -/

namespace Formula

variable {α : Type} {f g : Formula α} {p : Position}

/-- The positions of a formula are those that lead to a subformula. -/
theorem mem_positions : p ∈ f.positions ↔ (f.at? p).isSome = true := by
  induction f generalizing p with
  | var a =>
    rw [positions, List.mem_singleton]
    cases p with
    | nil => simp [at?]
    | cons s rest => simp [at?, child?]
  | const b =>
    rw [positions, List.mem_singleton]
    cases p with
    | nil => simp [at?]
    | cons s rest => simp [at?, child?]
  | neg f ih =>
    cases p with
    | nil => simp [positions, at?]
    | cons s rest => cases s <;> simp [positions, at?, child?, ih]
  | bin op l r ihl ihr =>
    cases p with
    | nil => simp [positions, at?]
    | cons s rest => cases s <;> simp [positions, at?, child?, ihl, ihr]

/-- A position leads through positions. -/
theorem mem_positions_of_append {q : Position} (h : p ++ q ∈ f.positions) : p ∈ f.positions := by
  rw [mem_positions, at?_append] at h
  rw [mem_positions]
  exact Option.isSome_of_isSome_bind h

/-- The positions of a formula are listed in pre-order. -/
theorem pairwise_positions (f : Formula α) : f.positions.Pairwise Position.Precedes := by
  -- a step in front keeps the order, and the root comes before everything below it
  have hbelow : ∀ (s : Step) {ps : List Position}, ps.Pairwise Position.Precedes →
      (ps.map (s :: ·)).Pairwise Position.Precedes := by
    intro s ps hps
    exact List.pairwise_map.mpr (hps.imp fun h => .cons h)
  have hroot : ∀ (s : Step) (rest : Position), Position.Precedes [] (s :: rest) := fun _ _ => .nil
  induction f with
  | var a => exact List.pairwise_singleton _ _
  | const b => exact List.pairwise_singleton _ _
  | neg f ih =>
    rw [positions, List.pairwise_cons]
    refine ⟨?_, hbelow .first ih⟩
    intro q hq
    obtain ⟨rest, -, rfl⟩ := List.mem_map.mp hq
    exact hroot _ _
  | bin op l r ihl ihr =>
    rw [positions, List.pairwise_cons, List.pairwise_append]
    refine ⟨?_, hbelow .first ihl, hbelow .second ihr, ?_⟩
    · intro q hq
      rcases List.mem_append.mp hq with hq | hq
      · obtain ⟨rest, -, rfl⟩ := List.mem_map.mp hq
        exact hroot _ _
      · obtain ⟨rest, -, rfl⟩ := List.mem_map.mp hq
        exact hroot _ _
    · intro q hq q' hq'
      obtain ⟨rest, -, rfl⟩ := List.mem_map.mp hq
      obtain ⟨rest', -, rfl⟩ := List.mem_map.mp hq'
      exact .rel Nat.one_lt_two

/-- No position of a formula is listed twice. -/
theorem nodup_positions (f : Formula α) : f.positions.Nodup := by
  refine f.pairwise_positions.imp ?_
  rintro p _ hprecedes rfl
  exact Position.Precedes.irrefl p hprecedes

/-- The listed texts are those of the positions, in another order. -/
theorem positionTexts_perm (f : Formula α) :
    f.positionTexts.Perm (f.positions.map Position.text) :=
  List.mergeSort_perm _ _

theorem mem_positionTexts {text : String} :
    text ∈ f.positionTexts ↔ ∃ p ∈ f.positions, p.text = text := by
  rw [f.positionTexts_perm.mem_iff, List.mem_map]

/-- A position is listed when something stands at it. -/
theorem text_mem_positionTexts : p.text ∈ f.positionTexts ↔ (f.at? p).isSome = true := by
  rw [mem_positionTexts, ← mem_positions]
  constructor
  · rintro ⟨q, hq, htext⟩
    rwa [← Position.text_injective htext]
  · exact fun h => ⟨p, h, rfl⟩

/-- The texts of the positions are listed in strictly increasing order, so none is listed twice. -/
theorem pairwise_positionTexts (f : Formula α) :
    f.positionTexts.Pairwise Position.ListedBefore := by
  have hsorted : f.positionTexts.Pairwise fun p q => Position.listedBefore p q = true :=
    @List.pairwise_mergeSort _ Position.listedBefore (fun _ _ _ => Position.listedBefore_trans)
      Position.listedBefore_total (f.positions.map Position.text)
  have hdistinct : f.positionTexts.Nodup := by
    rw [f.positionTexts_perm.nodup_iff]
    exact f.nodup_positions.map Position.text_injective
  exact (hsorted.and hdistinct).imp fun h => .of_ne h.1 h.2

/-! ## One step further -/

/-- A position below the root leads on from a child. -/
theorem at?_cons_eq_some_iff {s : Step} :
    f.at? (s :: p) = some g ↔ ∃ h, f.child? s = some h ∧ h.at? p = some g := by
  rw [at?]
  cases f.child? s <;> simp

/-- A sign below the root is that in a child, changed if the step to the child flips. -/
theorem signAt?_cons_eq_some_iff {s : Step} {sign : Int} :
    f.signAt? (s :: p) = some sign ↔
      ∃ h sign', f.child? s = some h ∧ h.signAt? p = some sign' ∧ f.signBelow s sign' = sign := by
  rw [signAt?]
  cases f.child? s <;> simp

/-- One more step leads to the child of what stands at a position. -/
theorem at?_append_singleton (h : f.at? p = some g) (s : Step) :
    f.at? (p ++ [s]) = g.child? s := by
  rw [at?_append, h, Option.bind_some, at?]
  cases g.child? s <;> rfl

/-- A sign handed down is multiplied by the same factor from whatever sign one starts. -/
theorem signBelow_mul (f : Formula α) (s : Step) (sign sign' : Int) :
    f.signBelow s (sign * sign') = f.signBelow s sign * sign' := by
  unfold signBelow
  split
  · exact (Int.neg_mul sign sign').symm
  · rfl

/-- The sign of an occurrence within a subformula is multiplied with that of the subformula. -/
theorem signAt?_append {sign : Int} (hp : f.at? p = some g) (hsign : f.signAt? p = some sign)
    (q : Position) : f.signAt? (p ++ q) = (g.signAt? q).map (sign * ·) := by
  -- signs are computed from the root down, so the steps of `p` are taken off one by one
  induction p generalizing f sign with
  | nil =>
    cases hp
    cases hsign
    simp
  | cons s rest ih =>
    obtain ⟨k, sign', hk, hsign', rfl⟩ := signAt?_cons_eq_some_iff.mp hsign
    obtain ⟨k', hk', hrest⟩ := at?_cons_eq_some_iff.mp hp
    obtain rfl : k = k' := Option.some.inj (hk.symm.trans hk')
    have hbelow : f.signAt? (s :: (rest ++ q)) = (k.signAt? (rest ++ q)).map (f.signBelow s) := by
      rw [signAt?, hk]
    rw [List.cons_append, hbelow, ih hrest hsign', Option.map_map]
    exact congrArg (Option.map · _) (funext fun _ => signBelow_mul f s sign' _)

/-- The sign one step below an occurrence is changed exactly when the step flips. -/
theorem signAt?_append_singleton {sign : Int} {s : Step} {h : Formula α} (hp : f.at? p = some g)
    (hsign : f.signAt? p = some sign) (hs : g.child? s = some h) :
    f.signAt? (p ++ [s]) = some (g.signBelow s sign) := by
  have hstep : g.signAt? [s] = some (g.signBelow s 1) :=
    signAt?_cons_eq_some_iff.mpr ⟨h, 1, hs, rfl, rfl⟩
  rw [signAt?_append hp hsign, hstep, Option.map_some, Int.mul_comm, ← signBelow_mul, Int.one_mul]

/-- There is a sign only where something stands. -/
theorem at?_isSome_of_signAt? (h : (f.signAt? p).isSome = true) : (f.at? p).isSome = true := by
  obtain ⟨sign, hsign⟩ := Option.isSome_iff_exists.mp h
  clear h
  rw [Option.isSome_iff_exists]
  induction p generalizing f sign with
  | nil => exact ⟨f, rfl⟩
  | cons s rest ih =>
    obtain ⟨k, sign', hk, hsign', -⟩ := signAt?_cons_eq_some_iff.mp hsign
    obtain ⟨g, hg⟩ := ih sign' hsign'
    exact ⟨g, at?_cons_eq_some_iff.mpr ⟨k, hk, hg⟩⟩

/-! ## The annotated tree -/

/-- The child of an annotated node is the child, annotated with the sign and the position it has
there. -/
theorem child?_annotate {s : Step} {h : Formula α} (hs : g.child? s = some h) (sign : Int)
    (text : String) :
    (g.annotate sign text).child? s =
      some (h.annotate (g.signBelow s sign) (Position.below text s)) := by
  cases g with
  | var a => cases hs
  | const b => cases hs
  | neg g =>
    cases s with
    | first => cases hs; rfl
    | second => cases hs
  | bin op l r =>
    cases s with
    | first => cases hs; rfl
    | second => cases hs; rfl

end Formula

namespace Annotated

variable {α : Type} {t u : Annotated α} {p : Position}

theorem at?_append_singleton (h : t.at? p = some u) (s : Step) :
    t.at? (p ++ [s]) = u.child? s := by
  induction p generalizing t with
  | nil =>
    cases h
    rw [List.nil_append, at?]
    cases u.child? s <;> rfl
  | cons step rest ih =>
    rw [at?] at h
    rw [List.cons_append, at?]
    cases hchild : t.child? step with
    | none =>
      rw [hchild] at h
      cases h
    | some k =>
      rw [hchild] at h
      exact ih h

/-- The nodes of an annotated tree stand in the order of the positions of its formula. -/
theorem forall₂_nodes (f : Formula α) (sign : Int) (text : String) :
    List.Forall₂
      (fun p o => (f.at? p).isSome = true ∧ ((f.annotate sign text).at? p).map here = some o)
      f.positions (f.annotate sign text).nodes := by
  -- both lists put the node first and then what is below it, one step in front of every position
  induction f generalizing sign text with
  | var a => exact .cons ⟨rfl, rfl⟩ .nil
  | const b => exact .cons ⟨rfl, rfl⟩ .nil
  | neg f ih =>
    refine .cons ⟨rfl, rfl⟩ ?_
    rw [List.forall₂_map_left_iff]
    exact ih _ _
  | bin op l r ihl ihr =>
    refine .cons ⟨rfl, rfl⟩ (List.rel_append ?_ ?_)
    · rw [List.forall₂_map_left_iff]
      exact ihl _ _
    · rw [List.forall₂_map_left_iff]
      exact ihr _ _

end Annotated

namespace Formula

variable {α : Type} {f g : Formula α} {p : Position}

/-- At a position of the formula, the annotated tree has the subformula at this position with the
text of the position and with the sign of the occurrence. -/
theorem at?_annotated (h : f.at? p = some g) :
    ∃ sign, f.signAt? p = some sign ∧
      f.annotated.at? p = some (g.annotate sign p.text) := by
  induction p using List.reverseRecOn generalizing g with
  | nil =>
    cases h
    exact ⟨1, rfl, rfl⟩
  | append_singleton p s ih =>
    -- the last step starts from the node that the steps before it lead to
    rw [at?_append] at h
    obtain ⟨k, hk, hs⟩ := Option.bind_eq_some_iff.mp h
    obtain ⟨sign, hsign, hnode⟩ := ih hk
    have hchild : k.child? s = some g := by
      rw [← at?_append_singleton hk s, at?_append, hk]
      exact hs
    refine ⟨k.signBelow s sign, signAt?_append_singleton hk hsign hchild, ?_⟩
    rw [Annotated.at?_append_singleton hnode s, child?_annotate hchild, Position.below_text]

theorem here_annotate (sign : Int) (text : String) :
    (g.annotate sign text).here = ⟨g, text, sign⟩ := by
  cases g <;> rfl

theorem signAt?_isSome : (f.signAt? p).isSome = true ↔ (f.at? p).isSome = true := by
  refine ⟨at?_isSome_of_signAt?, fun h => ?_⟩
  obtain ⟨g, hg⟩ := Option.isSome_iff_exists.mp h
  obtain ⟨sign, hsign, -⟩ := at?_annotated hg
  rw [hsign]
  rfl

/-- Position by position, the occurrences in the annotated tree are those of the formula. -/
theorem forall₂_annotated (f : Formula α) :
    List.Forall₂
      (fun p o => o.position = p.text ∧ f.at? p = some o.node ∧ f.signAt? p = some o.sign ∧
        (f.annotated.at? p).map Annotated.here = some o)
      f.positions f.annotated.nodes := by
  refine (Annotated.forall₂_nodes f 1 "").imp ?_
  rintro p o ⟨hsome, hnode⟩
  obtain ⟨g, hg⟩ := Option.isSome_iff_exists.mp hsome
  obtain ⟨sign, hsign, hthere⟩ := at?_annotated hg
  have hhere : (f.annotated.at? p).map Annotated.here = some ⟨g, p.text, sign⟩ := by
    rw [hthere, Option.map_some, here_annotate]
  obtain rfl : ⟨g, p.text, sign⟩ = o := Option.some.inj (hhere.symm.trans hnode)
  exact ⟨rfl, hg, hsign, hhere⟩

/-- The nodes of the annotated tree carry the texts of the positions in pre-order. -/
theorem map_position_annotated (f : Formula α) :
    f.annotated.nodes.map (·.position) = f.positions.map Position.text := by
  rw [← List.forall₂_eq_eq_eq, List.forall₂_map_left_iff, List.forall₂_map_right_iff]
  exact (f.forall₂_annotated.imp fun _ _ h => h.1).flip

/-! ## Looking up by texts -/

/-- A text finds a subformula when it is the text of a position at which the subformula stands. -/
theorem atText?_eq_some_iff {text : String} :
    f.atText? (some text) = some g ↔ ∃ p, p.text = text ∧ f.at? p = some g := by
  have hread : f.atText? (some text) = (Position.read text).bind f.at? := by
    rw [atText?, Option.getD_some]
    cases Position.read text <;> rfl
  rw [hread, Option.bind_eq_some_iff]
  simp only [Position.read_eq_some_iff]

theorem atText?_text : f.atText? (some p.text) = f.at? p := by
  have hread : Position.read p.text = some p := Position.read_eq_some_iff.mpr rfl
  rw [atText?, Option.getD_some, hread]

/-- A text finds a sign when it is the text of a position with this sign. -/
theorem signAtText_eq_ok_iff {text : String} {sign : Int} :
    f.signAtText (some text) = .ok sign ↔ ∃ p, p.text = text ∧ f.signAt? p = some sign := by
  have hread : f.signAtText (some text) = .ok sign ↔
      (Position.read text).bind f.signAt? = some sign := by
    rw [signAtText, Option.getD_some]
    cases (Position.read text).bind f.signAt? <;> simp
  rw [hread, Option.bind_eq_some_iff]
  simp only [Position.read_eq_some_iff]

theorem signAtText_text {sign : Int} :
    f.signAtText (some p.text) = .ok sign ↔ f.signAt? p = some sign := by
  rw [signAtText_eq_ok_iff]
  constructor
  · rintro ⟨q, hq, hsign⟩
    rwa [← Position.text_injective hq]
  · exact fun h => ⟨p, rfl, h⟩

/-- A text without a sign is named in the error. -/
theorem signAtText_eq_error {text : String} (h : ∀ sign, f.signAtText (some text) ≠ .ok sign) :
    f.signAtText (some text) = .error (.position text) := by
  rw [signAtText, Option.getD_some] at h ⊢
  cases hsign : (Position.read text).bind f.signAt? with
  | none => rfl
  | some sign =>
    rw [hsign] at h
    exact absurd rfl (h sign)

/-- A text finds a subformula exactly when it is listed. -/
theorem atText?_isSome_iff {text : String} :
    (f.atText? (some text)).isSome = true ↔ text ∈ f.positionTexts := by
  rw [mem_positionTexts, Option.isSome_iff_exists]
  constructor
  · rintro ⟨g, hg⟩
    obtain ⟨p, htext, hp⟩ := atText?_eq_some_iff.mp hg
    exact ⟨p, mem_positions.mpr (by rw [hp]; rfl), htext⟩
  · rintro ⟨p, hp, htext⟩
    obtain ⟨g, hg⟩ := Option.isSome_iff_exists.mp (mem_positions.mp hp)
    exact ⟨g, atText?_eq_some_iff.mpr ⟨p, htext, hg⟩⟩

/-- A text finds a sign exactly when it is listed. -/
theorem exists_signAtText_iff {text : String} :
    (∃ sign, f.signAtText (some text) = .ok sign) ↔ text ∈ f.positionTexts := by
  rw [mem_positionTexts]
  constructor
  · rintro ⟨sign, hsign⟩
    obtain ⟨p, htext, hp⟩ := signAtText_eq_ok_iff.mp hsign
    exact ⟨p, mem_positions.mpr (signAt?_isSome.mp (by rw [hp]; rfl)), htext⟩
  · rintro ⟨p, hp, htext⟩
    obtain ⟨sign, hsign⟩ := Option.isSome_iff_exists.mp (signAt?_isSome.mpr (mem_positions.mp hp))
    exact ⟨sign, signAtText_eq_ok_iff.mpr ⟨p, htext, hsign⟩⟩

/-- The annotated tree has at the text of a position what it has at the position. -/
theorem nodeAt_text {tree : Annotated Letter} {o : Occurrence Letter}
    (h : (tree.at? p).map Annotated.here = some o) :
    PolarityReport.nodeAt tree p.text = .ok o.node := by
  have hread : Position.read p.text = some p := Position.read_eq_some_iff.mpr rfl
  obtain ⟨found, hfound, rfl⟩ := Option.map_eq_some_iff.mp h
  rw [PolarityReport.nodeAt, hread, Option.getD_some, hfound]

/-- **The ways to address a subformula agree.**  A text is listed as a position exactly when a
subformula is found at it and exactly when a sign is found at it; any other text is refused by name.
The list is strictly increasing by length and then alphabetically.  The nodes of the annotated tree
carry the listed texts, each once and in pre-order, and each node has the subformula and the sign
that are found at its text, in the formula and in the tree itself. -/
theorem addresses_agree (f : Formula Letter) :
    (∀ text : String,
      (text ∈ f.positionTexts ↔ (f.atText? (some text)).isSome = true) ∧
      (text ∈ f.positionTexts ↔ ∃ sign, f.signAtText (some text) = .ok sign) ∧
      (text ∉ f.positionTexts → f.signAtText (some text) = .error (.position text))) ∧
    f.positionTexts.Pairwise Position.ListedBefore ∧
    (∃ ps : List Position, f.annotated.nodes.map (·.position) = ps.map Position.text ∧
      ps.Pairwise Position.Precedes) ∧
    (f.annotated.nodes.map (·.position)).Perm f.positionTexts ∧
    ∀ o ∈ f.annotated.nodes,
      f.atText? (some o.position) = some o.node ∧
      PolarityReport.nodeAt f.annotated o.position = .ok o.node ∧
      f.signAtText (some o.position) = .ok o.sign := by
  have htexts := f.map_position_annotated
  refine ⟨fun text => ⟨atText?_isSome_iff.symm, exists_signAtText_iff.symm, ?_⟩,
    f.pairwise_positionTexts, ⟨f.positions, htexts, f.pairwise_positions⟩, ?_, ?_⟩
  · intro hunlisted
    apply signAtText_eq_error
    exact fun sign hsign => hunlisted (exists_signAtText_iff.mp ⟨sign, hsign⟩)
  · rw [htexts]
    exact f.positionTexts_perm.symm
  · -- every node stands at some position of the formula
    refine forall_mem_of_forall₂ f.forall₂_annotated ?_
    rintro p o ⟨hposition, hnode, hsign, hthere⟩
    rw [hposition]
    exact ⟨atText?_eq_some_iff.mpr ⟨p, rfl, hnode⟩, nodeAt_text hthere,
      signAtText_eq_ok_iff.mpr ⟨p, rfl, hsign⟩⟩

end Formula

end Propositional
