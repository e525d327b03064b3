import Propositional.Analysis.Report
import Propositional.Proofs.Lists

/-!
# What reports contain and how they are written

The JSON text of a result, said without the functions that write it: which fields the report on an
outcome has, in their order, and how values of all kinds are written, with every field and every
item on a line of its own.

* `Report.Value.Escapes`, `Report.Value.Quotes`, `Report.Value.Writes` — characters, texts and
  values in JSON;
* `Report.Value.writes_iff` — the printed text of a value writes it, and no other text does;
* `Report.ReportsTree`, `Report.Reports` — the fields of reports;
* `Report.reports_iff`      — the report on an outcome has these fields.
-/

namespace Propositional.Report

namespace Value

/-! ## Texts -/

/-- How a character is written in a JSON string. -/
inductive Escapes : Char → List Char → Prop
  | quote : Escapes '\x22' ['\\', '\x22']
  | backslash : Escapes '\\' ['\\', '\\']
  | newline : Escapes '\n' ['\\', 'n']
  | carriageReturn : Escapes '\r' ['\\', 'r']
  | tab : Escapes '\t' ['\\', 't']
  | backspace : Escapes '\x08' ['\\', 'b']
  | formFeed : Escapes '\x0c' ['\\', 'f']
  -- The other control characters are written with four digits in base sixteen.
  | control {c : Char} (hc : c.toNat < 32) (hnamed : c ∉ ['\n', '\r', '\t', '\x08', '\x0c']) :
      Escapes c ['\\', 'u', '0', '0', Nat.digitChar (c.toNat / 16), Nat.digitChar (c.toNat % 16)]
  | plain {c : Char} (hc : 32 ≤ c.toNat) (hquote : c ≠ '\x22') (hbackslash : c ≠ '\\') :
      Escapes c [c]

/-- A text in quotation marks. -/
def Quotes (text : String) (cs : List Char) : Prop :=
  ∃ parts, List.Forall₂ Escapes text.toList parts ∧ cs = '\x22' :: (parts.flatten ++ ['\x22'])

/-- A control character without a letter of its own is written with four digits. -/
theorem escaped_of_control {c : Char} (hc : c.toNat < 32)
    (hnamed : c ∉ ['\n', '\r', '\t', '\x08', '\x0c']) :
    escaped c =
      ['\\', 'u', '0', '0', Nat.digitChar (c.toNat / 16), Nat.digitChar (c.toNat % 16)] := by
  -- two of the four digits are zeros
  have hdigits : ∀ n < 32, List.replicate (4 - (Nat.toDigits 16 n).length) '0' ++
      Nat.toDigits 16 n = ['0', '0', Nat.digitChar (n / 16), Nat.digitChar (n % 16)] := by
    decide
  have hquote : c ≠ '\x22' := by
    rintro rfl
    exact absurd hc (by decide)
  have hbackslash : c ≠ '\\' := by
    rintro rfl
    exact absurd hc (by decide)
  simp only [List.mem_cons, List.not_mem_nil, or_false, not_or] at hnamed
  obtain ⟨hn, hr, ht, hb, hf⟩ := hnamed
  rw [escaped, if_neg hquote, if_neg hbackslash, if_neg hn, if_neg hr, if_neg ht, if_neg hb,
    if_neg hf, if_pos hc]
  exact congrArg ('\\' :: 'u' :: ·) (hdigits c.toNat hc)

/-- All characters beside the control characters, the quotation mark and the backslash stand for
themselves. -/
theorem escaped_of_plain {c : Char} (hc : 32 ≤ c.toNat) (hquote : c ≠ '\x22')
    (hbackslash : c ≠ '\\') : escaped c = [c] := by
  have hcontrol : ∀ k : Char, k.toNat < 32 → c ≠ k := by
    rintro k hk rfl
    omega
  rw [escaped, if_neg hquote, if_neg hbackslash, if_neg (hcontrol _ (by decide)),
    if_neg (hcontrol _ (by decide)), if_neg (hcontrol _ (by decide)),
    if_neg (hcontrol _ (by decide)), if_neg (hcontrol _ (by decide)), if_neg (by omega)]

/-- Every character is written in one way. -/
theorem escapes_iff {c : Char} {cs : List Char} : Escapes c cs ↔ cs = escaped c := by
  constructor
  · intro h
    cases h with
    | quote | backslash | newline | carriageReturn | tab | backspace | formFeed => rfl
    | control hc hnamed => exact (escaped_of_control hc hnamed).symm
    | plain hc hquote hbackslash => exact (escaped_of_plain hc hquote hbackslash).symm
  · rintro rfl
    -- control characters, among them those with letters of their own, and other characters
    by_cases hc : c.toNat < 32
    · by_cases hnamed : c ∈ ['\n', '\r', '\t', '\x08', '\x0c']
      · simp only [List.mem_cons, List.not_mem_nil, or_false] at hnamed
        rcases hnamed with rfl | rfl | rfl | rfl | rfl
        · exact .newline
        · exact .carriageReturn
        · exact .tab
        · exact .backspace
        · exact .formFeed
      · rw [escaped_of_control hc hnamed]
        exact .control hc hnamed
    · by_cases hquote : c = '\x22'
      · subst hquote
        exact .quote
      by_cases hbackslash : c = '\\'
      · subst hbackslash
        exact .backslash
      rw [escaped_of_plain (by omega) hquote hbackslash]
      exact .plain (by omega) hquote hbackslash

/-- A text is written in one way. -/
theorem quotes_iff {text : String} {cs : List Char} :
    Quotes text cs ↔ cs = (quoted text).toList := by
  have hparts : ∀ parts, List.Forall₂ Escapes text.toList parts ↔
      parts = text.toList.map escaped :=
    fun _ => forall₂_iff_eq_map (R := Escapes) (g := escaped) fun _ _ => escapes_iff
  simp only [Quotes, hparts, exists_eq_left, quoted, String.toList_ofList, List.flatMap]

/-! ## Values -/

/-- The line break in front of an item at a depth, with the blanks behind it. -/
def newLine (depth : Nat) : List Char :=
  '\n' :: List.replicate (2 * depth) ' '

mutual

/-- How a value is written in JSON at a depth. -/
inductive Writes : Nat → Value → List Char → Prop
  | null {d : Nat} : Writes d .null "null".toList
  | isTrue {d : Nat} : Writes d (.bool true) "true".toList
  | isFalse {d : Nat} : Writes d (.bool false) "false".toList
  | int {d : Nat} (value : Int) : Writes d (.int value) (toString value).toList
  | text {d : Nat} {value : String} {cs : List Char} (h : Quotes value cs) :
      Writes d (.text value) cs
  | noItem {d : Nat} : Writes d (.list []) ['[', ']']
  | list {d : Nat} {items : List Value} {lines : List Char} (h : WritesItems (d + 1) items lines) :
      Writes d (.list items) ('[' :: (lines ++ (newLine d ++ [']'])))
  | noField {d : Nat} : Writes d (.record []) ['\x7b', '\x7d']
  | record {d : Nat} {fields : List (String × Value)} {lines : List Char}
      (h : WritesFields (d + 1) fields lines) :
      Writes d (.record fields) ('\x7b' :: (lines ++ (newLine d ++ ['\x7d'])))

/-- How the items of a list are written: each on its own line, with commas behind all but the last
one. -/
inductive WritesItems : Nat → List Value → List Char → Prop
  | last {d : Nat} {item : Value} {cs : List Char} (h : Writes d item cs) :
      WritesItems d [item] (newLine d ++ cs)
  | more {d : Nat} {item : Value} {rest : List Value} {cs lines : List Char}
      (h : Writes d item cs) (hrest : WritesItems d rest lines) :
      WritesItems d (item :: rest) (newLine d ++ (cs ++ ',' :: lines))

/-- How the fields of a record are written: like items, with their names in front. -/
inductive WritesFields : Nat → List (String × Value) → List Char → Prop
  | last {d : Nat} {name : String} {value : Value} {key cs : List Char} (hname : Quotes name key)
      (h : Writes d value cs) :
      WritesFields d [(name, value)] (newLine d ++ (key ++ ':' :: ' ' :: cs))
  | more {d : Nat} {name : String} {value : Value} {rest : List (String × Value)}
      {key cs lines : List Char} (hname : Quotes name key) (h : Writes d value cs)
      (hrest : WritesFields d rest lines) :
      WritesFields d ((name, value) :: rest)
        (newLine d ++ (key ++ ':' :: ' ' :: (cs ++ ',' :: lines)))

end

/-- Texts on lines of their own, with commas behind all but the last one. -/
def separated (depth : Nat) (texts : List String) : List Char :=
  newLine depth ++ (("," ++ lineBreak depth).intercalate texts).toList

theorem toList_lineBreak (depth : Nat) : (lineBreak depth).toList = newLine depth := by
  simp [lineBreak, newLine]

/-- The first text has a line of its own, and a comma behind it if there are more texts. -/
theorem eq_separated_cons_iff {depth : Nat} {text : String} {texts : List String}
    {lines : List Char} :
    lines = separated depth (text :: texts) ↔
      texts = [] ∧ lines = newLine depth ++ text.toList ∨
        texts ≠ [] ∧ lines = newLine depth ++ (text.toList ++ ',' :: separated depth texts) := by
  cases texts with
  | nil => simp [separated]
  | cons next rest => simp [separated, String.toList_intercalate, toList_lineBreak]

/-- Brackets without texts between them stand beside each other.  Otherwise the texts are on lines
of their own, and so is the right bracket. -/
theorem eq_toList_enclosed_iff {left right : String} {depth : Nat} {texts : List String}
    {cs : List Char} :
    cs = (enclosed left right depth texts).toList ↔
      texts = [] ∧ cs = left.toList ++ right.toList ∨
        texts ≠ [] ∧ cs = left.toList ++
          (separated (depth + 1) texts ++ (newLine depth ++ right.toList)) := by
  cases texts with
  | nil => simp [enclosed]
  | cons text rest => simp [enclosed, separated, toList_lineBreak]

theorem prettyItems_eq_nil_iff {depth : Nat} {items : List Value} :
    prettyItems depth items = [] ↔ items = [] := by
  cases items <;> simp [prettyItems]

theorem prettyFields_eq_nil_iff {depth : Nat} {fields : List (String × Value)} :
    prettyFields depth fields = [] ↔ fields = [] := by
  cases fields <;> simp [prettyFields]

mutual

/-- The printed text of a value writes it, and no other text does. -/
theorem writes_iff (d : Nat) : ∀ (value : Value) (cs : List Char),
    Writes d value cs ↔ cs = (value.prettyAt d).toList
  | .null, cs => by
    constructor
    · rintro ⟨⟩
      rfl
    · rintro rfl
      exact .null
  | .bool b, cs => by
    constructor
    · rintro ⟨⟩ <;> rfl
    · rintro rfl
      cases b
      · exact .isFalse
      · exact .isTrue
  | .int value, cs => by
    constructor
    · rintro ⟨⟩
      rfl
    · rintro rfl
      exact .int value
  | .text value, cs => by
    rw [prettyAt, ← quotes_iff]
    constructor
    · rintro ⟨⟩
      assumption
    · exact .text
  | .list items, cs => by
    have hitems := writesItems_iff (d + 1) items
    rw [prettyAt, eq_toList_enclosed_iff, Ne, prettyItems_eq_nil_iff]
    constructor
    · intro h
      cases h with
      | noItem => exact Or.inl ⟨rfl, rfl⟩
      | list h =>
        obtain ⟨hne, rfl⟩ := (hitems _).mp h
        exact Or.inr ⟨hne, rfl⟩
    · rintro (⟨rfl, rfl⟩ | ⟨hne, rfl⟩)
      · exact .noItem
      · exact .list ((hitems _).mpr ⟨hne, rfl⟩)
  | .record fields, cs => by
    have hfields := writesFields_iff (d + 1) fields
    rw [prettyAt, eq_toList_enclosed_iff, Ne, prettyFields_eq_nil_iff]
    constructor
    · intro h
      cases h with
      | noField => exact Or.inl ⟨rfl, rfl⟩
      | record h =>
        obtain ⟨hne, rfl⟩ := (hfields _).mp h
        exact Or.inr ⟨hne, rfl⟩
    · rintro (⟨rfl, rfl⟩ | ⟨hne, rfl⟩)
      · exact .noField
      · exact .record ((hfields _).mpr ⟨hne, rfl⟩)

/-- The printed items of a list write them. -/
theorem writesItems_iff (d : Nat) : ∀ (items : List Value) (lines : List Char),
    WritesItems d items lines ↔ items ≠ [] ∧ lines = separated d (prettyItems d items)
  | [], lines => by
    constructor
    · rintro ⟨⟩
    · rintro ⟨hne, -⟩
      exact absurd rfl hne
  | item :: rest, lines => by
    have hitem := writes_iff d item
    have hrest := writesItems_iff d rest
    rw [and_iff_right (List.cons_ne_nil item rest), prettyItems, eq_separated_cons_iff, Ne,
      prettyItems_eq_nil_iff]
    constructor
    · intro h
      cases h with
      | last h =>
        rw [(hitem _).mp h]
        exact Or.inl ⟨rfl, rfl⟩
      | more h hmore =>
        obtain ⟨hne, rfl⟩ := (hrest _).mp hmore
        rw [(hitem _).mp h]
        exact Or.inr ⟨hne, rfl⟩
    · rintro (⟨rfl, rfl⟩ | ⟨hne, rfl⟩)
      · exact .last ((hitem _).mpr rfl)
      · exact .more ((hitem _).mpr rfl) ((hrest _).mpr ⟨hne, rfl⟩)

/-- The printed fields of a record write them. -/
theorem writesFields_iff (d : Nat) : ∀ (fields : List (String × Value)) (lines : List Char),
    WritesFields d fields lines ↔ fields ≠ [] ∧ lines = separated d (prettyFields d fields)
  | [], lines => by
    constructor
    · rintro ⟨⟩
    · rintro ⟨hne, -⟩
      exact absurd rfl hne
  | (name, value) :: rest, lines => by
    have hvalue := writes_iff d value
    have hrest := writesFields_iff d rest
    have hname : Quotes name (quoted name).toList := quotes_iff.mpr rfl
    -- the name, the colon and the value, as the rules write them
    have hfield : ∀ behind, (quoted name ++ ": " ++ prettyAt d value).toList ++ behind =
        (quoted name).toList ++ ':' :: ' ' :: ((prettyAt d value).toList ++ behind) := by
      simp
    have hlast := hfield []
    rw [List.append_nil, List.append_nil] at hlast
    rw [and_iff_right (List.cons_ne_nil (name, value) rest), prettyFields, eq_separated_cons_iff,
      Ne, prettyFields_eq_nil_iff, hfield, hlast]
    constructor
    · intro h
      cases h with
      | last hname h =>
        rw [quotes_iff.mp hname, (hvalue _).mp h]
        exact Or.inl ⟨rfl, rfl⟩
      | more hname h hmore =>
        obtain ⟨hne, rfl⟩ := (hrest _).mp hmore
        rw [quotes_iff.mp hname, (hvalue _).mp h]
        exact Or.inr ⟨hne, rfl⟩
    · rintro (⟨rfl, rfl⟩ | ⟨hne, rfl⟩)
      · exact .last hname ((hvalue _).mpr rfl)
      · exact .more hname ((hvalue _).mpr rfl) ((hrest _).mpr ⟨hne, rfl⟩)

end

end Value

/-! ## Fields -/

open Analysis (Outcome)

/-- The fields for an assignment: one for each letter that has a value. -/
def assignmentFields (s : Assignment Letter) : List (String × Value) :=
  s.entries.map fun (a, b) => (a.name, .bool b)

/-- The fields for a node of an annotated tree with the given values for its children. -/
def nodeFields (o : Occurrence Letter) (children : List Value) : List (String × Value) :=
  [("node", .text o.node.text), ("position", .text o.position), ("polarity", .int o.sign),
    ("children", .list children)]

/-- The record for an annotated tree. -/
inductive ReportsTree : Annotated Letter → Value → Prop
  | leaf (o : Occurrence Letter) : ReportsTree (.leaf o) (.record (nodeFields o []))
  | one {o : Occurrence Letter} {t : Annotated Letter} {value : Value} (h : ReportsTree t value) :
      ReportsTree (.one o t) (.record (nodeFields o [value]))
  | two {o : Occurrence Letter} {l r : Annotated Letter} {left right : Value}
      (hl : ReportsTree l left) (hr : ReportsTree r right) :
      ReportsTree (.two o l r) (.record (nodeFields o [left, right]))

/-- The fields of the report on an outcome, in their order. -/
inductive Reports : Outcome → List (String × Value) → Prop
  | truthTable (t : TruthTable) :
      Reports (.truthTable t)
        [("formula", .text t.formula), ("variables", .list (t.letters.map fun a => .text a.name)),
          ("rows", .list (t.rows.map fun row => .record
            [("assignment", .record (assignmentFields row.assignment)),
              ("result", .bool row.value)]))]
  | noModel {s : Satisfiability} (h : s.model = none) :
      Reports (.satisfiability s)
        [("formula", .text s.formula), ("status", .text s.status.name), ("model", .null),
          ("true_count", .int s.trueCount), ("total", .int s.total)]
  | model {s : Satisfiability} {m : Assignment Letter} (h : s.model = some m) :
      Reports (.satisfiability s)
        [("formula", .text s.formula), ("status", .text s.status.name),
          ("model", .record (assignmentFields m)), ("true_count", .int s.trueCount),
          ("total", .int s.total)]
  | subformula (s : Subformula) :
      Reports (.subformula s)
        [("formula", .text s.formula), ("position", .text s.position),
          ("subformula", .text s.subformula.text), ("tree", .text s.tree.text),
          ("positions", .list (s.positions.map .text))]
  | propagation (p : Propagation) :
      Reports (.unitPropagation p)
        [("formula", .text p.formula),
          ("steps", .list (p.run.steps.map fun step => .record
            [("literal", .text step.literal.text),
              ("before_clauses", .list (step.before.map fun c => .text c.text)),
              ("after_clauses", .list (step.after.map fun c => .text c.text))])),
          ("final_clauses", .list (p.run.clauses.map fun c => .text c.text)),
          ("literals", .list (p.run.literals.map fun l => .text l.text)),
          ("formatted_result", .text p.canonical), ("outcome", .int p.run.outcome.number)]
  | interpretation (t : Interpretation) :
      Reports (.interpretation t)
        [("formula", .text t.formula), ("interpretation", .text t.interpretation),
          ("statement", .text t.statement),
          ("assignment", .record (assignmentFields t.assignment)),
          ("simplified_formula", .text t.simplified.result.text),
          ("statement_formula", .text t.body),
          -- Without a truth value there is nothing in the field for it.
          ("statement_value", (t.value.map .bool).getD .null), ("is_valid", .bool t.isValid)]
  | polarity {p : PolarityReport} {tree : Value} (h : ReportsTree p.tree tree) :
      Reports (.polarity p)
        [("formula", .text p.formula), ("position", .text p.position),
          ("polarity", .text p.polarity.name), ("polarity_value", .int p.sign),
          ("subformula", .text p.subformula.text), ("tree", tree),
          ("formatted_tree", .text p.tree.drawing)]
  | determinism (d : Determinism) :
      Reports (.determinism d)
        [("formula", .text d.formula), ("type", .text d.variant.typeName),
          ("is_deterministic", .bool d.verdict.isDeterministic),
          ("explanation", .text (Determinism.explain d.verdict d.variant)),
          ("statements", .list ((Determinism.statements d.variant).map .text)),
          ("correct_statement", .int (Determinism.correctStatement d.verdict d.variant)),
          ("determinism_result", .text d.verdict.name)]
  | pureAtom (p : PureAtom) :
      Reports (.pureAtom p)
        [("formula", .text p.formula),
          ("pure_atoms", .list (p.atoms.keys.map fun a => .text a.name)),
          ("simplified_formula", .text p.simplified.text),
          ("polarities", .record (p.signs.entries.map fun (a, signs) =>
            (a.name, .list (signs.toList.map .bool))))]
  | tseytin (t : Tseytin) :
      Reports (.tseytin t)
        [("original_formula", .text t.formula), ("cnf_formula", .text t.conjunction),
          ("aux_variables", .list (t.encoding.definitions.map fun d =>
            .record [("variable", .text d.name), ("represents", .text d.formula.text)])),
          ("clauses", .list (t.encoding.clauses.map fun c =>
            .text ("(" ++ Tseytin.clauseText c ++ ")"))),
          ("formatted_result", .text (Tseytin.clausesText t.encoding.clauses))]

/-- The record for an annotated tree is the one that is made. -/
theorem reportsTree_iff {t : Annotated Letter} {value : Value} :
    ReportsTree t value ↔ value = ofAnnotated t := by
  induction t generalizing value with
  | leaf o =>
    constructor
    · rintro ⟨⟩
      rfl
    · rintro rfl
      exact .leaf o
  | one o t ih =>
    constructor
    · rintro (_ | h)
      rw [ih.mp h]
      rfl
    · rintro rfl
      exact .one (ih.mpr rfl)
  | two o l r ihl ihr =>
    constructor
    · rintro (_ | _ | ⟨hl, hr⟩)
      rw [ihl.mp hl, ihr.mp hr]
      rfl
    · rintro rfl
      exact .two (ihl.mpr rfl) (ihr.mpr rfl)

/-- There are fields for every outcome. -/
theorem exists_reports (outcome : Outcome) : ∃ fields, Reports outcome fields := by
  cases outcome with
  | truthTable t => exact ⟨_, .truthTable t⟩
  | satisfiability s =>
    cases h : s.model with
    | none => exact ⟨_, .noModel h⟩
    | some m => exact ⟨_, .model h⟩
  | subformula s => exact ⟨_, .subformula s⟩
  | unitPropagation p => exact ⟨_, .propagation p⟩
  | interpretation t => exact ⟨_, .interpretation t⟩
  | polarity p => exact ⟨_, .polarity (reportsTree_iff.mpr rfl)⟩
  | determinism d => exact ⟨_, .determinism d⟩
  | pureAtom p => exact ⟨_, .pureAtom p⟩
  | tseytin t => exact ⟨_, .tseytin t⟩

/-- The fields that belong to an outcome are those of the report on it. -/
theorem Reports.eq_record {outcome : Outcome} {fields : List (String × Value)}
    (h : Reports outcome fields) : ofOutcome outcome = .record fields := by
  cases h with
  | truthTable t =>
    simp [ofOutcome, ofTruthTable, Value.texts, assignment, assignmentFields]
  | noModel h => rw [ofOutcome, ofSatisfiability, h]; rfl
  | model h => rw [ofOutcome, ofSatisfiability, h]; rfl
  | subformula s => rfl
  | propagation p => simp [ofOutcome, ofPropagation, Value.texts]
  | interpretation t =>
    rw [ofOutcome, ofInterpretation]
    -- the field for the truth value is there in either case
    cases t.value <;> rfl
  | polarity h => rw [reportsTree_iff.mp h]; rfl
  | determinism d => rfl
  | pureAtom p => simp [ofOutcome, ofPureAtom, Value.texts, formula]
  | tseytin t => simp [ofOutcome, ofTseytin, Value.texts, formula]

/-- The report on an outcome has the fields that belong to it, and no others. -/
theorem reports_iff {outcome : Outcome} {fields : List (String × Value)} :
    Reports outcome fields ↔ ofOutcome outcome = .record fields := by
  refine ⟨Reports.eq_record, fun h => ?_⟩
  obtain ⟨fields', hreports⟩ := exists_reports outcome
  cases hreports.eq_record.symm.trans h
  exact hreports

end Propositional.Report
