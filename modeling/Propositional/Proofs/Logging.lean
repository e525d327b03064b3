import Propositional.Analysis
import Propositional.Proofs.Interpretation

/-!
# What a threshold changes

A reader with a higher threshold gets the same result and the same records without those of lower
levels.  Computations that have this property are closed under all the ways in which analyses are
put together, so every analysis has it.  Since nearly all messages are of the lowest level, there is
nothing to read with a higher threshold, except for the warnings of simplifications that gave up.

* `Checked.run_bind_fst`  — the records of computations after each other;
* `Checked.WritesOnly`    — a threshold filters the records and changes nothing else, with a rule
  for every way of putting computations together;
* `Simplification.warnings`        — the warning about a simplification that did not converge;
* `Interpretation.run_analyse_fst` — what is left of the records of a tested statement;
* `Analysis.log_only_filters`      — the main result.
-/

namespace Propositional

namespace Checked

variable {α β : Type} {x : Checked α} {g : α → Checked β} {level : Level} {p : Level → Prop}

/-! ## Records of computations after each other -/

/-- The records of a computation stand before those of what follows it; after an error, nothing
follows. -/
theorem run_bind_fst (x : Checked α) (g : α → Checked β) (level : Level) :
    ((x >>= g).run level).1 =
      (x.run level).1 ++
        match (x.run level).2 with
        | .ok a => ((g a).run level).1
        | .error _ => [] := by
  have hrun : ∀ y : Checked α, Checked.run y level = (y : Logged (Except Error α)) level :=
    fun _ => rfl
  rw [hrun]
  show (Logged.run (ExceptT.run (x >>= g)) level).1 = _
  simp only [bind, ExceptT.bind, ExceptT.mk, ExceptT.run, Logged.run]
  cases h : ((x : Logged (Except Error α)) level).2 with
  | ok a => rfl
  | error e => rfl

/-- What follows a result is written behind what was written on the way to it. -/
theorem run_bind_fst_of_ok {a : α} (h : (x.run level).2 = .ok a) :
    ((x >>= g).run level).1 = (x.run level).1 ++ ((g a).run level).1 := by
  rw [run_bind_fst, h]

/-- Behind an error nothing more is written. -/
theorem run_bind_fst_of_error {e : Error} (h : (x.run level).2 = .error e) :
    ((x >>= g).run level).1 = (x.run level).1 := by
  rw [run_bind_fst, h, List.append_nil]

/-- A step that writes nothing leaves the log to what follows it. -/
theorem run_bind_fst_of_silent {a : α} (hx : (x.run level).1 = []) (h : (x.run level).2 = .ok a) :
    ((x >>= g).run level).1 = ((g a).run level).1 := by
  rw [run_bind_fst_of_ok h, hx, List.nil_append]

/-- A step that only computes leaves the log to what follows it. -/
theorem run_ofExcept_bind_fst {x : Except Error α} {a : α} (h : x = .ok a) :
    ((ofExcept x >>= g).run level).1 = ((g a).run level).1 :=
  run_bind_fst_of_silent rfl h

/-- The threshold decides which records a computation writes and nothing else, and the records that
it writes have certain levels. -/
structure WritesOnly (p : Level → Prop) (x : Checked α) : Prop where
  result : ∀ level, (x.run level).2 = (x.run .debug).2
  filtered : ∀ level, (x.run level).1 = (x.run .debug).1.filter fun r => r.level.passes level
  levels : ∀ r ∈ (x.run .debug).1, p r.level

/-- The levels at which two computations after each other write are those of either. -/
theorem WritesOnly.bind (hx : WritesOnly p x) (hg : ∀ a, WritesOnly p (g a)) :
    WritesOnly p (x >>= g) := by
  -- whether the second computation runs, and on what, is the same for every threshold
  cases h : (x.run .debug).2 with
  | ok a =>
    have hlevel : ∀ level, (x.run level).2 = .ok a := fun level => (hx.result level).trans h
    constructor
    · intro level
      rw [run_bind_snd, run_bind_snd, hlevel, hlevel]
      exact (hg a).result level
    · intro level
      rw [run_bind_fst_of_ok (hlevel level), run_bind_fst_of_ok h, List.filter_append,
        hx.filtered level, (hg a).filtered level]
    · intro r hr
      rw [run_bind_fst_of_ok h] at hr
      rcases List.mem_append.mp hr with hr | hr
      · exact hx.levels r hr
      · exact (hg a).levels r hr
  | error e =>
    have hlevel : ∀ level, (x.run level).2 = .error e := fun level => (hx.result level).trans h
    constructor
    · intro level
      rw [run_bind_snd, run_bind_snd, hlevel, hlevel]
      rfl
    · intro level
      rw [run_bind_fst_of_error (hlevel level), run_bind_fst_of_error h, hx.filtered level]
    · rw [run_bind_fst_of_error h]
      exact hx.levels

/-- A computation that writes nothing, whatever the threshold, may stand anywhere. -/
theorem writesOnly_of_silent (hresult : ∀ level, (x.run level).2 = (x.run .debug).2)
    (hsilent : ∀ level, (x.run level).1 = []) : WritesOnly p x where
  result := hresult
  filtered := by
    intro level
    rw [hsilent, hsilent]
    rfl
  levels := by
    rw [hsilent]
    exact List.forall_mem_nil _

theorem writesOnly_pure (a : α) : WritesOnly p (pure a : Checked α) :=
  writesOnly_of_silent (fun _ => rfl) fun _ => rfl

theorem writesOnly_throw (e : Error) : WritesOnly p (throw e : Checked α) :=
  writesOnly_of_silent (fun _ => rfl) fun _ => rfl

/-- Handing on a result or an error writes nothing. -/
theorem writesOnly_ofExcept (x : Except Error α) : WritesOnly p (ofExcept x) :=
  writesOnly_of_silent (fun _ => rfl) fun _ => rfl

/-- A function of the result writes nothing of its own. -/
theorem WritesOnly.map (hx : WritesOnly p x) (g : α → β) : WritesOnly p (g <$> x) :=
  hx.bind fun a => writesOnly_pure (g a)

/-- Messages of one level are written together or not at all. -/
theorem writesOnly_emitAll {l : Level} (hp : p l) (messages : List String) :
    WritesOnly p (ExceptT.lift (Logged.emitAll l messages)) := by
  -- the threshold lets all of the messages through, or none
  have hrun : ∀ level, (Checked.run (ExceptT.lift (Logged.emitAll l messages)) level).1 =
      if l.passes level then messages.map fun m => ⟨l, m⟩ else [] := fun _ => List.append_nil _
  have hall : l.passes .debug = true := by cases l <;> rfl
  constructor
  · exact fun _ => rfl
  · intro level
    rw [hrun, hrun, if_pos hall]
    split
    · next hpasses =>
      refine (List.filter_eq_self.mpr fun r hr => ?_).symm
      obtain ⟨m, -, rfl⟩ := List.mem_map.mp hr
      exact hpasses
    · next hpasses =>
      refine (List.filter_eq_nil_iff.mpr fun r hr => ?_).symm
      obtain ⟨m, -, rfl⟩ := List.mem_map.mp hr
      exact hpasses
  · intro r hr
    rw [hrun, if_pos hall] at hr
    obtain ⟨m, -, rfl⟩ := List.mem_map.mp hr
    exact hp

/-- Notes are of the lowest level only. -/
theorem writesOnly_notes (hp : p .debug) (messages : List String) : WritesOnly p (notes messages) :=
  writesOnly_emitAll hp messages

theorem writesOnly_note (hp : p .debug) (message : String) : WritesOnly p (note message) :=
  writesOnly_emitAll hp [message]

/-- Reading a formula only takes notes, whether or not the text is one. -/
theorem writesOnly_readFormula (hp : p .debug) (input : Input) :
    WritesOnly p (readFormula input) := by
  unfold readFormula
  refine (writesOnly_notes hp _).bind fun _ => ?_
  extract_lets outcome
  clear_value outcome
  cases outcome with
  | ok f => exact (writesOnly_notes hp _).bind fun _ => writesOnly_pure f
  | error reason => exact (writesOnly_notes hp _).bind fun _ => writesOnly_throw _

/-- Most analyses begin with a message and go on with the formula. -/
theorem writesOnly_onFormula (hp : p .debug) (message : String) (input : Input)
    {g : Formula Letter → Checked β} (hg : ∀ f, WritesOnly p (g f)) :
    WritesOnly p (note message >>= fun _ => readFormula input >>= g) :=
  (writesOnly_note hp message).bind fun _ => (writesOnly_readFormula hp input).bind hg

/-- All analyses end with a message and their result. -/
theorem writesOnly_noted (hp : p .debug) (message : String) (a : α) :
    WritesOnly p (note message >>= fun _ => pure a) :=
  (writesOnly_note hp message).bind fun _ => writesOnly_pure a

/-! ## Above the lowest level -/

/-- The two thresholds at which progress or only warnings are printed leave out the notes. -/
theorem ne_debug (h : level = .info ∨ level = .warning) : level ≠ .debug := by
  rcases h with rfl | rfl <;> exact nofun

/-- Records of the lowest level are written for nobody else. -/
theorem WritesOnly.silent (hx : WritesOnly (· = .debug) x) (hlevel : level ≠ .debug) :
    (x.run level).1 = [] := by
  rw [hx.filtered, List.filter_eq_nil_iff]
  intro r hr
  rw [hx.levels r hr]
  cases level with
  | debug => exact absurd rfl hlevel
  | info | warning | error => decide

/-- Above the lowest threshold, a note in front leaves no trace. -/
theorem run_note_bind_fst {g : Unit → Checked β} (hlevel : level ≠ .debug) (message : String) :
    ((note message >>= g).run level).1 = ((g ()).run level).1 := by
  have hnote := writesOnly_note (p := (· = .debug)) rfl message
  exact run_bind_fst_of_silent (hnote.silent hlevel) rfl

/-- Above the lowest threshold, reading a formula leaves no trace. -/
theorem run_readFormula_bind_fst {input : Input} {f : Formula Letter}
    {g : Formula Letter → Checked β} (hlevel : level ≠ .debug)
    (hf : Formula.read input.content = .ok f) :
    ((readFormula input >>= g).run level).1 = ((g f).run level).1 := by
  have hread := writesOnly_readFormula (p := (· = .debug)) rfl input
  exact run_bind_fst_of_silent (hread.silent hlevel) ((run_readFormula_eq_ok_iff level).mpr hf)

end Checked

open Checked

variable {inputs : Inputs} {p : Level → Prop} {level : Level}

/-! ## Analyses -/

/-- A truth table is found with notes only, one of them for each line. -/
theorem TruthTable.writesOnly_analyse (hp : p .debug) : WritesOnly p (analyse inputs) := by
  unfold analyse
  refine writesOnly_onFormula hp _ _ fun f => (writesOnly_note hp _).bind fun _ => ?_
  refine (writesOnly_ofExcept _).bind fun rows => (writesOnly_notes hp _).bind fun _ => ?_
  exact writesOnly_noted hp _ _

/-- Counting the assignments takes notes at its begin and its end only. -/
theorem Satisfiability.writesOnly_analyse (hp : p .debug) : WritesOnly p (analyse inputs) := by
  unfold analyse
  refine writesOnly_onFormula hp _ _ fun f => (writesOnly_ofExcept _).bind fun rows => ?_
  exact writesOnly_noted hp _ _

/-- Looking up a subformula takes notes only, also where the position is refused. -/
theorem Subformula.writesOnly_analyse (hp : p .debug) : WritesOnly p (analyse inputs) := by
  unfold analyse
  refine writesOnly_onFormula hp _ _ fun f => ?_
  split
  · exact writesOnly_throw _
  · exact writesOnly_noted hp _ _

/-- Propagation takes a note of every step, and writes nothing else. -/
theorem Propagation.writesOnly_analyse (hp : p .debug) : WritesOnly p (analyse inputs) := by
  unfold analyse
  refine writesOnly_onFormula hp _ _ fun f => (writesOnly_ofExcept _).bind fun clauses => ?_
  refine (writesOnly_note hp _).bind fun _ => (writesOnly_notes hp _).bind fun _ => ?_
  exact writesOnly_noted hp _ _

/-- Looking up a polarity takes notes only, also where the position is refused. -/
theorem PolarityReport.writesOnly_analyse (hp : p .debug) : WritesOnly p (analyse inputs) := by
  unfold analyse
  refine writesOnly_onFormula hp _ _ fun f => (writesOnly_ofExcept _).bind fun sign => ?_
  exact (writesOnly_ofExcept _).bind fun g => writesOnly_noted hp _ _

namespace Determinism

/-- A determinism check takes notes only, whichever of its variants it is. -/
theorem writesOnly_analyseAs (hp : p .debug) (variant : Variant) :
    WritesOnly p (analyseAs variant inputs) := by
  unfold analyseAs
  refine writesOnly_onFormula hp _ _ fun f => (writesOnly_ofExcept _).bind fun clauses => ?_
  exact (writesOnly_notes hp _).bind fun _ => writesOnly_noted hp _ _

theorem writesOnly_analyse (hp : p .debug) : WritesOnly p (analyse inputs) :=
  (writesOnly_ofExcept _).bind fun variant => writesOnly_analyseAs hp variant

end Determinism

/-- Eliminating the pure atoms takes notes only. -/
theorem PureAtom.writesOnly_analyse (hp : p .debug) : WritesOnly p (analyse inputs) := by
  unfold analyse
  refine writesOnly_onFormula hp _ _ fun f => (writesOnly_note hp _).bind fun _ => ?_
  exact (writesOnly_note hp _).bind fun _ => writesOnly_noted hp _ _

/-- Finding the Tseytin clauses takes notes only, one of them for each definition. -/
theorem Tseytin.writesOnly_analyse (hp : p .debug) : WritesOnly p (analyse inputs) := by
  unfold analyse
  refine writesOnly_onFormula hp _ _ fun f => (writesOnly_ofExcept _).bind fun encoding => ?_
  exact (writesOnly_notes hp _).bind fun _ => writesOnly_noted hp _ _

/-! ## Simplifications that give up -/

/-- The warning about a simplification of a formula, unless it has converged. -/
def Simplification.warnings (f : Formula Letter) (s : Simplification Letter) : List Record :=
  if s.converged then [] else [⟨.warning, s.warning Formula.defaultPassLimit f⟩]

namespace Interpretation

/-- A simplification writes about its passes, and a warning if it has not converged. -/
theorem simplifyUnder_eq (assignment : Assignment Letter) (f : Formula Letter) :
    simplifyUnder assignment f =
      notes (reached assignment f).messages >>= fun _ =>
        ExceptT.lift (Logged.emitAll .warning (if (reached assignment f).converged then [] else
          [(reached assignment f).warning Formula.defaultPassLimit (f.assign assignment.get?)]))
            >>= fun _ => pure (reached assignment f) := by
  funext level
  refine Prod.ext ?_ rfl
  show (_ ++ (_ ++ [])) ++ [] = (_ ++ []) ++ ((_ ++ []) ++ [])
  simp only [List.append_nil]
  rfl

/-- Simplification takes notes of its passes, and gives a warning when it is cut off. -/
theorem writesOnly_simplifyUnder (hp : p .debug) (hwarning : p .warning)
    (assignment : Assignment Letter) (f : Formula Letter) :
    WritesOnly p (simplifyUnder assignment f) := by
  rw [simplifyUnder_eq]
  refine (writesOnly_notes hp _).bind fun _ => (writesOnly_emitAll hwarning _).bind fun _ => ?_
  exact writesOnly_pure _

theorem writesOnly_analyse (hp : p .debug) (hwarning : p .warning) :
    WritesOnly p (analyse inputs) := by
  unfold analyse
  refine (writesOnly_note hp _).bind fun _ => (writesOnly_ofExcept _).bind fun assignment => ?_
  refine (writesOnly_ofExcept _).bind fun statement => ?_
  refine (writesOnly_readFormula hp _).bind fun f => ?_
  refine (writesOnly_simplifyUnder hp hwarning _ _).bind fun simplified => ?_
  refine (writesOnly_note hp _).bind fun _ => (writesOnly_readFormula hp _).bind fun g => ?_
  refine (writesOnly_simplifyUnder hp hwarning _ _).bind fun conclusion => ?_
  exact writesOnly_noted hp _ _

/-- A reader of warnings sees of a simplification only whether it gave up. -/
theorem run_simplifyUnder_fst (hlevel : level = .info ∨ level = .warning)
    (assignment : Assignment Letter) (f : Formula Letter) :
    ((simplifyUnder assignment f).run level).1 =
      (reached assignment f).warnings (f.assign assignment.get?) := by
  rw [simplifyUnder_eq, Simplification.warnings]
  generalize reached assignment f = s
  -- what is written about the passes is for nobody with this threshold
  rcases hlevel with rfl | rfl
  · cases s.converged <;> rfl
  · cases s.converged <;> rfl

/-- A reader of warnings sees of a test that answers only which simplifications gave up. -/
theorem run_analyse_fst {t : Interpretation} (hlevel : level = .info ∨ level = .warning)
    (h : ((analyse inputs).run level).2 = .ok t) :
    ∃ f g, Formula.read inputs.formula.content = .ok f ∧ Formula.read t.body = .ok g ∧
      t.simplified = reached t.assignment f ∧ t.conclusion = reached t.assignment g ∧
      ((analyse inputs).run level).1 =
        t.simplified.warnings (f.assign t.assignment.get?) ++
          t.conclusion.warnings (g.assign t.assignment.get?) := by
  obtain ⟨assignment, statement, f, g, hassignment, hstatement, hf, hg, rfl⟩ :=
    run_analyse_eq_ok_iff.mp h
  refine ⟨f, g, hf, hg, rfl, rfl, ?_⟩
  have hdebug := ne_debug hlevel
  -- of all steps only the two simplifications write something that is seen
  have hbody : Formula.read
      (Input.text (splice statement.body (reached assignment f).result)).content = .ok g := hg
  rw [analyse, run_note_bind_fst hdebug, run_ofExcept_bind_fst hassignment,
    run_ofExcept_bind_fst hstatement, run_readFormula_bind_fst hdebug hf,
    run_bind_fst_of_ok (run_simplifyUnder assignment f level), run_simplifyUnder_fst hlevel,
    run_note_bind_fst hdebug]
  dsimp only
  rw [run_readFormula_bind_fst hdebug hbody,
    run_bind_fst_of_ok (run_simplifyUnder assignment g level), run_simplifyUnder_fst hlevel,
    run_note_bind_fst hdebug]
  exact congrArg _ (List.append_nil _)

end Interpretation

namespace Analysis

/-- Every analysis only takes notes, except that testing a statement may give warnings. -/
theorem writesOnly_run (kind : Kind) (inputs : Inputs) :
    WritesOnly (fun l => l = .debug ∨ kind = .interpretation ∧ l = .warning) (run kind inputs) := by
  refine (writesOnly_note (Or.inl rfl) _).bind fun _ => ?_
  cases kind with
  | truthTable => exact (TruthTable.writesOnly_analyse (Or.inl rfl)).map _
  | satisfiability => exact (Satisfiability.writesOnly_analyse (Or.inl rfl)).map _
  | subformula => exact (Subformula.writesOnly_analyse (Or.inl rfl)).map _
  | unitPropagation => exact (Propagation.writesOnly_analyse (Or.inl rfl)).map _
  | interpretation =>
    exact (Interpretation.writesOnly_analyse (Or.inl rfl) (Or.inr ⟨rfl, rfl⟩)).map _
  | polarity => exact (PolarityReport.writesOnly_analyse (Or.inl rfl)).map _
  | cnfDeterminism => exact (Determinism.writesOnly_analyse (Or.inl rfl)).map _
  | pureAtom => exact (PureAtom.writesOnly_analyse (Or.inl rfl)).map _
  | generalDeterminism => exact (Determinism.writesOnly_analyseAs (Or.inl rfl) .general).map _
  | tseytin => exact (Tseytin.writesOnly_analyse (Or.inl rfl)).map _

/-- **Logging does not influence results.**  An analysis of any kind ends with the same result or
the same error whatever the threshold, and the records for a threshold are those for the lowest one
that are severe enough, in the same order.  Above the lowest threshold there are none, unless a
statement is tested under an interpretation.  When such a test answers, the records up to warnings
are one warning for each of its two simplifications that has not converged. -/
theorem log_only_filters (kind : Kind) (inputs : Inputs) :
    (∀ level level', ((run kind inputs).run level).2 = ((run kind inputs).run level').2) ∧
    (∀ level : Level, ((run kind inputs).run level).1 =
      ((run kind inputs).run .debug).1.filter fun r => level.severity ≤ r.level.severity) ∧
    (kind ≠ .interpretation → ∀ level, level ≠ .debug → ((run kind inputs).run level).1 = []) ∧
    (kind = .interpretation → ∀ level, level = .info ∨ level = .warning → ∀ outcome,
      ((run kind inputs).run level).2 = .ok outcome →
      ∃ t f g, outcome = .interpretation t ∧
        Formula.read inputs.formula.content = .ok f ∧ Formula.read t.body = .ok g ∧
        t.simplified = (f.assign t.assignment.get?).simplify Formula.defaultPassLimit ∧
        t.conclusion = (g.assign t.assignment.get?).simplify Formula.defaultPassLimit ∧
        ((run kind inputs).run level).1 =
          t.simplified.warnings (f.assign t.assignment.get?) ++
            t.conclusion.warnings (g.assign t.assignment.get?)) := by
  have hwrites := writesOnly_run kind inputs
  refine ⟨fun level level' => (hwrites.result level).trans (hwrites.result level').symm,
    hwrites.filtered, ?_, ?_⟩
  · intro hkind level hlevel
    refine WritesOnly.silent ⟨hwrites.result, hwrites.filtered, fun r hr => ?_⟩ hlevel
    exact (hwrites.levels r hr).resolve_right fun h => hkind h.1
  · rintro rfl level hlevel outcome h
    have hdebug := ne_debug hlevel
    -- what is written above DEBUG is written by the test of the statement itself
    have hdispatch : dispatch .interpretation inputs =
        Interpretation.analyse inputs >>= fun t => pure (.interpretation t) := rfl
    rw [run, run_note_bind, hdispatch, run_bind_snd, bind_eq_ok_iff] at h
    obtain ⟨t, ht, houtcome⟩ := h
    obtain ⟨f, g, hf, hg, hsimplified, hconclusion, hrecords⟩ :=
      Interpretation.run_analyse_fst hlevel ht
    refine ⟨t, f, g, (Except.ok.inj houtcome).symm, hf, hg, hsimplified, hconclusion, ?_⟩
    rw [run, run_note_bind_fst hdebug, hdispatch, run_bind_fst_of_ok ht, hrecords]
    exact List.append_nil _

end Analysis

end Propositional
