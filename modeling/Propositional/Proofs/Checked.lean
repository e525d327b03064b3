import Propositional.Checked

/-!
# Results of checked computations

A checked computation writes a log and ends with a result or an error.  What it ends with does not
depend on what is written, so an analysis can be read as a plain computation in `Except`:

* `run_bind_snd`        — one computation after another ends as the results do after each other;
* `run_note_bind`, `run_notes_bind` — a message in front changes nothing;
* `run_readFormula_text`, `run_readFormula_eq_ok_iff` — a formula is read exactly when its text is
  one.
-/

namespace Propositional

namespace Checked

variable {α β : Type}

/-- Of two computations after each other, the second runs on the result of the first. -/
theorem run_bind_snd (x : Checked α) (g : α → Checked β) (threshold : Level) :
    ((x >>= g).run threshold).2 = (x.run threshold).2 >>= fun a => ((g a).run threshold).2 := by
  have hrun : ∀ y : Checked α, Checked.run y threshold = (y : Logged (Except Error α)) threshold :=
    fun _ => rfl
  rw [hrun]
  show (Logged.run (ExceptT.run (x >>= g)) threshold).2 = _
  simp only [bind, ExceptT.bind, ExceptT.mk, ExceptT.run, Logged.run]
  cases h : ((x : Logged (Except Error α)) threshold).2 with
  | ok a => rfl
  | error e => rfl

/-- A message in front of a computation does not change its result. -/
@[simp]
theorem run_note_bind (message : String) (g : Unit → Checked β) (threshold : Level) :
    ((note message >>= g).run threshold).2 = ((g ()).run threshold).2 := by
  rw [run_bind_snd]
  rfl

/-- Several messages in front of a computation do not change its result. -/
@[simp]
theorem run_notes_bind (messages : List String) (g : Unit → Checked β) (threshold : Level) :
    ((notes messages >>= g).run threshold).2 = ((g ()).run threshold).2 := by
  rw [run_bind_snd]
  rfl

/-- A computation that writes nothing hands its result on. -/
@[simp]
theorem run_ofExcept_bind (x : Except Error α) (g : α → Checked β) (threshold : Level) :
    ((ofExcept x >>= g).run threshold).2 = x >>= fun a => ((g a).run threshold).2 := by
  rw [run_bind_snd]
  rfl

/-- A computation that only returns a value has that value as its result. -/
@[simp]
theorem run_pure_snd (a : α) (threshold : Level) :
    ((pure a : Checked α).run threshold).2 = .ok a := rfl

/-- A computation that only throws an error ends with it. -/
@[simp]
theorem run_throw_snd (e : Error) (threshold : Level) :
    ((throw e : Checked α).run threshold).2 = .error e := rfl

/-- A text is read as the formula that it writes, or the reason why it writes none is the error. -/
theorem run_readFormula_text (content : String) (threshold : Level) :
    ((readFormula (.text content)).run threshold).2 =
      match Formula.read content with
      | .ok f => .ok f
      | .error reason => .error (.formula reason) := by
  cases h : Formula.read (α := Letter) content with
  | ok f => simp [readFormula, Input.content, h]
  | error reason => simp [readFormula, Input.content, h]

/-- A formula is read from an input exactly when the text of the input is one.  Without a text
there is no formula, and the empty text is none either. -/
theorem run_readFormula_eq_ok_iff {input : Input} {f : Formula Letter} (threshold : Level) :
    ((readFormula input).run threshold).2 = .ok f ↔ Formula.read input.content = .ok f := by
  cases input with
  | missing =>
    have hempty : Formula.read (α := Letter) Input.missing.content = .error .unexpectedEnd := by
      rw [Input.content, Formula.read, Token.scan, String.toList_empty]
      rfl
    rw [hempty]
    simp [readFormula]
  | void =>
    cases h : Formula.read (α := Letter) Input.void.content with
    | ok g => simp [readFormula, h]
    | error reason => simp [readFormula, h]
  | text content =>
    cases h : Formula.read (α := Letter) (Input.text content).content with
    | ok g => simp [readFormula, h]
    | error reason => simp [readFormula, h]

end Checked

end Propositional
