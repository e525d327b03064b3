import Propositional.Proofs.Lists
import Propositional.Proofs.Signs
import Propositional.Proofs.Tables

/-!
# Walks that collect polarities

The polarities of all atoms are collected in walks through a formula that carry one polarity along
and come through each side of a biconditional twice.  A walk that carries a set of polarities needs
to come through each side only once, and does the same: two walks, one for each of two sets, are one
walk for both sets together.  Of the second kind of walk it is easy to say which atoms it lists and
what it adds for each.

* `Formula.signsOf`        — the polarities of one atom, said without a table;
* `Formula.addSigns`       — the walk that carries a set of polarities;
* `Formula.keys_addSigns`, `Formula.getD_get?_addSigns` — what it lists, and what it adds;
* `Formula.addSigns_addSigns`, `Formula.addSigns_iff` — two walks are one walk;
* `Formula.addSign_eq_addSigns` — both kinds of walks do the same;
* `Formula.keys_signs`, `Formula.getD_get?_signs` — the table of all polarities.
-/

namespace Propositional.Formula

variable {f : Formula Letter} {a : Letter} {signs : Signs} {t : Table Letter Signs}

/-! ## Walks with sets of polarities -/

/-- The polarities with which an atom occurs in a formula that itself occurs with the given ones. -/
def signsOf (signs : Signs) (a : Letter) : Formula Letter → Signs
  | .var b => if a = b then signs else .none
  | .const _ => .none
  | .neg f => f.signsOf signs.flip a
  | .bin .implies l r => (l.signsOf signs.flip a).union (r.signsOf signs a)
  | .bin .iff l r => (l.signsOf .both a).union (r.signsOf .both a)
  | .bin _ l r => (l.signsOf signs a).union (r.signsOf signs a)

/-- The polarities of an atom in a formula with two sides are those in either side. -/
theorem signsOf_bin (signs : Signs) (op : Connective) (l r : Formula Letter) :
    (bin op l r).signsOf signs a =
      (l.signsOf (op.signsBelow .first signs) a).union
        (r.signsOf (op.signsBelow .second signs) a) := by
  cases op <;> rfl

/-- Walks through a formula that occurs with the given polarities, and adds their polarities to what
a table has for its atoms.  Below a biconditional everything occurs with both. -/
def addSigns (signs : Signs) : Formula Letter → Table Letter Signs → Table Letter Signs
  | .var a, t => t.insert a (((t.get? a).getD .none).union signs)
  | .const _, t => t
  | .neg f, t => f.addSigns signs.flip t
  | .bin .implies l r, t => r.addSigns signs (l.addSigns signs.flip t)
  | .bin .iff l r, t => r.addSigns .both (l.addSigns .both t)
  | .bin _ l r, t => r.addSigns signs (l.addSigns signs t)

/-- The left side is walked through first, and each side with its own polarities. -/
theorem addSigns_bin (signs : Signs) (op : Connective) (l r : Formula Letter)
    (t : Table Letter Signs) :
    (bin op l r).addSigns signs t =
      r.addSigns (op.signsBelow .second signs) (l.addSigns (op.signsBelow .first signs) t) := by
  cases op <;> rfl

/-- Adding the polarities of a formula to a table adds, for each atom, the polarities with which
the atom occurs. -/
theorem getD_get?_addSigns (signs : Signs) (f : Formula Letter) (t : Table Letter Signs) :
    ((f.addSigns signs t).get? a).getD .none =
      ((t.get? a).getD .none).union (f.signsOf signs a) := by
  induction f generalizing signs t with
  | var b =>
    rw [addSigns, Table.get?_insert, signsOf]
    by_cases h : a = b
    · subst h
      simp
    · simp [h]
  | const b => rw [addSigns, signsOf, Signs.union_none]
  | neg f ih => rw [addSigns, ih, signsOf]
  | bin op l r ihl ihr => rw [addSigns_bin, ihr, ihl, signsOf_bin, Signs.union_assoc]

/-- A walk lists the atoms behind those that were listed before, each where it came first. -/
theorem keys_addSigns {seen : List Letter} (h : t.keys = seen.eraseDups) :
    (f.addSigns signs t).keys = (seen ++ f.atoms).eraseDups := by
  induction f generalizing signs t seen with
  | var b =>
    rw [addSigns, Table.keys_insert, h, atoms, eraseDups_append_singleton]
    simp only [List.mem_eraseDups]
  | const b => rw [addSigns, h, atoms, List.append_nil]
  | neg f ih => exact ih h
  | bin op l r ihl ihr =>
    -- the atoms of the left side have been listed when the right side is walked through
    rw [addSigns_bin, ihr (ihl h), atoms, List.append_assoc]

/-! ## Two walks -/

/-- The polarities of an atom in a formula that occurs with two sets are those with either set. -/
theorem signsOf_union (s t : Signs) (f : Formula Letter) :
    f.signsOf (s.union t) a = (f.signsOf s a).union (f.signsOf t a) := by
  apply Signs.ext_has
  intro b
  rw [Signs.has_union]
  induction f generalizing s t b with
  | var c =>
    rw [signsOf, signsOf, signsOf]
    split <;> simp
  | const c => simp [signsOf]
  | neg f ih => exact ih s.flip t.flip b
  | bin op l r ihl ihr =>
    have hbelow : ∀ step, op.signsBelow step (s.union t) =
        (op.signsBelow step s).union (op.signsBelow step t) := by
      intro step
      cases op <;> cases step <;> rfl
    rw [signsOf_bin, signsOf_bin, signsOf_bin, hbelow, hbelow]
    simp only [Signs.has_union, ihl, ihr]
    -- the four summands stand in another order
    ac_rfl

/-- Walking through a formula twice, with one set of polarities and then with another, gives the
table of one walk with both. -/
theorem addSigns_addSigns (s s' : Signs) (f : Formula Letter) (t : Table Letter Signs) :
    f.addSigns s' (f.addSigns s t) = f.addSigns (s.union s') t := by
  have hfirst : ∀ s, (f.addSigns s t).keys = (t.keys ++ f.atoms).eraseDups :=
    fun s => keys_addSigns (eraseDups_of_nodup t.nodup).symm
  -- the second walk lists nothing that the first one has not
  have hkeys : (f.addSigns s' (f.addSigns s t)).keys = (f.addSigns (s.union s') t).keys := by
    rw [keys_addSigns (hfirst s), hfirst]
    exact eraseDups_append_of_subset (List.subset_append_right _ _)
  refine Table.ext_getD hkeys .none fun a => ?_
  rw [getD_get?_addSigns, getD_get?_addSigns, getD_get?_addSigns, signsOf_union, Signs.union_assoc]

/-- So below a biconditional it makes no difference whether each side is walked through for both
polarities together or once for each of them. -/
theorem addSigns_iff (l r : Formula Letter) :
    (bin .iff l r).addSigns signs t =
      r.addSigns (.single false) (r.addSigns (.single true)
        (l.addSigns (.single false) (l.addSigns (.single true) t))) := by
  have hboth : (Signs.single true).union (.single false) = .both := rfl
  rw [addSigns, addSigns_addSigns, addSigns_addSigns, hboth]

/-- A walk with one polarity does what a walk with the set of this polarity does. -/
theorem addSign_eq_addSigns (b : Bool) (f : Formula Letter) (t : Table Letter Signs) :
    f.addSign b t = f.addSigns (.single b) t := by
  induction f generalizing b t with
  | var a => rw [addSign, addSigns, Signs.add_eq_union]
  | const c => rfl
  | neg f ih => rw [addSign, ih, addSigns, Signs.flip_single]
  | bin op l r ihl ihr =>
    cases op with
    | and | or =>
      show r.addSign b (l.addSign b t) = r.addSigns (.single b) (l.addSigns (.single b) t)
      rw [ihl, ihr]
    | implies => rw [addSign, addSigns, ihl, ihr, Signs.flip_single]
    | iff =>
      -- each side is walked through twice here, and once there
      rw [addSign, addSigns_iff, ihl, ihl, ihr, ihr]

/-! ## The table of a formula -/

/-- The atoms of a formula are listed in order of first occurrence. -/
theorem keys_signs (f : Formula Letter) : f.signs.keys = f.atoms.eraseDups := by
  have hnone : (Table.empty : Table Letter Signs).keys = ([] : List Letter).eraseDups := rfl
  rw [signs, addSign_eq_addSigns, keys_addSigns hnone, List.nil_append]

/-- The table has for each atom the polarities with which it occurs. -/
theorem getD_get?_signs (f : Formula Letter) (a : Letter) :
    (f.signs.get? a).getD .none = f.signsOf .plus a := by
  have hplus : Signs.single true = .plus := rfl
  rw [signs, addSign_eq_addSigns, getD_get?_addSigns, Table.get?_empty, Option.getD_none,
    Signs.none_union, hplus]

end Propositional.Formula
