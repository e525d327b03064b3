/-!
# Signed names

A signed name is a name that may be negated, written with a mark in front of a negated name.  Every
text is the text of exactly one signed name: a text that begins with the mark is a negated name,
any other text a plain one.

* `Signed`            — a sign and a name, for a given mark;
* `Signed.read`, `Signed.text` — texts as signed names and back, each undoing the other;
* `Signed.complement` — the signed name with one mark more or less.
-/

namespace Propositional

/-- A name with a sign.  The mark says how a negated name is written; a plain name does not begin
with it. -/
structure Signed (mark : Char) where
  negated : Bool
  name : String
  -- A plain name does not look negated.
  unmarked : negated = false → name.toList.head? ≠ some mark
deriving DecidableEq

namespace Signed

variable {mark : Char}

/-- The signed name that characters write. -/
def ofChars (mark : Char) (chars : List Char) : Signed mark :=
  if h : chars.head? = some mark then
    ⟨true, String.ofList chars.tail, by simp⟩
  else
    ⟨false, String.ofList chars, by simpa using h⟩

/-- The signed name that a text writes. -/
def read (mark : Char) (text : String) : Signed mark :=
  ofChars mark text.toList

/-- The text of a signed name. -/
def text (l : Signed mark) : String :=
  if l.negated then String.ofList (mark :: l.name.toList) else l.name

/-- A name with a mark in front. -/
def negative (mark : Char) (name : String) : Signed mark :=
  ⟨true, name, by simp⟩

/-- The opposite of a signed name: a mark is taken away where there is one, and put in front where
there is none. -/
def complement (l : Signed mark) : Signed mark :=
  if l.negated then read mark l.name else negative mark l.name

/-- Two signed names with the same sign and the same name are equal. -/
@[ext]
theorem ext {l m : Signed mark} (hn : l.negated = m.negated) (hname : l.name = m.name) :
    l = m := by
  cases l
  cases m
  cases hn
  cases hname
  rfl

/-- Reading the text of a signed name gives it back. -/
@[simp]
theorem read_text (l : Signed mark) : read mark l.text = l := by
  obtain ⟨negated, name, h⟩ := l
  cases negated with
  | true => apply ext <;> simp [read, text, ofChars]
  | false => apply ext <;> simp [read, text, ofChars, h rfl]

/-- The text of what was read is the text. -/
@[simp]
theorem text_read (s : String) : (read mark s).text = s := by
  unfold read ofChars
  split
  · next h =>
    have hs : mark :: s.toList.tail = s.toList := by
      cases hc : s.toList with
      | nil => simp [hc] at h
      | cons c rest =>
        rw [hc] at h
        cases h
        rfl
    simp [text, hs]
  · simp [text]

end Signed

end Propositional
