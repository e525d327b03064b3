import Propositional.Diagram.Format
import Propositional.Log

/-!
# Rendering diagrams to files

Where the picture of a formula tree goes, and what is said about it.  Pictures go into a folder of
their own, which is made when it is missing; if that fails, they go to the current one.

* `Rendering.Setting` — what the surroundings allow;
* `Rendering.Request` — a picture to be drawn: its path without extension, and its format;
* `Rendering.Result`  — the pictures drawn, and whether the folder is there afterwards;
* `Rendering.render`  — the rendering of one diagram.
-/

namespace Propositional.Rendering

/-- The folder for pictures. -/
def folder : String := "tree_visualizations"

/-- The format of a picture when no other one is asked for. -/
def defaultFormat : Diagram.Format :=
  ⟨"png", "png"⟩

/-- What the surroundings allow. -/
structure Setting where
  folderExists : Bool
  -- Why the folder cannot be made, if it cannot.
  folderFailure : Option String := none
  -- Why no picture can be drawn, if none can.
  drawFailure : Option String := none

/-- A picture to be drawn. -/
structure Request where
  -- Where the picture goes, without extension.
  path : String
  format : String
deriving DecidableEq, Repr

/-- What rendering did. -/
structure Result where
  drawn : List Request
  folderExists : Bool

/-- The path of a name in the folder; a name that is itself a path from the root stays as it is. -/
def inFolder (name : String) : String :=
  if name.toList.head? = some '/' then name else folder ++ "/" ++ name

/-- Finds the path for a name, making the folder if it is missing, and says whether the folder is
there afterwards. -/
def locate (setting : Setting) (name : String) : Logged (String × Bool) :=
  if setting.folderExists then return (inFolder name, true)
  else
    match setting.folderFailure with
    | none => do
      Logged.emit .info ("Created directory for tree visualizations: " ++ folder)
      return (inFolder name, true)
    | some reason => do
      Logged.emit .error ("Could not create directory " ++ folder ++ ": " ++ reason ++
        ". Saving to current directory instead.")
      return (name, false)

/-- Renders a diagram under a name. -/
def render (setting : Setting) (name : String) (format : Diagram.Format) : Logged Result := do
  let (path, folderExists) ← locate setting name
  let file := path ++ "." ++ format.asked
  match setting.drawFailure with
  | none =>
    Logged.emit .info ("Formula tree visualization saved to " ++ file)
    return ⟨[⟨path, format.name⟩], folderExists⟩
  | some reason =>
    Logged.emit .warning ("Failed to render formula tree to " ++ file ++ ": " ++ reason ++
      ". Ensure Graphviz executables are installed and in your system PATH.")
    return ⟨[], folderExists⟩

end Propositional.Rendering
