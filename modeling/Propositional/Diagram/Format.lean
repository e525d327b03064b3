import Propositional.Error
import Propositional.Text.Lowercase

/-!
# Formats of pictures

The formats in which a diagram can be drawn.  Their names are written in small letters; capitals
may be used in asking for one.

* `Diagram.Format`       — a format with the spelling by which it was asked for;
* `Diagram.Format.known` — the names of all formats;
* `Diagram.Format.read`  — the format that a text names.
-/

namespace Propositional

/-- The format of a picture. -/
structure Diagram.Format where
  -- The spelling by which it was asked for, which is what messages show.
  asked : String
  name : String
deriving DecidableEq, Repr

namespace Diagram.Format

/-- The names of the formats, in alphabetical order. -/
def known : List String :=
  ["bmp", "canon", "cgimage", "cmap", "cmapx", "cmapx_np", "dot", "dot_json", "eps", "exr", "fig",
    "gd", "gd2", "gif", "gtk", "gv", "ico", "imap", "imap_np", "ismap", "jp2", "jpe", "jpeg",
    "jpg", "json", "json0", "pct", "pdf", "pic", "pict", "plain", "plain-ext", "png", "pov", "ps",
    "ps2", "psd", "sgi", "svg", "svg_inline", "svgz", "tga", "tif", "tiff", "tk", "vml", "vmlz",
    "vrml", "wbmp", "webp", "x11", "xdot", "xdot1.2", "xdot1.4", "xdot_json", "xlib"]

/-- The format that is meant when none is named. -/
def unnamed : Format :=
  ⟨"None", "pdf"⟩

/-- The format that a text names, in letters of either case. -/
def ofText (text : String) : Except Error Format :=
  let name := Text.lower text
  if known.contains name then .ok ⟨text, name⟩ else .error (.unknownFormat name known)

/-- The format asked for. -/
def read : Option String → Except Error Format
  | some text => ofText text
  | none => .ok unnamed

end Diagram.Format

end Propositional
