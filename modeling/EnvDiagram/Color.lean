/-!
# Colors and palettes

A diagram is drawn in one of two palettes: a dark one for the interactive view, a light
one for printing and export.
-/

namespace EnvDiagram

/-- A color of a shape or of a terminal cell. -/
inductive Color where
  | rgb (red green blue : Nat)
  | black
  | white
  /-- Whatever the terminal shows by default. -/
  | reset
deriving DecidableEq, Repr, Inhabited

/-- The colors of one rendering mode. -/
structure Palette where
  background : Color
  stroke : Color
  text : Color
  hovered : Color
  tooltipFill : Color
  tooltipText : Color
  placeholder : Color
deriving DecidableEq, Repr

namespace Palette

/-- The dark palette of the interactive view. -/
def interactive : Palette where
  background := .rgb 44 62 80
  stroke := .rgb 153 153 153
  text := .rgb 153 153 153
  hovered := .rgb 50 205 50
  tooltipFill := .black
  tooltipText := .rgb 153 153 153
  placeholder := .rgb 243 139 168

/-- The light palette for printing and export. -/
def printable : Palette where
  background := .white
  stroke := .rgb 44 62 80
  text := .rgb 44 62 80
  hovered := .rgb 50 205 50
  tooltipFill := .white
  tooltipText := .rgb 44 62 80
  placeholder := .rgb 192 57 43

end Palette

end EnvDiagram
