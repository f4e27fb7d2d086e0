import EnvDiagram.Color

/-!
# Colors of the viewer

The colors of what surrounds the diagram on the terminal.
-/

namespace EnvDiagram.Theme

/-- Text of the status bar. -/
def text : Color := .rgb 205 214 244

/-- The step counter. -/
def primary : Color := .rgb 137 180 250

/-- The printable mode. -/
def secondary : Color := .rgb 250 179 135

/-- Separators and keys. -/
def comment : Color := .rgb 108 112 134

/-- The start of the history. -/
def success : Color := .rgb 166 227 161

/-- Warnings, and the end of the history. -/
def error : Color := .rgb 243 139 168

/-- The border of the diagram. -/
def border : Color := .rgb 108 112 134

/-- The ground of the status bar. -/
def barGround : Color := .rgb 50 50 70

end EnvDiagram.Theme
