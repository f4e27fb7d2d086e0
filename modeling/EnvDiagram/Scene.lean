import EnvDiagram.Diagram.Draw

/-!
# Scenes

A scene is what a viewer keeps between two steps: the settings, the layout of the
snapshot that it shows, and the marks of what has been drawn since. Laying out a snapshot
starts afresh; drawing changes the marks only, so a layout can be drawn again in the
other palette.
-/

namespace EnvDiagram

variable {α : Type}

/-- A layout and what of it has been drawn. -/
structure Scene (α : Type) where
  config : Config α
  layout : Layout α
  marks : List Mark

namespace Scene

/-- A scene that shows nothing. -/
def ofConfig (config : Config α) : Scene α := ⟨config, .empty, []⟩

/-- Forgets the layout. -/
def reset (sc : Scene α) : Scene α := ofConfig sc.config

/-- Whether a part of the layout has been drawn. -/
def isDrawn (sc : Scene α) (m : Mark) : Bool := m ∈ sc.marks

variable [Scalar α]

/-- Lays out a snapshot. -/
def load (sc : Scene α) (s : Snapshot) : Scene α := ⟨sc.config, .ofSnapshot sc.config s, []⟩

/-- Draws the layout. -/
def draw (sc : Scene α) (printable : Bool) : Diagram α × Scene α :=
  let (diagram, marks) := sc.layout.draw sc.config printable
  (diagram, { sc with marks })

/-- Lays out a snapshot and draws it. -/
def redraw (sc : Scene α) (s : Snapshot) (printable : Bool) : Diagram α × Scene α :=
  (sc.load s).draw printable

/-- Places a datum of a snapshot as seen from a reference. -/
def place? (sc : Scene α) (s : Snapshot) (d : Datum) (r : Reference) :
    Except LookupError (Scene α × Nat) :=
  (sc.layout.place? sc.config s d r).map fun (layout, v) => ({ sc with layout }, v)

@[simp]
theorem layout_draw (sc : Scene α) (printable : Bool) :
    (sc.draw printable).2.layout = sc.layout := rfl

@[simp]
theorem config_draw (sc : Scene α) (printable : Bool) :
    (sc.draw printable).2.config = sc.config := rfl

@[simp]
theorem config_load (sc : Scene α) (s : Snapshot) : (sc.load s).config = sc.config := rfl

end Scene

end EnvDiagram
