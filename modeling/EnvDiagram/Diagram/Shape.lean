import EnvDiagram.Arrow.Route
import EnvDiagram.Layout.Reference
import EnvDiagram.Text.Measure

/-!
# Shapes

What a renderer paints: rectangles, texts, circles, lines, tooltips and connectors, each
with the part of the layout that it stands for. A shape is known by its key within one
drawing.
-/

namespace EnvDiagram

/-- What a rectangle stands for. -/
inductive RectRole where
  | frame (frame : Nat)
  | cell (array index : Nat)
deriving DecidableEq, Repr

/-- What a text stands for. -/
inductive TextRole where
  | label (frame : Nat)
  | key (frame index : Nat)
  | literal (value : Nat)
deriving DecidableEq, Repr

/-- Where an arrow comes from. -/
inductive ArrowSource where
  | reference (r : Reference)
  /-- A function, on the way to the frame that it closes over. -/
  | function (value : Nat)
deriving DecidableEq, Repr

/-- Where an arrow leads. -/
inductive ArrowTarget where
  | value (value : Nat)
  | frame (frame : Nat)
deriving DecidableEq, Repr

/-- The radii of the corners of a rectangle. -/
structure Corners (α : Type) where
  topLeft : α
  topRight : α
  bottomRight : α
  bottomLeft : α
deriving DecidableEq, Repr

/-- The text that a function shows when it is pointed at. -/
structure Tooltip (α : Type) where
  origin : Point α
  text : String
  width : α
  visible : Bool
  fill : Color
  color : Color
  opacity : α
  owner : Nat
deriving DecidableEq, Repr

/-- An arrow. -/
structure Connector (α : Type) where
  source : ArrowSource
  target : ArrowTarget
  route : Route α
  color : Color
  strokeWidth : α
  headSize : α
deriving DecidableEq, Repr

/-- The forms of a shape. -/
inductive ShapeKind (α : Type) where
  | rect (bounds : Bounds α) (corners : Corners α) (stroke : Color) (role : RectRole)
  /-- A text with the top-left corner of its first line. -/
  | text (origin : Point α) (text : String) (color : Color) (role : TextRole)
  | circle (center : Point α) (radius : α) (stroke : Color) (fill : Option Color)
      (owner : Nat)
  | line (source target : Point α) (color : Color)
  | tooltip (tooltip : Tooltip α)
  | connector (connector : Connector α)
deriving DecidableEq, Repr

/-- A shape with its key. -/
structure Shape (α : Type) where
  key : Nat
  kind : ShapeKind α
deriving DecidableEq, Repr

namespace ShapeKind

variable {α : Type} [Scalar α]

open Scalar

/-- The rectangle of a text of the given width; even an empty text takes up a line. -/
def textBounds (config : Config α) (origin : Point α) (text : String) (width : α) : Bounds α where
  x := origin.x
  y := origin.y
  width
  height := (max (Text.lines text.toList).length 1 : Nat) * config.fontSize

/-- The area that a shape takes up; none for a hidden tooltip. -/
def extent? (config : Config α) : ShapeKind α → Option (Bounds α)
  | .rect bounds .. => some bounds
  | .text origin content .. =>
    some (textBounds config origin content (Text.width config content))
  | .circle center radius .. =>
    some ⟨center.x - radius, center.y - radius, twice radius, twice radius⟩
  | .line source target _ => some (.ofPoints [source, target])
  | .tooltip t => if t.visible then some (textBounds config t.origin t.text t.width) else none
  | .connector c => some (.ofPoints c.route.points)

end ShapeKind

end EnvDiagram
