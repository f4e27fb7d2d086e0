import EnvDiagram.Defect
import EnvDiagram.Diagram.Shape

/-!
# Diagrams

The outcome of one drawing: the shapes in the order in which they are painted, the size
of the canvas, and the warnings.
-/

namespace EnvDiagram

variable {α : Type}

/-- The outcome of one drawing. -/
structure Diagram (α : Type) where
  /-- The step of the snapshot that is shown. -/
  step : Option Nat
  printable : Bool
  width : α
  height : α
  background : Color
  shapes : Array (Shape α)
  warnings : List (Warning α)

namespace Diagram

/-- The connector of a shape. -/
def connector? (s : Shape α) : Option (Connector α) :=
  match s.kind with
  | .connector c => some c
  | _ => none

/-- The arrows of a diagram, in order. -/
def connectors (d : Diagram α) : List (Connector α) := d.shapes.toList.filterMap connector?

/-- The number of arrows that lead to a value. -/
def incoming (d : Diagram α) (v : Nat) : Nat :=
  d.connectors.countP fun c => c.target = .value v

/-- The shape of a key. -/
def shape? (d : Diagram α) (key : Nat) : Option (Shape α) := d.shapes.find? fun s => s.key = key

/-- The function that a circle belongs to. -/
def circleOwner? (s : Shape α) : Option Nat :=
  match s.kind with
  | .circle _ _ _ _ owner => some owner
  | _ => none

/-- The functions of a diagram, in the order in which their circles were drawn. -/
def functions (d : Diagram α) : List Nat :=
  (d.shapes.toList.filterMap circleOwner?).foldl
    (fun found v => if v ∈ found then found else found ++ [v]) []

variable [Scalar α]

/-- The factor that fits a canvas into the limits of an export. -/
def fitFactor (config : Config α) (width height : α) : α :=
  Scalar.least (config.maxExportWidth / width) (config.maxExportHeight / height)

/-- The factor that an export is scaled by: one, or less for a diagram that is too large. -/
def exportFactor (config : Config α) (d : Diagram α) : α :=
  Scalar.least (fitFactor config d.width d.height) (1 : Nat)

end Diagram

end EnvDiagram
