import EnvDiagram.EnvTree.Build
import EnvDiagram.Geometry
import EnvDiagram.Layout.Reference
import EnvDiagram.Text.Measure

/-!
# Values

The drawn form of the program's data:

* a literal, drawn where it is referred to;
* an array, a row of cells that hold values or nothing;
* a function, two circles with an arrow to the frame that it closes over.

Every value knows the references to it. The first one decides where the value lies.
-/

namespace EnvDiagram

variable {α : Type}

/-- A cell of an array; one without content holds the empty list. -/
structure Cell (α : Type) where
  index : Nat
  array : Nat
  content : Option Nat
  isFirst : Bool
  isLast : Bool
  bounds : Bounds α

/-- The drawn form of a closure. -/
structure FunctionGlyph (α : Type) where
  name : String
  paramsText : String
  bodyText : String
  /-- The node of the frame that the closure closes over. -/
  enclosing : Nat
  center : Point α
  radius : α
  innerRadius : α

/-- The three forms of a value. -/
inductive ValueKind (α : Type) where
  /-- A text; a placeholder stands for data that cannot be found. -/
  | literal (text : String) (placeholder : Bool)
  | array (cells : Array (Cell α))
  | function (glyph : FunctionGlyph α)

/-- A value of a layout. -/
structure Value (α : Type) where
  id : Nat
  /-- The identity of an array or a function; a literal has none. -/
  datum : Option DatumId
  kind : ValueKind α
  bounds : Bounds α
  references : List Reference

/-! ## Access -/

namespace Value

/-- The reference that the value was placed by. -/
def placedBy (v : Value α) : Option Reference := v.references.head?

/-- Whether the value is a literal. -/
def isLiteral (v : Value α) : Bool :=
  match v.kind with
  | .literal .. => true
  | _ => false

/-- The cells of an array. -/
def cells? (v : Value α) : Option (Array (Cell α)) :=
  match v.kind with
  | .array cells => some cells
  | _ => none

/-- The glyph of a function. -/
def glyph? (v : Value α) : Option (FunctionGlyph α) :=
  match v.kind with
  | .function f => some f
  | _ => none

/-- The value with one more reference to it. -/
def addReference (v : Value α) (r : Reference) : Value α :=
  { v with references := v.references ++ [r] }

/-- An array with a value put into one of its cells. -/
def setContent (v : Value α) (index : Nat) (content : Nat) : Value α :=
  match v.kind with
  | .array cells =>
    { v with kind := .array (cells.modify index fun c => { c with content := some content }) }
  | _ => v

@[simp]
theorem datum_addReference (v : Value α) (r : Reference) : (v.addReference r).datum = v.datum := rfl

@[simp]
theorem datum_setContent (v : Value α) (index : Nat) (content : Nat) :
    (v.setContent index content).datum = v.datum := by
  unfold setContent
  split <;> rfl

end Value

/-! ## Functions -/

/-- The body for an export: at most two lines, and of a long text the first twenty
characters. -/
def abridged (body : String) : String :=
  let head := if 23 < body.length then body.toList.take 20 else body.toList
  String.ofList (Text.takeLines 2 head) ++ " ..."

namespace FunctionGlyph

/-- The body as an export shows it. -/
def exportBodyText (f : FunctionGlyph α) : String := abridged f.bodyText

/-- The tooltip of the interactive view. -/
def tooltip (f : FunctionGlyph α) : String := f.paramsText ++ "\n" ++ f.bodyText

/-- The tooltip of an export. -/
def exportTooltip (f : FunctionGlyph α) : String := f.paramsText ++ "\n" ++ f.exportBodyText

variable [Scalar α]

open Scalar

/-- The width of the interactive tooltip. -/
def tooltipWidth (config : Config α) (f : FunctionGlyph α) : α :=
  greatest (Text.width config f.paramsText) (Text.width config f.bodyText)

/-- The width of the tooltip of an export. -/
def exportTooltipWidth (config : Config α) (f : FunctionGlyph α) : α :=
  greatest (Text.width config f.paramsText) (Text.width config f.exportBodyText)

/-- The function of a closure, with its middle at a point. -/
def ofClosure (config : Config α) (c : Closure) (enclosing : Nat) (center : Point α) :
    FunctionGlyph α where
  name := c.name
  paramsText := "params: (" ++ c.paramList ++ ")"
  bodyText := "body: " ++ c.body
  enclosing
  center
  radius := config.circleRadius
  innerRadius := config.dotRadius

/-- The rectangle around both circles. -/
def bounds (f : FunctionGlyph α) : Bounds α where
  x := f.center.x - twice f.radius
  y := f.center.y - f.radius
  width := (4 : Nat) * f.radius
  height := twice f.radius

/-- The middle of the left circle. -/
def leftCircle (f : FunctionGlyph α) : Point α := ⟨f.center.x - f.radius, f.center.y⟩

/-- The middle of the right circle. -/
def rightCircle (f : FunctionGlyph α) : Point α := ⟨f.center.x + f.radius, f.center.y⟩

/-- The top-left corner of the tooltip. -/
def tooltipCorner (config : Config α) (f : FunctionGlyph α) : Point α :=
  ⟨f.center.x + twice f.radius + twice config.textPaddingX, f.center.y - config.textPaddingY⟩

end FunctionGlyph

/-! ## Arrays -/

variable [Scalar α]

open Scalar

/-- The cell of an array of the given length with its top-left corner at `p`. -/
def Cell.place (config : Config α) (array : Nat) (length : Nat) (p : Point α) (index : Nat) :
    Cell α where
  index
  array
  content := none
  isFirst := index = 0
  isLast := index + 1 = length
  bounds :=
    { x := p.x + (index : α) * config.cellWidth
      y := p.y
      width := config.cellWidth
      height := config.cellHeight }

/-- The cells of an array of the given length with its top-left corner at `p`. -/
def Cell.row (config : Config α) (array : Nat) (length : Nat) (p : Point α) : Array (Cell α) :=
  ((List.range length).map (Cell.place config array length p)).toArray

/-- The rectangle of an array of the given length with its top-left corner at `p`. -/
def arrayBounds (config : Config α) (length : Nat) (p : Point α) : Bounds α where
  x := p.x
  y := p.y
  width := greatest ((length : α) * config.cellWidth) config.arrayMinWidth
  height := config.cellHeight

/-! ## Position -/

namespace Value

/-- Where incoming arrows land: in the middle of the left edge. -/
def landing (v : Value α) : Point α :=
  match v.kind with
  | .function f => ⟨v.bounds.x, f.center.y⟩
  | _ => ⟨v.bounds.x, v.bounds.y + half v.bounds.height⟩

/-- A function moved to another middle. -/
def moveTo (v : Value α) (center : Point α) : Value α :=
  match v.kind with
  | .function f =>
    let f := { f with center }
    { v with kind := .function f, bounds := f.bounds }
  | _ => v

@[simp]
theorem datum_moveTo (v : Value α) (center : Point α) : (v.moveTo center).datum = v.datum := by
  unfold moveTo
  split <;> rfl

end Value

end EnvDiagram
