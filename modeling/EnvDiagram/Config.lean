import EnvDiagram.Color
import EnvDiagram.Scalar

/-!
# Settings of the layout

All lengths are in canvas units. A renderer with a coarser grid, such as a terminal,
scales the whole diagram and leaves these values as they are.
-/

namespace EnvDiagram

/-- Which environments get a frame of their own. -/
structure FramePolicy where
  /-- Environments without bindings are left out. -/
  skipEmpty : Bool
  /-- An environment of unassigned names only is folded into its single child. -/
  foldDeclared : Bool
deriving DecidableEq, Repr

namespace FramePolicy

/-- For interpreters that push one environment for hoisted names and one per block. -/
def pedagogical : FramePolicy := ⟨true, true⟩

/-- Every environment is drawn as it is. -/
def never : FramePolicy := ⟨false, false⟩

end FramePolicy

/-- The measures, texts and colors of a diagram. -/
structure Config (α : Type) where
  canvasMinWidth : α
  canvasMinHeight : α
  canvasPaddingX : α
  canvasPaddingY : α
  /-- How far the levels are indented from the padding of the canvas. -/
  levelPaddingX : α
  /-- How far the first level lies below the padding of the canvas. -/
  levelPaddingY : α
  /-- The least width of a frame without its padding. -/
  frameMinWidth : α
  framePaddingX : α
  framePaddingY : α
  /-- The distance of neighbouring frames; half of it is left to the lanes of arrows. -/
  frameMarginX : α
  /-- The distance of a level from the next one. -/
  frameMarginY : α
  frameCornerRadius : α
  /-- The radius of the two circles of a function. -/
  circleRadius : α
  /-- The radius of the dot inside each circle. -/
  dotRadius : α
  tooltipOpacity : α
  arrayMinWidth : α
  cellWidth : α
  cellHeight : α
  arrayCornerRadius : α
  textPaddingX : α
  textPaddingY : α
  /-- The distance of a text from the shape that it belongs to. -/
  textMargin : α
  /-- The greatest width of a text; a wider one is cut. -/
  textMaxWidth : α
  fontSize : α
  /-- The advance of one character; the font is monospaced. -/
  charWidth : α
  arrowHeadSize : α
  arrowStrokeWidth : α
  arrowHoveredStrokeWidth : α
  /-- Four times the height by which an arrow rises over what it goes around. -/
  arrowMinHeight : α
  /-- The number of parallel arrows that a corridor has room for. -/
  arrowLanes : Nat
  /-- The stroke width of the arrow from a function to the frame that it closes over. -/
  frameArrowStrokeWidth : α
  maxExportWidth : α
  maxExportHeight : α
  /-- What follows the name of a constant. -/
  constantColon : String
  /-- What follows the name of a variable. -/
  variableColon : String
  ellipsis : String
  unassignedText : String
  /-- What stands for an object that is not on the heap. -/
  unknownText : String
  /-- The label of a frame of unassigned names. -/
  predeclaredText : String
  globalLabel : String
  /-- The identifier of the global frame. -/
  globalIdent : String
  framePolicy : FramePolicy
  interactive : Palette
  printable : Palette

namespace Config

variable {α : Type}

/-- The palette of a rendering mode. -/
def palette (config : Config α) (printable : Bool) : Palette :=
  if printable then config.printable else config.interactive

/-- The settings used unless others are given. -/
def standard [Scalar α] : Config α where
  canvasMinWidth := (300 : Nat)
  canvasMinHeight := (300 : Nat)
  canvasPaddingX := (30 : Nat)
  canvasPaddingY := (30 : Nat)
  levelPaddingX := (10 : Nat)
  levelPaddingY := (10 : Nat)
  frameMinWidth := (100 : Nat)
  framePaddingX := (20 : Nat)
  framePaddingY := (30 : Nat)
  frameMarginX := (60 : Nat)
  frameMarginY := (100 : Nat)
  frameCornerRadius := (3 : Nat)
  circleRadius := (15 : Nat)
  dotRadius := (3 : Nat)
  tooltipOpacity := ((3 : Nat) : α) / (5 : Nat)
  arrayMinWidth := (20 : Nat)
  cellWidth := (40 : Nat)
  cellHeight := (40 : Nat)
  arrayCornerRadius := (3 : Nat)
  textPaddingX := (10 : Nat)
  textPaddingY := (20 : Nat)
  textMargin := (5 : Nat)
  textMaxWidth := (300 : Nat)
  fontSize := (15 : Nat)
  charWidth := (9 : Nat)
  arrowHeadSize := (10 : Nat)
  arrowStrokeWidth := (1 : Nat)
  arrowHoveredStrokeWidth := (2 : Nat)
  arrowMinHeight := (100 : Nat)
  arrowLanes := 6
  frameArrowStrokeWidth := (2 : Nat)
  maxExportWidth := (20000 : Nat)
  maxExportHeight := (12000 : Nat)
  constantColon := ":= "
  variableColon := ": "
  ellipsis := "…"
  unassignedText := ""
  unknownText := "<unknown>"
  predeclaredText := ":::pre-declared names::"
  globalLabel := "Global"
  globalIdent := "-1"
  framePolicy := .pedagogical
  interactive := .interactive
  printable := .printable

end Config

end EnvDiagram
