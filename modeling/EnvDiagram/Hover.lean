import EnvDiagram.Scene

/-!
# Hovering over functions

A terminal has no pointer over the canvas, so hovering is a cursor that goes through the
functions of the diagram. It lays two overlays over the drawing: one that recolors the
circles of a function, one that shows its tooltip above everything else. A printable
diagram is left as it is.
-/

namespace EnvDiagram

/-- Recolors the circles of one function. -/
structure GlyphOverlay where
  owner : Option Nat
  stroke : Option Color
deriving DecidableEq, Repr

/-- Shows the tooltip of one function. -/
structure TooltipOverlay where
  owner : Option Nat
  visible : Bool
  raised : Bool
deriving DecidableEq, Repr

/-- What a renderer can do with a shape that it has drawn. -/
inductive OverlayAction where
  | show
  | hide
  | raise
  /-- Recolors the stroke; none restores it. -/
  | stroke (color : Option Color)
deriving DecidableEq, Repr

/-- An action on the circles of a function: only the stroke can change. -/
def GlyphOverlay.apply (o : GlyphOverlay) : OverlayAction → GlyphOverlay
  | .stroke color => { o with stroke := color }
  | _ => o

/-- An action on the tooltip of a function: hiding it also lowers it. -/
def TooltipOverlay.apply (o : TooltipOverlay) : OverlayAction → TooltipOverlay
  | .show => { o with visible := true }
  | .hide => { o with visible := false, raised := false }
  | .raise => { o with raised := true }
  | .stroke _ => o

/-- The hovered function and its overlays. -/
structure Hover where
  glyph : GlyphOverlay
  tooltip : TooltipOverlay
deriving DecidableEq, Repr

namespace Hover

/-- No function is hovered. -/
def none : Hover := ⟨⟨.none, .none⟩, ⟨.none, false, false⟩⟩

/-- The hovered function. -/
def hovered (h : Hover) : Option Nat := h.glyph.owner

/-- The color of a function's circles, if it is not the one that they were drawn in. -/
def strokeOf (h : Hover) (owner : Nat) : Option Color :=
  if h.glyph.owner = some owner then h.glyph.stroke else .none

/-- Whether the tooltip of a function is shown, given whether it is shown anyway. -/
def showsTooltip (h : Hover) (owner : Nat) (shown : Bool) : Bool :=
  shown || (h.tooltip.owner = some owner && h.tooltip.visible)

/-- Whether the tooltip of a function lies above everything else. -/
def raisesTooltip (h : Hover) (owner : Nat) : Bool :=
  h.tooltip.owner = some owner && h.tooltip.raised

/-- The overlays after the pointer has come over a function. -/
def enter (h : Hover) (printable : Bool) (palette : Palette) : Hover :=
  if printable then h
  else
    { glyph := h.glyph.apply (.stroke palette.hovered)
      tooltip := (h.tooltip.apply .raise).apply .show }

/-- The overlays after the pointer has left a function. -/
def exit (h : Hover) (printable : Bool) : Hover :=
  if printable then h
  else
    { glyph := h.glyph.apply (.stroke .none)
      tooltip := h.tooltip.apply .hide }

variable {α : Type}

/-- Leaves the hovered function; it has to be a value of the layout. -/
def leave (h : Hover) (l : Layout α) (printable : Bool) : Except LookupError Hover :=
  match h.hovered with
  | .none => .ok (if printable then h else none)
  | some owner =>
    (l.glyph? owner).map fun _ => if printable then h else none

/-- The function after the hovered one; the first one if none is hovered. -/
def next? (h : Hover) (functions : List Nat) : Option Nat :=
  match h.hovered with
  | .none => functions.head?
  | some current => (functions.idxOf? current).bind fun i => functions[i + 1]?

/-- Moves on to the next function of a diagram, and to none after the last one. -/
def advance (h : Hover) (d : Diagram α) (l : Layout α) (config : Config α) :
    Except LookupError Hover :=
  (h.leave l d.printable).bind fun left =>
    match h.next? d.functions with
    | .none => .ok left
    | some v =>
      (l.glyph? v).map fun f =>
        match f with
        | .none => left
        | some _ =>
          let owned : Hover :=
            { glyph := { left.glyph with owner := some v }
              tooltip := { left.tooltip with owner := some v } }
          owned.enter d.printable (config.palette d.printable)

@[simp]
theorem hovered_none : none.hovered = .none := rfl

@[simp]
theorem strokeOf_none (owner : Nat) : none.strokeOf owner = .none := by
  simp [none, strokeOf]

end Hover

end EnvDiagram
