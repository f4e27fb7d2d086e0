import EnvDiagram.Arrow.Stroke
import EnvDiagram.Hover
import EnvDiagram.Screen.Dots
import EnvDiagram.Screen.Theme

/-!
# The diagram on the terminal

The whole diagram is fitted into a bordered pane. Lines become dots; texts keep their
size, one character a cell, and lie above the dots. Corners, fills and opacity have no
counterpart on a terminal. A canvas grows upwards and a diagram downwards, so every `y`
is turned around.

* `DiagramPane.border` — the frame of the pane and its title
* `DiagramPane.paintShape` — the dots of a shape
* `DiagramPane.labels` — the texts, a raised tooltip last
-/

namespace EnvDiagram.DiagramPane

/-- A line of text at a position of the canvas. -/
structure Label where
  position : Point Float
  text : String
  color : Color
  raised : Bool

/-! ## The border -/

/-- The style of the border. -/
def borderStyle : TextStyle := ⟨some Theme.border, none, false⟩

/-- The border of a pane, with its title. Later corners win where a pane is so small that
they meet. -/
def border (title : String) (a : Area) (b : Buffer) : Buffer :=
  if a.isEmpty then b
  else
    let right := a.x + a.width - 1
    let bottom := a.y + a.height - 1
    let column := fun (x : Nat) (b : Buffer) =>
      (List.range a.height).foldl (fun b y => b.write x (a.y + y) '│' borderStyle) b
    let line := fun (y : Nat) (b : Buffer) =>
      (List.range a.width).foldl (fun b x => b.write (a.x + x) y '─' borderStyle) b
    let b := b |> column a.x |> line a.y |> column right |> line bottom
    let b := (((b.write right bottom '┘' borderStyle).write right a.y '┐' borderStyle).write
      a.x bottom '└' borderStyle).write a.x a.y '┌' borderStyle
    b.writeText (a.x + 1) a.y (a.width - 2) ⟨none, none, false⟩ (" " ++ title ++ " ")

/-- A pane without a diagram. -/
def renderEmpty (title : String) (a : Area) (b : Buffer) : Buffer :=
  let style : TextStyle := ⟨some Theme.comment, none, false⟩
  let inner := a.inner
  let b := border title a (b.restyle a style)
  if inner.isEmpty then b else b.writeText inner.x inner.y inner.width style "(no snapshot)"

/-! ## Dots -/

/-- A point of a diagram on a canvas of the given height. -/
def flip (height : Float) (p : Point Float) : Point Float := ⟨p.x, height - p.y⟩

/-- Paints an arrow: its segments and the two barbs of its head. -/
def paintConnector (v : Viewport) (c : Connector Float) (g : DotGrid) : DotGrid :=
  let line := fun g (s : Point Float × Point Float) =>
    DotGrid.line v c.color (flip v.height s.1) (flip v.height s.2) g
  let g := c.route.segments.foldl line g
  match c.route.segments.getLast? with
  | none => g
  | some (before, tip) =>
    let (a, b) := arrowhead before tip c.headSize
    [(tip, a), (tip, b)].foldl line g

/-- Paints what a shape has of lines. -/
def paintShape (v : Viewport) (h : Hover) (g : DotGrid) (s : Shape Float) : DotGrid :=
  match s.kind with
  | .rect bounds _ stroke _ =>
    g.rectangle v stroke ⟨bounds.x, v.height - bounds.bottom⟩ bounds.width bounds.height
  | .circle center radius stroke _ owner =>
    g.circle v ((h.strokeOf owner).getD stroke) (flip v.height center) radius
  | .line source target color => g.line v color (flip v.height source) (flip v.height target)
  | .connector c => paintConnector v c g
  | .text .. => g
  | .tooltip _ => g

/-! ## Texts -/

/-- The lines of a text whose first line is at a position of the diagram. -/
def labelsOf (height fontSize : Float) (origin : Point Float) (text : String) (color : Color)
    (raised : Bool) : List Label :=
  let p := flip height origin
  (Text.linesOf text).mapIdx fun i line =>
    ⟨⟨p.x, p.y - Float.ofNat i * fontSize⟩, line, color, raised⟩

/-- The texts of a shape. -/
def shapeLabels (height fontSize : Float) (h : Hover) (s : Shape Float) : List Label :=
  match s.kind with
  | .text origin text color _ => labelsOf height fontSize origin text color false
  | .tooltip t =>
    if h.showsTooltip t.owner t.visible then
      labelsOf height fontSize t.origin t.text t.color (h.raisesTooltip t.owner)
    else []
  | _ => []

/-- The texts of a diagram in the order in which they are written. -/
def labels (fontSize : Float) (h : Hover) (d : Diagram Float) : List Label :=
  let all := d.shapes.toList.flatMap (shapeLabels d.height fontSize h)
  all.filter (fun l => !l.raised) ++ all.filter (fun l => l.raised)

/-- Writes a text, if it starts on the canvas. -/
def writeLabel (v : Viewport) (inner : Area) (b : Buffer) (l : Label) : Buffer :=
  let p := l.position
  if 0.0 ≤ p.x ∧ p.x ≤ v.width ∧ 0.0 ≤ p.y ∧ p.y ≤ v.height then
    let column := placeAmong v.columns p.x v.width
    let row := placeAmong v.rows (v.height - p.y) v.height
    b.writeText (inner.x + column) (inner.y + row) (inner.width - column)
      ⟨some l.color, none, l.raised⟩ l.text
  else b

/-! ## The pane -/

/-- Writes the cells that have dots. -/
def writeDots (inner : Area) (b : Buffer) (g : DotGrid) : Buffer :=
  g.painted.foldl (fun b (x, y, c, color) =>
    b.write (inner.x + x) (inner.y + y) c
      ⟨if color = .reset then none else some color, none, false⟩) b

/-- A pane with a diagram. -/
def renderDiagram (fontSize : Float) (title : String) (d : Diagram Float) (h : Hover) (a : Area)
    (b : Buffer) : Buffer :=
  let inner := a.inner
  let b := border title a b
  if inner.isEmpty then b
  else
    let v : Viewport := ⟨d.width, d.height, inner.width, inner.height⟩
    let b := b.restyle inner ⟨none, some d.background, false⟩
    let b := writeDots inner b (d.shapes.foldl (paintShape v h) (.blank v))
    (labels fontSize h d).foldl (writeLabel v inner) b

/-- The pane of a diagram, if there is one. -/
def render (fontSize : Float) (title : String) (d : Option (Diagram Float)) (h : Hover) (a : Area)
    (b : Buffer) : Buffer :=
  match d with
  | none => renderEmpty title a b
  | some d => renderDiagram fontSize title d h a b

end EnvDiagram.DiagramPane
