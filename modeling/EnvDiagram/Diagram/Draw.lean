import EnvDiagram.Arrow.Router
import EnvDiagram.Diagram.Basic
import EnvDiagram.Layout.Basic

/-!
# Drawing a layout

The drawing goes through the frames level by level and row by row. A value is drawn when
the first reference to it is met, an arrow for every reference; the arrow comes after
everything that its target leads to.

What is to be drawn next waits on an agenda. It runs dry because a value is marked before
its parts are looked at: the agenda grows only where the number of unmarked values
(`Painter.undrawn`) shrinks.

The drawing leaves the layout as it is. It answers the diagram and the marks of what has
been drawn.
-/

namespace EnvDiagram

open Scalar

variable {α : Type}

/-- A part of a layout that has been drawn. -/
inductive Mark where
  | frame (frame : Nat)
  | binding (frame index : Nat)
  | value (value : Nat)
  | cell (array index : Nat)
deriving DecidableEq, Repr

/-- What the drawing looks at and does not change. -/
structure Drawing (α : Type) where
  config : Config α
  layout : Layout α
  palette : Palette
  printable : Bool

/-- What has been drawn so far. -/
structure Painter (α : Type) where
  shapes : Array (Shape α)
  router : Router α
  marks : List Mark

/-- What waits to be drawn. -/
inductive DrawTask (α : Type) where
  /-- A value, unless it is drawn already. -/
  | value (value : Nat)
  /-- A cell of an array with the given rectangle. -/
  | cell (arrayBounds : Bounds α) (cell : Cell α)
  /-- The arrow of a reference, unless it leads to a literal. -/
  | arrow (source : Reference) (start : Point α) (arrayBounds : Option (Bounds α))
      (target : Nat)

namespace Painter

/-- Adds a shape under the next key. -/
def emit (p : Painter α) (kind : ShapeKind α) : Painter α :=
  { p with shapes := p.shapes.push ⟨p.shapes.size, kind⟩ }

/-- Adds several shapes. -/
def emitAll (p : Painter α) (kinds : List (ShapeKind α)) : Painter α := kinds.foldl emit p

/-- Marks a part of the layout as drawn. -/
def mark (p : Painter α) (m : Mark) : Painter α := { p with marks := m :: p.marks }

/-- The number of values that are not marked. -/
def undrawn (n : Nat) (marks : List Mark) : Nat :=
  (List.range n).countP fun v => .value v ∉ marks

@[simp]
theorem marks_emit (p : Painter α) (kind : ShapeKind α) : (p.emit kind).marks = p.marks := rfl

@[simp]
theorem marks_emitAll (p : Painter α) (kinds : List (ShapeKind α)) :
    (p.emitAll kinds).marks = p.marks := by
  unfold emitAll
  induction kinds generalizing p with
  | nil => rfl
  | cons k rest ih => simpa using ih (p.emit k)

@[simp]
theorem marks_mark (p : Painter α) (m : Mark) : (p.mark m).marks = m :: p.marks := rfl

theorem undrawn_cons_le (n : Nat) (m : Mark) (marks : List Mark) :
    undrawn n (m :: marks) ≤ undrawn n marks := by
  apply List.countP_mono_left
  intro v _ h
  simp only [List.mem_cons, decide_eq_true_eq] at *
  exact fun hv => h (Or.inr hv)

theorem undrawn_value_lt {n : Nat} {v : Nat} {marks : List Mark} (hv : v < n)
    (h : .value v ∉ marks) : undrawn n (.value v :: marks) < undrawn n marks := by
  induction n with
  | zero => omega
  | succ n ih =>
    have hle := undrawn_cons_le n (.value v) marks
    simp only [undrawn, List.range_succ, List.countP_append, List.countP_singleton] at *
    by_cases hn : v = n
    · subst hn
      simp [h] at *
      omega
    · have hlt := ih (by omega)
      have hne : (Mark.value n ∈ Mark.value v :: marks) ↔ Mark.value n ∈ marks := by
        simp [Ne.symm hn]
      simp only [hne]
      omega

end Painter

namespace Drawing

variable [Scalar α]

/-! ## The shapes of single parts -/

/-- The label and the rectangle of a frame. -/
def frameShapes (d : Drawing α) (f : Frame α) : List (ShapeKind α) :=
  let r := d.config.frameCornerRadius
  [ .text ⟨f.bounds.x, f.bounds.y - d.config.fontSize - d.config.textMargin⟩ f.label
      d.palette.text (.label f.id),
    .rect f.bounds ⟨r, r, r, r⟩ d.palette.stroke (.frame f.id) ]

/-- The key text of a row. -/
def keyShape (d : Drawing α) (b : Binding α) : ShapeKind α :=
  .text ⟨b.bounds.x, b.bounds.y + half (b.bounds.height - d.config.fontSize)⟩ b.keyText
    d.palette.text (.key b.frame b.index)

/-- The text of a literal. -/
def literalShape (d : Drawing α) (v : Nat) (bounds : Bounds α) (text : String)
    (placeholder : Bool) : ShapeKind α :=
  .text ⟨bounds.x, bounds.y⟩ text
    (if placeholder then d.palette.placeholder else d.palette.text) (.literal v)

/-- The rectangle of a cell; only the ends of an array are rounded. -/
def cellShape (d : Drawing α) (c : Cell α) : ShapeKind α :=
  let left := if c.isFirst then d.config.arrayCornerRadius else zero
  let right := if c.isLast then d.config.arrayCornerRadius else zero
  .rect c.bounds ⟨left, right, right, left⟩ d.palette.stroke (.cell c.array c.index)

/-- The diagonal of a cell that holds the empty list. -/
def nullShape (d : Drawing α) (c : Cell α) : ShapeKind α :=
  .line ⟨c.bounds.x, c.bounds.bottom⟩ ⟨c.bounds.right, c.bounds.y⟩ d.palette.stroke

/-- The outline and the dot of one of the circles of a function. -/
def circleShapes (d : Drawing α) (v : Nat) (f : FunctionGlyph α) (center : Point α) :
    List (ShapeKind α) :=
  [ .circle center f.radius d.palette.stroke none v,
    .circle center f.innerRadius d.palette.stroke (some d.palette.stroke) v ]

/-- The tooltip of a function, which is shown from the start in an export. -/
def tooltipShape (d : Drawing α) (v : Nat) (f : FunctionGlyph α) : ShapeKind α :=
  .tooltip
    { origin := f.tooltipCorner d.config
      text := if d.printable then f.exportTooltip else f.tooltip
      width := if d.printable then f.exportTooltipWidth d.config else f.tooltipWidth d.config
      visible := d.printable
      fill := d.palette.tooltipFill
      color := d.palette.tooltipText
      opacity := d.config.tooltipOpacity
      owner := v }

/-- The circles and the tooltip of a function. -/
def functionShapes (d : Drawing α) (v : Nat) (f : FunctionGlyph α) : List (ShapeKind α) :=
  d.circleShapes v f f.leftCircle ++ d.circleShapes v f f.rightCircle ++ [d.tooltipShape v f]

/-- Adds an arrow. -/
def emitArrow (d : Drawing α) (p : Painter α) (source : ArrowSource) (target : ArrowTarget)
    (route : Route α) (router : Router α) (strokeWidth : α) : Painter α :=
  { p with router }.emit (.connector
    { source
      target
      route
      color := d.palette.stroke
      strokeWidth
      headSize := d.config.arrowHeadSize })

/-! ## Values -/

/-- Draws a function, and its arrow to the frame that it closes over. -/
def paintFunction (d : Drawing α) (p : Painter α) (v : Nat) (f : FunctionGlyph α) :
    Painter α :=
  let p := p.emitAll (d.functionShapes v f)
  match (d.layout.frameOf f.enclosing).bind (d.layout.frames[·]?) with
  | none => p
  | some frame =>
    let (route, router) := p.router.toFrame f.rightCircle frame.bounds
    d.emitArrow p (.function v) (.frame frame.id) route router d.config.frameArrowStrokeWidth

/-- Draws a value without its parts; the parts are to follow. -/
def paintValue (d : Drawing α) (p : Painter α) (v : Nat) (value : Value α) :
    Painter α × List (DrawTask α) :=
  let p := p.mark (.value v)
  match value.kind with
  | .literal text placeholder => (p.emit (d.literalShape v value.bounds text placeholder), [])
  | .array cells => (p, cells.toList.map (.cell value.bounds))
  | .function f => (d.paintFunction p v f, [])

/-- Draws a cell; the value in it and the arrow to that value are to follow. -/
def paintCell (d : Drawing α) (p : Painter α) (arrayBounds : Bounds α) (c : Cell α) :
    Painter α × List (DrawTask α) :=
  let p := (p.emit (d.cellShape c)).mark (.cell c.array c.index)
  match c.content with
  | none => (p.emit (d.nullShape c), [])
  | some target =>
    let loop := if target = c.array then some arrayBounds else none
    (p, [.value target, .arrow (.cell c.array c.index) c.bounds.center loop target])

/-- Draws the arrow of a reference to a value that is no literal. -/
def paintArrow (d : Drawing α) (p : Painter α) (source : Reference) (start : Point α)
    (loop : Option (Bounds α)) (target : Nat) : Painter α :=
  match d.layout.values[target]? with
  | none => p
  | some value =>
    if value.isLiteral then p
    else
      let (route, router) :=
        match loop with
        | some bounds => (p.router.loopBack start bounds, p.router)
        | none => p.router.intoBox start value.bounds value.landing.y
      d.emitArrow p (.reference source) (.value target) route router d.config.arrowStrokeWidth

omit [Scalar α] in
@[simp]
theorem marks_emitArrow (d : Drawing α) (p : Painter α) (source : ArrowSource)
    (target : ArrowTarget) (route : Route α) (router : Router α) (strokeWidth : α) :
    (d.emitArrow p source target route router strokeWidth).marks = p.marks := rfl

@[simp]
theorem marks_paintFunction (d : Drawing α) (p : Painter α) (v : Nat) (f : FunctionGlyph α) :
    (d.paintFunction p v f).marks = p.marks := by
  unfold paintFunction
  split <;> simp

@[simp]
theorem marks_paintValue (d : Drawing α) (p : Painter α) (v : Nat) (value : Value α) :
    (d.paintValue p v value).1.marks = .value v :: p.marks := by
  unfold paintValue
  split <;> simp

@[simp]
theorem marks_paintCell (d : Drawing α) (p : Painter α) (b : Bounds α) (c : Cell α) :
    (d.paintCell p b c).1.marks = .cell c.array c.index :: p.marks := by
  unfold paintCell
  split <;> simp

@[simp]
theorem marks_paintArrow (d : Drawing α) (p : Painter α) (source : Reference) (start : Point α)
    (loop : Option (Bounds α)) (target : Nat) :
    (d.paintArrow p source start loop target).marks = p.marks := by
  unfold paintArrow
  repeat' split
  all_goals simp

/-! ## Working off the agenda -/

omit [Scalar α] in
/-- A value that is not drawn yet. -/
def fresh? (d : Drawing α) (p : Painter α) (v : Nat) : Option (Value α) :=
  if .value v ∈ p.marks then none else d.layout.values[v]?

omit [Scalar α] in
/-- Marking a value that was not drawn leaves fewer undrawn ones. -/
theorem undrawn_fresh_lt {d : Drawing α} {p : Painter α} {v : Nat} {value : Value α}
    (h : d.fresh? p v = some value) :
    Painter.undrawn d.layout.values.size (.value v :: p.marks) <
      Painter.undrawn d.layout.values.size p.marks := by
  unfold fresh? at h
  split at h
  · simp at h
  · rename_i hv
    exact Painter.undrawn_value_lt (Array.getElem?_eq_some_iff.mp h).1 hv

omit [Scalar α] in
/-- The length of an agenda in which a cell stands for its value and its arrow too. -/
def weight : List (DrawTask α) → Nat
  | [] => 0
  | .cell .. :: rest => weight rest + 3
  | .value _ :: rest => weight rest + 1
  | .arrow .. :: rest => weight rest + 1

omit [Scalar α] in
theorem weight_append (tasks rest : List (DrawTask α)) :
    weight (tasks ++ rest) = weight tasks + weight rest := by
  induction tasks with
  | nil => simp [weight]
  | cons task tasks ih =>
    rw [List.cons_append]
    cases task <;> rw [weight, weight, ih] <;> omega

theorem weight_paintCell (d : Drawing α) (p : Painter α) (b : Bounds α) (c : Cell α) :
    weight (d.paintCell p b c).2 ≤ 2 := by
  unfold paintCell
  split <;> simp [weight]

/-- Draws what is on the agenda, and the parts met on the way. -/
def run (d : Drawing α) (p : Painter α) : List (DrawTask α) → Painter α
  | [] => p
  | .value v :: rest =>
    match _h : d.fresh? p v with
    | none => d.run p rest
    | some value =>
      let step := d.paintValue p v value
      d.run step.1 (step.2 ++ rest)
  | .cell bounds c :: rest =>
    let step := d.paintCell p bounds c
    d.run step.1 (step.2 ++ rest)
  | .arrow source start loop target :: rest => d.run (d.paintArrow p source start loop target) rest
termination_by agenda => (Painter.undrawn d.layout.values.size p.marks, weight agenda)
decreasing_by
  · exact Prod.Lex.right _ (by simp [weight])
  · apply Prod.Lex.left
    rw [marks_paintValue]
    exact undrawn_fresh_lt _h
  · rw [Prod.lex_def]
    have hle := Painter.undrawn_cons_le d.layout.values.size (.cell c.array c.index) p.marks
    have hw := weight_paintCell d p bounds c
    simp only [marks_paintCell, weight_append, weight]
    omega
  · rw [Prod.lex_def]
    simp [marks_paintArrow, weight]

@[simp]
theorem run_nil (d : Drawing α) (p : Painter α) : d.run p [] = p := by
  rw [run]

theorem run_value_of_none {d : Drawing α} {p : Painter α} {v : Nat} (rest : List (DrawTask α))
    (h : d.fresh? p v = none) : d.run p (.value v :: rest) = d.run p rest := by
  rw [run]
  split
  · rfl
  · simp_all

theorem run_value_of_some {d : Drawing α} {p : Painter α} {v : Nat} {value : Value α}
    (rest : List (DrawTask α)) (h : d.fresh? p v = some value) :
    d.run p (.value v :: rest) =
      d.run (d.paintValue p v value).1 ((d.paintValue p v value).2 ++ rest) := by
  rw [run]
  split
  · simp_all
  · rename_i found hfound
    rw [h, Option.some.injEq] at hfound
    rw [hfound]

theorem run_cell (d : Drawing α) (p : Painter α) (bounds : Bounds α) (c : Cell α)
    (rest : List (DrawTask α)) :
    d.run p (.cell bounds c :: rest) =
      d.run (d.paintCell p bounds c).1 ((d.paintCell p bounds c).2 ++ rest) := by
  rw [run]

theorem run_arrow (d : Drawing α) (p : Painter α) (source : Reference) (start : Point α)
    (loop : Option (Bounds α)) (target : Nat) (rest : List (DrawTask α)) :
    d.run p (.arrow source start loop target :: rest) =
      d.run (d.paintArrow p source start loop target) rest := by
  rw [run]

/-- The drawing before anything is painted. -/
def start (d : Drawing α) : Painter α := ⟨#[], .ofConfig d.config, []⟩

/-- Draws a row of a frame, with its value and the arrow to it. -/
def paintBinding (d : Drawing α) (p : Painter α) (b : Binding α) : Painter α :=
  let p := (p.emit (d.keyShape b)).mark (.binding b.frame b.index)
  match b.target with
  | none => p
  | some target =>
    d.run p [.value target, .arrow (.binding b.frame b.index) b.arrowTail none target]

/-- Draws a frame with its rows. -/
def paintFrame (d : Drawing α) (p : Painter α) (frame : Nat) : Painter α :=
  match d.layout.frames[frame]? with
  | none => p
  | some f =>
    f.bindings.foldl d.paintBinding ((p.emitAll (d.frameShapes f)).mark (.frame frame))

/-- Draws all frames, level by level. -/
def paint (d : Drawing α) : Painter α :=
  (d.layout.levels.flatMap Level.frames).foldl d.paintFrame d.start

/-! ## The finished diagram -/

/-- The width or height of the canvas: what the shapes take up and a margin, but not less
than a minimum. -/
def canvasSize (used padding minimum : α) : α := greatest (used + padding) minimum

/-- The warning of a canvas that is too large for the export. -/
def sizeWarning (d : Drawing α) (width height : α) : List (Warning α) :=
  if d.printable ∧ (d.config.maxExportWidth < width ∨ d.config.maxExportHeight < height) then
    [.oversizedExport width height (Diagram.fitFactor d.config width height)]
  else []

/-- The diagram of what has been painted. -/
def diagram (d : Drawing α) (p : Painter α) : Diagram α :=
  let used := Bounds.cover (p.shapes.toList.filterMap fun s => s.kind.extent? d.config)
  let width := canvasSize used.right d.config.canvasPaddingX d.config.canvasMinWidth
  let height := canvasSize used.bottom d.config.canvasPaddingY d.config.canvasMinHeight
  { step := d.layout.step
    printable := d.printable
    width
    height
    background := d.palette.background
    shapes := p.shapes
    warnings := d.layout.defects.map .defect ++ d.sizeWarning width height }

end Drawing

/-- Draws a layout: the diagram, and the marks of all that was drawn. -/
def Layout.draw [Scalar α] (config : Config α) (l : Layout α) (printable : Bool) :
    Diagram α × List Mark :=
  let d : Drawing α := ⟨config, l, config.palette printable, printable⟩
  let p := d.paint
  (d.diagram p, p.marks)

end EnvDiagram
