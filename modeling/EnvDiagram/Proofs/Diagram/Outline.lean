import Mathlib
import EnvDiagram.Diagram.Draw

/-!
# The outline of a drawing

The outline of a shape is its form and the part of the layout that it stands for, without
place and colour. What a part of the layout contributes to a drawing can be said in outlines,
apart from the order in which the drawing gets to it.

* `ShapeKind.outline`, `Painter.kinds`, `Painter.outlines`, `Painter.drawn` — what has been painted
* `Layout.frameOutlines`, `Layout.valueOutlines` — what a frame and a value contribute
* `Drawing.outlines_paintValue`, `Drawing.outlines_paintCell`, … — what a single step paints
-/

namespace EnvDiagram

variable {α : Type}

/-- The form of a shape and what it stands for. -/
inductive Outline where
  | rect (role : RectRole)
  | text (role : TextRole)
  | circle (owner : Nat)
  | line
  | tooltip (owner : Nat)
  | connector (source : ArrowSource) (target : ArrowTarget)
deriving DecidableEq

/-- The outline of a shape. -/
def ShapeKind.outline : ShapeKind α → Outline
  | .rect _ _ _ role => .rect role
  | .text _ _ _ role => .text role
  | .circle _ _ _ _ owner => .circle owner
  | .line .. => .line
  | .tooltip t => .tooltip t.owner
  | .connector c => .connector c.source c.target

/-- The value that a mark is for. -/
def Mark.value? : Mark → Option Nat
  | .value v => some v
  | _ => none

/-! ## What has been painted -/

namespace Painter

/-- The outlines of the shapes, in order. -/
def outlines (p : Painter α) : List Outline := p.shapes.toList.map fun s => s.kind.outline

/-- The values that are marked, the last one first. -/
def drawn (p : Painter α) : List Nat := p.marks.filterMap Mark.value?

theorem mem_drawn {p : Painter α} {v : Nat} : v ∈ p.drawn ↔ .value v ∈ p.marks := by
  rw [drawn, List.mem_filterMap]
  constructor
  · rintro ⟨m, hm, hv⟩
    cases m <;> simp_all [Mark.value?]
  · intro h
    exact ⟨_, h, rfl⟩

/-- The forms of the shapes, in order. -/
def kinds (p : Painter α) : List (ShapeKind α) := p.shapes.toList.map Shape.kind

@[simp]
theorem kinds_emit (p : Painter α) (kind : ShapeKind α) :
    (p.emit kind).kinds = p.kinds ++ [kind] := by
  simp [kinds, emit]

@[simp]
theorem kinds_emitAll (p : Painter α) (kinds : List (ShapeKind α)) :
    (p.emitAll kinds).kinds = p.kinds ++ kinds := by
  unfold emitAll
  induction kinds generalizing p with
  | nil => simp
  | cons k rest ih => rw [List.foldl_cons, ih, kinds_emit, ← List.append_cons]

theorem outlines_eq (p : Painter α) : p.outlines = p.kinds.map ShapeKind.outline := by
  rw [kinds, List.map_map]
  rfl

@[simp]
theorem outlines_emit (p : Painter α) (kind : ShapeKind α) :
    (p.emit kind).outlines = p.outlines ++ [kind.outline] := by
  rw [outlines_eq, kinds_emit, List.map_append, ← outlines_eq, List.map_singleton]

@[simp]
theorem outlines_emitAll (p : Painter α) (kinds : List (ShapeKind α)) :
    (p.emitAll kinds).outlines = p.outlines ++ kinds.map ShapeKind.outline := by
  rw [outlines_eq, kinds_emitAll, List.map_append, ← outlines_eq]

@[simp]
theorem outlines_mark (p : Painter α) (m : Mark) : (p.mark m).outlines = p.outlines := rfl

@[simp]
theorem drawn_emit (p : Painter α) (kind : ShapeKind α) : (p.emit kind).drawn = p.drawn := rfl

@[simp]
theorem drawn_emitAll (p : Painter α) (kinds : List (ShapeKind α)) :
    (p.emitAll kinds).drawn = p.drawn := by
  rw [drawn, marks_emitAll, drawn]

end Painter

/-! ## What the parts of a layout contribute -/

namespace Layout

/-- The arrow of a reference; none leads to a literal. -/
def arrowOutlines (l : Layout α) (source : Reference) (target : Nat) : List Outline :=
  match l.values[target]? with
  | none => []
  | some x => if x.isLiteral then [] else [.connector (.reference source) (.value target)]

/-- The rectangle of a cell, with its diagonal or its arrow. -/
def cellOutlines (l : Layout α) (c : Cell α) : List Outline :=
  .rect (.cell c.array c.index) ::
    match c.content with
    | none => [.line]
    | some target => l.arrowOutlines (.cell c.array c.index) target

/-- The arrow of a function to the frame that it closes over. -/
def closureOutlines (l : Layout α) (v : Nat) (f : FunctionGlyph α) : List Outline :=
  match (l.frameOf f.enclosing).bind (l.frames[·]?) with
  | none => []
  | some frame => [.connector (.function v) (.frame frame.id)]

/-- A value of a kind without the values in its cells. -/
def kindOutlines (l : Layout α) (v : Nat) : ValueKind α → List Outline
  | .literal .. => [.text (.literal v)]
  | .array cells => cells.toList.flatMap l.cellOutlines
  | .function f => List.replicate 4 (.circle v) ++ [.tooltip v] ++ l.closureOutlines v f

/-- A value without the values in its cells. -/
def valueOutlines (l : Layout α) (v : Nat) : List Outline :=
  match l.values[v]? with
  | none => []
  | some x => l.kindOutlines v x.kind

/-- A row of a frame without its value. -/
def rowOutlines (l : Layout α) (b : Binding α) : List Outline :=
  .text (.key b.frame b.index) ::
    match b.target with
    | none => []
    | some target => l.arrowOutlines (.binding b.frame b.index) target

/-- A frame without the values of its rows. -/
def frameOutlines (l : Layout α) (f : Frame α) : List Outline :=
  [.text (.label f.id), .rect (.frame f.id)] ++ f.bindings.toList.flatMap l.rowOutlines

/-- The values in the cells of a value. -/
def contents (l : Layout α) (v : Nat) : List Nat :=
  match (l.values[v]?).bind Value.cells? with
  | none => []
  | some cells => cells.toList.filterMap Cell.content

end Layout

/-- What a task paints itself, without the values that it brings. -/
def DrawTask.outlines (l : Layout α) : DrawTask α → List Outline
  | .value _ => []
  | .cell _ c => l.cellOutlines c
  | .arrow source _ _ target => l.arrowOutlines source target

/-- The value that a task brings. -/
def DrawTask.brings : DrawTask α → Option Nat
  | .value v => some v
  | .cell _ c => c.content
  | .arrow .. => none

/-! ## Single steps -/

namespace Drawing

theorem outlines_emitArrow (d : Drawing α) (p : Painter α) (source : ArrowSource)
    (target : ArrowTarget) (route : Route α) (router : Router α) (strokeWidth : α) :
    (d.emitArrow p source target route router strokeWidth).outlines =
      p.outlines ++ [.connector source target] :=
  Painter.outlines_emit ..

variable [Scalar α]

theorem outlines_paintFunction (d : Drawing α) (p : Painter α) (v : Nat) (f : FunctionGlyph α) :
    (d.paintFunction p v f).outlines = p.outlines ++ d.layout.kindOutlines v (.function f) := by
  have hshapes : (d.functionShapes v f).map ShapeKind.outline =
      List.replicate 4 (.circle v) ++ [.tooltip v] := rfl
  rw [Layout.kindOutlines, ← hshapes, ← List.append_assoc, ← Painter.outlines_emitAll]
  unfold paintFunction Layout.closureOutlines
  cases (d.layout.frameOf f.enclosing).bind (d.layout.frames[·]?) with
  | none => rw [List.append_nil]
  | some frame => exact outlines_emitArrow ..

/-- What is painted of a value at once, and what its cells are to paint. -/
theorem outlines_paintValue (d : Drawing α) (p : Painter α) (v : Nat) (x : Value α) :
    (d.paintValue p v x).1.outlines ++
        (d.paintValue p v x).2.flatMap (DrawTask.outlines d.layout) =
      p.outlines ++ d.layout.kindOutlines v x.kind := by
  unfold paintValue
  split
  · rename_i hk
    simp [hk, Layout.kindOutlines, literalShape, ShapeKind.outline]
  · rename_i hk
    simp [hk, Layout.kindOutlines, List.flatMap_map, DrawTask.outlines]
  · rename_i hk
    simp [hk, outlines_paintFunction]

theorem brings_paintValue (d : Drawing α) (p : Painter α) (v : Nat) (x : Value α) :
    (d.paintValue p v x).2.filterMap DrawTask.brings =
      match x.cells? with
      | none => []
      | some cells => cells.toList.filterMap Cell.content := by
  unfold paintValue Value.cells?
  split <;> simp_all [List.filterMap_map, Function.comp_def, DrawTask.brings]

theorem outlines_paintArrow (d : Drawing α) (p : Painter α) (source : Reference) (start : Point α)
    (loop : Option (Bounds α)) (target : Nat) :
    (d.paintArrow p source start loop target).outlines =
      p.outlines ++ d.layout.arrowOutlines source target := by
  unfold paintArrow Layout.arrowOutlines
  cases d.layout.values[target]? with
  | none => simp
  | some x => cases hlit : x.isLiteral <;> simp [hlit, outlines_emitArrow]

/-- What is painted of a cell at once, and what is to follow. -/
theorem outlines_paintCell (d : Drawing α) (p : Painter α) (b : Bounds α) (c : Cell α) :
    (d.paintCell p b c).1.outlines ++ (d.paintCell p b c).2.flatMap (DrawTask.outlines d.layout) =
      p.outlines ++ d.layout.cellOutlines c := by
  unfold paintCell Layout.cellOutlines
  cases c.content with
  | none => simp [cellShape, nullShape, ShapeKind.outline]
  | some target => simp [cellShape, ShapeKind.outline, DrawTask.outlines]

theorem brings_paintCell (d : Drawing α) (p : Painter α) (b : Bounds α) (c : Cell α) :
    (d.paintCell p b c).2.filterMap DrawTask.brings = c.content.toList := by
  unfold paintCell
  split <;> simp_all [DrawTask.brings]

theorem drawn_paintValue (d : Drawing α) (p : Painter α) (v : Nat) (x : Value α) :
    (d.paintValue p v x).1.drawn = v :: p.drawn := by
  rw [Painter.drawn, marks_paintValue]
  rfl

theorem drawn_paintCell (d : Drawing α) (p : Painter α) (b : Bounds α) (c : Cell α) :
    (d.paintCell p b c).1.drawn = p.drawn := by
  rw [Painter.drawn, marks_paintCell]
  rfl

theorem drawn_paintArrow (d : Drawing α) (p : Painter α) (source : Reference) (start : Point α)
    (loop : Option (Bounds α)) (target : Nat) :
    (d.paintArrow p source start loop target).drawn = p.drawn := by
  rw [Painter.drawn, marks_paintArrow]
  rfl

end Drawing

end EnvDiagram
