import EnvDiagram.Proofs.Diagram.Painting
import EnvDiagram.Scene

/-!
# The two palettes

A diagram for the viewer and one for an export differ in their colors and in the tooltips, which
an export shows from the start and with less text. Faded shapes are without these. What a step of
the drawing adds, the tasks that it sets and the lanes that it takes depend on nothing that fades,
so two drawings of a layout fade to the same shapes under the same keys.

* `Shape.faded`, `Painter.faded` — what the palette and the use of a diagram leave as it is
* `Drawing.faded_run`, `Drawing.faded_paint` — two drawings side by side
* `Scene.faded_draw` — the two diagrams of a layout, with their warnings
-/

namespace EnvDiagram

open Scalar

variable {α : Type} [Scalar α]

/-! ## Faded shapes -/

/-- A shape without its colors, a tooltip also without its text, its width and whether it is
visible. -/
def ShapeKind.faded : ShapeKind α → ShapeKind α
  | .rect bounds corners _ role => .rect bounds corners .reset role
  | .text origin content _ role => .text origin content .reset role
  | .circle center radius _ fill owner =>
    .circle center radius .reset (fill.map fun _ => .reset) owner
  | .line source target _ => .line source target .reset
  | .tooltip t => .tooltip
    { t with text := "", width := zero, visible := false, fill := .reset, color := .reset }
  | .connector c => .connector { c with color := .reset }

/-- A shape as far as it is the same in both palettes; the key is. -/
def Shape.faded (s : Shape α) : Shape α := { s with kind := s.kind.faded }

namespace Painter

variable {p q : Painter α}

/-- What has been painted, as far as it is the same in both palettes. -/
def faded (p : Painter α) : Painter α := { p with shapes := p.shapes.map Shape.faded }

theorem faded_emit (p : Painter α) (kind : ShapeKind α) :
    (p.emit kind).faded = p.faded.emit kind.faded := by
  simp only [faded, emit, Array.map_push, Array.size_map]
  rfl

theorem faded_emitAll (p : Painter α) (kinds : List (ShapeKind α)) :
    (p.emitAll kinds).faded = p.faded.emitAll (kinds.map ShapeKind.faded) := by
  unfold emitAll
  induction kinds generalizing p with
  | nil => rfl
  | cons kind rest ih => rw [List.map_cons, List.foldl_cons, List.foldl_cons, ih, faded_emit]

theorem marks_of_faded (h : p.faded = q.faded) : p.marks = q.marks :=
  (Painter.mk.inj h).2.2

theorem router_of_faded (h : p.faded = q.faded) : p.router = q.router :=
  (Painter.mk.inj h).2.1

/-- Shapes that fade to the same are added under the same key. -/
theorem faded_emit_congr {kind kind' : ShapeKind α} (h : p.faded = q.faded)
    (hkind : kind.faded = kind'.faded) : (p.emit kind).faded = (q.emit kind').faded := by
  rw [faded_emit, faded_emit, h, hkind]

theorem faded_emitAll_congr {kinds kinds' : List (ShapeKind α)} (h : p.faded = q.faded)
    (hkinds : kinds.map ShapeKind.faded = kinds'.map ShapeKind.faded) :
    (p.emitAll kinds).faded = (q.emitAll kinds').faded := by
  rw [faded_emitAll, faded_emitAll, h, hkinds]

theorem faded_mark_congr (h : p.faded = q.faded) (m : Mark) :
    (p.mark m).faded = (q.mark m).faded :=
  congrArg (fun r : Painter α => r.mark m) h

end Painter

/-! ## Two drawings side by side -/

namespace Drawing

variable {p q : Painter α}

/-- The drawing of the same layout in another palette, for an export or not. -/
def repaint (d : Drawing α) (palette : Palette) (printable : Bool) : Drawing α :=
  { d with palette, printable }

variable (d : Drawing α) (palette : Palette) (printable : Bool)

theorem faded_emitArrow (h : p.faded = q.faded) (source : ArrowSource) (target : ArrowTarget)
    (route : Route α) (router : Router α) (strokeWidth : α) :
    (d.emitArrow p source target route router strokeWidth).faded =
      ((d.repaint palette printable).emitArrow q source target route router strokeWidth).faded :=
  Painter.faded_emit_congr (congrArg (fun r : Painter α => { r with router }) h) rfl

/-- The arrow of a function leads to the same frame, through the same lane. -/
theorem faded_paintFunction (h : p.faded = q.faded) (v : Nat) (f : FunctionGlyph α) :
    (d.paintFunction p v f).faded =
      ((d.repaint palette printable).paintFunction q v f).faded := by
  have hshapes : (p.emitAll (d.functionShapes v f)).faded =
      (q.emitAll ((d.repaint palette printable).functionShapes v f)).faded :=
    Painter.faded_emitAll_congr h rfl
  unfold paintFunction
  rw [show (d.repaint palette printable).layout = d.layout from rfl]
  cases (d.layout.frameOf f.enclosing).bind (d.layout.frames[·]?) with
  | none => exact hshapes
  | some frame =>
    have hrouter := Painter.router_of_faded hshapes
    dsimp only
    rw [hrouter]
    exact faded_emitArrow d palette printable hshapes ..

/-- A value is painted alike, and the same cells are to follow. -/
theorem faded_paintValue (h : p.faded = q.faded) (v : Nat) (value : Value α) :
    (d.paintValue p v value).1.faded =
        ((d.repaint palette printable).paintValue q v value).1.faded ∧
      (d.paintValue p v value).2 = ((d.repaint palette printable).paintValue q v value).2 := by
  have hmark := Painter.faded_mark_congr h (.value v)
  unfold paintValue
  cases value.kind with
  | literal text placeholder => exact ⟨Painter.faded_emit_congr hmark rfl, rfl⟩
  | array cells => exact ⟨hmark, rfl⟩
  | function f => exact ⟨faded_paintFunction d palette printable hmark v f, rfl⟩

/-- A cell is painted alike, and the same value and arrow are to follow. -/
theorem faded_paintCell (h : p.faded = q.faded) (bounds : Bounds α) (c : Cell α) :
    (d.paintCell p bounds c).1.faded =
        ((d.repaint palette printable).paintCell q bounds c).1.faded ∧
      (d.paintCell p bounds c).2 = ((d.repaint palette printable).paintCell q bounds c).2 := by
  have hcell : ((p.emit (d.cellShape c)).mark (.cell c.array c.index)).faded =
      ((q.emit ((d.repaint palette printable).cellShape c)).mark
        (.cell c.array c.index)).faded :=
    Painter.faded_mark_congr (Painter.faded_emit_congr h (by rfl)) _
  unfold paintCell
  cases c.content with
  | none => exact ⟨Painter.faded_emit_congr hcell rfl, rfl⟩
  | some target => exact ⟨hcell, rfl⟩

theorem faded_paintArrow (h : p.faded = q.faded) (source : Reference) (start : Point α)
    (loop : Option (Bounds α)) (target : Nat) :
    (d.paintArrow p source start loop target).faded =
      ((d.repaint palette printable).paintArrow q source start loop target).faded := by
  have hrouter := Painter.router_of_faded h
  unfold paintArrow
  rw [show (d.repaint palette printable).layout = d.layout from rfl]
  cases d.layout.values[target]? with
  | none => exact h
  | some value =>
    dsimp only
    by_cases hliteral : value.isLiteral
    · rw [if_pos hliteral, if_pos hliteral]
      exact h
    · rw [if_neg hliteral, if_neg hliteral, hrouter]
      exact faded_emitArrow d palette printable h ..

omit [Scalar α] in
theorem fresh?_repaint (hmarks : p.marks = q.marks) (v : Nat) :
    (d.repaint palette printable).fresh? q v = d.fresh? p v := by
  unfold fresh?
  rw [hmarks]
  rfl

/-- An agenda is worked off in the same order: whether a value is new depends on the marks. -/
theorem faded_run (h : p.faded = q.faded) (agenda : List (DrawTask α)) :
    (d.run p agenda).faded = ((d.repaint palette printable).run q agenda).faded := by
  -- the other drawing has the same tasks before it, and comes to the same end
  let P : Painter α → List (DrawTask α) → Prop := fun p' rest =>
    ∃ q' : Painter α, p'.faded = q'.faded ∧
      (d.repaint palette printable).run q' rest = (d.repaint palette printable).run q agenda
  obtain ⟨q', hfaded, hend⟩ : P (d.run p agenda) [] := by
    refine run_keeps ?skip ?value ?cell ?arrow ⟨q, h, rfl⟩
    case skip =>
      rintro p v rest hv ⟨q', hq, hend⟩
      have hv' := (fresh?_repaint d palette printable (Painter.marks_of_faded hq) v).trans hv
      exact ⟨q', hq, (run_value_of_none rest hv').symm.trans hend⟩
    case value =>
      rintro p v x rest hv ⟨q', hq, hend⟩
      have hv' := (fresh?_repaint d palette printable (Painter.marks_of_faded hq) v).trans hv
      obtain ⟨hpaint, htasks⟩ := faded_paintValue d palette printable hq v x
      rw [run_value_of_some rest hv', ← htasks] at hend
      exact ⟨_, hpaint, hend⟩
    case cell =>
      rintro p bounds c rest ⟨q', hq, hend⟩
      obtain ⟨hpaint, htasks⟩ := faded_paintCell d palette printable hq bounds c
      rw [run_cell, ← htasks] at hend
      exact ⟨_, hpaint, hend⟩
    case arrow =>
      rintro p source start loop target rest ⟨q', hq, hend⟩
      rw [run_arrow] at hend
      exact ⟨_, faded_paintArrow d palette printable hq source start loop target, hend⟩
  rw [run_nil] at hend
  rw [hfaded, hend]

theorem faded_paintBinding (h : p.faded = q.faded) (b : Binding α) :
    (d.paintBinding p b).faded = ((d.repaint palette printable).paintBinding q b).faded := by
  have hrow : ((p.emit (d.keyShape b)).mark (.binding b.frame b.index)).faded =
      ((q.emit ((d.repaint palette printable).keyShape b)).mark
        (.binding b.frame b.index)).faded :=
    Painter.faded_mark_congr (Painter.faded_emit_congr h (by rfl)) _
  unfold paintBinding
  cases b.target with
  | none => exact hrow
  | some target => exact faded_run d palette printable hrow _

theorem faded_paintFrame (h : p.faded = q.faded) (frame : Nat) :
    (d.paintFrame p frame).faded = ((d.repaint palette printable).paintFrame q frame).faded := by
  unfold paintFrame
  rw [show (d.repaint palette printable).layout = d.layout from rfl]
  cases d.layout.frames[frame]? with
  | none => exact h
  | some f =>
    have hframe : ((p.emitAll (d.frameShapes f)).mark (.frame frame)).faded =
        ((q.emitAll ((d.repaint palette printable).frameShapes f)).mark (.frame frame)).faded :=
      Painter.faded_mark_congr (Painter.faded_emitAll_congr h (by rfl)) _
    exact Array.foldl_rel (r := fun p q : Painter α => p.faded = q.faded) hframe
      fun b _ _ _ h => faded_paintBinding d palette printable h b

/-- In any two palettes a layout is painted alike, with the same keys. -/
theorem faded_paint : d.paint.faded = (d.repaint palette printable).paint.faded := by
  have hstart : d.start.faded = (d.repaint palette printable).start.faded := rfl
  exact List.foldl_rel (r := fun p q : Painter α => p.faded = q.faded) hstart
    fun frame _ _ _ h => faded_paintFrame d palette printable h frame

/-- Only an export warns of its size. -/
theorem sizeWarning_cases (d : Drawing α) (width height : α) :
    d.sizeWarning width height = [] ∨ d.printable = true ∧ d.sizeWarning width height =
      [.oversizedExport width height (Diagram.fitFactor d.config width height)] := by
  unfold sizeWarning
  by_cases h : d.printable ∧
      (d.config.maxExportWidth < width ∨ d.config.maxExportHeight < height)
  · exact Or.inr ⟨h.1, if_pos h⟩
  · exact Or.inl (if_neg h)

end Drawing

/-! ## The two diagrams of a layout -/

/-- Of a layout the viewer and an export are shown the same shapes under the same keys, apart from
their colors and from the text, the width and the visibility of tooltips, whatever has been drawn
before. Only an export may warn of anything but the defects of the layout, and of no more than its
own size. -/
theorem Scene.faded_draw (config : Config α) (layout : Layout α) (marks marks' : List Mark) :
    let interactive := ((⟨config, layout, marks⟩ : Scene α).draw false).1
    let printable := ((⟨config, layout, marks'⟩ : Scene α).draw true).1
    interactive.shapes.map Shape.faded = printable.shapes.map Shape.faded ∧
      interactive.warnings = layout.defects.map .defect ∧
      (printable.warnings = layout.defects.map .defect ∨
        printable.warnings = layout.defects.map .defect ++
          [.oversizedExport printable.width printable.height
            (Diagram.fitFactor config printable.width printable.height)]) := by
  intro interactive printable
  let d : Drawing α := ⟨config, layout, config.palette false, false⟩
  have hpaint : d.paint.faded = (d.repaint (config.palette true) true).paint.faded :=
    d.faded_paint (config.palette true) true
  have hinteractive : interactive.warnings = layout.defects.map .defect ++
      d.sizeWarning interactive.width interactive.height := rfl
  have hprintable : printable.warnings = layout.defects.map .defect ++
      (d.repaint (config.palette true) true).sizeWarning printable.width printable.height := rfl
  refine ⟨congrArg Painter.shapes hpaint, ?_, ?_⟩
  · rcases d.sizeWarning_cases interactive.width interactive.height with hsize | ⟨hmode, -⟩
    · rw [hinteractive, hsize, List.append_nil]
    · exact absurd hmode Bool.false_ne_true
  · rcases (d.repaint (config.palette true) true).sizeWarning_cases printable.width
        printable.height with hsize | ⟨-, hsize⟩
    · rw [hprintable, hsize, List.append_nil]
      exact Or.inl rfl
    · rw [hprintable, hsize]
      exact Or.inr rfl

end EnvDiagram
