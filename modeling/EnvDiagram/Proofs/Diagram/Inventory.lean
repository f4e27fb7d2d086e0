import EnvDiagram.Proofs.Diagram.Connectors
import EnvDiagram.Proofs.Diagram.Tasks

/-!
# The inventory of a diagram

Apart from its arrows a diagram consists of parts: labels, rectangles, texts, circles, diagonals
and tooltips. Each is of a frame, a row, a value or a cell, and is painted when that is marked.
The drawing gets to these along the references and skips what it has seen; in the end it has
marked just what the layout has, frame by frame and value by value, each once.

* `Diagram.parts`, `Layout.partsOf` — what a diagram shows and what is to be shown
* `Layout.marks`, `Layout.Has` — everything that a layout has
* `Drawing.Stocked` — what is painted is what is marked, and the rest waits
* `Scene.ShowsAll`, `Scene.showsAll_redraw` — a diagram shows all of its layout, each part once
-/

namespace EnvDiagram

open scoped List

-- a layout is known by its lemmas here, not by how it is computed
attribute [local irreducible] Layout.ofSnapshot

variable {α : Type}

/-- A shape other than an arrow, by what it stands for and where it is or what it says. -/
inductive Part (α : Type) where
  | label (frame : Nat) (text : String)
  | box (frame : Nat) (bounds : Bounds α)
  | key (frame index : Nat) (text : String)
  | literal (value : Nat) (text : String)
  | cell (array index : Nat) (bounds : Bounds α)
  | diagonal (source target : Point α)
  | circle (owner : Nat) (center : Point α) (radius : α)
  | tooltip (owner : Nat) (text : String)

/-- The part that a shape shows; only an arrow shows none. -/
def ShapeKind.part? : ShapeKind α → Option (Part α)
  | .rect bounds _ _ (.frame f) => some (.box f bounds)
  | .rect bounds _ _ (.cell array index) => some (.cell array index bounds)
  | .text _ content _ (.label f) => some (.label f content)
  | .text _ content _ (.key f index) => some (.key f index content)
  | .text _ content _ (.literal v) => some (.literal v content)
  | .circle center radius _ _ owner => some (.circle owner center radius)
  | .line source target _ => some (.diagonal source target)
  | .tooltip t => some (.tooltip t.owner t.text)
  | .connector _ => none

/-- The parts of a diagram, in the order in which they are painted. -/
def Diagram.parts (d : Diagram α) : List (Part α) :=
  d.shapes.toList.filterMap fun s => s.kind.part?

theorem ShapeKind.part?_isNone (s : Shape α) :
    s.kind.part?.isNone = (Diagram.connector? s).isSome := by
  obtain ⟨key, kind⟩ := s
  cases kind with
  | rect _ _ _ role => cases role <;> rfl
  | text _ _ _ role => cases role <;> rfl
  | circle => rfl
  | line => rfl
  | tooltip => rfl
  | connector => rfl

/-- A diagram consists of its parts and its arrows. -/
theorem Diagram.size_shapes (d : Diagram α) :
    d.shapes.size = d.parts.length + d.connectors.length := by
  rw [parts, connectors, List.length_filterMap_eq_countP, List.length_filterMap_eq_countP,
    ← Array.length_toList, List.length_eq_countP_add_countP (fun s => s.kind.part?.isSome)]
  congr 1
  refine List.countP_congr fun s _ => ?_
  rw [← ShapeKind.part?_isNone]
  simp

/-! ## What a layout has -/

/-- The number of the frame or value that a mark belongs to. -/
def Mark.owner : Mark → Nat
  | .frame i | .binding i _ => i
  | .value v | .cell v _ => v

namespace Layout

/-- Whether a layout has a frame, row, value or cell. -/
def Has (l : Layout α) : Mark → Prop
  | .frame i => i < l.frames.size
  | .binding i j => ∃ f, l.frames[i]? = some f ∧ j < f.bindings.size
  | .value v => v < l.values.size
  | .cell v i => ∃ x cells, l.values[v]? = some x ∧ x.kind = .array cells ∧ i < cells.size

/-- What is marked in a value itself: the value and its cells. -/
def valueMarks (l : Layout α) (v : Nat) : List Mark :=
  match l.values[v]? with
  | none => []
  | some x => .value v ::
      match x.kind with
      | .array cells => (List.range cells.size).map (.cell v)
      | _ => []

/-- The frames with their rows and the values with their cells. -/
def marks (l : Layout α) : List Mark :=
  (List.range l.frames.size).flatMap l.frameMarks ++ (List.range l.values.size).flatMap l.valueMarks

variable {l : Layout α} {m : Mark} {i v : Nat}

theorem mem_frameMarks : m ∈ l.frameMarks i ↔
    ∃ f, l.frames[i]? = some f ∧ (m = .frame i ∨ ∃ j < f.bindings.size, m = .binding i j) := by
  unfold frameMarks
  cases l.frames[i]? <;> simp [eq_comm]

theorem mem_valueMarks : m ∈ l.valueMarks v ↔ ∃ x, l.values[v]? = some x ∧
    (m = .value v ∨ ∃ cells, x.kind = .array cells ∧ ∃ i < cells.size, m = .cell v i) := by
  unfold valueMarks
  cases l.values[v]? with
  | none => simp
  | some x => cases hk : x.kind <;> simp [hk, eq_comm]

theorem mem_marks : m ∈ l.marks ↔ l.Has m := by
  simp only [marks, List.mem_append, List.mem_flatMap, List.mem_range, mem_frameMarks,
    mem_valueMarks]
  cases m with
  | frame i => simp [Has, Array.getElem?_eq_some_iff]
  | binding i j => simp +contextual [Has, Array.getElem?_eq_some_iff]
  | value v => simp [Has, Array.getElem?_eq_some_iff]
  | cell v i => grind [Has]

theorem nodup_frameMarks (l : Layout α) (i : Nat) : (l.frameMarks i).Nodup := by
  unfold frameMarks
  split
  · exact List.nodup_nil
  · refine List.nodup_cons.mpr ⟨by simp, List.nodup_range.map ?_⟩
    exact fun j k h => (Mark.binding.inj h).2

theorem nodup_valueMarks (l : Layout α) (v : Nat) : (l.valueMarks v).Nodup := by
  unfold valueMarks
  split
  · exact List.nodup_nil
  · split
    · refine List.nodup_cons.mpr ⟨by simp, List.nodup_range.map ?_⟩
      exact fun i k h => (Mark.cell.inj h).2
    · exact List.nodup_singleton _

/-- No part of a layout is counted twice. -/
theorem nodup_marks (l : Layout α) : l.marks.Nodup := by
  have hids : ∀ n, ((List.range n).map id).Nodup := fun n => by simpa using List.nodup_range
  have hframes : ((List.range l.frames.size).flatMap l.frameMarks).Nodup := by
    refine nodup_flatMap_of_key id Mark.owner (hids _) (fun i _ => l.nodup_frameMarks i) ?_
    intro i _ m hm
    obtain ⟨f, -, rfl | ⟨j, -, rfl⟩⟩ := mem_frameMarks.mp hm <;> rfl
  have hvalues : ((List.range l.values.size).flatMap l.valueMarks).Nodup := by
    refine nodup_flatMap_of_key id Mark.owner (hids _) (fun v _ => l.nodup_valueMarks v) ?_
    intro v _ m hm
    obtain ⟨x, -, rfl | ⟨cells, -, i, -, rfl⟩⟩ := mem_valueMarks.mp hm <;> rfl
  refine hframes.append hvalues ?_
  -- a frame or a row is no value and no cell
  intro m hm hm'
  obtain ⟨i, -, hi⟩ := List.mem_flatMap.mp hm
  obtain ⟨v, -, hv⟩ := List.mem_flatMap.mp hm'
  obtain ⟨f, -, rfl | ⟨j, -, rfl⟩⟩ := mem_frameMarks.mp hi <;>
    simp [mem_valueMarks] at hv

end Layout

/-! ## What is to be shown -/

/-- A cell, with its diagonal if it holds the empty list. -/
def Cell.parts [Scalar α] (array index : Nat) (c : Cell α) : List (Part α) :=
  .cell array index c.bounds ::
    match c.content with
    | none => [.diagonal ⟨c.bounds.x, c.bounds.bottom⟩ ⟨c.bounds.right, c.bounds.y⟩]
    | some _ => []

/-- The outlines and the dots of both circles of a function, and its tooltip. -/
def FunctionGlyph.parts [Scalar α] (printable : Bool) (owner : Nat) (f : FunctionGlyph α) :
    List (Part α) :=
  [ .circle owner f.leftCircle f.radius, .circle owner f.leftCircle f.innerRadius,
    .circle owner f.rightCircle f.radius, .circle owner f.rightCircle f.innerRadius,
    .tooltip owner (if printable then f.exportTooltip else f.tooltip) ]

/-- A value apart from its cells, which are all that is seen of an array. -/
def Value.parts [Scalar α] (printable : Bool) (v : Nat) (x : Value α) : List (Part α) :=
  match x.kind with
  | .literal text _ => [.literal v text]
  | .array _ => []
  | .function f => f.parts printable v

/-- The parts that a frame, row, value or cell of a layout is to be shown by. -/
def Layout.partsOf [Scalar α] (printable : Bool) (l : Layout α) : Mark → List (Part α)
  | .frame i => ((l.frames[i]?).map fun f => [.label i f.label, .box i f.bounds]).getD []
  | .binding i j =>
    (((l.frames[i]?).bind fun f => f.bindings[j]?).map fun b => [.key i j b.keyText]).getD []
  | .value v => ((l.values[v]?).map (Value.parts printable v)).getD []
  | .cell v i =>
    ((((l.values[v]?).bind Value.cells?).bind (·[i]?)).map (Cell.parts v i)).getD []

/-! ## What has been painted -/

namespace Painter

/-- The parts among the shapes, in order. -/
def parts (p : Painter α) : List (Part α) := p.shapes.toList.filterMap fun s => s.kind.part?

theorem parts_eq (p : Painter α) : p.parts = p.kinds.filterMap ShapeKind.part? := by
  rw [kinds, List.filterMap_map]
  rfl

@[simp]
theorem parts_emit (p : Painter α) (kind : ShapeKind α) :
    (p.emit kind).parts = p.parts ++ kind.part?.toList := by
  rw [parts_eq, kinds_emit, List.filterMap_append, ← parts_eq]
  cases hk : kind.part? <;> simp [hk]

@[simp]
theorem parts_emitAll (p : Painter α) (kinds : List (ShapeKind α)) :
    (p.emitAll kinds).parts = p.parts ++ kinds.filterMap ShapeKind.part? := by
  rw [parts_eq, kinds_emitAll, List.filterMap_append, ← parts_eq]

@[simp]
theorem parts_mark (p : Painter α) (m : Mark) : (p.mark m).parts = p.parts := rfl

end Painter

namespace Drawing

theorem parts_emitArrow (d : Drawing α) (p : Painter α) (source : ArrowSource)
    (target : ArrowTarget) (route : Route α) (router : Router α) (strokeWidth : α) :
    (d.emitArrow p source target route router strokeWidth).parts = p.parts := by
  rw [emitArrow, Painter.parts_emit]
  exact List.append_nil _

variable [Scalar α]

theorem parts_paintValue (d : Drawing α) (p : Painter α) (v : Nat) (x : Value α) :
    (d.paintValue p v x).1.parts = p.parts ++ x.parts d.printable v := by
  unfold paintValue Value.parts
  cases x.kind with
  | literal text placeholder => exact Painter.parts_emit ..
  | array cells => exact (List.append_nil _).symm
  | function f =>
    have hshapes : ((p.mark (.value v)).emitAll (d.functionShapes v f)).parts =
        p.parts ++ f.parts d.printable v := Painter.parts_emitAll ..
    show (d.paintFunction (p.mark (.value v)) v f).parts = _
    unfold paintFunction
    split
    · exact hshapes
    · rw [parts_emitArrow, hshapes]

theorem parts_paintCell (d : Drawing α) (p : Painter α) (bounds : Bounds α) (c : Cell α) :
    (d.paintCell p bounds c).1.parts = p.parts ++ c.parts c.array c.index := by
  unfold paintCell Cell.parts
  cases c.content <;> simp [cellShape, nullShape, ShapeKind.part?]

theorem parts_paintArrow (d : Drawing α) (p : Painter α) (source : Reference) (start : Point α)
    (loop : Option (Bounds α)) (target : Nat) :
    (d.paintArrow p source start loop target).parts = p.parts := by
  unfold paintArrow
  split
  · rfl
  · split
    · rfl
    · exact parts_emitArrow ..

end Drawing

/-! ## What is marked and what waits -/

/-- What a task marks itself, apart from the value that it brings. -/
def DrawTask.marks : DrawTask α → List Mark
  | .cell _ c => [.cell c.array c.index]
  | _ => []

theorem Layout.Numbered.map_cells {l : Layout α} (hl : l.Numbered) {v : Nat} {x : Value α}
    {cells : Array (Cell α)} (hx : l.values[v]? = some x) (hk : x.kind = .array cells) :
    (cells.toList.map fun c => Mark.cell c.array c.index) =
      (List.range cells.size).map (.cell v) := by
  apply List.ext_getElem
  · simp
  · intro i hi hi'
    have hlt : i < cells.size := by simpa using hi
    obtain ⟨harray, hindex⟩ := hl.cell hx hk (Array.getElem?_eq_getElem hlt)
    simp [harray, hindex]

namespace Drawing

variable [Scalar α] {d : Drawing α} {done : List Mark} {p p' : Painter α} {m : Mark} {v : Nat}
  {x : Value α} {agenda rest : List (DrawTask α)}

/-- What is marked and what the tasks that wait are to mark are the frames and rows `done` and the
values drawn with all of their cells; what has been painted are the parts of what is marked. -/
structure Stocked (d : Drawing α) (done : List Mark) (p : Painter α) (agenda : List (DrawTask α)) :
    Prop where
  marks : p.marks ++ agenda.flatMap DrawTask.marks ~ done ++ p.drawn.flatMap d.layout.valueMarks
  parts : p.parts ~ p.marks.flatMap (d.layout.partsOf d.printable)

/-- A part of the layout is marked and painted. -/
theorem parts_perm_cons (h : p.parts ~ p.marks.flatMap (d.layout.partsOf d.printable))
    (hmarks : p'.marks = m :: p.marks)
    (hparts : p'.parts = p.parts ++ d.layout.partsOf d.printable m) :
    p'.parts ~ p'.marks.flatMap (d.layout.partsOf d.printable) := by
  rw [hmarks, hparts, List.flatMap_cons]
  exact (h.append_right _).trans List.perm_append_comm

/-- The tasks of a value are to mark its cells. -/
theorem marks_value (hl : d.layout.Numbered) (hx : d.layout.values[v]? = some x) :
    .value v :: (d.paintValue p v x).2.flatMap DrawTask.marks = d.layout.valueMarks v := by
  unfold paintValue Layout.valueMarks
  rw [hx]
  congr 1
  cases hk : x.kind with
  | literal => rfl
  | array cells =>
    show (cells.toList.map (DrawTask.cell x.bounds)).flatMap DrawTask.marks = _
    rw [List.flatMap_map]
    show (cells.toList.flatMap fun c => [Mark.cell c.array c.index]) = (List.range cells.size).map _
    rw [← hl.map_cells hx hk, List.map_eq_flatMap]
  | function => rfl

theorem Stocked.value (hl : d.layout.Numbered) (hv : d.fresh? p v = some x)
    (h : d.Stocked done p (.value v :: rest)) :
    d.Stocked done (d.paintValue p v x).1 ((d.paintValue p v x).2 ++ rest) where
  marks := by
    have hx := (fresh?_eq_some.mp hv).2
    rw [marks_paintValue, drawn_paintValue, List.flatMap_append, List.flatMap_cons,
      ← marks_value (p := p) hl hx]
    refine .trans ?_ (perm_append_insert _ h.marks)
    rw [List.append_assoc]
    exact List.perm_middle.symm
  parts := by
    refine parts_perm_cons h.parts (marks_paintValue ..) ?_
    rw [parts_paintValue, Layout.partsOf, (fresh?_eq_some.mp hv).2]
    rfl

theorem marks_cell (d : Drawing α) (p : Painter α) (bounds : Bounds α) (c : Cell α) :
    (d.paintCell p bounds c).2.flatMap DrawTask.marks = [] := by
  unfold paintCell
  cases c.content <;> rfl

theorem marks_rowTasks (b : Binding α) : (rowTasks b).flatMap DrawTask.marks = [] := by
  unfold rowTasks
  cases b.target <;> rfl

/-- A frame or a row is marked and painted. -/
theorem Stocked.add (h : d.Stocked done p []) (hmarks : p'.marks = m :: p.marks)
    (hm : m.value? = none) (hparts : p'.parts = p.parts ++ d.layout.partsOf d.printable m)
    (hagenda : agenda.flatMap DrawTask.marks = []) : d.Stocked (done ++ [m]) p' agenda where
  marks := by
    have hdrawn : p'.drawn = p.drawn := by
      rw [Painter.drawn, hmarks, List.filterMap_cons_none hm, Painter.drawn]
    have hmore := perm_append_insert [m] h.marks
    rw [List.flatMap_nil, List.append_nil, ← List.append_assoc] at hmore
    rw [hmarks, hdrawn, hagenda, List.append_nil]
    exact (List.perm_append_singleton ..).symm.trans hmore
  parts := parts_perm_cons h.parts hmarks hparts

/-- Whatever is drawn keeps the invariant. -/
theorem keeps_stocked (hl : d.layout.Numbered) : d.Keeps d.Stocked where
  skip := fun _ h => ⟨h.marks, h.parts⟩
  value := fun hv h => h.value hl hv
  cell := by
    rintro done p bounds c rest ⟨x, cells, hx, hk, hc, -⟩ h
    refine ⟨?_, parts_perm_cons h.parts (marks_paintCell ..) ?_⟩
    · rw [marks_paintCell, drawn_paintCell, List.flatMap_append, marks_cell, List.nil_append]
      exact List.perm_middle.symm.trans h.marks
    · rw [parts_paintCell]
      simp [Layout.partsOf, hx, Value.cells?, hk, hc]
  arrow := by
    rintro done p source start loop target rest - h
    refine ⟨?_, ?_⟩
    · rw [marks_paintArrow, drawn_paintArrow]
      exact h.marks
    · rw [parts_paintArrow, marks_paintArrow]
      exact h.parts
  frame := by
    rintro done p i f hf h
    refine h.add ?_ rfl ?_ rfl
    · rw [Painter.marks_mark, Painter.marks_emitAll]
    · rw [Painter.parts_mark, Painter.parts_emitAll, Layout.partsOf, hf, ← hl.frame hf]
      rfl
  row := by
    rintro done p i j f b hf hb h
    obtain ⟨hframe, hindex⟩ := hl.row hf hb
    refine h.add rfl rfl ?_ (marks_rowTasks b)
    rw [Painter.parts_mark, Painter.parts_emit, Layout.partsOf, hf, Option.bind_some, hb,
      ← hframe, ← hindex]
    rfl

/-- What a drawing has marked in the end is what the layout has, and what it has painted are the
parts of that. -/
theorem stocked_paint {config : Config α} {s : Snapshot} (hl : d.layout = .ofSnapshot config s) :
    d.paint.marks ~ d.layout.marks ∧
      d.paint.parts ~ d.layout.marks.flatMap (d.layout.partsOf d.printable) := by
  have hnumbered : d.layout.Numbered := hl ▸ Layout.numbered_ofSnapshot config s
  have hstart : d.Stocked [] d.start [] := ⟨.refl _, .refl _⟩
  have h := (keeps_stocked hnumbered).paint hnumbered hstart
  have hids : d.layout.levels.flatMap Level.frames = List.range d.layout.frames.size := by
    rw [hl]
    exact (Layout.ofSnapshot_laid config s).ids
  have hmarks := h.marks
  rw [hids, List.flatMap_nil, List.append_nil] at hmarks
  have hall := hmarks.trans (((drawn_paint_perm hl).flatMap_right _).append_left _)
  exact ⟨hall, h.parts.trans (hall.flatMap_right _)⟩

end Drawing

/-! ## Diagrams and scenes -/

/-- Whether a diagram shows all of a scene's layout: each part of each frame, row, value and cell
just once, and nothing else but arrows; all of these are drawn then. -/
structure Scene.ShowsAll [Scalar α] (printable : Bool) (d : Diagram α) (sc : Scene α) : Prop where
  parts : d.parts ~ sc.layout.marks.flatMap (sc.layout.partsOf printable)
  others : d.shapes.size = d.parts.length + d.connectors.length
  nodup : sc.marks.Nodup
  isDrawn_iff : ∀ m, sc.isDrawn m = true ↔ sc.layout.Has m

namespace Scene

variable [Scalar α] {sc : Scene α} {s : Snapshot} {printable : Bool}

/-- The parts of a diagram are those of what the layout has. -/
theorem mem_parts_redraw {part : Part α} : part ∈ (sc.redraw s printable).1.parts ↔
    ∃ m, (sc.load s).layout.Has m ∧ part ∈ (sc.load s).layout.partsOf printable m := by
  obtain ⟨-, hparts⟩ := Drawing.stocked_paint (d := sc.drawing s printable) rfl
  rw [redraw_eq]
  refine hparts.mem_iff.trans ?_
  simp only [List.mem_flatMap, Layout.mem_marks]
  rfl

/-- The diagram of a snapshot shows all of its layout, whatever was shown before. -/
theorem showsAll_redraw (sc : Scene α) (s : Snapshot) (printable : Bool) :
    (sc.redraw s printable).2.ShowsAll printable (sc.redraw s printable).1 := by
  obtain ⟨hmarks, hparts⟩ := Drawing.stocked_paint (d := sc.drawing s printable) rfl
  rw [redraw_eq]
  refine ⟨hparts, Diagram.size_shapes _, hmarks.nodup_iff.mpr (Layout.nodup_marks _), fun m => ?_⟩
  rw [isDrawn, decide_eq_true_iff, hmarks.mem_iff]
  exact Layout.mem_marks

end Scene

end EnvDiagram
