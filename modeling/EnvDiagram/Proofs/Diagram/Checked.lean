import EnvDiagram.Proofs.Diagram.Complete
import EnvDiagram.Proofs.Layout.Checked
import EnvDiagram.Proofs.Layout.Frames

/-!
# A drawing with every lookup checked

The agenda of `Drawing.run` flattens a recursion: to draw an array is to draw its cells one
after the other, each followed by its value and the arrow to it. Here is that recursion, with
every lookup checked and with a bound on its depth. There is no diagram where it would look
up what is not there, or draw one value more inside others than the bound allows.

In the layout of a snapshot everything that a part speaks of is there (`Layout.Closed`), and
a value is marked before its cells are drawn, so there always is a diagram.

* `Drawing.drawValue?_eq`, `Drawing.paint?_eq` — the recursion draws what the agenda draws
* `Scene.redraw?` — laying out and drawing a snapshot, all checks included
-/

namespace EnvDiagram

-- a layout is known by its lemmas here, not by how it is computed
attribute [local irreducible] Layout.ofSnapshot

variable {α : Type}

/-! ## What a layout speaks of -/

namespace Layout

/-- Whether everything that a layout speaks of is in it. -/
structure Closed (l : Layout α) : Prop where
  frame_lt : ∀ f ∈ l.levels.flatMap Level.frames, f < l.frames.size
  target_lt : ∀ {f i v : Nat} {frame : Frame α} {b : Binding α}, l.frames[f]? = some frame →
    frame.bindings[i]? = some b → b.target = some v → v < l.values.size
  cell_label : ∀ {v i : Nat} {x : Value α} {cells : Array (Cell α)} {c : Cell α},
    l.values[v]? = some x → x.kind = .array cells → cells[i]? = some c → c.array = v ∧ c.index = i
  content_lt : ∀ {v i w : Nat} {x : Value α} {cells : Array (Cell α)} {c : Cell α},
    l.values[v]? = some x → x.kind = .array cells → cells[i]? = some c → c.content = some w →
    w < l.values.size
  enclosing_lt : ∀ {v : Nat} {x : Value α} {f : FunctionGlyph α}, l.values[v]? = some x →
    x.kind = .function f → f.enclosing < l.tree.nodes.size
  frameOf_lt : ∀ {node f : Nat}, l.frameOf node = some f → f < l.frames.size

variable [Scalar α] {config : Config α} {s : Snapshot}

theorem target?_lt {r : Reference} {v : Nat} (h : (ofSnapshot config s).target? r = some v) :
    v < (ofSnapshot config s).values.size := by
  have hlogged := logged_ofSnapshot config s
  obtain ⟨m, hm, -, rfl⟩ := hlogged.links_iff.mp h
  have hlt := hlogged.value_lt m hm
  rwa [ledger, Ledger.size, List.length_map, Array.length_toList] at hlt

theorem closed_ofSnapshot (config : Config α) (s : Snapshot) : (ofSnapshot config s).Closed where
  frame_lt := by
    intro f hf
    rw [(ofSnapshot_laid config s).ids] at hf
    exact List.mem_range.mp hf
  target_lt := by
    intro f i v frame b hframe hb hv
    exact target?_lt (target?_binding_iff.mpr ⟨frame, b, hframe, hb, hv⟩)
  cell_label := (numbered_ofSnapshot config s).cell
  content_lt := by
    intro v i w x cells c hx hk hc hw
    exact target?_lt (target?_cell_iff.mpr ⟨x, cells, c, hx, hk, hc, hw⟩)
  enclosing_lt := by
    intro v x f hx hk
    obtain ⟨id, c, -, -, hres⟩ := closure_of_function hx hk
    rw [tree_ofSnapshot] at hres ⊢
    exact EnvTree.resolve_lt hres
  frameOf_lt := by
    intro node f hf
    obtain ⟨frame, hframe, -⟩ := frameOf_eq_some_iff.mp hf
    exact (Array.getElem?_eq_some_iff.mp hframe).1

end Layout

namespace Drawing

/-! ## Agendas in parts -/

section Agenda

variable [Scalar α] {d : Drawing α} {p : Painter α} {agenda : List (DrawTask α)} {v : Nat}

theorem run_append (d : Drawing α) (p : Painter α) (first rest : List (DrawTask α)) :
    d.run p (first ++ rest) = d.run (d.run p first) rest := by
  fun_induction Drawing.run d p first with
  | case1 p => rfl
  | case2 p v agenda hv ih =>
    rw [List.cons_append, run_value_of_none _ hv]
    exact ih
  | case3 p v agenda x hv step ih =>
    rw [List.append_assoc] at ih
    rw [List.cons_append, run_value_of_some _ hv]
    exact ih
  | case4 p b c agenda step ih =>
    rw [List.append_assoc] at ih
    rw [List.cons_append, run_cell]
    exact ih
  | case5 p source start loop target agenda ih =>
    rw [List.cons_append, run_arrow]
    exact ih

/-- More marks leave no more values undrawn. -/
theorem undrawn_mono {marks marks' : List Mark} (h : marks ⊆ marks') (n : Nat) :
    Painter.undrawn n marks' ≤ Painter.undrawn n marks := by
  apply List.countP_mono_left
  intro v _ hv
  simp only [decide_eq_true_eq] at *
  exact fun hm => hv (h hm)

end Agenda

/-! ## Drawing with every lookup checked -/

variable [Scalar α]

/-- `paintArrow`, with the value looked up. -/
def paintArrow? (d : Drawing α) (p : Painter α) (source : Reference) (start : Point α)
    (loop : Option (Bounds α)) (target : Nat) : Option (Painter α) := do
  let _ ← d.layout.values[target]?
  some (d.paintArrow p source start loop target)

/-- `paintFunction`, with the node that is closed over and its frame looked up. -/
def paintFunction? (d : Drawing α) (p : Painter α) (v : Nat) (f : FunctionGlyph α) :
    Option (Painter α) := do
  let _ ← d.layout.tree.nodes[f.enclosing]?
  match d.layout.frameOf f.enclosing with
  | none => some (p.emitAll (d.functionShapes v f))
  | some frame =>
    let _ ← d.layout.frames[frame]?
    some (d.paintFunction p v f)

/-- Draws a cell with its value and the arrow to it, given how a value is drawn. -/
def drawCell? (d : Drawing α) (draw : Painter α → Nat → Option (Painter α)) (bounds : Bounds α)
    (p : Painter α) (c : Cell α) : Option (Painter α) := do
  let _ ← d.layout.arena.cell? c.array c.index
  let painted := (d.paintCell p bounds c).1
  match c.content with
  | none => some painted
  | some target =>
    let loop := if target = c.array then some bounds else none
    let drawn ← draw painted target
    d.paintArrow? drawn (.cell c.array c.index) c.bounds.center loop target

/-- Draws a value with its parts, unless it is drawn already; with at most so many values
drawn inside each other. -/
def drawValue? (d : Drawing α) : Nat → Painter α → Nat → Option (Painter α)
  | 0, p, v => do
    let _ ← d.layout.values[v]?
    if .value v ∈ p.marks then some p else none
  | depth + 1, p, v => do
    let value ← d.layout.values[v]?
    if .value v ∈ p.marks then some p
    else
      let marked := p.mark (.value v)
      match value.kind with
      | .literal text placeholder =>
        some (marked.emit (d.literalShape v value.bounds text placeholder))
      | .array cells => cells.toList.foldlM (d.drawCell? (d.drawValue? depth) value.bounds) marked
      | .function f => d.paintFunction? marked v f

/-- `paintBinding`, with the row looked up in its frame. -/
def paintBinding? (d : Drawing α) (frame : Nat) (p : Painter α) (index : Nat) :
    Option (Painter α) := do
  let f ← d.layout.frames[frame]?
  let b ← f.bindings[index]?
  let painted := (p.emit (d.keyShape b)).mark (.binding b.frame b.index)
  match b.target with
  | none => some painted
  | some target =>
    let drawn ← d.drawValue? d.layout.values.size painted target
    d.paintArrow? drawn (.binding b.frame b.index) b.arrowTail none target

/-- `paintFrame`, with the frame looked up. -/
def paintFrame? (d : Drawing α) (p : Painter α) (frame : Nat) : Option (Painter α) := do
  let f ← d.layout.frames[frame]?
  (List.range f.bindings.size).foldlM (d.paintBinding? frame)
    ((p.emitAll (d.frameShapes f)).mark (.frame frame))

/-- `paint` -/
def paint? (d : Drawing α) : Option (Painter α) :=
  (d.layout.levels.flatMap Level.frames).foldlM d.paintFrame? d.start

variable {d : Drawing α} {p : Painter α} {v depth : Nat} {c : Cell α} {x : Value α}
  {bounds : Bounds α}

theorem paintArrow?_eq {target : Nat} (h : target < d.layout.values.size) (p : Painter α)
    (source : Reference) (start : Point α) (loop : Option (Bounds α)) :
    d.paintArrow? p source start loop target = some (d.paintArrow p source start loop target) := by
  rw [paintArrow?, Array.getElem?_eq_getElem h]
  rfl

theorem paintFunction?_eq (hl : d.layout.Closed) {f : FunctionGlyph α}
    (h : f.enclosing < d.layout.tree.nodes.size) (p : Painter α) (v : Nat) :
    d.paintFunction? p v f = some (d.paintFunction p v f) := by
  rw [paintFunction?, Array.getElem?_eq_getElem h]
  cases hf : d.layout.frameOf f.enclosing with
  | none =>
    rw [paintFunction, hf]
    rfl
  | some frame =>
    have hframe := Array.getElem?_eq_getElem (hl.frameOf_lt hf)
    simp only [hframe, Option.bind_eq_bind, Option.bind_some]

/-- What a value brings is drawn before its arrow. -/
theorem run_value_arrow (d : Drawing α) (p : Painter α) (source : Reference) (start : Point α)
    (loop : Option (Bounds α)) (target : Nat) :
    d.run p [.value target, .arrow source start loop target] =
      d.paintArrow (d.run p [.value target]) source start loop target := by
  rw [← List.singleton_append, run_append, run_arrow, run_nil]

theorem cell?_arena (hl : d.layout.Closed) {cells : Array (Cell α)} {i : Nat}
    (hx : d.layout.values[v]? = some x) (hk : x.kind = .array cells) (hc : cells[i]? = some c) :
    d.layout.arena.cell? c.array c.index = some c := by
  obtain ⟨harray, hindex⟩ := hl.cell_label hx hk hc
  have hvalues : d.layout.arena.values = d.layout.values := rfl
  simp only [Arena.cell?, hvalues, harray, hindex, hx, Value.cells?, hk, hc, Option.bind_some]

/-- A cell is drawn with its value and the arrow to it. -/
theorem drawCell?_eq (hl : d.layout.Closed) {draw : Painter α → Nat → Option (Painter α)}
    (hdraw : ∀ {q : Painter α} {w : Nat}, w < d.layout.values.size →
      Painter.undrawn d.layout.values.size q.marks ≤ depth → draw q w = some (d.run q [.value w]))
    {cells : Array (Cell α)} {i : Nat} (hx : d.layout.values[v]? = some x)
    (hk : x.kind = .array cells) (hc : cells[i]? = some c)
    (hdepth : Painter.undrawn d.layout.values.size p.marks ≤ depth) :
    d.drawCell? draw bounds p c = some (d.run p [.cell bounds c]) := by
  have hcell := cell?_arena hl hx hk hc
  have hmarks : Painter.undrawn d.layout.values.size (d.paintCell p bounds c).1.marks ≤ depth := by
    rw [marks_paintCell]
    exact (Painter.undrawn_cons_le ..).trans hdepth
  rw [run_cell, List.append_nil]
  simp only [drawCell?, hcell, Option.bind_eq_bind, Option.bind_some]
  cases hw : c.content with
  | none =>
    have hparts : (d.paintCell p bounds c).2 = [] := by simp [paintCell, hw]
    rw [hparts, run_nil]
  | some target =>
    have hlt := hl.content_lt hx hk hc hw
    have hparts : (d.paintCell p bounds c).2 =
        [.value target, .arrow (.cell c.array c.index) c.bounds.center
          (if target = c.array then some bounds else none) target] := by simp [paintCell, hw]
    rw [hparts, run_value_arrow]
    simp only [hdraw hlt hmarks, Option.bind_some]
    exact paintArrow?_eq hlt ..

/-- The cells of an array are drawn one after the other. -/
theorem foldlM_drawCell? (hl : d.layout.Closed) {draw : Painter α → Nat → Option (Painter α)}
    (hdraw : ∀ {q : Painter α} {w : Nat}, w < d.layout.values.size →
      Painter.undrawn d.layout.values.size q.marks ≤ depth → draw q w = some (d.run q [.value w]))
    {cells : Array (Cell α)} (hx : d.layout.values[v]? = some x) (hk : x.kind = .array cells)
    (row : List (Cell α)) (hrow : ∀ c ∈ row, c ∈ cells)
    (hdepth : Painter.undrawn d.layout.values.size p.marks ≤ depth) :
    row.foldlM (d.drawCell? draw bounds) p = some (d.run p (row.map (.cell bounds))) := by
  induction row generalizing p with
  | nil =>
    rw [List.map_nil, run_nil]
    rfl
  | cons c rest ih =>
    obtain ⟨i, hc⟩ := Array.getElem?_of_mem (hrow c List.mem_cons_self)
    have hcell : d.drawCell? draw bounds p c = some (d.run p [.cell bounds c]) :=
      drawCell?_eq hl hdraw hx hk hc hdepth
    have hmore := (undrawn_mono (marks_subset_run d p [.cell bounds c])
      d.layout.values.size).trans hdepth
    have hsplit : d.run p (.cell bounds c :: rest.map (.cell bounds)) =
        d.run (d.run p [.cell bounds c]) (rest.map (.cell bounds)) := run_append d p [_] _
    rw [List.foldlM_cons, hcell, List.map_cons, hsplit]
    exact ih (fun c hc => hrow c (List.mem_cons_of_mem _ hc)) hmore

/-- A value that is marked is not drawn again. -/
theorem run_value_of_marked (h : .value v ∈ p.marks) : d.run p [.value v] = p := by
  rw [run_value_of_none [] (by rw [fresh?, if_pos h]), run_nil]

/-- A value that is not marked is drawn with its parts. -/
theorem run_value_of_not_marked (h : .value v ∉ p.marks) (hx : d.layout.values[v]? = some x) :
    d.run p [.value v] = d.run (d.paintValue p v x).1 (d.paintValue p v x).2 := by
  rw [run_value_of_some [] (by rw [fresh?, if_neg h, hx]), List.append_nil]

/-- Drawing a value draws no more values inside each other than there are undrawn ones, and
looks up nothing that is not there. -/
theorem drawValue?_eq (hl : d.layout.Closed) (hv : v < d.layout.values.size)
    (hdepth : Painter.undrawn d.layout.values.size p.marks ≤ depth) :
    d.drawValue? depth p v = some (d.run p [.value v]) := by
  have hx := Array.getElem?_eq_getElem hv
  induction depth generalizing p v with
  | zero =>
    by_cases hm : .value v ∈ p.marks
    · rw [drawValue?, hx, run_value_of_marked hm]
      exact if_pos hm
    · have hlt := Painter.undrawn_value_lt hv hm
      omega
  | succ depth ih =>
    by_cases hm : .value v ∈ p.marks
    · rw [drawValue?, hx, run_value_of_marked hm]
      exact if_pos hm
    · rw [drawValue?, hx, run_value_of_not_marked hm hx]
      show (if .value v ∈ p.marks then some p else _) = _
      rw [if_neg hm]
      cases hk : d.layout.values[v].kind with
      | literal text placeholder => simp only [paintValue, hk, run_nil]
      | function f =>
        simp only [paintValue, hk, run_nil]
        exact paintFunction?_eq hl (hl.enclosing_lt hx hk) _ v
      | array cells =>
        -- the value is marked by now, so there is one less to be drawn
        have hlt := Painter.undrawn_value_lt hv hm
        have hmarked : Painter.undrawn d.layout.values.size (p.mark (.value v)).marks ≤ depth := by
          rw [Painter.marks_mark]
          omega
        simp only [paintValue, hk]
        exact foldlM_drawCell? hl (fun hw hd => ih hw hd (Array.getElem?_eq_getElem hw)) hx hk
          cells.toList (fun c hc => Array.mem_toList_iff.mp hc) hmarked

theorem paintBinding?_eq (hl : d.layout.Closed) {f i : Nat} {frame : Frame α} {b : Binding α}
    (hf : d.layout.frames[f]? = some frame) (hb : frame.bindings[i]? = some b) (p : Painter α) :
    d.paintBinding? f p i = some (d.paintBinding p b) := by
  simp only [paintBinding?, paintBinding, hf, hb, Option.bind_eq_bind, Option.bind_some]
  cases ht : b.target with
  | none => rfl
  | some target =>
    have hlt := hl.target_lt hf hb ht
    -- there are no more values to be drawn than there are values
    have hundrawn : ∀ q : Painter α,
        Painter.undrawn d.layout.values.size q.marks ≤ d.layout.values.size := by
      intro q
      have hle := List.countP_le_length (p := fun v => decide (Mark.value v ∉ q.marks))
        (l := List.range d.layout.values.size)
      rwa [List.length_range] at hle
    simp only [drawValue?_eq hl hlt (hundrawn _), run_value_arrow, Option.bind_some]
    exact paintArrow?_eq hlt ..

theorem paintFrame?_eq (hl : d.layout.Closed) {f : Nat} (hf : f < d.layout.frames.size)
    (p : Painter α) : d.paintFrame? p f = some (d.paintFrame p f) := by
  have hframe := Array.getElem?_eq_getElem hf
  set frame := d.layout.frames[f]
  have hrows : ∀ (q : Painter α), (List.range frame.bindings.size).foldlM (d.paintBinding? f) q =
      some (frame.bindings.toList.foldl d.paintBinding q) := by
    intro q
    rw [← filterMap_range_getElem?, List.foldl_filterMap]
    refine (foldlM_eq_some_foldl (P := fun _ _ => True) _ ?_ trivial).1
    intro done i q hinit _
    have hi : i < frame.bindings.size := List.mem_range.mp (hinit.subset (by simp))
    have hb := Array.getElem?_eq_getElem hi
    rw [paintBinding?_eq hl hframe hb, hb]
    exact ⟨rfl, trivial⟩
  simp only [paintFrame?, paintFrame, hframe, hrows, Array.foldl_toList, Option.bind_eq_bind,
    Option.bind_some]

theorem paint?_eq (hl : d.layout.Closed) : d.paint? = some d.paint := by
  have hfold := foldlM_eq_some_foldl (f := d.paintFrame?) (g := d.paintFrame)
    (P := fun _ _ => True) (s := d.start) (d.layout.levels.flatMap Level.frames)
    (fun done f p hinit _ =>
      ⟨paintFrame?_eq hl (hl.frame_lt f (hinit.subset (by simp))) p, trivial⟩) trivial
  exact hfold.1

end Drawing

/-! ## Laying out and drawing a snapshot -/

/-- A value is marked as often as it is listed among those drawn. -/
theorem Painter.count_drawn (p : Painter α) (v : Nat) :
    p.marks.count (.value v) = p.drawn.count v := by
  rw [drawn]
  induction p.marks with
  | nil => rfl
  | cons m rest ih =>
    cases m with
    | value w =>
      rw [List.filterMap_cons_some (show Mark.value? (.value w) = some w from rfl), List.count_cons,
        List.count_cons, ih]
      simp
    | frame f => rw [List.filterMap_cons_none rfl, List.count_cons_of_ne (by simp), ih]
    | binding f i => rw [List.filterMap_cons_none rfl, List.count_cons_of_ne (by simp), ih]
    | cell a i => rw [List.filterMap_cons_none rfl, List.count_cons_of_ne (by simp), ih]

variable [Scalar α]

/-- `draw`, with every lookup checked. -/
def Layout.draw? (config : Config α) (l : Layout α) (printable : Bool) :
    Option (Diagram α × List Mark) := do
  let d : Drawing α := ⟨config, l, config.palette printable, printable⟩
  let p ← d.paint?
  some (d.diagram p, p.marks)

theorem Layout.draw?_eq (config : Config α) {l : Layout α} (hl : l.Closed) (printable : Bool) :
    l.draw? config printable = some (l.draw config printable) := by
  have hpaint : Drawing.paint? ⟨config, l, config.palette printable, printable⟩ =
      some (Drawing.paint ⟨config, l, config.palette printable, printable⟩) := Drawing.paint?_eq hl
  simp only [draw?, draw, hpaint, Option.bind_eq_bind, Option.bind_some]

namespace Scene

/-- `redraw`, with every lookup checked, and with at most so many arrays opened inside each
other. -/
def redraw? (depth : Nat) (sc : Scene α) (s : Snapshot) (printable : Bool) :
    Option (Diagram α × Scene α) := do
  let layout ← Layout.ofSnapshot? depth sc.config s
  let (diagram, marks) ← layout.draw? sc.config printable
  some (diagram, ⟨sc.config, layout, marks⟩)

/-- Any snapshot is laid out and drawn without looking up what is not there, with no more
arrays opened inside each other than the heap has, and with no value drawn twice. -/
theorem redraw_never_fails (sc : Scene α) (s : Snapshot) (printable : Bool) :
    redraw? s.heap.arrays.length sc s printable = some (sc.redraw s printable) ∧
      ∀ v, (sc.redraw s printable).2.marks.count (.value v) ≤ 1 := by
  constructor
  · have hdraw := Layout.draw?_eq sc.config (Layout.closed_ofSnapshot sc.config s) printable
    simp only [redraw?, Layout.ofSnapshot?_eq sc.config (Nat.le_refl _), hdraw,
      Option.bind_eq_bind, Option.bind_some]
    rw [redraw, load, draw]
  · intro v
    rw [redraw_eq, Painter.count_drawn]
    exact List.nodup_iff_count_le_one.mp (sc.drawing s printable).painting_paint.nodup v

end Scene

end EnvDiagram
