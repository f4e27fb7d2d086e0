import EnvDiagram.Proofs.Diagram.Inventory
import EnvDiagram.Scalar.Exact

/-!
# One drawing after another

A layout is drawn again and again, in either palette, and is left to the next drawing as the last
one leaves it: what has been drawn is marked, and keys have been given away. So a drawing begins by
taking the marks off part by part and by starting the keys over, and on its way it passes over the
frames and rows that are marked (`Easel.draw`). No mark outlives this, as a drawing marks only parts
of the layout (`Drawing.marks_paint_subset`), and no frame or row is passed over, as none is met
twice (`Drawing.paintOver_nil`). So every drawing is like the first one, and its shapes have the keys
from zero on.

* `Drawing.Steady`, `Drawing.keys_paint` — keys are given in order
* `Easel` — a scene with the marks and keys that are left behind
* `Easel.Reached` — what layouts and drawings lead to
* `Easel.drawAll_reached` — any number of drawings
-/

namespace EnvDiagram

open scoped List

-- a layout is known by its lemmas here, not by how it is computed
attribute [local irreducible] Layout.ofSnapshot

variable {α : Type}

/-! ## Keys -/

/-- If shapes have the keys from zero on, the one with a key is in the place of that number. -/
theorem Diagram.shape?_eq {d : Diagram α}
    (h : d.shapes.toList.map Shape.key = List.range d.shapes.size) (key : Nat) :
    d.shape? key = d.shapes[key]? := by
  have hkey : ∀ i (hi : i < d.shapes.size), d.shapes[i].key = i := by
    intro i hi
    have hmap := congrArg (·[i]?) h
    simpa [hi] using hmap
  unfold shape?
  by_cases hk : key < d.shapes.size
  · rw [Array.getElem?_eq_getElem hk, Array.find?_eq_some_iff_getElem]
    refine ⟨by simpa using hkey key hk, key, hk, rfl, fun j hj => ?_⟩
    have hne : d.shapes[j].key ≠ key := by
      rw [hkey j (by omega)]
      omega
    simpa using hne
  · rw [Array.getElem?_eq_none (by omega), Array.find?_eq_none]
    intro s hs
    obtain ⟨i, hi, rfl⟩ := Array.mem_iff_getElem.mp hs
    have hne : d.shapes[i].key ≠ key := by
      rw [hkey i hi]
      omega
    simpa using hne

namespace Drawing

/-- What adding a shape, marking a part and taking a lane leave true. A drawing does nothing
else. -/
structure Steady (P : Painter α → Prop) : Prop where
  emit : ∀ {p : Painter α} (kind : ShapeKind α), P p → P (p.emit kind)
  mark : ∀ {p : Painter α} (m : Mark), P p → P (p.mark m)
  router : ∀ {p : Painter α} (router : Router α), P p → P { p with router }

namespace Steady

variable [Scalar α] {d : Drawing α} {P : Painter α → Prop} {p : Painter α}

omit [Scalar α] in
theorem emitAll (h : Steady P) (hp : P p) (kinds : List (ShapeKind α)) : P (p.emitAll kinds) := by
  unfold Painter.emitAll
  induction kinds generalizing p with
  | nil => exact hp
  | cons kind rest ih => exact ih (h.emit kind hp)

theorem paintFunction (h : Steady P) (hp : P p) (v : Nat) (f : FunctionGlyph α) :
    P (d.paintFunction p v f) := by
  have hshapes := h.emitAll hp (d.functionShapes v f)
  unfold Drawing.paintFunction
  split
  · exact hshapes
  · exact h.emit _ (h.router _ hshapes)

theorem paintValue (h : Steady P) (hp : P p) (v : Nat) (x : Value α) : P (d.paintValue p v x).1 := by
  have hmark := h.mark (.value v) hp
  unfold Drawing.paintValue
  cases x.kind with
  | literal text placeholder => exact h.emit _ hmark
  | array cells => exact hmark
  | function f => exact h.paintFunction hmark v f

theorem paintCell (h : Steady P) (hp : P p) (bounds : Bounds α) (c : Cell α) :
    P (d.paintCell p bounds c).1 := by
  have hcell := h.mark (.cell c.array c.index) (h.emit (d.cellShape c) hp)
  unfold Drawing.paintCell
  cases c.content with
  | none => exact h.emit _ hcell
  | some target => exact hcell

theorem paintArrow (h : Steady P) (hp : P p) (source : Reference) (start : Point α)
    (loop : Option (Bounds α)) (target : Nat) : P (d.paintArrow p source start loop target) := by
  unfold Drawing.paintArrow
  cases d.layout.values[target]? with
  | none => exact hp
  | some x =>
    by_cases hliteral : x.isLiteral
    · simpa only [if_pos hliteral] using hp
    · dsimp only
      rw [if_neg hliteral]
      exact h.emit _ (h.router _ hp)

theorem run (h : Steady P) (hp : P p) (agenda : List (DrawTask α)) : P (d.run p agenda) :=
  run_keeps (P := fun p _ => P p) (fun _ hp => hp) (fun _ hp => h.paintValue hp ..)
    (fun hp => h.paintCell hp ..) (fun hp => h.paintArrow hp ..) hp

theorem paintBinding (h : Steady P) (hp : P p) (b : Binding α) : P (d.paintBinding p b) := by
  rw [paintBinding_eq]
  exact h.run (h.mark _ (h.emit _ hp)) _

theorem paintFrame (h : Steady P) (hp : P p) (i : Nat) : P (d.paintFrame p i) := by
  unfold Drawing.paintFrame
  cases d.layout.frames[i]? with
  | none => exact hp
  | some f =>
    have hframe := h.mark (.frame i) (h.emitAll hp (d.frameShapes f))
    dsimp only
    rw [← Array.foldl_toList]
    exact List.foldlRecOn _ _ hframe fun _ hq b _ => h.paintBinding hq b

theorem paint (h : Steady P) (hstart : P d.start) : P d.paint :=
  List.foldlRecOn _ _ hstart fun _ hq i _ => h.paintFrame hq i

end Steady

variable [Scalar α] {d : Drawing α} {p : Painter α} {m : Mark} {i : Nat}

/-- The shapes of a drawing have the keys from zero on, in order. -/
theorem keys_paint (d : Drawing α) :
    d.paint.shapes.toList.map Shape.key = List.range d.paint.shapes.size := by
  have hsteady : Steady fun p : Painter α =>
      p.shapes.toList.map Shape.key = List.range p.shapes.size := by
    refine ⟨fun {p} kind hp => ?_, fun _ hp => hp, fun _ hp => hp⟩
    rw [Painter.emit, Array.toList_push, List.map_append, hp, Array.size_push, List.range_succ]
    rfl
  exact hsteady.paint rfl

/-! ## Frames and rows that are met -/

/-- Draws a row, unless it is marked. -/
def visitRow (d : Drawing α) (p : Painter α) (b : Binding α) : Painter α :=
  if .binding b.frame b.index ∈ p.marks then p else d.paintBinding p b

/-- Draws a frame with its rows, unless it is marked. -/
def visitFrame (d : Drawing α) (p : Painter α) (frame : Nat) : Painter α :=
  match d.layout.frames[frame]? with
  | none => p
  | some f =>
    if .frame frame ∈ p.marks then p
    else f.bindings.foldl d.visitRow ((p.emitAll (d.frameShapes f)).mark (.frame frame))

/-- Draws all frames, level by level, over the marks that are there. -/
def paintOver (d : Drawing α) (marks : List Mark) : Painter α :=
  (d.layout.levels.flatMap Level.frames).foldl d.visitFrame { d.start with marks }

end Drawing

/-- Whether a mark is of a frame or of a row. -/
def Mark.isOuter : Mark → Bool
  | .frame _ | .binding .. => true
  | .value _ | .cell .. => false

/-- The frames and rows that are marked. -/
def Painter.outer (p : Painter α) : List Mark := p.marks.filter Mark.isOuter

theorem Painter.mem_outer {p : Painter α} {m : Mark} (hm : m.isOuter) :
    m ∈ p.outer ↔ m ∈ p.marks := by
  rw [outer, List.mem_filter]
  exact and_iff_left hm

namespace Drawing

variable [Scalar α] {d : Drawing α} {p : Painter α} {m : Mark} {i : Nat}

/-- What rows lead to is neither a frame nor a row. -/
theorem outer_run (d : Drawing α) (p : Painter α) (agenda : List (DrawTask α)) :
    (d.run p agenda).outer = p.outer := by
  refine run_keeps (P := fun q _ => q.outer = p.outer) (fun _ h => h) ?value ?cell ?arrow rfl
  case value =>
    intro q v x rest _ h
    rw [Painter.outer, marks_paintValue, ← h]
    rfl
  case cell =>
    intro q bounds c rest h
    rw [Painter.outer, marks_paintCell, ← h]
    rfl
  case arrow =>
    intro q source start loop target rest h
    rw [Painter.outer, marks_paintArrow, ← h]
    rfl

theorem outer_paintBinding (d : Drawing α) (p : Painter α) (b : Binding α) :
    (d.paintBinding p b).outer = .binding b.frame b.index :: p.outer := by
  rw [paintBinding_eq, outer_run]
  rfl

/-- Rows that are not marked yet, none of them twice, are all drawn. -/
theorem foldl_visitRow (d : Drawing α) {p : Painter α} {rows : List (Binding α)}
    (hnodup : (rows.map fun b => Mark.binding b.frame b.index).Nodup)
    (hnew : ∀ b ∈ rows, .binding b.frame b.index ∉ p.outer) :
    rows.foldl d.visitRow p = rows.foldl d.paintBinding p := by
  induction rows generalizing p with
  | nil => rfl
  | cons b rest ih =>
    obtain ⟨hb, hrest⟩ := List.nodup_cons.mp hnodup
    have hunmarked : .binding b.frame b.index ∉ p.marks := fun hmem =>
      hnew b List.mem_cons_self ((Painter.mem_outer rfl).mpr hmem)
    rw [List.foldl_cons, List.foldl_cons, visitRow, if_neg hunmarked]
    refine ih hrest fun c hc hmem => ?_
    rw [outer_paintBinding] at hmem
    rcases List.mem_cons.mp hmem with heq | hmem
    · exact hb (List.mem_map.mpr ⟨c, hc, heq⟩)
    · exact hnew c (List.mem_cons_of_mem _ hc) hmem

/-- Drawing a frame marks no other frame and no row of another. -/
theorem owner_paintFrame (hl : d.layout.Numbered) (hm : m ∈ (d.paintFrame p i).outer) :
    m ∈ p.outer ∨ m.owner = i := by
  unfold paintFrame at hm
  cases hf : d.layout.frames[i]? with
  | none =>
    rw [hf] at hm
    exact Or.inl hm
  | some f =>
    rw [hf] at hm
    dsimp only at hm
    rw [← Array.foldl_toList] at hm
    refine List.foldlRecOn (motive := fun q : Painter α => m ∈ q.outer → m ∈ p.outer ∨ m.owner = i)
      _ _ ?_ ?_ hm
    · intro hm
      rw [Painter.outer, Painter.marks_mark, Painter.marks_emitAll] at hm
      rcases List.mem_cons.mp hm with rfl | hm
      · exact Or.inr rfl
      · exact Or.inl hm
    · intro q hq b hb hm
      rw [outer_paintBinding] at hm
      rcases List.mem_cons.mp hm with rfl | hm
      · obtain ⟨j, hj⟩ := Array.getElem?_of_mem (Array.mem_toList_iff.mp hb)
        exact Or.inr (hl.row hf hj).1
      · exact hq hm

/-- A frame that is not marked, nor any row of it, is drawn with all of its rows. -/
theorem visitFrame_eq (hl : d.layout.Numbered) (hnew : ∀ m ∈ p.outer, m.owner ≠ i) :
    d.visitFrame p i = d.paintFrame p i := by
  unfold visitFrame paintFrame
  cases hf : d.layout.frames[i]? with
  | none => rfl
  | some f =>
    have hunmarked : .frame i ∉ p.marks := fun hmem =>
      hnew _ ((Painter.mem_outer rfl).mpr hmem) rfl
    dsimp only
    rw [if_neg hunmarked, ← Array.foldl_toList, ← Array.foldl_toList]
    refine foldl_visitRow d ?nodup ?fresh
    case nodup =>
      have hrows : (f.bindings.toList.map fun b => Mark.binding b.frame b.index) =
          (List.range f.bindings.size).map (.binding i) := by
        refine List.ext_getElem (by simp) fun j hj hj' => ?_
        have hlt : j < f.bindings.size := by simpa using hj
        obtain ⟨hframe, hindex⟩ := hl.row hf (Array.getElem?_eq_getElem hlt)
        simp [hframe, hindex]
      rw [hrows]
      exact List.nodup_range.map fun j k h => (Mark.binding.inj h).2
    case fresh =>
      intro b hb hmem
      obtain ⟨j, hj⟩ := Array.getElem?_of_mem (Array.mem_toList_iff.mp hb)
      rw [Painter.outer, Painter.marks_mark, Painter.marks_emitAll] at hmem
      rcases List.mem_cons.mp hmem with heq | hmem
      · cases heq
      · exact hnew _ hmem (hl.row hf hj).1

theorem foldl_visitFrame (hl : d.layout.Numbered) {ids : List Nat} (hnodup : ids.Nodup)
    (hnew : ∀ m ∈ p.outer, m.owner ∉ ids) :
    ids.foldl d.visitFrame p = ids.foldl d.paintFrame p := by
  induction ids generalizing p with
  | nil => rfl
  | cons i rest ih =>
    obtain ⟨hi, hrest⟩ := List.nodup_cons.mp hnodup
    have hframe := visitFrame_eq (i := i) hl fun m hm heq =>
      hnew m hm (List.mem_cons.mpr (Or.inl heq))
    rw [List.foldl_cons, List.foldl_cons, hframe]
    refine ih hrest fun m hm hmem => ?_
    rcases owner_paintFrame hl hm with hm | rfl
    · exact hnew m hm (List.mem_cons_of_mem _ hmem)
    · exact hi hmem

end Drawing

/-- Whether the parts of a layout know their numbers and no frame is on two levels. -/
structure Layout.Regular (l : Layout α) : Prop where
  numbered : l.Numbered
  nodup : (l.levels.flatMap Level.frames).Nodup

theorem Layout.regular_empty : (Layout.empty : Layout α).Regular :=
  ⟨⟨by simp [Layout.empty], by simp [Layout.empty], by simp [Layout.empty]⟩, List.nodup_nil⟩

theorem Layout.regular_ofSnapshot [Scalar α] (config : Config α) (s : Snapshot) :
    (ofSnapshot config s).Regular where
  numbered := numbered_ofSnapshot config s
  nodup := by
    rw [(ofSnapshot_laid config s).ids]
    exact List.nodup_range

namespace Drawing

variable [Scalar α] {d : Drawing α}

/-- Where nothing is marked, nothing is passed over. -/
theorem paintOver_nil (hl : d.layout.Regular) : d.paintOver [] = d.paint :=
  foldl_visitFrame hl.numbered hl.nodup (by simp [Painter.outer])

/-- A drawing marks only parts of its layout. -/
theorem marks_paint_subset (hl : d.layout.Numbered) : d.paint.marks ⊆ d.layout.marks := by
  have hstart : d.Stocked [] d.start [] := ⟨.refl _, .refl _⟩
  have hmarks := ((keeps_stocked hl).paint hl hstart).marks
  rw [List.flatMap_nil, List.append_nil] at hmarks
  intro m hm
  rw [Layout.mem_marks]
  rcases List.mem_append.mp (hmarks.mem_iff.mp hm) with hm | hm
  · obtain ⟨i, -, hi⟩ := List.mem_flatMap.mp hm
    obtain ⟨f, hf, rfl | ⟨j, hj, rfl⟩⟩ := Layout.mem_frameMarks.mp hi
    · exact (Array.getElem?_eq_some_iff.mp hf).1
    · exact ⟨f, hf, hj⟩
  · obtain ⟨v, -, hv⟩ := List.mem_flatMap.mp hm
    obtain ⟨x, hx, rfl | ⟨cells, hk, j, hj, rfl⟩⟩ := Layout.mem_valueMarks.mp hv
    · exact (Array.getElem?_eq_some_iff.mp hx).1
    · exact ⟨x, cells, hx, hk, hj⟩

end Drawing

/-! ## Easels -/

/-- A shape under a later key. -/
def Shape.later (n : Nat) (s : Shape α) : Shape α := { s with key := n + s.key }

/-- A scene in use, with the key that the next shape gets. -/
structure Easel (α : Type) where
  scene : Scene α
  nextKey : Nat

namespace Easel

/-- An easel that begins. -/
def ofConfig (config : Config α) : Easel α := ⟨.ofConfig config, 0⟩

/-- Takes the marks off the frames, rows, values and cells, and starts the keys over. -/
def wipe (e : Easel α) : Easel α :=
  ⟨{ e.scene with marks := e.scene.marks.filter (· ∉ e.scene.layout.marks) }, 0⟩

variable [Scalar α]

/-- Lays out a snapshot. -/
def load (e : Easel α) (s : Snapshot) : Easel α := ⟨e.scene.load s, 0⟩

/-- Draws the layout over what is left of the last drawing. -/
def draw (e : Easel α) (printable : Bool) : Diagram α × Easel α :=
  let ⟨scene, nextKey⟩ := e.wipe
  let d : Drawing α := ⟨scene.config, scene.layout, scene.config.palette printable, printable⟩
  let p := d.paintOver scene.marks
  let diagram := d.diagram p
  ({ diagram with shapes := diagram.shapes.map (Shape.later nextKey) },
    ⟨{ scene with marks := p.marks }, nextKey + p.shapes.size⟩)

/-- Draws the layout several times. -/
def drawAll (e : Easel α) : List Bool → List (Diagram α) × Easel α
  | [] => ([], e)
  | printable :: rest =>
    let (diagram, e') := e.draw printable
    let (diagrams, e'') := e'.drawAll rest
    (diagram :: diagrams, e'')

/-- The easels that layouts and drawings lead to. -/
inductive Reached (config : Config α) : Easel α → Prop
  | begin : Reached config (ofConfig config)
  | load {e : Easel α} (s : Snapshot) : Reached config e → Reached config (e.load s)
  | draw {e : Easel α} (printable : Bool) : Reached config e → Reached config (e.draw printable).2

variable {config : Config α} {e : Easel α}

/-- If only parts of the layout are marked, they are drawn as if none was. -/
theorem draw_eq (hl : e.scene.layout.Regular) (hmarks : e.scene.marks ⊆ e.scene.layout.marks)
    (printable : Bool) :
    e.draw printable = ((e.scene.draw printable).1,
      ⟨(e.scene.draw printable).2, (e.scene.draw printable).1.shapes.size⟩) := by
  let d : Drawing α :=
    ⟨e.scene.config, e.scene.layout, e.scene.config.palette printable, printable⟩
  have hwipe : e.wipe = ⟨{ e.scene with marks := [] }, 0⟩ := by
    have hnone : e.scene.marks.filter (· ∉ e.scene.layout.marks) = [] := by
      simpa [List.filter_eq_nil_iff] using fun m hm => hmarks hm
    rw [wipe, hnone]
  have hpaint : d.paintOver [] = d.paint := Drawing.paintOver_nil hl
  have hkeys : d.paint.shapes.map (Shape.later 0) = d.paint.shapes := by
    have hlater : Shape.later 0 = (id : Shape α → Shape α) :=
      funext fun s => by simp [Shape.later]
    rw [hlater, Array.map_id]
  rw [draw, hwipe]
  show ({ d.diagram (d.paintOver []) with
      shapes := (d.paintOver []).shapes.map (Shape.later 0) },
    (⟨{ e.scene with marks := (d.paintOver []).marks }, 0 + (d.paintOver []).shapes.size⟩ :
      Easel α)) = _
  rw [hpaint, hkeys, Nat.zero_add]
  rfl

/-- What easels that are reached have in common. -/
structure Tidy (config : Config α) (e : Easel α) : Prop where
  config : e.scene.config = config
  layout : e.scene.layout.Regular
  marks : e.scene.marks ⊆ e.scene.layout.marks

theorem Tidy.draw (h : Tidy config e) (printable : Bool) : Tidy config (e.draw printable).2 := by
  rw [draw_eq h.layout h.marks]
  exact ⟨h.config, h.layout, Drawing.marks_paint_subset h.layout.numbered⟩

theorem tidy_of_reached (h : Reached config e) : Tidy config e := by
  induction h with
  | begin => exact ⟨rfl, Layout.regular_empty, List.nil_subset _⟩
  | load s _ ih => exact ⟨ih.config, Layout.regular_ofSnapshot _ s, List.nil_subset _⟩
  | draw printable _ ih => exact ih.draw printable

/-- Each of several drawings is what the scene draws at first, and the layout is left as it is. -/
theorem Tidy.drawAll (h : Tidy config e) (modes : List Bool) :
    (e.drawAll modes).1 = modes.map (fun printable => (e.scene.draw printable).1) ∧
      (e.drawAll modes).2.scene.layout = e.scene.layout ∧
      (e.drawAll modes).2.scene.config = e.scene.config := by
  induction modes generalizing e with
  | nil => exact ⟨rfl, rfl, rfl⟩
  | cons printable rest ih =>
    obtain ⟨hdiagrams, hlayout, hconfig⟩ := ih (h.draw printable)
    have hdraw := draw_eq h.layout h.marks printable
    -- the drawing changes the marks only, and these make no difference to the scene
    have hscene : ∀ q, ((e.draw printable).2.scene.draw q).1 = (e.scene.draw q).1 := by
      intro q
      rw [hdraw]
      rfl
    have hkept : (e.draw printable).2.scene.layout = e.scene.layout ∧
        (e.draw printable).2.scene.config = e.scene.config := by
      rw [hdraw]
      exact ⟨rfl, rfl⟩
    refine ⟨?_, hlayout.trans hkept.1, hconfig.trans hkept.2⟩
    have hfirst : (e.draw printable).1 = (e.scene.draw printable).1 := by rw [hdraw]
    show (e.draw printable).1 :: ((e.draw printable).2.drawAll rest).1 = _
    rw [hdiagrams, hfirst, List.map_cons]
    exact congrArg _ (List.map_congr_left fun q _ => hscene q)

/-- A layout is drawn in any order and number without a trace: it is left as it is, each diagram is
the first one of its mode, and its shapes are found under the keys from zero on, in order. -/
theorem drawAll_reached (h : Reached config e) (modes : List Bool) :
    (e.drawAll modes).1 = modes.map (fun printable => (e.draw printable).1) ∧
      (e.drawAll modes).2.scene.layout = e.scene.layout ∧
      (e.drawAll modes).2.scene.config = e.scene.config ∧
      ∀ printable,
        (e.draw printable).1 = (e.scene.draw printable).1 ∧
          (e.draw printable).1.shapes.toList.map Shape.key =
            List.range (e.draw printable).1.shapes.size ∧
          ∀ key, (e.draw printable).1.shape? key = (e.draw printable).1.shapes[key]? := by
  have htidy := tidy_of_reached h
  have hdraw : ∀ printable, (e.draw printable).1 = (e.scene.draw printable).1 := fun printable => by
    rw [draw_eq htidy.layout htidy.marks]
  obtain ⟨hdiagrams, hlayout, hconfig⟩ := htidy.drawAll modes
  refine ⟨?_, hlayout, hconfig, fun printable => ⟨hdraw printable, ?_⟩⟩
  · simpa only [hdraw] using hdiagrams
  · have hkeys : (e.scene.draw printable).1.shapes.toList.map Shape.key =
        List.range (e.scene.draw printable).1.shapes.size := Drawing.keys_paint _
    rw [hdraw]
    exact ⟨hkeys, Diagram.shape?_eq hkeys⟩

/-- An array is drawn for the viewer, for an export and for the viewer again, after it has been
drawn and laid out before. -/
theorem drawAll_reached_again :
    let s : Snapshot :=
      ⟨0, [⟨⟨0⟩, "global", none, [⟨"xs", some (.object ⟨1⟩), false⟩]⟩],
        [(⟨1⟩, .array [.primitive (.bool true), .null])], some ⟨0⟩⟩
    let e : Easel Rat := (((((ofConfig .standard).load s).draw false).2.load s).draw true).2
    Reached .standard e ∧
      (e.drawAll [false, true, false]).1 =
        [(e.draw false).1, (e.draw true).1, (e.draw false).1] ∧
      (e.drawAll [false, true, false]).2.scene.layout = e.scene.layout ∧
      ∀ key, (e.draw true).1.shape? key = (e.draw true).1.shapes[key]? := by
  intro s e
  have he : Reached .standard e := .draw true (.load s (.draw false (.load s .begin)))
  obtain ⟨hdiagrams, hlayout, -, hdraw⟩ := drawAll_reached he [false, true, false]
  exact ⟨he, hdiagrams, hlayout, (hdraw true).2.2⟩

end Easel

end EnvDiagram
