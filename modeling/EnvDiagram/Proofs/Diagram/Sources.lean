import EnvDiagram.Proofs.Diagram.Joints

/-!
# What shapes are painted for

A shape is painted for a part of the layout: for a frame or one of its rows, for a literal, a cell
or a function, or for an arrow. The router has taken lanes by then, but it is still the one that
the drawing started with. The way around an array is taken by the arrows from the array's own
cells and by no others.

* `Drawing.MayPaint` — the shapes that a drawing may paint, part by part
* `Drawing.MayPaint.intoBox`, `Drawing.MayPaint.tooltip` — arrows and tooltips among them
* `Drawing.traced_paint`, `Scene.mayPaint_redraw` — it paints no others
-/

namespace EnvDiagram

variable {α : Type}

/-- Whether a task has an arrow go around an array just if it comes from a cell of that array. -/
def DrawTask.Loops : DrawTask α → Prop
  | .arrow source _ loop target => loop.isSome = true ↔ ∃ i, source = .cell target i
  | _ => True

namespace Drawing

/-- An arrow. -/
def arrowShape (d : Drawing α) (source : ArrowSource) (target : ArrowTarget) (route : Route α)
    (strokeWidth : α) : ShapeKind α :=
  .connector
    { source
      target
      route
      color := d.palette.stroke
      strokeWidth
      headSize := d.config.arrowHeadSize }

variable [Scalar α]

/-- The shapes of the parts of a layout. The lanes that are taken when an arrow is routed are left
open. -/
inductive MayPaint (d : Drawing α) : ShapeKind α → Prop
  | frame {i : Nat} {f : Frame α} {kind : ShapeKind α} : d.layout.frames[i]? = some f →
      kind ∈ d.frameShapes f → MayPaint d kind
  | key {i j : Nat} {f : Frame α} {b : Binding α} : d.layout.frames[i]? = some f →
      f.bindings[j]? = some b → MayPaint d (d.keyShape b)
  | literal {v : Nat} {x : Value α} {text : String} {placeholder : Bool} :
      d.layout.values[v]? = some x → x.kind = .literal text placeholder →
      MayPaint d (d.literalShape v x.bounds text placeholder)
  | cell {v i : Nat} {x : Value α} {cells : Array (Cell α)} {c : Cell α} {kind : ShapeKind α} :
      d.layout.values[v]? = some x → x.kind = .array cells → cells[i]? = some c →
      kind = d.cellShape c ∨ kind = d.nullShape c → MayPaint d kind
  | function {v : Nat} {x : Value α} {f : FunctionGlyph α} {kind : ShapeKind α} :
      d.layout.values[v]? = some x → x.kind = .function f → kind ∈ d.functionShapes v f →
      MayPaint d kind
  | closure {v i : Nat} {x : Value α} {f : FunctionGlyph α} {frame : Frame α} {r : Router α} :
      d.layout.values[v]? = some x → x.kind = .function f → d.layout.frames[i]? = some frame →
      r.reset = .ofConfig d.config → MayPaint d (d.arrowShape (.function v) (.frame frame.id)
        (r.toFrame f.rightCircle frame.bounds).1 d.config.frameArrowStrokeWidth)
  | loop {v i : Nat} {x : Value α} {start : Point α} {r : Router α} :
      d.layout.values[v]? = some x → d.layout.tail? (.reference (.cell v i)) = some start →
      r.reset = .ofConfig d.config → MayPaint d (d.arrowShape (.reference (.cell v i)) (.value v)
        (r.loopBack start x.bounds) d.config.arrowStrokeWidth)
  | reference {v : Nat} {x : Value α} {source : Reference} {start : Point α} {r : Router α} :
      d.layout.values[v]? = some x → (∀ i, source ≠ .cell v i) →
      d.layout.tail? (.reference source) = some start → r.reset = .ofConfig d.config →
      MayPaint d (d.arrowShape (.reference source) (.value v)
        (r.intoBox start x.bounds x.landing.y).1 d.config.arrowStrokeWidth)

/-- The arrow of a row or a cell leads into the box of its target, if that is not the array that
the cell is one of. -/
theorem MayPaint.intoBox {d : Drawing α} {c : Connector α} {r : Reference}
    (h : d.MayPaint (.connector c)) (hsource : c.source = .reference r) :
    ∃ v x start, c.target = .value v ∧ d.layout.values[v]? = some x ∧
      d.layout.tail? (.reference r) = some start ∧ ((∀ i, r ≠ .cell v i) →
        ∃ router : Router α, c.route = (router.intoBox start x.bounds x.landing.y).1) := by
  generalize hkind : ShapeKind.connector c = kind at h
  cases h with
  | frame _ hshape =>
    subst hkind
    simp [frameShapes] at hshape
  | key => cases hkind
  | literal => cases hkind
  | cell _ _ _ hshape =>
    subst hkind
    rcases hshape with hshape | hshape <;> cases hshape
  | function _ _ hshape =>
    subst hkind
    simp [functionShapes, circleShapes, tooltipShape] at hshape
  | closure =>
    cases hkind
    cases hsource
  | @loop v i x start router hx hstart _ =>
    cases hkind
    cases hsource
    exact ⟨v, x, start, rfl, hx, hstart, fun hother => absurd rfl (hother i)⟩
  | @reference v x source start router hx _ hstart _ =>
    cases hkind
    cases hsource
    exact ⟨v, x, start, rfl, hx, hstart, fun _ => ⟨router, rfl⟩⟩

/-- A tooltip is that of a function. -/
theorem MayPaint.tooltip {d : Drawing α} {t : Tooltip α} (h : d.MayPaint (.tooltip t)) :
    ∃ v x f, d.layout.values[v]? = some x ∧ x.kind = .function f ∧
      .tooltip t = d.tooltipShape v f := by
  generalize hkind : ShapeKind.tooltip t = kind at h
  cases h with
  | frame _ hshape =>
    subst hkind
    simp [frameShapes] at hshape
  | key => cases hkind
  | literal => cases hkind
  | cell _ _ _ hshape =>
    subst hkind
    rcases hshape with hshape | hshape <;> cases hshape
  | @function v x f kind hx hk hshape =>
    subst hkind
    refine ⟨v, x, f, hx, hk, ?_⟩
    simpa [functionShapes, circleShapes] using hshape
  | closure => cases hkind
  | loop => cases hkind
  | reference => cases hkind

/-! ## What has been painted so far -/

/-- Every shape painted so far is that of a part of the layout. -/
structure Traced (d : Drawing α) (p : Painter α) : Prop where
  router : p.router.reset = .ofConfig d.config
  shapes : ∀ kind ∈ p.kinds, d.MayPaint kind

variable {d : Drawing α} {p : Painter α} {v : Nat} {x : Value α}
  {t : DrawTask α}

theorem Traced.emitAll (h : d.Traced p) {kinds : List (ShapeKind α)}
    (hkinds : ∀ kind ∈ kinds, d.MayPaint kind) : d.Traced (p.emitAll kinds) where
  router := by
    rw [Painter.router_emitAll]
    exact h.router
  shapes kind hkind := by
    rw [Painter.kinds_emitAll, List.mem_append] at hkind
    exact hkind.elim (h.shapes kind) (hkinds kind)

theorem Traced.emit (h : d.Traced p) {kind : ShapeKind α} (hkind : d.MayPaint kind) :
    d.Traced (p.emit kind) := by
  show d.Traced (p.emitAll [kind])
  exact h.emitAll fun k hk => List.mem_singleton.mp hk ▸ hkind

theorem Traced.mark (h : d.Traced p) (m : Mark) : d.Traced (p.mark m) := ⟨h.router, h.shapes⟩

theorem Traced.emitArrow (h : d.Traced p) {source : ArrowSource} {target : ArrowTarget}
    {route : Route α} {router : Router α} {strokeWidth : α}
    (hrouter : router.reset = p.router.reset)
    (harrow : d.MayPaint (d.arrowShape source target route strokeWidth)) :
    d.Traced (d.emitArrow p source target route router strokeWidth) := by
  have hnext : d.Traced { p with router } := ⟨hrouter.trans h.router, h.shapes⟩
  exact hnext.emit harrow

/-! ## Steps -/

theorem Traced.paintFunction (h : d.Traced p) {f : FunctionGlyph α}
    (hx : d.layout.values[v]? = some x) (hk : x.kind = .function f) :
    d.Traced (d.paintFunction p v f) := by
  have hshapes : d.Traced (p.emitAll (d.functionShapes v f)) :=
    h.emitAll fun _ hkind => .function hx hk hkind
  unfold Drawing.paintFunction
  dsimp only
  split
  · exact hshapes
  · rename_i frame hframe
    obtain ⟨i, -, hi⟩ := Option.bind_eq_some_iff.mp hframe
    exact hshapes.emitArrow (Router.reset_toFrame ..) (.closure hx hk hi hshapes.router)

theorem Traced.paintValue (h : d.Traced p) (hx : d.layout.values[v]? = some x) :
    d.Traced (d.paintValue p v x).1 := by
  have hmark := h.mark (.value v)
  unfold Drawing.paintValue
  split
  · rename_i hk
    exact hmark.emit (.literal hx hk)
  · exact hmark
  · rename_i f hk
    exact hmark.paintFunction hx hk

theorem Traced.paintCell (h : d.Traced p) {bounds : Bounds α} {c : Cell α}
    (hfits : DrawTask.Fits d.layout (.cell bounds c)) : d.Traced (d.paintCell p bounds c).1 := by
  obtain ⟨x, cells, hx, hk, hc, -⟩ := hfits
  have hcell : d.Traced ((p.emit (d.cellShape c)).mark (.cell c.array c.index)) :=
    (h.emit (.cell hx hk hc (Or.inl rfl))).mark _
  unfold Drawing.paintCell
  split
  · exact hcell.emit (.cell hx hk hc (Or.inr rfl))
  · exact hcell

theorem Traced.paintArrow (h : d.Traced p) {source : Reference} {start : Point α}
    {loop : Option (Bounds α)} {target : Nat}
    (hfits : DrawTask.Fits d.layout (.arrow source start loop target))
    (hloops : DrawTask.Loops (.arrow source start loop target)) :
    d.Traced (d.paintArrow p source start loop target) := by
  obtain ⟨hstart, hloop⟩ := hfits
  unfold Drawing.paintArrow
  split
  · exact h
  · rename_i x hx
    split
    · exact h
    · cases loop with
      | some bounds =>
        obtain ⟨y, cells, hy, -, rfl⟩ := hloop bounds rfl
        obtain ⟨i, rfl⟩ := hloops.mp rfl
        exact h.emitArrow rfl (.loop hy hstart h.router)
      | none =>
        have hother : ∀ i, source ≠ .cell target i := fun i hsource => by
          have hsome := hloops.mpr ⟨i, hsource⟩
          cases hsome
        exact h.emitArrow (Router.reset_intoBox ..) (.reference hx hother hstart h.router)

/-! ## Tasks -/

theorem loops_paintValue (ht : t ∈ (d.paintValue p v x).2) : t.Loops := by
  unfold Drawing.paintValue at ht
  split at ht
  · cases ht
  · obtain ⟨c, -, rfl⟩ := List.mem_map.mp ht
    trivial
  · cases ht

theorem loops_paintCell {bounds : Bounds α} {c : Cell α} (ht : t ∈ (d.paintCell p bounds c).2) :
    t.Loops := by
  unfold Drawing.paintCell at ht
  split at ht
  · cases ht
  · rename_i target _
    rcases List.mem_cons.mp ht with rfl | ht
    · trivial
    · obtain rfl := List.mem_singleton.mp ht
      by_cases htarget : target = c.array
      · rw [if_pos htarget, htarget]
        exact iff_of_true rfl ⟨c.index, rfl⟩
      · rw [if_neg htarget]
        refine iff_of_false nofun ?_
        rintro ⟨i, hcell⟩
        exact htarget (Reference.cell.inj hcell).1.symm

theorem loops_rowTasks {b : Binding α} (ht : t ∈ rowTasks b) : t.Loops := by
  unfold rowTasks at ht
  split at ht
  · cases ht
  · rcases List.mem_cons.mp ht with rfl | ht
    · trivial
    · obtain rfl := List.mem_singleton.mp ht
      exact iff_of_false nofun (by simp)

theorem keeps_traced (d : Drawing α) :
    d.Keeps fun _ p agenda => d.Traced p ∧ ∀ t ∈ agenda, t.Loops where
  skip := fun _ ⟨h, hloops⟩ => ⟨h, fun t ht => hloops t (List.mem_cons_of_mem _ ht)⟩
  value := fun hv ⟨h, hloops⟩ =>
    ⟨h.paintValue (fresh?_eq_some.mp hv).2, fun t ht => (List.mem_append.mp ht).elim
      loops_paintValue fun ht => hloops t (List.mem_cons_of_mem _ ht)⟩
  cell := fun hfits ⟨h, hloops⟩ =>
    ⟨h.paintCell hfits, fun t ht => (List.mem_append.mp ht).elim
      loops_paintCell fun ht => hloops t (List.mem_cons_of_mem _ ht)⟩
  arrow := fun hfits ⟨h, hloops⟩ =>
    ⟨h.paintArrow hfits (hloops _ List.mem_cons_self),
      fun t ht => hloops t (List.mem_cons_of_mem _ ht)⟩
  frame := fun hf ⟨h, hloops⟩ => ⟨(h.emitAll fun _ hkind => .frame hf hkind).mark _, hloops⟩
  row := fun hf hb ⟨h, _⟩ => ⟨(h.emit (.key hf hb)).mark _, fun _ ht => loops_rowTasks ht⟩

/-- Every shape of a drawing is that of a part of the layout. -/
theorem traced_paint (hl : d.layout.Numbered) : d.Traced d.paint :=
  ((keeps_traced d).paint hl
    ⟨⟨rfl, by simp [start, Painter.kinds]⟩, fun _ ht => absurd ht List.not_mem_nil⟩).1

end Drawing

section

-- a layout is known by its lemmas here, not by how it is computed
attribute [local irreducible] Layout.ofSnapshot

/-- Every shape of the diagram of a snapshot is that of a part of the layout. -/
theorem Scene.mayPaint_redraw [Scalar α] (sc : Scene α) (s : Snapshot) (printable : Bool) :
    ∀ shape ∈ (sc.redraw s printable).1.shapes, (sc.drawing s printable).MayPaint shape.kind := by
  intro shape hshape
  rw [redraw_eq] at hshape
  have htraced : (sc.drawing s printable).Traced (sc.drawing s printable).paint :=
    Drawing.traced_paint (Layout.numbered_ofSnapshot sc.config s)
  refine htraced.shapes _ ?_
  exact List.mem_map.mpr ⟨shape, Array.mem_toList_iff.mpr hshape, rfl⟩

theorem Scene.mayPaint_connector [Scalar α] {sc : Scene α} {s : Snapshot} {printable : Bool}
    {c : Connector α} (hc : c ∈ (sc.redraw s printable).1.connectors) :
    (sc.drawing s printable).MayPaint (.connector c) := by
  obtain ⟨shape, hshape, hkind⟩ := List.mem_filterMap.mp hc
  have hpaint := sc.mayPaint_redraw s printable shape (Array.mem_toList_iff.mp hshape)
  unfold Diagram.connector? at hkind
  split at hkind
  · rename_i hconnector
    cases hkind
    rwa [hconnector] at hpaint
  · cases hkind

end

end EnvDiagram
