import EnvDiagram.Proofs.Diagram.Connectors
import EnvDiagram.Proofs.Diagram.Tasks
import EnvDiagram.Scalar.Exact

/-!
# The ends of the arrows

However the router gets around things, a route starts and ends where it is asked to. So an arrow
starts at the row, cell or function that it comes from, and it ends on the border of what it
leads to: at the landing of a value or straight above or below its start on the edge of the
value, and a little below the top of the right edge of a frame.

* `Route.Joins` — the ends of a route
* `Layout.LandsAt`, `Layout.Joins` — where the arrows of a layout may end, and that one does
* `Drawing.Joined` — all arrows painted so far join their ends
* `Scene.joins_redraw` — so do the arrows of the diagram of a snapshot
-/

namespace EnvDiagram

open Scalar

variable {α : Type}

/-! ## Routes -/

/-- Whether a route leads from one point to another. -/
def Route.Joins (r : Route α) (source target : Point α) : Prop :=
  r.start? = some source ∧ r.end? = some target

theorem Route.joins_straight (source target : Point α) :
    (straight source target).Joins source target := ⟨rfl, rfl⟩

namespace Router

variable [Scalar α] (r : Router α) (source target : Point α)

theorem joins_toPoint : (r.toPoint source target).1.Joins source target := by
  unfold toPoint
  split
  · exact Route.joins_straight ..
  · dsimp only
    split <;> exact ⟨rfl, rfl⟩

theorem joins_loopBack (array : Bounds α) :
    (r.loopBack source array).Joins source ⟨array.x, array.y + half array.height⟩ := ⟨rfl, rfl⟩

theorem joins_toFrame (frame : Bounds α) :
    (r.toFrame source frame).1.Joins source (r.frameEntry frame) := by
  unfold toFrame
  dsimp only
  split
  · split
    · exact Route.joins_straight ..
    · exact ⟨rfl, rfl⟩
  · exact joins_toPoint ..

theorem framePaddingY_toFrame (frame : Bounds α) :
    (r.toFrame source frame).2.framePaddingY = r.framePaddingY := by
  have hreset := congrArg framePaddingY (r.reset_toFrame source frame)
  exact hreset

/-- A route into a box ends on the edge above or below its start, or at the left edge. -/
theorem joins_intoBox (box : Bounds α) (entryY : α) :
    (r.intoBox source box entryY).1.Joins source ⟨box.x, entryY⟩ ∨
      box.x ≤ source.x ∧ source.x ≤ box.right ∧ (r.intoBox source box entryY).1.Joins source
        ⟨source.x, if source.y < box.y then box.y else box.bottom⟩ := by
  unfold intoBox
  split
  · rename_i hwithin
    exact Or.inr ⟨hwithin.1, hwithin.2, Route.joins_straight ..⟩
  · exact Or.inl (joins_toPoint ..)

theorem framePaddingY_intoBox (box : Bounds α) (entryY : α) :
    (r.intoBox source box entryY).2.framePaddingY = r.framePaddingY := by
  have hreset := congrArg framePaddingY (r.reset_intoBox source box entryY)
  exact hreset

end Router

/-! ## Where arrows may end -/

variable [Scalar α]

/-- Where an arrow with a given start may land on the border of what it leads to. -/
inductive Layout.LandsAt (config : Config α) (l : Layout α) (start : Point α) :
    ArrowTarget → Point α → Prop
  /-- Where the value says: in the middle of its left edge. -/
  | landing {v : Nat} {x : Value α} : l.values[v]? = some x →
      LandsAt config l start (.value v) x.landing
  /-- From straight above or below, on the edge of the value. -/
  | edge {v : Nat} {x : Value α} : l.values[v]? = some x → x.bounds.x ≤ start.x →
      start.x ≤ x.bounds.right → LandsAt config l start (.value v)
        ⟨start.x, if start.y < x.bounds.y then x.bounds.y else x.bounds.bottom⟩
  /-- On the right edge of a frame, a padding below its top but not below its middle. -/
  | frame {i : Nat} {f : Frame α} : l.frames[i]? = some f → LandsAt config l start (.frame i)
      ⟨f.bounds.right, f.bounds.y + least (half f.bounds.height) config.framePaddingY⟩

/-- Whether an arrow leads from where its source is to the border of its target. -/
def Layout.Joins (config : Config α) (l : Layout α) (c : Connector α) : Prop :=
  ∃ start target, l.tail? c.source = some start ∧ c.route.Joins start target ∧
    l.LandsAt config start c.target target

/-! ## The arrows painted so far -/

namespace Painter

/-- The arrows among the shapes, in order. -/
def connectors (p : Painter α) : List (Connector α) :=
  p.shapes.toList.filterMap Diagram.connector?

omit [Scalar α] in
theorem mem_connectors {p : Painter α} {c : Connector α} :
    c ∈ p.connectors ↔ .connector c ∈ p.kinds := by
  simp only [connectors, kinds, List.mem_filterMap, List.mem_map]
  refine exists_congr fun s => and_congr_right fun _ => ?_
  cases hk : s.kind <;> simp [Diagram.connector?, hk]

omit [Scalar α] in
theorem router_emitAll (p : Painter α) (kinds : List (ShapeKind α)) :
    (p.emitAll kinds).router = p.router := by
  unfold emitAll
  induction kinds generalizing p with
  | nil => rfl
  | cons k rest ih => rw [List.foldl_cons, ih, emit]

end Painter

namespace Drawing

variable {d : Drawing α} {p : Painter α} {v : Nat} {x : Value α}

/-- All arrows painted so far join their ends. The router gets its settings from the drawing and
keeps them. -/
structure Joined (d : Drawing α) (p : Painter α) : Prop where
  router : p.router.framePaddingY = d.config.framePaddingY
  joins : ∀ c ∈ p.connectors, d.layout.Joins d.config c

/-- Shapes other than arrows. -/
theorem Joined.emitAll (h : d.Joined p) {kinds : List (ShapeKind α)}
    (hkinds : ∀ c, .connector c ∉ kinds) : d.Joined (p.emitAll kinds) where
  router := by
    rw [Painter.router_emitAll]
    exact h.router
  joins := by
    intro c hc
    rw [Painter.mem_connectors, Painter.kinds_emitAll, List.mem_append] at hc
    rcases hc with hc | hc
    · exact h.joins c (Painter.mem_connectors.mpr hc)
    · exact absurd hc (hkinds c)

theorem Joined.emit (h : d.Joined p) {kind : ShapeKind α} (hkind : ∀ c, kind ≠ .connector c) :
    d.Joined (p.emit kind) := by
  show d.Joined (p.emitAll [kind])
  exact h.emitAll fun c hc => hkind c (List.mem_singleton.mp hc).symm

theorem Joined.mark (h : d.Joined p) (m : Mark) : d.Joined (p.mark m) := ⟨h.router, h.joins⟩

theorem Joined.emitArrow (h : d.Joined p) {source : ArrowSource} {target : ArrowTarget}
    {route : Route α} {router : Router α} {start stop : Point α} (strokeWidth : α)
    (hrouter : router.framePaddingY = p.router.framePaddingY)
    (hstart : d.layout.tail? source = some start) (hroute : route.Joins start stop)
    (hstop : d.layout.LandsAt d.config start target stop) :
    d.Joined (d.emitArrow p source target route router strokeWidth) where
  router := hrouter.trans h.router
  joins := by
    intro c hc
    rw [Painter.mem_connectors, Drawing.emitArrow, Painter.kinds_emit, List.mem_append] at hc
    rcases hc with hc | hc
    · exact h.joins c (Painter.mem_connectors.mpr hc)
    · cases List.mem_singleton.mp hc
      exact ⟨start, stop, hstart, hroute, hstop⟩

/-! ## Steps -/

theorem Joined.paintFunction (h : d.Joined p) (hl : d.layout.Numbered) {f : FunctionGlyph α}
    (hx : d.layout.values[v]? = some x) (hk : x.kind = .function f) :
    d.Joined (d.paintFunction p v f) := by
  have hshapes : d.Joined (p.emitAll (d.functionShapes v f)) :=
    h.emitAll fun c => by simp [functionShapes, circleShapes, tooltipShape]
  unfold Drawing.paintFunction
  dsimp only
  split
  · exact hshapes
  · rename_i frame hframe
    obtain ⟨i, -, hi⟩ := Option.bind_eq_some_iff.mp hframe
    have hid : d.layout.frames[frame.id]? = some frame := by rwa [hl.frame hi]
    refine hshapes.emitArrow _ (Router.framePaddingY_toFrame ..) ?_ (Router.joins_toFrame ..) ?_
    · simp [Layout.tail?, hx, Value.glyph?, hk]
    · rw [Router.frameEntry, hshapes.router]
      exact .frame hid

theorem Joined.paintValue (h : d.Joined p) (hl : d.layout.Numbered)
    (hx : d.layout.values[v]? = some x) : d.Joined (d.paintValue p v x).1 := by
  have hmark := h.mark (.value v)
  unfold Drawing.paintValue
  split
  · exact hmark.emit fun c => by simp [literalShape]
  · exact hmark
  · rename_i f hk
    exact hmark.paintFunction hl hx hk

theorem Joined.paintCell (h : d.Joined p) (bounds : Bounds α) (c : Cell α) :
    d.Joined (d.paintCell p bounds c).1 := by
  have hcell : d.Joined ((p.emit (d.cellShape c)).mark (.cell c.array c.index)) :=
    (h.emit fun a => by simp [cellShape]).mark _
  unfold Drawing.paintCell
  split
  · exact hcell.emit fun a => by simp [nullShape]
  · exact hcell

theorem Joined.paintArrow (h : d.Joined p) {source : Reference} {start : Point α}
    {loop : Option (Bounds α)} {target : Nat}
    (hfits : DrawTask.Fits d.layout (.arrow source start loop target)) :
    d.Joined (d.paintArrow p source start loop target) := by
  obtain ⟨hstart, hloop⟩ := hfits
  unfold Drawing.paintArrow
  split
  · exact h
  · rename_i x hx
    split
    · exact h
    · cases loop with
      | some bounds =>
        -- the way around an array ends where arrows to that array land anyway
        obtain ⟨y, cells, hy, hk, rfl⟩ := hloop bounds rfl
        obtain rfl : y = x := Option.some.inj (hy.symm.trans hx)
        have hland : y.landing = ⟨y.bounds.x, y.bounds.y + half y.bounds.height⟩ := by
          rw [Value.landing, hk]
        refine h.emitArrow _ rfl hstart (Router.joins_loopBack ..) ?_
        rw [← hland]
        exact .landing hy
      | none =>
        dsimp only
        rcases p.router.joins_intoBox start x.bounds x.landing.y with hroute | ⟨hle, hle', hroute⟩
        · refine h.emitArrow _ (Router.framePaddingY_intoBox ..) hstart hroute ?_
          have hland : x.landing = ⟨x.bounds.x, x.landing.y⟩ := by
            unfold Value.landing
            split <;> rfl
          rw [← hland]
          exact .landing hx
        · exact h.emitArrow _ (Router.framePaddingY_intoBox ..) hstart hroute (.edge hx hle hle')

theorem keeps_joined (hl : d.layout.Numbered) : d.Keeps fun _ p _ => d.Joined p where
  skip := fun _ h => h
  value := fun hv h => h.paintValue hl (fresh?_eq_some.mp hv).2
  cell := fun _ h => h.paintCell ..
  arrow := fun hfits h => h.paintArrow hfits
  frame := fun _ h => (h.emitAll fun c => by simp [frameShapes]).mark _
  row := fun _ _ h => (h.emit fun c => by simp [keyShape]).mark _

/-- All arrows of a drawing join their ends. -/
theorem joined_paint (hl : d.layout.Numbered) : d.Joined d.paint :=
  (keeps_joined hl).paint hl ⟨rfl, by simp [start, Painter.connectors]⟩

end Drawing

section

-- a layout is known by its lemmas here, not by how it is computed
attribute [local irreducible] Layout.ofSnapshot

/-- Every arrow of the diagram of a snapshot leads from where its row, cell or function is to the
border of what it points at. -/
theorem Scene.joins_redraw (sc : Scene α) (s : Snapshot) (printable : Bool) :
    ∀ c ∈ (sc.redraw s printable).1.connectors,
      (sc.redraw s printable).2.layout.Joins sc.config c := by
  rw [redraw_eq]
  exact (Drawing.joined_paint (d := sc.drawing s printable)
    (Layout.numbered_ofSnapshot sc.config s)).joins

end

/-- The only cell of an array leads back to the array: its arrow goes around the array. -/
theorem Scene.joins_redraw_loop :
    let s : Snapshot := ⟨0, [⟨⟨0⟩, "global", none, [⟨"x", some (.object ⟨7⟩), false⟩]⟩],
      [(⟨7⟩, .array [.object ⟨7⟩])], some ⟨0⟩⟩
    let sc : Scene Rat := .ofConfig .standard
    ∃ c ∈ (sc.redraw s false).1.connectors, c.source = .reference (.cell 0 0) ∧
      c.target = .value 0 ∧ (sc.redraw s false).2.layout.Joins sc.config c := by
  intro s sc
  have htarget : (sc.load s).layout.target? (.cell 0 0) = some 0 := by cbv
  have hliteral : ((sc.load s).layout.values[0]?).map Value.isLiteral = some false := by cbv
  obtain ⟨x, hx, hlit⟩ := Option.map_eq_some_iff.mp hliteral
  obtain ⟨c, hc, hsource, hvalue⟩ := exists_connector false (.reference htarget hx hlit)
  exact ⟨c, hc, hsource, hvalue, joins_redraw sc s false c hc⟩

end EnvDiagram
