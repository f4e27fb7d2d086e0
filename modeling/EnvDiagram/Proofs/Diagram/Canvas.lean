import EnvDiagram.Proofs.Diagram.Routing
import EnvDiagram.Proofs.Diagram.Sources
import EnvDiagram.Proofs.Layout.Areas
import EnvDiagram.Proofs.Layout.Margins

/-!
# On the canvas

The canvas is as large as the shapes ask for, so none of them reaches beyond its right or bottom
edge. Nothing looks after the left and the top edge. There everything depends on how far the
frames and values stay clear of them with the standard settings: a label is not as high as that,
and a route goes to the left of its ends and above them by less, since a lane lies within its
corridor and a detour rises no further than its height.

* `Route.OnCanvas`, `Router.Standard.toPoint` — routes between points that are clear of the edges
* `Drawing.MayPaint.onCanvas` — the shapes of the parts of a layout
* `Scene.onCanvas_redraw` — the shapes of the diagram of a snapshot
-/

namespace EnvDiagram

open Scalar

/-- Whether a point lies neither to the left of the canvas nor above it. -/
def Point.OnCanvas (p : Point Rat) : Prop := 0 ≤ p.x ∧ 0 ≤ p.y

theorem Point.Clear.onCanvas {p : Point Rat} (h : p.Clear) : p.OnCanvas := by
  obtain ⟨hx, hy⟩ := h
  exact ⟨by linarith, by linarith⟩

/-! ## Rectangles -/

namespace Bounds

variable {b : Bounds Rat} {points : List (Point Rat)}

theorem le_foldl_least {k : Point Rat → Rat} {low start : Rat} (hstart : low ≤ start)
    (h : ∀ p ∈ points, low ≤ k p) : low ≤ points.foldl (fun m p => least m (k p)) start := by
  refine foldl_keeps (P := fun _ m => low ≤ m) points (fun done p m hdone hm => ?_) hstart
  have hp : p ∈ points := hdone.subset (List.mem_append_right _ List.mem_cons_self)
  exact (le_min hm (h p hp)).trans (least_eq_min ..).ge

/-- What covers points on the canvas starts on the canvas. -/
theorem onCanvas_ofPoints (h : ∀ p ∈ points, p.OnCanvas) : (ofPoints points).corner.OnCanvas := by
  cases points with
  | nil => exact ⟨le_refl _, le_refl _⟩
  | cons p more =>
    have hp := h p List.mem_cons_self
    have hmore := fun q hq => h q (List.mem_cons_of_mem p hq)
    exact ⟨le_foldl_least hp.1 fun q hq => (hmore q hq).1,
      le_foldl_least hp.2 fun q hq => (hmore q hq).2⟩

theorem endsIn_foldl_union (b : Bounds Rat) (more : List (Bounds Rat)) :
    b.EndsIn (more.foldl union b) ∧ ∀ c ∈ more, c.EndsIn (more.foldl union b) := by
  refine foldl_keeps (P := fun done area => b.EndsIn area ∧ ∀ c ∈ done, c.EndsIn area) more
    (fun done c area _ ⟨hb, hdone⟩ => ?_) ⟨.refl b, fun c hc => absurd hc List.not_mem_nil⟩
  refine ⟨hb.trans (.union_left ..), fun e he => ?_⟩
  rcases List.mem_append.mp he with he | he
  · exact (hdone e he).trans (.union_left ..)
  · rw [List.mem_singleton.mp he]
    exact .union_right ..

/-- What is covered ends in the cover. -/
theorem endsIn_cover {all : List (Bounds Rat)} (h : b ∈ all) : b.EndsIn (cover all) := by
  cases all with
  | nil => exact absurd h List.not_mem_nil
  | cons c more =>
    obtain ⟨hc, hmore⟩ := endsIn_foldl_union c more
    rcases List.mem_cons.mp h with rfl | h
    · exact hc
    · exact hmore b h

end Bounds

/-! ## Routes -/

/-- Whether a route goes neither to the left of the canvas nor above it. -/
def Route.OnCanvas (r : Route Rat) : Prop := ∀ p ∈ r.points, p.OnCanvas

theorem Route.onCanvas_straight {source target : Point Rat} (hs : source.OnCanvas)
    (ht : target.OnCanvas) : (straight source target).OnCanvas := by
  intro p hp
  rcases List.mem_cons.mp hp with rfl | hp
  · exact hs
  · rw [List.mem_singleton.mp hp]
    exact ht

namespace Router

variable {r : Router Rat} {source target : Point Rat} {box : Bounds Rat} {entryY : Rat}

/-- Lanes and loops with the standard settings. -/
structure Standard (r : Router Rat) : Prop where
  laneGap : r.laneGap = 5
  lanes : r.lanes = 6
  loopHeight : r.loopHeight = 25
  framePaddingY : r.framePaddingY = 30

theorem standard_of_reset (h : r.reset = .ofConfig .standard) : r.Standard where
  laneGap := by
    have hgap : r.laneGap = 60 / 2 / (6 : Nat) := congrArg laneGap h
    rw [hgap]
    norm_num
  lanes := congrArg lanes h
  loopHeight := by
    have hheight : r.loopHeight = 100 / (4 : Nat) := congrArg loopHeight h
    rw [hheight]
    norm_num
  framePaddingY := congrArg framePaddingY h

/-- A lane is no further out than the corridor is wide. -/
theorem Standard.laneOffset (h : r.Standard) (corridor : Int) :
    0 ≤ r.laneOffset corridor ∧ r.laneOffset corridor ≤ 30 := by
  have hroomy : r.Roomy :=
    ⟨by rw [h.laneGap]; norm_num, by rw [h.lanes]; norm_num, by rw [h.loopHeight]; norm_num⟩
  obtain ⟨hpos, hle⟩ := hroomy.laneOffset corridor
  have hwidth : r.corridorWidth = 30 := by
    rw [corridorWidth, h.laneGap, h.lanes]
    norm_num
  exact ⟨hpos.le, hle.trans_eq hwidth⟩

theorem Standard.toPoint (h : r.Standard) (hs : source.Clear) (ht : target.Clear) :
    (r.toPoint source target).1.OnCanvas := by
  unfold Router.toPoint
  split
  · exact Route.onCanvas_straight hs.onCanvas ht.onCanvas
  · obtain ⟨hpos, hle⟩ := h.laneOffset (nearestInt source.x)
    obtain ⟨hsx, hsy⟩ := hs
    obtain ⟨htx, hty⟩ := ht
    have hout : 0 ≤ source.x + r.laneOffset (nearestInt source.x) := by linarith
    have hback : 0 ≤ target.x - r.laneOffset (nearestInt source.x) := by linarith
    have htop : 0 ≤ least source.y target.y - r.loopHeight := by
      have hmin : 40 ≤ least source.y target.y := (le_min hsy hty).trans (least_eq_min ..).ge
      rw [h.loopHeight]
      linarith
    have hs := Point.Clear.onCanvas ⟨hsx, hsy⟩
    have ht := Point.Clear.onCanvas ⟨htx, hty⟩
    dsimp only
    split
    · intro p hp
      simp only [List.mem_cons, List.not_mem_nil, or_false] at hp
      rcases hp with rfl | rfl | rfl | rfl
      · exact hs
      · exact ⟨hout, hs.2⟩
      · exact ⟨hout, ht.2⟩
      · exact ht
    · intro p hp
      simp only [List.mem_cons, List.not_mem_nil, or_false] at hp
      rcases hp with rfl | rfl | rfl | rfl | rfl | rfl
      · exact hs
      · exact ⟨hout, hs.2⟩
      · exact ⟨hout, htop⟩
      · exact ⟨hback, htop⟩
      · exact ⟨hback, ht.2⟩
      · exact ht

theorem Standard.intoBox (h : r.Standard) (hs : source.Clear) (hbox : box.corner.Clear)
    (hheight : 0 ≤ box.height) (hentry : 40 ≤ entryY) :
    (r.intoBox source box entryY).1.OnCanvas := by
  unfold Router.intoBox
  split
  · refine Route.onCanvas_straight hs.onCanvas ⟨hs.onCanvas.1, ?_⟩
    have hy : 40 ≤ box.y := hbox.2
    show 0 ≤ if source.y < box.y then box.y else box.y + box.height
    split <;> linarith
  · exact h.toPoint hs ⟨hbox.1, hentry⟩

/-- The right edge of a frame is hit between its top and its bottom edge. -/
theorem Standard.frameEntry (h : r.Standard) (hframe : box.corner.Clear) (hwidth : 0 ≤ box.width)
    (hheight : 0 ≤ box.height) : (r.frameEntry box).Clear := by
  obtain ⟨hx, hy⟩ := hframe
  have hx' : 40 ≤ box.x := hx
  have hy' : 40 ≤ box.y := hy
  have hin : 0 ≤ least (half box.height) r.framePaddingY := by
    rw [h.framePaddingY]
    exact (le_min (div_nonneg hheight (by norm_num)) (by norm_num)).trans (least_eq_min ..).ge
  constructor
  · show 40 ≤ box.x + box.width
    linarith
  · show 40 ≤ box.y + least (half box.height) r.framePaddingY
    linarith

theorem Standard.toFrame (h : r.Standard) (hs : source.Clear) (hframe : box.corner.Clear)
    (hwidth : 0 ≤ box.width) (hheight : 0 ≤ box.height) :
    (r.toFrame source box).1.OnCanvas := by
  have ht := h.frameEntry hframe hwidth hheight
  unfold Router.toFrame
  dsimp only
  split
  · split
    · exact Route.onCanvas_straight hs.onCanvas ht.onCanvas
    · intro p hp
      simp only [List.mem_cons, List.not_mem_nil, or_false] at hp
      rcases hp with rfl | rfl | rfl
      · exact hs.onCanvas
      · exact ⟨hs.onCanvas.1, ht.onCanvas.2⟩
      · exact ht.onCanvas
  · exact h.toPoint hs ht

theorem Standard.loopBack (h : r.Standard) (hs : source.Clear) (harray : box.corner.Clear)
    (hheight : 0 ≤ box.height) : (r.loopBack source box).OnCanvas := by
  obtain ⟨hx, hy⟩ := harray
  have hx' : 0 ≤ box.x := by linarith [show 40 ≤ box.x from hx]
  have hleft : 0 ≤ box.x - twice r.laneGap := by
    rw [h.laneGap]
    show 0 ≤ box.x - 2 * 5
    linarith [show 40 ≤ box.x from hx]
  have htop : 0 ≤ box.y - r.loopHeight := by
    rw [h.loopHeight]
    linarith [show 40 ≤ box.y from hy]
  have hmid : 0 ≤ box.y + half box.height := by
    have hhalf : 0 ≤ half box.height := div_nonneg hheight (by norm_num)
    linarith [show 40 ≤ box.y from hy]
  intro p hp
  simp only [Router.loopBack, List.mem_cons, List.not_mem_nil, or_false] at hp
  rcases hp with rfl | rfl | rfl | rfl | rfl
  · exact hs.onCanvas
  · exact ⟨hs.onCanvas.1, htop⟩
  · exact ⟨hleft, htop⟩
  · exact ⟨hleft, hmid⟩
  · exact ⟨hx', hmid⟩

end Router

/-! ## Layouts -/

namespace Layout

-- a layout is known by its lemmas here, not by how it is computed
attribute [local irreducible] ofSnapshot

/-- Arrows start clear of the edges. -/
theorem clear_tail {s : Snapshot} {r : Reference} {start : Point Rat}
    (h : (ofSnapshot (.standard : Config Rat) s).tail? (.reference r) = some start) :
    start.Clear := by
  cases r with
  | binding i j =>
    obtain ⟨b, hb, rfl⟩ := Option.map_eq_some_iff.mp h
    obtain ⟨f, hf, hb⟩ := Option.bind_eq_some_iff.mp hb
    obtain ⟨-, ⟨hx, hy⟩, hwidth, hheight⟩ :=
      clear_rowAnchor (Array.mem_of_getElem? hf) (Array.mem_of_getElem? hb)
    have hx' : 40 ≤ b.bounds.x := hx
    have hy' : 40 ≤ b.bounds.y := hy
    constructor
    · show 40 ≤ b.bounds.x + b.bounds.width
      linarith
    · show 40 ≤ b.bounds.y + b.bounds.height / 2
      linarith
  | cell v i =>
    obtain ⟨c, hc, rfl⟩ := Option.map_eq_some_iff.mp h
    obtain ⟨cells, hcells, hc⟩ := Option.bind_eq_some_iff.mp hc
    obtain ⟨x, hx, hk⟩ := Option.bind_eq_some_iff.mp hcells
    obtain ⟨hleft, htop, hwidth, hheight⟩ := clear_cell hx (cells?_eq_some_iff.mp hk) hc
    constructor
    · show 40 ≤ c.bounds.x + c.bounds.width / 2
      linarith
    · show 40 ≤ c.bounds.y + c.bounds.height / 2
      linarith

end Layout

/-! ## Shapes -/

namespace Drawing

variable {s : Snapshot} {d : Drawing Rat} {b : Bounds Rat} {v : Nat} {x : Value Rat}

/-- The shapes of a frame: the label rises above the frame. -/
theorem onCanvas_frameShapes (hconfig : d.config = .standard) {f : Frame Rat}
    (hf : f.bounds.corner.Clear) {kind : ShapeKind Rat} (hkind : kind ∈ d.frameShapes f)
    (hb : kind.extent? .standard = some b) : b.corner.OnCanvas := by
  have hx : 40 ≤ f.bounds.x := hf.1
  have hy : 40 ≤ f.bounds.y := hf.2
  rw [frameShapes, hconfig] at hkind
  rcases List.mem_cons.mp hkind with rfl | hkind
  · cases hb
    constructor
    · show 0 ≤ f.bounds.x
      linarith
    · show 0 ≤ f.bounds.y - 15 - 5
      linarith
  · obtain rfl := List.mem_singleton.mp hkind
    cases hb
    exact hf.onCanvas

theorem onCanvas_circleShapes {f : FunctionGlyph Rat} (hradius : f.radius = 15)
    (hinner : f.innerRadius = 3) {center : Point Rat} (hx : 15 ≤ center.x) (hy : 15 ≤ center.y)
    {kind : ShapeKind Rat} (hkind : kind ∈ d.circleShapes v f center)
    (hb : kind.extent? .standard = some b) : b.corner.OnCanvas := by
  rcases List.mem_cons.mp hkind with rfl | hkind
  · cases hb
    constructor
    · show 0 ≤ center.x - f.radius
      linarith
    · show 0 ≤ center.y - f.radius
      linarith
  · obtain rfl := List.mem_singleton.mp hkind
    cases hb
    constructor
    · show 0 ≤ center.x - f.innerRadius
      linarith
    · show 0 ≤ center.y - f.innerRadius
      linarith

/-- A tooltip is to the right of the circles, and a little higher. -/
theorem onCanvas_tooltipCorner {f : FunctionGlyph Rat} (hx : 70 ≤ f.center.x)
    (hy : 55 ≤ f.center.y) (hradius : f.radius = 15) : (f.tooltipCorner .standard).OnCanvas := by
  constructor
  · show 0 ≤ f.center.x + 2 * f.radius + 2 * 10
    linarith
  · show 0 ≤ f.center.y - 20
    linarith

/-- The shapes of a function: the circles, and the tooltip if it is shown. -/
theorem onCanvas_functionShapes (hconfig : d.config = .standard) {f : FunctionGlyph Rat}
    (hf : 70 ≤ f.center.x ∧ 55 ≤ f.center.y ∧ f.radius = 15 ∧ f.innerRadius = 3)
    {kind : ShapeKind Rat} (hkind : kind ∈ d.functionShapes v f)
    (hb : kind.extent? .standard = some b) : b.corner.OnCanvas := by
  obtain ⟨hx, hy, hradius, hinner⟩ := hf
  have hleft : 15 ≤ f.leftCircle.x := by
    show 15 ≤ f.center.x - f.radius
    linarith
  have hright : 15 ≤ f.rightCircle.x := by
    show 15 ≤ f.center.x + f.radius
    linarith
  have hmiddle : 15 ≤ f.center.y := by linarith
  rcases List.mem_append.mp hkind with hkind | hkind
  · rcases List.mem_append.mp hkind with hkind | hkind
    · exact onCanvas_circleShapes hradius hinner hleft hmiddle hkind hb
    · exact onCanvas_circleShapes hradius hinner hright hmiddle hkind hb
  · obtain rfl := List.mem_singleton.mp hkind
    rw [tooltipShape, ShapeKind.extent?] at hb
    split at hb
    · cases hb
      rw [hconfig]
      exact onCanvas_tooltipCorner hx hy hradius
    · cases hb

/-- The shapes of a cell: its rectangle, and the diagonal of an empty one. -/
theorem onCanvas_cellShapes {c : Cell Rat} (hx : 0 ≤ c.bounds.x) (hy : 0 ≤ c.bounds.y)
    (hwidth : 0 ≤ c.bounds.width) (hheight : 0 ≤ c.bounds.height) {kind : ShapeKind Rat}
    (hkind : kind = d.cellShape c ∨ kind = d.nullShape c)
    (hb : kind.extent? .standard = some b) : b.corner.OnCanvas := by
  rcases hkind with rfl | rfl
  · cases hb
    exact ⟨hx, hy⟩
  · cases hb
    refine Bounds.onCanvas_ofPoints fun p hp => ?_
    rcases List.mem_cons.mp hp with rfl | hp
    · exact ⟨hx, add_nonneg hy hheight⟩
    · rw [List.mem_singleton.mp hp]
      exact ⟨add_nonneg hx hwidth, hy⟩

theorem onCanvas_arrowShape {source : ArrowSource} {target : ArrowTarget} {route : Route Rat}
    {strokeWidth : Rat} (hroute : route.OnCanvas)
    (hb : (d.arrowShape source target route strokeWidth).extent? .standard = some b) :
    b.corner.OnCanvas := by
  cases hb
  exact Bounds.onCanvas_ofPoints hroute

/-- Every shape of a part of a layout starts on the canvas, if it takes up room there. -/
theorem MayPaint.onCanvas (hconfig : d.config = .standard)
    (hlayout : d.layout = .ofSnapshot .standard s) {kind : ShapeKind Rat} (h : d.MayPaint kind)
    (hb : kind.extent? .standard = some b) : b.corner.OnCanvas := by
  cases h with
  | frame hf hkind =>
    rw [hlayout] at hf
    exact onCanvas_frameShapes hconfig
      ((Layout.spaced_ofSnapshot s).frame _ (Array.mem_of_getElem? hf)) hkind hb
  | @key i j f row hf hrow =>
    rw [hlayout] at hf
    obtain ⟨-, hcorner, -, hheight⟩ :=
      Layout.clear_rowAnchor (Array.mem_of_getElem? hf) (Array.mem_of_getElem? hrow)
    obtain ⟨hx, hy⟩ := hcorner.onCanvas
    have hy' : 0 ≤ row.bounds.y := hy
    rw [keyShape, hconfig] at hb
    cases hb
    refine ⟨hx, ?_⟩
    show 0 ≤ row.bounds.y + (row.bounds.height - 15) / 2
    linarith
  | literal hx hk =>
    rw [hlayout] at hx
    cases hb
    exact (Layout.clear_value hx).1.onCanvas
  | cell hx hk hc hkind =>
    rw [hlayout] at hx
    obtain ⟨hleft, htop, hwidth, hheight⟩ := Layout.clear_cell hx hk hc
    exact onCanvas_cellShapes (by linarith) (by linarith) (by linarith) (by linarith) hkind hb
  | function hx hk hkind =>
    rw [hlayout] at hx
    exact onCanvas_functionShapes hconfig (Layout.clear_function hx hk) hkind hb
  | @closure v i x f frame router hx hk hf hr =>
    rw [hconfig] at hr
    rw [hlayout] at hx hf
    obtain ⟨hleft, htop, hradius, -⟩ := Layout.clear_function hx hk
    have hsource : f.rightCircle.Clear := by
      constructor
      · show 40 ≤ f.center.x + f.radius
        linarith
      · show 40 ≤ f.center.y
        linarith
    have hfm := Array.mem_of_getElem? hf
    obtain ⟨hwidth, hheight⟩ := Layout.size_ofSnapshot hfm
    have hframe := (Layout.spaced_ofSnapshot s).frame _ hfm
    exact onCanvas_arrowShape
      ((Router.standard_of_reset hr).toFrame hsource hframe hwidth hheight) hb
  | loop hx hstart hr =>
    rw [hconfig] at hr
    rw [hlayout] at hx hstart
    obtain ⟨hcorner, hheight, -⟩ := Layout.clear_value hx
    exact onCanvas_arrowShape
      ((Router.standard_of_reset hr).loopBack (Layout.clear_tail hstart) hcorner hheight) hb
  | reference hx _ hstart hr =>
    rw [hconfig] at hr
    rw [hlayout] at hx hstart
    obtain ⟨hcorner, hheight, hlanding⟩ := Layout.clear_value hx
    exact onCanvas_arrowShape ((Router.standard_of_reset hr).intoBox (Layout.clear_tail hstart)
      hcorner hheight hlanding) hb

end Drawing

/-! ## The canvas of a diagram -/

/-- Whether all shapes of a diagram lie on its canvas with the padding of the right and the bottom
edge left free, apart from the tooltips that are hidden. -/
def Diagram.OnCanvas (config : Config Rat) (d : Diagram Rat) : Prop :=
  ∀ shape ∈ d.shapes, (∃ t, shape.kind = .tooltip t ∧ t.visible = false) ∨
    ∃ b, shape.kind.extent? config = some b ∧ 0 ≤ b.x ∧ 0 ≤ b.y ∧
      b.right ≤ d.width - config.canvasPaddingX ∧ b.bottom ≤ d.height - config.canvasPaddingY

theorem ShapeKind.extent?_eq_none {config : Config Rat} {kind : ShapeKind Rat}
    (h : kind.extent? config = none) : ∃ t, kind = .tooltip t ∧ t.visible = false := by
  cases kind with
  | tooltip t =>
    refine ⟨t, rfl, ?_⟩
    rw [extent?] at h
    split at h
    · cases h
    · exact Bool.eq_false_of_not_eq_true ‹_›
  | rect => cases h
  | text => cases h
  | circle => cases h
  | line => cases h
  | connector => cases h

/-- The canvas makes room for every shape, and for the padding after it. -/
theorem Drawing.fits_diagram {d : Drawing Rat} {p : Painter Rat} {shape : Shape Rat}
    {b : Bounds Rat} (hshape : shape ∈ p.shapes)
    (hb : shape.kind.extent? d.config = some b) :
    b.right ≤ (d.diagram p).width - d.config.canvasPaddingX ∧
      b.bottom ≤ (d.diagram p).height - d.config.canvasPaddingY := by
  set extents := p.shapes.toList.filterMap fun shape => shape.kind.extent? d.config with hextents
  have hmem : b ∈ extents := by
    rw [hextents]
    exact List.mem_filterMap.mpr ⟨shape, Array.mem_toList_iff.mpr hshape, hb⟩
  obtain ⟨hright, hbottom⟩ := Bounds.endsIn_cover hmem
  have hwidth : (Bounds.cover extents).right + d.config.canvasPaddingX ≤ (d.diagram p).width := by
    show _ ≤ greatest _ _
    rw [greatest_eq_max]
    exact le_max_left ..
  have hheight : (Bounds.cover extents).bottom + d.config.canvasPaddingY ≤
      (d.diagram p).height := by
    show _ ≤ greatest _ _
    rw [greatest_eq_max]
    exact le_max_left ..
  exact ⟨by linarith, by linarith⟩

section

-- a layout is known by its lemmas here, not by how it is computed
attribute [local irreducible] Layout.ofSnapshot

theorem Scene.fits_redraw {sc : Scene Rat} {s : Snapshot} {printable : Bool} {shape : Shape Rat}
    {b : Bounds Rat} (hshape : shape ∈ (sc.redraw s printable).1.shapes)
    (hb : shape.kind.extent? sc.config = some b) :
    b.right ≤ (sc.redraw s printable).1.width - sc.config.canvasPaddingX ∧
      b.bottom ≤ (sc.redraw s printable).1.height - sc.config.canvasPaddingY := by
  rw [redraw_eq] at hshape ⊢
  exact Drawing.fits_diagram (d := sc.drawing s printable) hshape hb

/-- With the standard settings every shape of the diagram of a snapshot lies on the canvas. -/
theorem Scene.onCanvas_redraw (layout : Layout Rat) (marks : List Mark) (s : Snapshot)
    (printable : Bool) :
    ((Scene.mk Config.standard layout marks).redraw s printable).1.OnCanvas .standard := by
  intro shape hshape
  set sc : Scene Rat := ⟨.standard, layout, marks⟩
  cases hb : shape.kind.extent? .standard with
  | none => exact Or.inl (ShapeKind.extent?_eq_none hb)
  | some b =>
    obtain ⟨hx, hy⟩ := (sc.mayPaint_redraw s printable shape hshape).onCanvas rfl rfl hb
    obtain ⟨hright, hbottom⟩ := fits_redraw hshape hb
    exact Or.inr ⟨b, rfl, hx, hy, hright, hbottom⟩

end

end EnvDiagram
