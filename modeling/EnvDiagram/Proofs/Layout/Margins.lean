import EnvDiagram.Proofs.Layout.Apart
import EnvDiagram.Proofs.Layout.Overhang
import EnvDiagram.Proofs.Layout.Sites

/-!
# Clear of the left and the top edge

The first frame of a level starts a padding away from the left edge, and the first level a padding
below the top edge; from there everything goes on to the right and down. Only a function below a
cell is wider than the cell and a little further to the left, and what it is placed by has come
far enough to the right by then. So frames and values start no closer to the two edges than the
first frame does.

* `Anchor.Clear`, `Anchor.spreads_clear` — anchors from which values stay clear of the edges
* `Value.PlacedFrom.clear` — a value that is made for such an anchor
* `Layout.spaced_ofSnapshot` — the frames and values of a snapshot
* `Layout.clear_rowAnchor`, `Layout.clear_cell`, `Layout.clear_function` — and their parts
-/

namespace EnvDiagram

open Scalar

/-- Whether a point is no closer to the left and the top edge of the canvas than the first frame
is with the standard settings. -/
def Point.Clear (p : Point Rat) : Prop := 40 ≤ p.x ∧ 40 ≤ p.y

/-- The top-left corner of a rectangle. -/
def Bounds.corner {α : Type} (b : Bounds α) : Point α := ⟨b.x, b.y⟩

namespace Anchor

/-- Whether what is placed from an anchor comes to lie clear of the edges. To the left of a cell
there is room for the part of a function that sticks out. -/
def Clear : Anchor Rat → Prop
  | .row _ _ _ frameBounds b =>
    40 ≤ frameBounds.right ∧ b.corner.Clear ∧ 0 ≤ b.width ∧ b.height = 40
  | .cell _ _ b _ height =>
    50 ≤ b.x ∧ 40 ≤ b.y ∧ b.width = 40 ∧ b.height = 40 ∧ height = 40
  | .stray _ _ => False

variable {anchor : Anchor Rat}

/-- An array is placed clear of the edges, with the same room to its left. -/
theorem Clear.arrayOrigin (h : anchor.Clear) :
    50 ≤ (anchor.arrayOrigin .standard).x ∧ 40 ≤ (anchor.arrayOrigin .standard).y := by
  cases anchor with
  | row f i node frameBounds b =>
    obtain ⟨hright, ⟨-, hy⟩, -, -⟩ := h
    refine ⟨?_, hy⟩
    show 50 ≤ frameBounds.right + 60 / 4
    linarith
  | cell array i b isLast height =>
    obtain ⟨hx, hy, -, -, rfl⟩ := h
    cases isLast with
    | true =>
      refine ⟨?_, hy⟩
      show 50 ≤ b.x + 2 * 40
      linarith
    | false =>
      refine ⟨hx, ?_⟩
      show 40 ≤ b.y + 40 + 40
      linarith
  | stray array i => exact h.elim

theorem spreads_clear : Spreads (.standard : Config Rat) Clear := by
  intro anchor array length i h _ cell
  obtain ⟨hx, hy⟩ := h.arrayOrigin
  have hoffset : (0 : Rat) ≤ (i : Rat) * 40 := mul_nonneg (Nat.cast_nonneg i) (by norm_num)
  refine ⟨?_, hy, rfl, rfl, rfl⟩
  show 50 ≤ (anchor.arrayOrigin .standard).x + (i : Rat) * 40
  linarith

/-- A function is placed clear of the edges, circles and all. -/
theorem Clear.functionCenter (h : anchor.Clear) :
    40 ≤ (anchor.functionCenter .standard).x - 2 * 15 ∧
      40 ≤ (anchor.functionCenter .standard).y - 15 := by
  obtain ⟨hx, hy⟩ := h.arrayOrigin
  cases anchor with
  | row f i node frameBounds b =>
    obtain ⟨hright, -, -, hheight⟩ := h
    constructor
    · show 40 ≤ frameBounds.right + 60 / 4 + 2 * 15 - 2 * 15
      linarith
    · have hy' : 40 ≤ b.y := hy
      show 40 ≤ b.y + b.height / 2 - 15
      linarith
  | cell array i b isLast height =>
    set p := (Anchor.cell array i b isLast height).arrayOrigin .standard with hp
    cases isLast with
    | true =>
      obtain ⟨hbx, -⟩ := h
      have hpx : p.x = b.x + 2 * 40 := rfl
      constructor
      · show 40 ≤ p.x + 40 / 2 - 2 * 15
        linarith
      · show 40 ≤ p.y + 40 / 2 - 15
        linarith
    | false =>
      constructor
      · show 40 ≤ p.x + 40 / 2 - 2 * 15
        linarith
      · show 40 ≤ p.y + 15 - 15
        linarith
  | stray array i => exact h.elim

/-- A text in a cell is no wider than the room that is left to it, or than the ellipsis. -/
theorem Clear.placeText (h : anchor.Clear) (text : String) :
    (anchor.placeText .standard text).2.corner.Clear := by
  cases anchor with
  | row f i node frameBounds b =>
    obtain ⟨-, ⟨hx, hy⟩, hwidth, hheight⟩ := h
    have hx' : 40 ≤ b.x := hx
    have hy' : 40 ≤ b.y := hy
    constructor
    · show 40 ≤ b.x + b.width
      linarith
    · show 40 ≤ b.y + (b.height - 15) / 2
      linarith
  | cell array i b isLast height =>
    obtain ⟨hx, hy, hwidth, hheight, -⟩ := h
    set box := ((Anchor.cell array i b isLast height).placeText .standard text).2
    have hroom : max (b.width - 2 * 5)
        (Text.width (.standard : Config Rat) (.standard : Config Rat).ellipsis) ≤ 30 := by
      rw [Text.width_ellipsis_standard, hwidth]
      norm_num
    have hcut : box.width ≤ 30 :=
      (Text.width_fit_le Config.charWidth_standard_pos (b.width - 2 * 5) text).trans hroom
    have hleft : box.x = b.x + (b.width - box.width) / 2 := rfl
    constructor
    · show 40 ≤ box.x
      linarith
    · show 40 ≤ b.y + (b.height - 15) / 2
      linarith
  | stray array i => exact h.elim

end Anchor

/-! ## Values -/

namespace Value

variable {x : Value Rat} {anchor : Anchor Rat} {cells : Array (Cell Rat)} {f : FunctionGlyph Rat}

/-- A value that is made for an anchor clear of the edges is clear of them, too. -/
theorem PlacedFrom.clear (h : x.PlacedFrom .standard anchor) (hclear : anchor.Clear) :
    x.bounds.corner.Clear := by
  obtain ⟨id, datum, kind, bounds, references⟩ := x
  cases kind with
  | literal text placeholder =>
    obtain ⟨whole, hplace⟩ := h
    have hclear' := hclear.placeText whole
    rw [hplace] at hclear'
    exact hclear'
  | array cells =>
    obtain ⟨hbounds, -⟩ := h
    obtain ⟨hx, hy⟩ := hclear.arrayOrigin
    obtain rfl : bounds = _ := hbounds
    refine ⟨?_, hy⟩
    show 40 ≤ (anchor.arrayOrigin .standard).x
    linarith
  | function f =>
    obtain ⟨hcenter, hradius, -, hbounds⟩ := h
    obtain ⟨hx, hy⟩ := hclear.functionCenter
    obtain rfl : bounds = _ := hbounds
    rw [← hcenter] at hx hy
    have hradius' : f.radius = 15 := hradius
    constructor
    · show 40 ≤ f.center.x - 2 * f.radius
      rw [hradius']
      exact hx
    · show 40 ≤ f.center.y - f.radius
      rw [hradius']
      exact hy

/-- The measures of an array are the same for all anchors. -/
theorem PlacedFrom.measures_array (h : x.PlacedFrom .standard anchor) (hk : x.kind = .array cells) :
    20 ≤ x.bounds.width ∧ x.bounds.height = 40 := by
  rw [PlacedFrom, hk] at h
  obtain ⟨hbounds, -⟩ := h
  rw [hbounds]
  refine ⟨?_, rfl⟩
  show 20 ≤ greatest ((cells.size : Rat) * 40) 20
  rw [greatest_eq_max]
  exact le_max_right ..

theorem PlacedFrom.measures_function (h : x.PlacedFrom .standard anchor)
    (hk : x.kind = .function f) :
    f.center = anchor.functionCenter .standard ∧ f.radius = 15 ∧ f.innerRadius = 3 ∧
      x.bounds = f.bounds := by
  rw [PlacedFrom, hk] at h
  exact h

theorem PlacedFrom.height_nonneg (h : x.PlacedFrom .standard anchor) : 0 ≤ x.bounds.height := by
  cases hk : x.kind with
  | literal text placeholder =>
    rw [PlacedFrom, hk] at h
    obtain ⟨whole, hplace⟩ := h
    have hbounds : (anchor.placeText .standard whole).2 = x.bounds := congrArg Prod.snd hplace
    have hheight : (anchor.placeText .standard whole).2.height = 15 := by cases anchor <;> rfl
    rw [← hbounds, hheight]
    norm_num
  | array cells =>
    rw [(h.measures_array hk).2]
    norm_num
  | function f =>
    obtain ⟨-, hradius, -, hbounds⟩ := h.measures_function hk
    rw [hbounds]
    show 0 ≤ 2 * f.radius
    rw [hradius]
    norm_num

/-- Arrows do not land above a value. -/
theorem PlacedFrom.le_landing (h : x.PlacedFrom .standard anchor) :
    x.bounds.y ≤ x.landing.y := by
  have hhalf : 0 ≤ half x.bounds.height := div_nonneg h.height_nonneg (by norm_num)
  cases hk : x.kind with
  | literal text placeholder =>
    rw [landing, hk]
    exact le_add_of_nonneg_right hhalf
  | array cells =>
    rw [landing, hk]
    exact le_add_of_nonneg_right hhalf
  | function f =>
    obtain ⟨-, hradius, -, hbounds⟩ := h.measures_function hk
    rw [landing, hk, hbounds]
    show f.center.y - f.radius ≤ f.center.y
    rw [hradius]
    linarith

end Value

/-! ## Frames -/

theorem Text.width_nonneg_standard (text : String) :
    0 ≤ Text.width (Config.standard : Config Rat) text := by
  rw [Text.width_standard]
  exact mul_nonneg (Nat.cast_nonneg _) (by norm_num)

/-- The rows of a frame that is clear of the edges. -/
theorem Frame.clear_rowAnchor {id nodeId : Nat} {node : TreeNode} {envs : List Environment}
    {p : Point Rat} {f : Frame Rat} {b : Binding Rat}
    (h : f.unbound = Frame.place .standard id nodeId node envs p) (hp : p.Clear)
    (hb : b ∈ f.bindings) : (f.rowAnchor b).Clear := by
  obtain ⟨index, v, -, hrow⟩ := Layout.exists_row_of_place h hb
  have hframe : f.bounds = (Frame.place .standard id nodeId node envs p).bounds :=
    congrArg (fun g => g.bounds) h
  have hbounds : b.bounds = (Frame.row .standard id p index v).bounds :=
    congrArg (fun row => row.bounds) hrow
  have hwide := (Layout.size_place Config.roomy_standard id nodeId node envs p).1
  have hindex : (0 : Rat) ≤ (index : Rat) * 40 := mul_nonneg (Nat.cast_nonneg _) (by norm_num)
  obtain ⟨hx, hy⟩ := hp
  show 40 ≤ f.bounds.right ∧ b.bounds.corner.Clear ∧ 0 ≤ b.bounds.width ∧ b.bounds.height = 40
  rw [hframe, hbounds]
  refine ⟨hx.trans hwide, ⟨?_, ?_⟩, Text.width_nonneg_standard _, rfl⟩
  · show 40 ≤ p.x + 20
    linarith
  · show 40 ≤ p.y + 30 + (index : Rat) * 40
    linarith

namespace Layout

variable {s : Snapshot} {row : Row Rat} {stack : Stack Rat} {y : Rat}

/-- Whether the frames and values laid out so far are clear of the edges. -/
structure Spaced (frames : Array (Frame Rat)) (a : Arena Rat) : Prop where
  frame : ∀ f ∈ frames, f.bounds.corner.Clear
  value : a.Sited .standard Anchor.Clear

/-- A level is being laid out, and so is the next frame going to be. -/
structure Row.Spaced (y : Rat) (row : Row Rat) : Prop where
  plotted : ∃ plots, row.Plotted .standard y plots
  laid : Layout.Spaced row.frames row.arena
  next : 40 ≤ row.x

theorem Row.Spaced.addFrame (h : row.Spaced y) (hy : 40 ≤ y) (s : Snapshot) (tree : EnvTree)
    (nodeId : Nat) : (Layout.addFrame .standard s tree y row nodeId).Spaced y := by
  obtain ⟨plots, hplotted⟩ := h.plotted
  have hnext := hplotted.addFrame Config.roomy_standard s tree nodeId
  cases hnode : tree.nodes[nodeId]? with
  | none =>
    rw [addFrame_of_none hnode]
    exact h
  | some node =>
    rw [addFrame_of_some hnode] at hnext ⊢
    set frame := Frame.place .standard row.frames.size nodeId node (envsOf s node) ⟨row.x, y⟩
    set sc : Scope Rat := ⟨.standard, s.heap, tree, row.frames.push frame⟩
    have hcorner : Point.Clear ⟨row.x, y⟩ := ⟨h.next, hy⟩
    have hplace : frame.unbound = frame := unbound_place _ _ _ _ _ _
    have hopen : (bindFrame sc row.arena frame).arena.Open sc.config plots frame.bounds :=
      open_bindFrame Config.roomy_standard
        (fun _ hb => Frame.beside_rowAnchor Config.roomy_standard hb) hplotted.laid.settled
    have hwide : frame.bounds.x ≤ frame.bounds.right :=
      (size_place Config.roomy_standard row.frames.size nodeId node (envsOf s node) ⟨row.x, y⟩).1
    have hsited : (bindFrame sc row.arena frame).arena.Sited sc.config Anchor.Clear :=
      sited_bindFrame h.laid.value Anchor.spreads_clear fun b hb =>
        Frame.clear_rowAnchor hplace hcorner hb
    refine ⟨hnext, ⟨fun f hf => ?_, hsited⟩, ?_⟩
    · rcases Array.mem_push.mp hf with hf | rfl
      · exact h.laid.frame f hf
      · exact hcorner
    · have hright := hopen.right
      have hx := h.next
      show 40 ≤ row.x + ((bindFrame sc row.arena frame).arena.extent.right - frame.bounds.x + 60)
      linarith

/-- The levels so far, and the next one that is going to be. -/
structure Stack.Spaced (stack : Stack Rat) : Prop where
  plotted : ∃ plots, stack.Plotted .standard plots
  laid : Layout.Spaced stack.frames stack.arena
  next : 40 ≤ stack.y

theorem Stack.Spaced.addLevel (h : stack.Spaced) (s : Snapshot) (tree : EnvTree)
    (nodes : List Nat) : (Layout.addLevel .standard s tree stack nodes).Spaced := by
  obtain ⟨plots, hplotted⟩ := h.plotted
  have hstart : (stack.openRow .standard).Spaced stack.y := by
    refine ⟨⟨plots, hplotted.openRow⟩, h.laid, ?_⟩
    show (40 : Rat) ≤ 30 + 10
    norm_num
  have hrow : (nodes.foldl (Layout.addFrame .standard s tree stack.y)
      (stack.openRow .standard)).Spaced stack.y := by
    refine foldl_keeps (P := fun _ (row : Row Rat) => row.Spaced stack.y) nodes ?_ hstart
    rintro - nodeId row - hrow
    exact hrow.addFrame h.next s tree nodeId
  obtain ⟨plots', hplots'⟩ := hrow.plotted
  refine ⟨hplotted.addLevel Config.roomy_standard s tree nodes, hrow.laid, ?_⟩
  have htop := hplots'.top
  have hy := h.next
  rw [addLevel_eq_add, Stack.y_add]
  show 40 ≤ Row.lowest _ stack.y + 100
  linarith

theorem spaced_stackOf (s : Snapshot) : (stackOf .standard s).Spaced := by
  refine foldl_keeps (P := fun _ (stack : Stack Rat) => stack.Spaced) _ ?_ ⟨?_, ⟨?_, ⟨?_⟩⟩, ?_⟩
  · rintro - nodes stack - hstack
    exact hstack.addLevel s _ nodes
  · exact ⟨[], ⟨rfl, fun h => by simp [Arena.empty] at h, fun _ hp => absurd hp List.not_mem_nil,
      .nil⟩, fun _ hp => absurd hp List.not_mem_nil⟩
  · exact fun f hf => absurd hf (Array.not_mem_empty f)
  · intro v x hx
    simp [Arena.empty] at hx
  · show (40 : Rat) ≤ 30 + 10
    norm_num

-- nothing below depends on how the tree is built
attribute [local irreducible] EnvTree.build

/-- The frames and values of a snapshot are clear of the edges. -/
theorem spaced_ofSnapshot (s : Snapshot) :
    Spaced (ofSnapshot .standard s).frames (ofSnapshot .standard s).arena := by
  obtain ⟨hframe, hvalue⟩ := (spaced_stackOf s).laid
  refine ⟨?_, ⟨fun hx => ?_⟩⟩
  · rw [frames_ofSnapshot]
    exact hframe
  · exact hvalue.value (values_ofSnapshot (.standard : Config Rat) s ▸ hx)

/-- So are the rows of the frames. -/
theorem clear_rowAnchor {s : Snapshot} {f : Frame Rat} {b : Binding Rat}
    (hf : f ∈ (ofSnapshot (.standard : Config Rat) s).frames) (hb : b ∈ f.bindings) :
    (f.rowAnchor b).Clear := by
  obtain ⟨i, hi⟩ := Array.getElem?_of_mem hf
  obtain ⟨node, p, -, hplace⟩ := exists_place_ofSnapshot hi
  have hbounds : f.bounds = (Frame.place .standard i f.node node (envsOf s node) p).bounds :=
    congrArg (fun g => g.bounds) hplace
  have hp : p.Clear := by
    have hcorner := (spaced_ofSnapshot s).frame f hf
    rw [hbounds] at hcorner
    exact hcorner
  exact Frame.clear_rowAnchor hplace hp hb

/-- A frame is no smaller than nothing. -/
theorem size_ofSnapshot {s : Snapshot} {f : Frame Rat}
    (hf : f ∈ (ofSnapshot (.standard : Config Rat) s).frames) :
    0 ≤ f.bounds.width ∧ 0 ≤ f.bounds.height := by
  obtain ⟨i, hi⟩ := Array.getElem?_of_mem hf
  obtain ⟨node, p, -, hplace⟩ := exists_place_ofSnapshot hi
  have hbounds : f.bounds = (Frame.place .standard i f.node node (envsOf s node) p).bounds :=
    congrArg (fun g => g.bounds) hplace
  obtain ⟨hwide, hhigh⟩ := size_place Config.roomy_standard i f.node node (envsOf s node) p
  rw [hbounds]
  exact ⟨le_add_iff_nonneg_right _ |>.mp hwide, le_add_iff_nonneg_right _ |>.mp hhigh⟩

/-- The values are clear of the edges, and so is where the arrows land on them. -/
theorem clear_value {s : Snapshot} {v : Nat} {x : Value Rat}
    (hx : (ofSnapshot (.standard : Config Rat) s).values[v]? = some x) :
    x.bounds.corner.Clear ∧ 0 ≤ x.bounds.height ∧ 40 ≤ x.landing.y := by
  obtain ⟨anchor, hclear, hplaced⟩ := (spaced_ofSnapshot s).value.value hx
  obtain ⟨hcx, hcy⟩ := hplaced.clear hclear
  have hy : 40 ≤ x.bounds.y := hcy
  have hheight := hplaced.height_nonneg
  have hlanding := hplaced.le_landing
  exact ⟨⟨hcx, hcy⟩, hheight, hy.trans hlanding⟩

/-- The cells of an array are clear of the edges, and as large as they are meant to be. -/
theorem clear_cell {s : Snapshot} {v i : Nat} {x : Value Rat} {cells : Array (Cell Rat)}
    {c : Cell Rat} (hx : (ofSnapshot (.standard : Config Rat) s).values[v]? = some x)
    (hk : x.kind = .array cells) (hc : cells[i]? = some c) :
    50 ≤ c.bounds.x ∧ 40 ≤ c.bounds.y ∧ c.bounds.width = 40 ∧ c.bounds.height = 40 := by
  obtain ⟨anchor, hclear, hplaced⟩ := (spaced_ofSnapshot s).value.value hx
  rw [Value.PlacedFrom, hk] at hplaced
  have hbounds : c.bounds =
      (Cell.place .standard c.array cells.size (anchor.arrayOrigin .standard) i).bounds :=
    congrArg (fun cell => cell.bounds) (hplaced.2 i c hc)
  obtain ⟨hlt, -⟩ := Array.getElem?_eq_some_iff.mp hc
  obtain ⟨hleft, htop, hwidth, hheight, -⟩ :=
    Anchor.spreads_clear anchor c.array cells.size i hclear hlt
  rw [hbounds]
  exact ⟨hleft, htop, hwidth, hheight⟩

/-- The circles of a function are clear of the edges. -/
theorem clear_function {s : Snapshot} {v : Nat} {x : Value Rat} {f : FunctionGlyph Rat}
    (hx : (ofSnapshot (.standard : Config Rat) s).values[v]? = some x)
    (hk : x.kind = .function f) :
    70 ≤ f.center.x ∧ 55 ≤ f.center.y ∧ f.radius = 15 ∧ f.innerRadius = 3 := by
  obtain ⟨anchor, hclear, hplaced⟩ := (spaced_ofSnapshot s).value.value hx
  obtain ⟨hcenter, hradius, hinner, -⟩ := hplaced.measures_function hk
  obtain ⟨hleft, htop⟩ := hclear.functionCenter
  rw [← hcenter] at hleft htop
  exact ⟨by linarith, by linarith, hradius, hinner⟩

end Layout

end EnvDiagram
