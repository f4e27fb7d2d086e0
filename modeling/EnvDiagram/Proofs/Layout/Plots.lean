import EnvDiagram.Proofs.Geometry
import EnvDiagram.Proofs.Layout.Steps
import EnvDiagram.Proofs.Steps

/-!
# The plots of frames

A frame is laid out together with its values: its plot is the frame and the area that the frame and
the values take up. An array or a function lies on the plot of the frame that it was last placed
from, to the right of that frame. However deep the array is that leads to it, no anchor that is met
while a frame's values are placed lies further to the left or further up than the first place next
to the frame.

* `Config.Roomy` — the settings leave enough room between things
* `Anchor.Beside` — an anchor from which things are placed to the right of a frame
* `Arena.Open` — every value lies on the plot of an earlier frame or on that of the present one
* `Arena.Open.run`, `Layout.open_bindFrame` — so it is while the values of a frame are placed
-/

namespace EnvDiagram

open Scalar

/-! ## Room -/

/-- Settings that leave room: nothing that is placed next to a frame reaches back over the
frame's right edge, or up over its top edge. -/
structure Config.Roomy (config : Config Rat) : Prop where
  frameMinWidth : 0 ≤ config.frameMinWidth
  framePaddingX : 0 ≤ config.framePaddingX
  framePaddingY : 0 ≤ config.framePaddingY
  frameMarginX : 0 < config.frameMarginX
  frameMarginY : 0 < config.frameMarginY
  cellWidth : 0 ≤ config.cellWidth
  cellHeight : 0 ≤ config.cellHeight
  /-- A function may be higher than its row, but not by more than the padding. -/
  circleHeight : config.circleRadius ≤ config.framePaddingY + config.cellHeight / 2
  /-- A function may be wider than its cell, but not by more than the margin. -/
  circleWidth : 2 * config.circleRadius < config.frameMarginX / 4 + config.cellWidth / 2

theorem Config.roomy_standard : (Config.standard : Config Rat).Roomy := by
  constructor <;> norm_num [standard]

/-- A frame, and the area that it takes up with its values. -/
structure Plot where
  frame : Bounds Rat
  area : Bounds Rat

namespace Plot

/-- A rectangle to the right of the frame, within the area. -/
structure Holds (p : Plot) (b : Bounds Rat) : Prop where
  left : p.frame.right < b.x
  top : p.frame.y ≤ b.y
  right : b.right ≤ p.area.right
  bottom : b.bottom ≤ p.area.bottom

/-- What lies to the right of the frame is held if the area is made to cover it. -/
theorem holds_union {frame b : Bounds Rat} (area : Bounds Rat) (hleft : frame.right < b.x)
    (htop : frame.y ≤ b.y) : (Plot.mk frame (area.union b)).Holds b :=
  ⟨hleft, htop, Bounds.right_le_union_right .., Bounds.bottom_le_union_right ..⟩

end Plot

/-! ## Anchors next to a frame -/

namespace Anchor

/-- An anchor of a row of the frame, or of a cell to the right of the frame. -/
def Beside (config : Config Rat) (frame : Bounds Rat) : Anchor Rat → Prop
  | .row _ _ _ frameBounds b =>
    frameBounds = frame ∧ frame.y + config.framePaddingY ≤ b.y ∧ b.height = config.cellHeight
  | .cell _ _ b _ height =>
    besideFrame config frame ≤ b.x ∧ frame.y + config.framePaddingY ≤ b.y ∧ 0 ≤ height
  | .stray _ _ => False

variable {config : Config Rat} {frame : Bounds Rat} {anchor : Anchor Rat}

theorem besideFrame_eq (config : Config Rat) (frame : Bounds Rat) :
    besideFrame config frame = frame.right + config.frameMarginX / 4 := rfl

theorem Beside.ne_stray (h : anchor.Beside config frame) (array index : Nat) :
    anchor ≠ .stray array index := by
  rintro rfl
  exact h

/-- An array is placed no further to the left than next to the frame, and below its top edge. -/
theorem Beside.arrayOrigin (h : anchor.Beside config frame) (hroom : config.Roomy) :
    besideFrame config frame ≤ (anchor.arrayOrigin config).x ∧
      frame.y + config.framePaddingY ≤ (anchor.arrayOrigin config).y := by
  have hwidth := hroom.cellWidth
  have hheight := hroom.cellHeight
  cases anchor with
  | row f i node frameBounds b =>
    obtain ⟨rfl, hy, -⟩ := h
    exact ⟨le_refl _, hy⟩
  | cell array i b isLast height =>
    obtain ⟨hx, hy, hh⟩ := h
    cases isLast with
    | true =>
      refine ⟨?_, hy⟩
      show besideFrame config frame ≤ b.x + 2 * config.cellWidth
      linarith
    | false =>
      refine ⟨hx, ?_⟩
      show frame.y + config.framePaddingY ≤ b.y + height + config.cellHeight
      linarith
  | stray array i => exact h.elim

/-- Nor does a function reach back over the frame. -/
theorem Beside.functionCenter (h : anchor.Beside config frame) (hroom : config.Roomy) :
    frame.right < (anchor.functionCenter config).x - 2 * config.circleRadius ∧
      frame.y ≤ (anchor.functionCenter config).y - config.circleRadius := by
  obtain ⟨hx, hy⟩ := h.arrayOrigin hroom
  have hmargin := hroom.frameMarginX
  have hpadding := hroom.framePaddingY
  have hheight := hroom.circleHeight
  have hwidth := hroom.circleWidth
  rw [besideFrame_eq] at hx
  cases anchor with
  | row f i node frameBounds b =>
    obtain ⟨rfl, hby, hbh⟩ := h
    constructor
    · show frameBounds.right <
        frameBounds.right + config.frameMarginX / 4 + 2 * config.circleRadius -
          2 * config.circleRadius
      linarith
    · show frameBounds.y ≤ b.y + b.height / 2 - config.circleRadius
      linarith
  | cell array i b isLast height =>
    set p := (Anchor.cell array i b isLast height).arrayOrigin config
    constructor
    · show frame.right < p.x + config.cellWidth / 2 - 2 * config.circleRadius
      linarith
    · cases isLast with
      | true =>
        show frame.y ≤ p.y + config.cellHeight / 2 - config.circleRadius
        linarith
      | false =>
        show frame.y ≤ p.y + config.circleRadius - config.circleRadius
        linarith
  | stray array i => exact h.elim

end Anchor

/-! ## Values on plots -/

/-- A value that lies on one of the plots; a literal may lie anywhere. -/
structure Value.Settled (config : Config Rat) (plots : List Plot) (value : Value Rat) : Prop where
  held : value.isLiteral = false → ∃ p ∈ plots, p.Holds value.bounds
  /-- So a function that is moved keeps its size. -/
  radius : ∀ {f}, value.kind = .function f → f.radius = config.circleRadius

namespace Value

variable {config : Config Rat} {plots : List Plot} {frame area area' : Bounds Rat}
  {value : Value Rat}

theorem Settled.append (h : value.Settled config plots) (more : List Plot) :
    value.Settled config (plots ++ more) where
  held hlit := by
    obtain ⟨p, hp, hold⟩ := h.held hlit
    exact ⟨p, List.mem_append_left more hp, hold⟩
  radius := h.radius

/-- The last plot may become larger. -/
theorem Settled.widen (h : value.Settled config (plots ++ [⟨frame, area⟩]))
    (hright : area.right ≤ area'.right) (hbottom : area.bottom ≤ area'.bottom) :
    value.Settled config (plots ++ [⟨frame, area'⟩]) where
  held hlit := by
    obtain ⟨p, hp, hold⟩ := h.held hlit
    rcases List.mem_append.mp hp with hp | hp
    · exact ⟨p, List.mem_append_left _ hp, hold⟩
    · obtain rfl := List.mem_singleton.mp hp
      refine ⟨_, List.mem_append_right _ List.mem_cons_self, hold.left, hold.top, ?_, ?_⟩
      · exact hold.right.trans hright
      · exact hold.bottom.trans hbottom
  radius := h.radius

theorem Settled.addReference (h : value.Settled config plots) (r : Reference) :
    (value.addReference r).Settled config plots :=
  ⟨h.held, h.radius⟩

theorem Settled.setContent (h : value.Settled config plots) (index content : Nat) :
    (value.setContent index content).Settled config plots := by
  obtain ⟨id, datum, kind, bounds, references⟩ := value
  cases kind with
  | literal => exact h
  | function => exact h
  | array cells => exact ⟨fun _ => h.held rfl, fun hkind => nomatch hkind⟩

end Value

/-! ## Placing the values of a frame -/

namespace Arena

/-- A frame has its values placed: each value lies on an earlier plot or on that of the frame. -/
structure Open (config : Config Rat) (plots : List Plot) (frame : Bounds Rat) (a : Arena Rat) :
    Prop where
  right : frame.right ≤ a.extent.right
  bottom : frame.bottom ≤ a.extent.bottom
  settled : ∀ {v : Nat} {value : Value Rat}, a.values[v]? = some value →
    value.Settled config (plots ++ [⟨frame, a.extent⟩])

variable {config : Config Rat} {plots : List Plot} {frame : Bounds Rat} {a b : Arena Rat}
  {sc : Scope Rat} {anchor : Anchor Rat} {agenda : List CellTask}

/-- A value is changed in place, and the area becomes larger. -/
theorem Open.modify (h : a.Open config plots frame) {v : Nat} (change : Value Rat → Value Rat)
    (hb : b.values = a.values.modify v change) (hright : a.extent.right ≤ b.extent.right)
    (hbottom : a.extent.bottom ≤ b.extent.bottom)
    (hchange : ∀ {value}, a.values[v]? = some value →
      value.Settled config (plots ++ [⟨frame, b.extent⟩]) →
      (change value).Settled config (plots ++ [⟨frame, b.extent⟩])) :
    b.Open config plots frame where
  right := h.right.trans hright
  bottom := h.bottom.trans hbottom
  settled := by
    intro w value hvalue
    rw [hb, Array.getElem?_modify] at hvalue
    split at hvalue
    · rename_i hvw
      subst hvw
      obtain ⟨old, hold, rfl⟩ := Option.map_eq_some_iff.mp hvalue
      exact hchange hold ((h.settled hold).widen hright hbottom)
    · exact (h.settled hvalue).widen hright hbottom

theorem Open.addReference (h : a.Open config plots frame) (v : Nat) (r : Reference) :
    (a.addReference v r).Open config plots frame :=
  h.modify (fun value => value.addReference r) rfl (le_refl _) (le_refl _) fun _ hvalue =>
    hvalue.addReference r

theorem Open.setContent (h : a.Open config plots frame) (array index content : Nat) :
    (a.setContent array index content).Open config plots frame :=
  h.modify (fun value => value.setContent index content) rfl (le_refl _) (le_refl _)
    fun _ hvalue => hvalue.setContent index content

/-- A value is added: a text, or what lies to the right of the frame. -/
theorem Open.push (h : a.Open config plots frame) (datum : Option DatumId) {kind : ValueKind Rat}
    {bounds : Bounds Rat} (r : Reference)
    (hplace : (∃ text placeholder, kind = .literal text placeholder) ∨
      frame.right < bounds.x ∧ frame.y ≤ bounds.y)
    (hradius : ∀ {f}, kind = .function f → f.radius = config.circleRadius) :
    (a.push datum kind bounds r).Open config plots frame := by
  have hright := Bounds.right_le_union_left a.extent bounds
  have hbottom := Bounds.bottom_le_union_left a.extent bounds
  refine ⟨h.right.trans hright, h.bottom.trans hbottom, fun {v value} hvalue => ?_⟩
  have hvalue' : (a.values.push ⟨a.values.size, datum, kind, bounds, [r]⟩)[v]? = some value :=
    hvalue
  rw [Array.getElem?_push] at hvalue'
  split at hvalue'
  · cases hvalue'
    refine ⟨fun hlit => ?_, hradius⟩
    rcases hplace with ⟨text, placeholder, rfl⟩ | ⟨hleft, htop⟩
    · exact Bool.noConfusion hlit
    · exact ⟨_, List.mem_append_right _ List.mem_cons_self, Plot.holds_union _ hleft htop⟩
  · exact (h.settled hvalue').widen hright hbottom

/-- A function that moves comes to lie on the plot of the frame. -/
theorem Open.reanchor (h : a.Open sc.config plots frame) (hroom : sc.config.Roomy)
    (hbeside : anchor.Beside sc.config frame) (v : Nat) :
    (a.reanchor sc v anchor).Open sc.config plots frame := by
  rcases reanchor_cases sc a v anchor with heq | ⟨value, f, hvalue, hkind, heq⟩
  · rw [heq]
    exact h
  · rw [heq]
    have hradius : f.radius = sc.config.circleRadius := (h.settled hvalue).radius hkind
    obtain ⟨hleft, htop⟩ := hbeside.functionCenter hroom
    rw [← hradius] at hleft htop
    set center := anchor.functionCenter sc.config
    set moved := value.moveTo center with hmoved
    rw [Value.moveTo, hkind] at hmoved
    have hx : moved.bounds.x = center.x - 2 * f.radius := by rw [hmoved]; rfl
    have hy : moved.bounds.y = center.y - f.radius := by rw [hmoved]; rfl
    rw [← hx] at hleft
    rw [← hy] at htop
    refine h.modify (fun _ => moved) rfl (Bounds.right_le_union_left ..)
      (Bounds.bottom_le_union_left ..) fun _ _ => ⟨fun _ => ?_, fun hg => ?_⟩
    · exact ⟨_, List.mem_append_right _ List.mem_cons_self, Plot.holds_union _ hleft htop⟩
    · rw [hmoved] at hg
      cases hg
      exact hradius

theorem Open.visit (h : a.Open sc.config plots frame) (hroom : sc.config.Roomy)
    (hbeside : anchor.Beside sc.config frame) (d : Datum) :
    (a.visit sc anchor d).arena.Open sc.config plots frame := by
  rcases visit_cases sc a anchor d with ⟨v, heq⟩ | ⟨b, text, placeholder, hvalues, hextent, heq⟩ |
    ⟨id, cells, heq⟩ | ⟨id, c, node, heq⟩
  · rw [heq]
    exact (h.reanchor hroom hbeside v).addReference v _
  · rw [heq]
    have hb : b.Open sc.config plots frame := by
      refine ⟨hextent ▸ h.right, hextent ▸ h.bottom, fun {v value} hvalue => ?_⟩
      rw [hextent]
      exact h.settled (hvalues ▸ hvalue)
    exact hb.push none _ (Or.inl ⟨_, _, rfl⟩) fun hkind => nomatch hkind
  · rw [heq]
    obtain ⟨hx, hy⟩ := hbeside.arrayOrigin hroom
    have hmargin := hroom.frameMarginX
    have hpadding := hroom.framePaddingY
    rw [Anchor.besideFrame_eq] at hx
    refine h.push (some id) _ (Or.inr ⟨?_, ?_⟩) fun hkind => nomatch hkind
    · show frame.right < (anchor.arrayOrigin sc.config).x
      linarith
    · show frame.y ≤ (anchor.arrayOrigin sc.config).y
      linarith
  · rw [heq]
    refine h.push (some id) _ (Or.inr (hbeside.functionCenter hroom)) fun hkind => ?_
    cases hkind
    rfl

/-- The cells that a visit brings lie to the right of the frame as well. -/
theorem beside_cells (hroom : sc.config.Roomy) (hbeside : anchor.Beside sc.config frame)
    (d : Datum) {task : CellTask} (htask : task ∈ (a.visit sc anchor d).cells) :
    ((a.visit sc anchor d).arena.cellAnchor task.array task.index).Beside sc.config frame := by
  rcases visit_cases sc a anchor d with ⟨v, heq⟩ | ⟨b, text, placeholder, -, -, heq⟩ |
    ⟨id, cells, heq⟩ | ⟨id, c, node, heq⟩
  · rw [heq] at htask
    exact absurd htask List.not_mem_nil
  · rw [heq] at htask
    exact absurd htask List.not_mem_nil
  · rw [heq] at htask ⊢
    obtain ⟨i, hi, rfl⟩ := List.mem_mapIdx.mp htask
    obtain ⟨hx, hy⟩ := hbeside.arrayOrigin hroom
    set p := anchor.arrayOrigin sc.config
    rw [cellAnchor_visitArray sc a anchor id hi]
    have hwidth : 0 ≤ (i : Rat) * sc.config.cellWidth :=
      mul_nonneg (Nat.cast_nonneg i) hroom.cellWidth
    refine ⟨?_, hy, hroom.cellHeight⟩
    show Anchor.besideFrame sc.config frame ≤ p.x + (i : Rat) * sc.config.cellWidth
    linarith
  · rw [heq] at htask
    exact absurd htask List.not_mem_nil

/-- The cells that wait all lie to the right of the frame, so each is filled with what lies there
too. -/
theorem Open.run (h : a.Open sc.config plots frame) (hroom : sc.config.Roomy)
    (hbeside : ∀ task ∈ agenda, (a.cellAnchor task.array task.index).Beside sc.config frame) :
    (a.run sc agenda).Open sc.config plots frame := by
  let P (b : Arena Rat) (waiting : List CellTask) : Prop :=
    b.Open sc.config plots frame ∧
      ∀ task ∈ waiting, (b.cellAnchor task.array task.index).Beside sc.config frame
  refine (run_keeps (P := P) ?_ ?_ ⟨h, hbeside⟩).1
  · rintro b task rest ⟨hb, hwait⟩
    exact ⟨hb, fun t ht => hwait t (List.mem_cons_of_mem _ ht)⟩
  · rintro b task rest ⟨hb, hwait⟩
    have htask := hwait task List.mem_cons_self
    refine ⟨(hb.visit hroom htask task.datum).setContent .., fun t ht => ?_⟩
    rw [cellAnchor_setContent]
    rcases List.mem_append.mp ht with ht | ht
    · exact beside_cells hroom htask task.datum ht
    · -- a cell that waited is where it was
      have hrest := hwait t (List.mem_cons_of_mem _ ht)
      rw [cellAnchor_visit sc _ task.datum (hrest.ne_stray _ _)]
      exact hrest

theorem Open.place (h : a.Open sc.config plots frame) (hroom : sc.config.Roomy)
    (hbeside : anchor.Beside sc.config frame) (d : Datum) :
    (a.place sc anchor d).1.Open sc.config plots frame :=
  (h.visit hroom hbeside d).run hroom fun _ htask => beside_cells hroom hbeside d htask

end Arena

/-! ## The rows of a frame -/

theorem Frame.beside_rowAnchor {config : Config Rat} (hroom : config.Roomy) {id nodeId : Nat}
    {node : TreeNode} {envs : List Environment} {p : Point Rat} {b : Binding Rat}
    (hb : b ∈ (Frame.place config id nodeId node envs p).bindings) :
    ((Frame.place config id nodeId node envs p).rowAnchor b).Beside config
      (Frame.place config id nodeId node envs p).bounds := by
  obtain ⟨i, hi, rfl⟩ := List.mem_mapIdx.mp (List.mem_toArray.mp hb)
  have hheight : 0 ≤ (i : Rat) * config.cellHeight :=
    mul_nonneg (Nat.cast_nonneg i) hroom.cellHeight
  refine ⟨rfl, ?_, rfl⟩
  show p.y + config.framePaddingY ≤ p.y + config.framePaddingY + (i : Rat) * config.cellHeight
  linarith

/-- The values of a frame come to lie on its plot. -/
theorem Layout.open_bindFrame {sc : Scope Rat} (hroom : sc.config.Roomy) {frame : Frame Rat}
    {a : Arena Rat} {plots : List Plot}
    (hrows : ∀ b ∈ frame.bindings, (frame.rowAnchor b).Beside sc.config frame.bounds)
    (h : ∀ {v : Nat} {value : Value Rat}, a.values[v]? = some value →
      value.Settled sc.config plots) :
    (bindFrame sc a frame).arena.Open sc.config plots frame.bounds := by
  rw [bindFrame, ← Array.foldl_toList]
  refine foldl_keeps
    (P := fun _ (bound : Bound Rat) => bound.arena.Open sc.config plots frame.bounds)
    frame.bindings.toList (fun done b bound hinit hbound => ?_)
    ⟨le_refl _, le_refl _, fun hvalue => (h hvalue).append _⟩
  have hb : b ∈ frame.bindings :=
    Array.mem_toList_iff.mp (hinit.subset (List.mem_append_right _ List.mem_cons_self))
  cases hd : b.datum with
  | none =>
    rw [bindRow_of_none hd]
    exact hbound
  | some d =>
    rw [bindRow_of_some hd]
    exact hbound.place hroom (hrows b hb) d

end EnvDiagram
