import EnvDiagram.Proofs.Layout.Plots
import EnvDiagram.Scene

/-!
# Nothing lies on a frame

Plots follow one another: within a level a plot starts to the right of all earlier ones, and a
level starts below all plots of the levels above. What lies on a plot is to the right of the
plot's frame, so it does not overlap that frame, nor one of another plot. A function that has moved
to a later frame lies on that frame's plot, as if it had been placed there from the start.

* `Plot.Before` — one plot after the other
* `Layout.Apart` — frames overlap neither each other nor the arrays and functions
* `Layout.Plotted` — frames and values so far, on plots one after the other
* `Scene.apart_load` — frames, arrays and functions are apart after loading a snapshot
-/

namespace EnvDiagram

open Scalar

/-! ## One plot after the other -/

namespace Plot

/-- A plot takes up at least its frame. -/
structure Sound (p : Plot) : Prop where
  width : p.frame.x ≤ p.frame.right
  height : p.frame.y ≤ p.frame.bottom
  right : p.frame.right ≤ p.area.right
  bottom : p.frame.bottom ≤ p.area.bottom

/-- The first plot ends where the second one's frame has not begun, on the way to the right or on
the way down. -/
def Before (p q : Plot) : Prop := p.area.right < q.frame.x ∨ p.area.bottom < q.frame.y

variable {p q : Plot} {b : Bounds Rat}

theorem Before.not_overlaps (h : p.Before q) (hp : p.Sound) : ¬ p.frame.Overlaps q.frame := by
  rcases h with h | h
  · exact Bounds.not_overlaps_of_right_lt (hp.right.trans_lt h)
  · exact Bounds.not_overlaps_of_bottom_lt (hp.bottom.trans_lt h)

/-- What lies on a plot does not overlap the plot's frame. -/
theorem Holds.not_overlaps (h : p.Holds b) : ¬ b.Overlaps p.frame := fun hb =>
  Bounds.not_overlaps_of_right_lt h.left hb.symm

theorem Holds.not_overlaps_of_before (h : p.Holds b) (hq : p.Before q) :
    ¬ b.Overlaps q.frame := by
  rcases hq with hq | hq
  · exact Bounds.not_overlaps_of_right_lt (h.right.trans_lt hq)
  · exact Bounds.not_overlaps_of_bottom_lt (h.bottom.trans_lt hq)

theorem Holds.not_overlaps_of_after (h : p.Holds b) (hp : p.Sound) (hq : q.Sound)
    (hqp : q.Before p) : ¬ b.Overlaps q.frame := by
  intro hb
  rcases hqp with hqp | hqp
  · have hleft : q.frame.right < b.x :=
      calc q.frame.right ≤ q.area.right := hq.right
        _ < p.frame.x := hqp
        _ ≤ p.frame.right := hp.width
        _ < b.x := h.left
    exact Bounds.not_overlaps_of_right_lt hleft hb.symm
  · have htop : q.frame.bottom < b.y :=
      calc q.frame.bottom ≤ q.area.bottom := hq.bottom
        _ < p.frame.y := hqp
        _ ≤ b.y := h.top
    exact Bounds.not_overlaps_of_bottom_lt htop hb.symm

end Plot

/-! ## Frames and values apart -/

namespace Layout

/-- No two frames overlap, and no array and no function overlaps a frame. -/
structure Apart (l : Layout Rat) : Prop where
  frames : ∀ {i j : Nat} {f g : Frame Rat}, l.frames[i]? = some f → l.frames[j]? = some g →
    i ≠ j → ¬ f.bounds.Overlaps g.bounds
  values : ∀ {v i : Nat} {value : Value Rat} {f : Frame Rat}, l.values[v]? = some value →
    value.isLiteral = false → l.frames[i]? = some f → ¬ value.bounds.Overlaps f.bounds

/-- What is laid out so far, on plots one after the other. -/
structure Plotted (config : Config Rat) (frames : Array (Frame Rat)) (values : Array (Value Rat))
    (plots : List Plot) : Prop where
  frames : frames.toList.map Frame.bounds = plots.map Plot.frame
  settled : ∀ {v : Nat} {value : Value Rat}, values[v]? = some value →
    value.Settled config plots
  sound : ∀ p ∈ plots, p.Sound
  apart : plots.Pairwise Plot.Before

variable {config : Config Rat} {frames : Array (Frame Rat)} {values : Array (Value Rat)}
  {plots : List Plot} {frame : Frame Rat} {a : Arena Rat} {row : Row Rat} {y : Rat}
  {stack : Stack Rat}

theorem Plotted.plot (h : Plotted config frames values plots) {i : Nat}
    (hi : frames[i]? = some frame) : ∃ p, plots[i]? = some p ∧ p.frame = frame.bounds := by
  have hbounds : (plots.map Plot.frame)[i]? = some frame.bounds := by
    rw [← h.frames, List.getElem?_map, Array.getElem?_toList, hi]
    rfl
  rw [List.getElem?_map] at hbounds
  exact Option.map_eq_some_iff.mp hbounds

/-- Of two plots one comes first. -/
theorem Plotted.before (h : Plotted config frames values plots) {i j : Nat} {p q : Plot}
    (hi : plots[i]? = some p) (hj : plots[j]? = some q) (hij : i ≠ j) :
    p.Before q ∨ q.Before p := by
  obtain ⟨hilt, rfl⟩ := List.getElem?_eq_some_iff.mp hi
  obtain ⟨hjlt, rfl⟩ := List.getElem?_eq_some_iff.mp hj
  have hpairs := List.pairwise_iff_getElem.mp h.apart
  rcases Nat.lt_or_gt_of_ne hij with hlt | hlt
  · exact Or.inl (hpairs i j hilt hjlt hlt)
  · exact Or.inr (hpairs j i hjlt hilt hlt)

theorem Plotted.not_overlaps_frame (h : Plotted config frames values plots) {i j : Nat}
    {f g : Frame Rat} (hf : frames[i]? = some f) (hg : frames[j]? = some g) (hij : i ≠ j) :
    ¬ f.bounds.Overlaps g.bounds := by
  obtain ⟨p, hp, hpf⟩ := h.plot hf
  obtain ⟨q, hq, hqg⟩ := h.plot hg
  have hpsound := h.sound p (List.mem_of_getElem? hp)
  have hqsound := h.sound q (List.mem_of_getElem? hq)
  rw [← hpf, ← hqg]
  rcases h.before hp hq hij with hbefore | hbefore
  · exact hbefore.not_overlaps hpsound
  · exact fun hb => hbefore.not_overlaps hqsound hb.symm

theorem Plotted.not_overlaps_value (h : Plotted config frames values plots) {v i : Nat}
    {value : Value Rat} (hvalue : values[v]? = some value) (hlit : value.isLiteral = false)
    (hi : frames[i]? = some frame) : ¬ value.bounds.Overlaps frame.bounds := by
  obtain ⟨q, hq, hqf⟩ := h.plot hi
  obtain ⟨p, hp, hold⟩ := (h.settled hvalue).held hlit
  obtain ⟨j, hj⟩ := List.getElem?_of_mem hp
  have hqsound := h.sound q (List.mem_of_getElem? hq)
  rw [← hqf]
  by_cases hij : j = i
  · subst hij
    obtain rfl : p = q := Option.some.inj (hj.symm.trans hq)
    exact hold.not_overlaps
  · rcases h.before hj hq hij with hbefore | hbefore
    · exact hold.not_overlaps_of_before hbefore
    · exact hold.not_overlaps_of_after (h.sound p hp) hqsound hbefore

/-- One more frame, with its values on its plot. -/
theorem Plotted.push (h : Plotted config frames values plots)
    (hopen : a.Open config plots frame.bounds)
    (hwidth : frame.bounds.x ≤ frame.bounds.right) (hheight : frame.bounds.y ≤ frame.bounds.bottom)
    (hbefore : ∀ p ∈ plots, p.Before ⟨frame.bounds, a.extent⟩) (totalWidth : Rat)
    (bindings : Array (Binding Rat)) :
    Plotted config (frames.push { frame with totalWidth, bindings }) a.values
      (plots ++ [⟨frame.bounds, a.extent⟩]) where
  frames := by
    rw [Array.toList_push, List.map_append, List.map_append, h.frames]
    rfl
  settled := hopen.settled
  sound := by
    intro p hp
    rcases List.mem_append.mp hp with hp | hp
    · exact h.sound p hp
    · obtain rfl := List.mem_singleton.mp hp
      exact ⟨hwidth, hheight, hopen.right, hopen.bottom⟩
  apart := by
    refine List.pairwise_append.mpr ⟨h.apart, List.pairwise_singleton .., fun p hp q hq => ?_⟩
    obtain rfl := List.mem_singleton.mp hq
    exact hbefore p hp

/-! ## Level by level -/

/-- The lowest point of a level so far, if its top edge is at `y`. -/
def Row.lowest (row : Row Rat) (y : Rat) : Rat :=
  match row.bounds with
  | none => y
  | some b => b.bottom

/-- A level with its top edge at `y` is being laid out. -/
structure Row.Plotted (config : Config Rat) (y : Rat) (row : Row Rat) (plots : List Plot) :
    Prop where
  laid : Layout.Plotted config row.frames row.arena.values plots
  /-- The next frame comes after all plots. -/
  next : ∀ p ∈ plots, p.area.right < row.x ∨ p.area.bottom < y
  top : y ≤ row.lowest y
  lowest : ∀ p ∈ plots, p.area.bottom ≤ row.lowest y

theorem Row.lowest_add {bound : Bound Rat} (h : y ≤ bound.arena.extent.bottom) :
    (row.add config frame bound).lowest y = max (row.lowest y) bound.arena.extent.bottom := by
  unfold lowest add
  cases row.bounds with
  | none => exact (max_eq_right h).symm
  | some b => exact Bounds.bottom_union ..

theorem Row.Plotted.add (h : row.Plotted config y plots) (hroom : config.Roomy) {bound : Bound Rat}
    (hopen : bound.arena.Open config plots frame.bounds)
    (hx : frame.bounds.x = row.x) (hy : frame.bounds.y = y)
    (hwidth : frame.bounds.x ≤ frame.bounds.right)
    (hheight : frame.bounds.y ≤ frame.bounds.bottom) :
    (row.add config frame bound).Plotted config y
      (plots ++ [⟨frame.bounds, bound.arena.extent⟩]) := by
  have hmargin := hroom.frameMarginX
  have hright := hopen.right
  have hlowest : (row.add config frame bound).lowest y =
      max (row.lowest y) bound.arena.extent.bottom :=
    lowest_add (hy ▸ hheight.trans hopen.bottom)
  have hnext : (row.add config frame bound).x = bound.arena.extent.right + config.frameMarginX := by
    show row.x + (bound.arena.extent.right - frame.bounds.x + config.frameMarginX) = _
    rw [hx]
    linarith
  have hbefore : ∀ p ∈ plots, p.Before ⟨frame.bounds, bound.arena.extent⟩ := fun p hp => by
    rw [Plot.Before, hx, hy]
    exact h.next p hp
  refine ⟨h.laid.push hopen hwidth hheight hbefore _ _, ?_, ?_, ?_⟩
  · intro p hp
    rw [hnext]
    rcases List.mem_append.mp hp with hp | hp
    · rcases h.next p hp with hlt | hlt
      · exact Or.inl (by linarith)
      · exact Or.inr hlt
    · obtain rfl := List.mem_singleton.mp hp
      exact Or.inl (lt_add_of_pos_right _ hmargin)
  · rw [hlowest]
    exact h.top.trans (le_max_left ..)
  · intro p hp
    rw [hlowest]
    rcases List.mem_append.mp hp with hp | hp
    · exact (h.lowest p hp).trans (le_max_left ..)
    · obtain rfl := List.mem_singleton.mp hp
      exact le_max_right ..

/-- A frame has a width and a height, of its padding at least. -/
theorem size_place (hroom : config.Roomy) (id nodeId : Nat) (node : TreeNode)
    (envs : List Environment) (p : Point Rat) :
    (Frame.place config id nodeId node envs p).bounds.x ≤
        (Frame.place config id nodeId node envs p).bounds.right ∧
      (Frame.place config id nodeId node envs p).bounds.y ≤
        (Frame.place config id nodeId node envs p).bounds.bottom := by
  have hmin := hroom.frameMinWidth
  have hpx := hroom.framePaddingX
  have hpy := hroom.framePaddingY
  have hheight : 0 ≤ ((overlay envs).length : Rat) * config.cellHeight :=
    mul_nonneg (Nat.cast_nonneg _) hroom.cellHeight
  constructor
  · set widest := (overlay envs).foldl (fun w v => greatest w (Frame.rowWidth config v)) zero
    have hwidest : config.frameMinWidth ≤ greatest config.frameMinWidth widest :=
      greatest_eq_max .. ▸ le_max_left ..
    show p.x ≤ p.x + (greatest config.frameMinWidth widest + 2 * config.framePaddingX)
    linarith
  · show p.y ≤ p.y + (((overlay envs).length : Rat) * config.cellHeight + 2 * config.framePaddingY)
    linarith

theorem Row.Plotted.addFrame (h : row.Plotted config y plots) (hroom : config.Roomy) (s : Snapshot)
    (tree : EnvTree) (nodeId : Nat) :
    ∃ plots', (addFrame config s tree y row nodeId).Plotted config y plots' := by
  cases hnode : tree.nodes[nodeId]? with
  | none =>
    rw [addFrame_of_none hnode]
    exact ⟨plots, h⟩
  | some node =>
    rw [addFrame_of_some hnode]
    simp only
    set frame := Frame.place config row.frames.size nodeId node (envsOf s node) ⟨row.x, y⟩
    set sc : Scope Rat := ⟨config, s.heap, tree, row.frames.push frame⟩
    have hopen : (bindFrame sc row.arena frame).arena.Open sc.config plots frame.bounds :=
      open_bindFrame hroom (fun _ hb => Frame.beside_rowAnchor hroom hb) h.laid.settled
    obtain ⟨hwidth, hheight⟩ :=
      size_place hroom row.frames.size nodeId node (envsOf s node) ⟨row.x, y⟩
    exact ⟨_, h.add hroom hopen rfl rfl hwidth hheight⟩

/-- The levels so far are laid out, and the next one starts below them. -/
structure Stack.Plotted (config : Config Rat) (stack : Stack Rat) (plots : List Plot) : Prop where
  laid : Layout.Plotted config stack.frames stack.arena.values plots
  above : ∀ p ∈ plots, p.area.bottom < stack.y

theorem Stack.Plotted.openRow (h : stack.Plotted config plots) :
    (stack.openRow config).Plotted config stack.y plots where
  laid := h.laid
  next p hp := Or.inr (h.above p hp)
  top := le_refl _
  lowest p hp := (h.above p hp).le

/-- A level ends at its lowest point, or right where it starts if nothing is on it. -/
theorem Stack.y_add (config : Config Rat) (stack : Stack Rat) (row : Row Rat) :
    (stack.add config row).y = row.lowest stack.y + config.frameMarginY := by
  have hbottom : (row.bounds.getD
      ⟨config.canvasPaddingX + config.levelPaddingX, stack.y, zero, zero⟩).bottom =
        row.lowest stack.y := by
    unfold Row.lowest
    cases row.bounds with
    | none => exact add_zero stack.y
    | some b => rfl
  show stack.y + (Bounds.bottom _ - stack.y + config.frameMarginY) = _
  rw [hbottom]
  linarith

theorem Stack.Plotted.add (hroom : config.Roomy) (h : row.Plotted config stack.y plots) :
    (stack.add config row).Plotted config plots where
  laid := h.laid
  above := by
    intro p hp
    have hmargin := hroom.frameMarginY
    have hlowest := h.lowest p hp
    rw [y_add]
    linarith

theorem Stack.Plotted.addLevel (h : stack.Plotted config plots) (hroom : config.Roomy)
    (s : Snapshot) (tree : EnvTree) (nodes : List Nat) :
    ∃ plots', (addLevel config s tree stack nodes).Plotted config plots' := by
  have hrow : ∃ plots', (nodes.foldl (Layout.addFrame config s tree stack.y)
      (stack.openRow config)).Plotted config stack.y plots' := by
    refine foldl_keeps (P := fun _ (row : Row Rat) => ∃ plots, row.Plotted config stack.y plots)
      nodes ?_ ⟨plots, h.openRow⟩
    rintro - nodeId row - ⟨plots, hrow⟩
    exact hrow.addFrame hroom s tree nodeId
  obtain ⟨plots', hrow⟩ := hrow
  rw [addLevel_eq_add]
  exact ⟨plots', Stack.Plotted.add hroom hrow⟩

theorem plotted_stackOf (hroom : config.Roomy) (s : Snapshot) :
    ∃ plots, (stackOf config s).Plotted config plots := by
  refine foldl_keeps (P := fun _ (stack : Stack Rat) => ∃ plots, stack.Plotted config plots) _ ?_
    ⟨[], ⟨rfl, fun h => ?_, fun _ hp => absurd hp List.not_mem_nil, .nil⟩,
      fun _ hp => absurd hp List.not_mem_nil⟩
  · rintro - nodes stack - ⟨plots, hstack⟩
    exact hstack.addLevel hroom s _ nodes
  · simp [Arena.empty] at h

/-! ## The layout of a snapshot -/

/-- With enough room nothing lies on a frame. -/
theorem apart_ofSnapshot (hroom : config.Roomy) (s : Snapshot) : (ofSnapshot config s).Apart := by
  obtain ⟨plots, ⟨h, -⟩⟩ := plotted_stackOf hroom s
  rw [← frames_ofSnapshot, ← values_ofSnapshot] at h
  exact ⟨h.not_overlaps_frame, h.not_overlaps_value⟩

end Layout

/-- Loading a snapshot with the standard settings lays out frames, arrays and functions apart from
each other, whatever was shown before. -/
theorem Scene.apart_load (layout : Layout Rat) (marks : List Mark) (s : Snapshot) :
    ((Scene.mk Config.standard layout marks).load s).layout.Apart :=
  Layout.apart_ofSnapshot Config.roomy_standard s

end EnvDiagram
