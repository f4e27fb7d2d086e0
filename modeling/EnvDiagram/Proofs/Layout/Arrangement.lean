import EnvDiagram.Proofs.Layout.Areas
import EnvDiagram.Proofs.Layout.Walk

/-!
# The arrangement of frames

The frames of a level stand side by side. Each starts where the area of the one before ends, a
margin further on, and the width of that area is what the frame keeps as its total width. A level
ends at the lowest point of the areas on it, and the next one starts a margin below. So a value that
belongs to a frame neither reaches the next frame of the level nor the next level.

* `Layout.Abreast` — frames side by side
* `Layout.Arranged` — levels below each other, with the frames and the values on them
* `Layout.Row.Arranged`, `Layout.Stack.Arranged` — what is laid out so far
* `Scene.arranged_load` — the layout of a snapshot
-/

namespace EnvDiagram

namespace Layout

/-! ## Frames side by side -/

/-- Whether a frame starts a margin to the right of the area of another one. -/
def Follows (config : Config Rat) (frames : Array (Frame Rat)) (f g : Nat) : Prop :=
  ∃ left right, frames[f]? = some left ∧ frames[g]? = some right ∧
    right.bounds.x = left.bounds.x + left.totalWidth + config.frameMarginX

/-- Whether some frames stand side by side with their top edges at `y`. -/
structure Abreast (config : Config Rat) (frames : Array (Frame Rat)) (y : Rat) (ids : List Nat) :
    Prop where
  top : ∀ f ∈ ids, ∃ frame, frames[f]? = some frame ∧ frame.bounds.y = y
  first : ∀ f, ids.head? = some f → ∃ frame, frames[f]? = some frame ∧
    frame.bounds.x = config.canvasPaddingX + config.levelPaddingX
  next : ids.IsChain (Follows config frames)

/-- Whether a level starts a margin below another one. -/
def Below (config : Config Rat) (upper lower : Level Rat) : Prop :=
  lower.bounds.y = upper.bounds.y + upper.bounds.height + config.frameMarginY

/-- Whether the levels of a layout lie below each other and the frames of each stand side by side,
and whether all that belongs to a frame ends in the total width of the frame and on its level. -/
structure Arranged (config : Config Rat) (l : Layout Rat) : Prop where
  abreast : ∀ level ∈ l.levels, Abreast config l.frames level.bounds.y level.frames
  below : l.levels.IsChain (Below config)
  anchored : ∀ {v : Nat} {x : Value Rat}, l.values[v]? = some x →
    ∃ f, l.arena.Anchored l.frames x f
  ends : ∀ {v : Nat} {x : Value Rat} {f : Nat}, l.values[v]? = some x →
    l.arena.Anchored l.frames x f →
      ∃ frame level, l.frames[f]? = some frame ∧ level ∈ l.levels ∧ f ∈ level.frames ∧
        x.bounds.right ≤ frame.bounds.x + frame.totalWidth ∧
        x.bounds.bottom ≤ level.bounds.bottom

variable {config : Config Rat} {frames frames' : Array (Frame Rat)} {frame : Frame Rat}
  {a : Arena Rat} {areas : List (Bounds Rat)} {row : Row Rat} {stack : Stack Rat} {x y : Rat}
  {ids : List Nat} {f : Nat}

/-- Where the next frame starts after some frames. -/
def NextX (config : Config Rat) (frames : Array (Frame Rat)) (ids : List Nat) (x : Rat) : Prop :=
  match ids.getLast? with
  | none => x = config.canvasPaddingX + config.levelPaddingX
  | some f => ∃ frame, frames[f]? = some frame ∧
      x = frame.bounds.x + frame.totalWidth + config.frameMarginX

/-- Whether all frames are there among others, in their places. -/
def KeepsFrames (frames frames' : Array (Frame Rat)) : Prop :=
  ∀ (f : Nat) (frame : Frame Rat), frames[f]? = some frame → frames'[f]? = some frame

theorem keepsFrames_push (frames : Array (Frame Rat)) (g : Frame Rat) :
    KeepsFrames frames (frames.push g) := by
  intro f frame h
  obtain ⟨hlt, rfl⟩ := Array.getElem?_eq_some_iff.mp h
  exact Array.getElem?_push_lt hlt

theorem Abreast.mono (h : Abreast config frames y ids) (hkeep : KeepsFrames frames frames') :
    Abreast config frames' y ids where
  top f hf := by
    obtain ⟨frame, hframe, hy⟩ := h.top f hf
    exact ⟨frame, hkeep f frame hframe, hy⟩
  first f hf := by
    obtain ⟨frame, hframe, hx⟩ := h.first f hf
    exact ⟨frame, hkeep f frame hframe, hx⟩
  next := h.next.imp fun f g ⟨left, right, hleft, hright, hx⟩ =>
    ⟨left, right, hkeep f left hleft, hkeep g right hright, hx⟩

/-- One more frame, where the next one starts. -/
theorem Abreast.concat (h : Abreast config frames y ids) (hx : NextX config frames ids x)
    {g : Frame Rat} (hgx : g.bounds.x = x) (hgy : g.bounds.y = y) :
    Abreast config (frames.push g) y (ids ++ [frames.size]) := by
  have hkeep := keepsFrames_push frames g
  have hold := h.mono hkeep
  have hnew : (frames.push g)[frames.size]? = some g := Array.getElem?_push_size
  unfold NextX at hx
  refine ⟨fun f hf => ?_, fun f hf => ?_, ?_⟩
  · rcases List.mem_append.mp hf with hf | hf
    · exact hold.top f hf
    · rw [List.mem_singleton.mp hf]
      exact ⟨g, hnew, hgy⟩
  · cases ids with
    | nil =>
      cases hf
      exact ⟨g, hnew, hgx.trans hx⟩
    | cons i rest => exact hold.first f hf
  · refine List.isChain_append.mpr ⟨hold.next, List.isChain_singleton _, ?_⟩
    intro f hf i hi
    cases hi
    rw [Option.mem_def.mp hf] at hx
    obtain ⟨frame, hframe, hx⟩ := hx
    exact ⟨frame, g, hkeep f frame hframe, hnew, hgx.trans hx⟩

/-! ## Frames and their areas -/

/-- What is laid out so far, with the areas of the frames: a frame keeps the width of its area, and
what belongs to it ends in there. -/
structure Surveyed (config : Config Rat) (frames : Array (Frame Rat)) (a : Arena Rat)
    (areas : List (Bounds Rat)) : Prop where
  settled : a.Settled config frames
  framed : a.Framed frames areas
  size : frames.size = areas.length
  width : ∀ {f : Nat} {frame : Frame Rat} {area : Bounds Rat}, frames[f]? = some frame →
    areas[f]? = some area → area.right = frame.bounds.x + frame.totalWidth

/-- A frame with its values, and the area that has come of it. -/
theorem Surveyed.push (h : Surveyed config frames a areas) (s : Snapshot) (tree : EnvTree)
    (nodeId : Nat) (node : TreeNode) (envs : List Environment) (p : Point Rat) :
    let frame := Frame.place config frames.size nodeId node envs p
    let bound := bindFrame ⟨config, s.heap, tree, frames.push frame⟩ a frame
    Surveyed config
      (frames.push { frame with
        totalWidth := bound.arena.extent.right - frame.bounds.x, bindings := bound.bindings })
      bound.arena (areas ++ [bound.arena.extent]) := by
  intro frame bound
  let sc : Scope Rat := ⟨config, s.heap, tree, frames.push frame⟩
  have hopen : a.Settled config (frames.push frame) := h.settled.pushFrame frame
  have hin : a.Framed (frames.push frame) areas :=
    h.framed.mono h.settled rfl fun _ _ => Arena.anchor?_push frame
  have hsettled : bound.arena.Settled sc.config sc.frames :=
    settled_bindFrame hopen Array.getElem?_push_size fun b => getElem?_bindings_place
  have hframed : bound.arena.Framed sc.frames (areas ++ [bound.arena.extent]) :=
    framed_bindFrame hin hopen Array.getElem?_push_size h.size fun b => getElem?_bindings_place
  have hunbound := unbound_bound sc a frame (bound.arena.extent.right - frame.bounds.x)
  refine ⟨hsettled.of_unbound hunbound, ?_, ?_, ?_⟩
  · exact hframed.mono hsettled rfl fun r anchor hr =>
      (Arena.anchor?_push_of_unbound hunbound).trans hr
  · simp [h.size]
  · intro f g area hg harea
    rw [Array.getElem?_push] at hg
    split at hg
    · rename_i hf
      cases hg
      rw [hf, h.size, List.getElem?_concat_length] at harea
      cases harea
      exact (add_sub_cancel _ _).symm
    · have hlt : f < areas.length := h.size ▸ (Array.getElem?_eq_some_iff.mp hg).1
      rw [List.getElem?_append_left hlt] at harea
      exact h.width hg harea

/-! ## Levels -/

/-- A level with its top edge at `y` is being laid out: its frames stand side by side, and no area
of them goes further down than the area of the level so far. -/
structure Row.Arranged (config : Config Rat) (y : Rat) (row : Row Rat)
    (areas : List (Bounds Rat)) : Prop where
  laid : Surveyed config row.frames row.arena areas
  abreast : Abreast config row.frames y row.ids
  next : NextX config row.frames row.ids row.x
  bottom : ∀ f ∈ row.ids, ∃ area b, areas[f]? = some area ∧ row.bounds = some b ∧
    area.bottom ≤ b.bottom

theorem Row.Arranged.addFrame (h : row.Arranged config y areas) (s : Snapshot) (tree : EnvTree)
    (nodeId : Nat) :
    ∃ more, (Layout.addFrame config s tree y row nodeId).Arranged config y (areas ++ more) := by
  cases hnode : tree.nodes[nodeId]? with
  | none =>
    rw [addFrame_of_none hnode]
    exact ⟨[], by rwa [List.append_nil]⟩
  | some node =>
    rw [addFrame_of_some hnode]
    let frame := Frame.place config row.frames.size nodeId node (envsOf s node) ⟨row.x, y⟩
    let bound := bindFrame ⟨config, s.heap, tree, row.frames.push frame⟩ row.arena frame
    let g : Frame Rat :=
      { frame with
        totalWidth := bound.arena.extent.right - frame.bounds.x, bindings := bound.bindings }
    refine ⟨[bound.arena.extent], ?_, ?_, ?_, ?_⟩
    · exact h.laid.push s tree nodeId node (envsOf s node) ⟨row.x, y⟩
    · exact h.abreast.concat (g := g) h.next rfl rfl
    · show NextX config (row.frames.push g) (row.ids ++ [row.frames.size])
        (row.x + (bound.arena.extent.right - frame.bounds.x + config.frameMarginX))
      rw [NextX, List.getLast?_concat]
      exact ⟨g, Array.getElem?_push_size, (add_assoc ..).symm⟩
    · -- the area of the level takes in that of the frame
      have hgrown : ∃ b, (row.add config frame bound).bounds = some b ∧
          bound.arena.extent.EndsIn b ∧ ∀ old, row.bounds = some old → old.EndsIn b := by
        unfold Row.add
        cases row.bounds with
        | none => exact ⟨_, rfl, .refl _, fun old hold => by cases hold⟩
        | some old =>
          refine ⟨_, rfl, .union_right .., fun old' hold => ?_⟩
          cases hold
          exact .union_left ..
      obtain ⟨b, hb, hends, hwiden⟩ := hgrown
      intro f hf
      rcases List.mem_append.mp hf with hf | hf
      · obtain ⟨area, old, harea, hold, hbottom⟩ := h.bottom f hf
        exact ⟨area, b, Arena.getElem?_append_of_some harea _, hb,
          hbottom.trans (hwiden old hold).bottom⟩
      · obtain rfl := List.mem_singleton.mp hf
        refine ⟨bound.arena.extent, b, ?_, hb, hends.bottom⟩
        rw [h.laid.size]
        exact List.getElem?_concat_length

/-- The levels so far lie below each other, each down to the lowest of its areas, and the next one
starts below the last. -/
structure Stack.Arranged (config : Config Rat) (stack : Stack Rat) (areas : List (Bounds Rat)) :
    Prop where
  laid : Surveyed config stack.frames stack.arena areas
  abreast : ∀ level ∈ stack.levels, Abreast config stack.frames level.bounds.y level.frames
  below : stack.levels.IsChain (Below config)
  next : ∀ level, stack.levels.getLast? = some level →
    stack.y = level.bounds.y + level.bounds.height + config.frameMarginY
  bottom : ∀ level ∈ stack.levels, ∀ f ∈ level.frames, ∃ area, areas[f]? = some area ∧
    area.bottom ≤ level.bounds.bottom

theorem Stack.Arranged.openRow (h : stack.Arranged config areas) :
    (stack.openRow config).Arranged config stack.y areas where
  laid := h.laid
  abreast := ⟨by simp [Stack.openRow], by simp [Stack.openRow], .nil⟩
  next := rfl
  bottom := by simp [Stack.openRow]

theorem keepsFrames_addFrame (config : Config Rat) (s : Snapshot) (tree : EnvTree) (y : Rat)
    (row : Row Rat) (nodeId : Nat) :
    KeepsFrames row.frames (Layout.addFrame config s tree y row nodeId).frames := by
  cases hnode : tree.nodes[nodeId]? with
  | none =>
    rw [addFrame_of_none hnode]
    exact fun _ _ h => h
  | some node =>
    rw [addFrame_of_some hnode]
    exact keepsFrames_push row.frames _

/-- The level that has been laid out comes below the others. -/
theorem Stack.Arranged.add (h : stack.Arranged config areas) {more : List (Bounds Rat)}
    (hrow : row.Arranged config stack.y (areas ++ more))
    (hkeep : KeepsFrames stack.frames row.frames) :
    (stack.add config row).Arranged config (areas ++ more) where
  laid := hrow.laid
  abreast level hlevel := by
    rcases List.mem_append.mp hlevel with hlevel | hlevel
    · exact (h.abreast level hlevel).mono hkeep
    · rw [List.mem_singleton.mp hlevel]
      exact hrow.abreast
  below := by
    refine List.isChain_append.mpr ⟨h.below, List.isChain_singleton _, ?_⟩
    intro upper hupper lower hlower
    cases hlower
    exact h.next upper hupper
  next level hlevel := by
    have hlast := (List.getLast?_concat (l := stack.levels)).symm.trans hlevel
    cases hlast
    exact (add_assoc ..).symm
  bottom level hlevel f hf := by
    rcases List.mem_append.mp hlevel with hlevel | hlevel
    · obtain ⟨area, harea, hbottom⟩ := h.bottom level hlevel f hf
      exact ⟨area, Arena.getElem?_append_of_some harea _, hbottom⟩
    · obtain rfl := List.mem_singleton.mp hlevel
      obtain ⟨area, b, harea, hb, hbottom⟩ := hrow.bottom f hf
      refine ⟨area, harea, hbottom.trans ?_⟩
      show b.bottom ≤ stack.y + ((row.bounds.getD _).bottom - stack.y)
      rw [hb, Option.getD_some, add_sub_cancel]

theorem Stack.Arranged.addLevel (h : stack.Arranged config areas) (s : Snapshot) (tree : EnvTree)
    (nodes : List Nat) :
    ∃ areas', (Layout.addLevel config s tree stack nodes).Arranged config areas' := by
  let P : List Nat → Row Rat → Prop := fun _ row =>
    KeepsFrames stack.frames row.frames ∧
      ∃ more, row.Arranged config stack.y (areas ++ more)
  have hstart : P [] (stack.openRow config) :=
    ⟨fun _ _ hframe => hframe, [], (List.append_nil areas).symm ▸ h.openRow⟩
  have hrow : P nodes (nodes.foldl (Layout.addFrame config s tree stack.y)
      (stack.openRow config)) := by
    refine foldl_keeps (P := P) nodes ?_ hstart
    rintro - nodeId row - ⟨hkeep, more, hrow⟩
    obtain ⟨further, hnext⟩ := hrow.addFrame s tree nodeId
    refine ⟨fun f frame hf => ?_, more ++ further, by rwa [← List.append_assoc]⟩
    exact keepsFrames_addFrame config s tree stack.y row nodeId f frame (hkeep f frame hf)
  obtain ⟨hkeep, more, hrow⟩ := hrow
  rw [addLevel_eq_add]
  exact ⟨areas ++ more, h.add hrow hkeep⟩

theorem arranged_stackOf (config : Config Rat) (s : Snapshot) :
    ∃ areas, (stackOf config s).Arranged config areas := by
  refine foldl_keeps (P := fun _ (stack : Stack Rat) => ∃ areas, stack.Arranged config areas) _ ?_
    ⟨[], ⟨⟨fun hx => ?_⟩, ⟨fun hx => ?_⟩, rfl, ?_⟩, ?_, .nil, ?_, ?_⟩
  · rintro - nodes stack - ⟨areas, hstack⟩
    exact hstack.addLevel s _ nodes
  · simp [Arena.empty] at hx
  · simp [Arena.empty] at hx
  · simp
  · simp
  · simp
  · simp

/-! ## The layout of a snapshot -/

-- nothing below depends on how the tree is built
attribute [local irreducible] EnvTree.build

/-- Levels, frames and values keep to their places. -/
theorem arranged_ofSnapshot (config : Config Rat) (s : Snapshot) :
    (ofSnapshot config s).Arranged config := by
  obtain ⟨areas, h⟩ := arranged_stackOf config s
  have hids : ((ofSnapshot config s).levels.flatMap Level.frames) =
      List.range (ofSnapshot config s).frames.size := (ofSnapshot_laid config s).ids
  have hframed : (ofSnapshot config s).arena.Framed (ofSnapshot config s).frames areas := by
    have hvalues : (ofSnapshot config s).arena.values = (stackOf config s).arena.values :=
      values_ofSnapshot config s
    rw [frames_ofSnapshot]
    exact h.laid.framed.mono h.laid.settled hvalues fun r anchor hr =>
      (Arena.anchor?_of_values hvalues _ r).trans hr
  refine ⟨?_, ?_, fun {v x} hx => ?_, fun {v x f} hx hanchored => ?_⟩
  · rw [levels_ofSnapshot, frames_ofSnapshot]
    exact h.abreast
  · rw [levels_ofSnapshot]
    exact h.below
  · obtain ⟨f, -, hanchored, -⟩ := hframed.value hx
    exact ⟨f, hanchored⟩
  · obtain ⟨g, area, hanchored', harea, hends⟩ := hframed.value hx
    obtain rfl := hanchored.unique hanchored'
    -- the frame is on one of the levels, and the area of the level takes in that of the frame
    have hlt : f < (ofSnapshot config s).frames.size := by
      rw [frames_ofSnapshot, h.laid.size]
      exact (List.getElem?_eq_some_iff.mp harea).1
    have hframe := Array.getElem?_eq_getElem hlt
    have hf : f ∈ (ofSnapshot config s).levels.flatMap Level.frames := by
      rw [hids]
      exact List.mem_range.mpr hlt
    obtain ⟨level, hlevel, hf⟩ := List.mem_flatMap.mp hf
    have hbottom := h.bottom level (levels_ofSnapshot config s ▸ hlevel) f hf
    obtain ⟨area', harea', hbottom⟩ := hbottom
    obtain rfl := Option.some.inj (harea.symm.trans harea')
    refine ⟨_, level, hframe, hlevel, hf, ?_, hends.bottom.trans hbottom⟩
    rw [← h.laid.width (frames_ofSnapshot config s ▸ hframe) harea]
    exact hends.right

end Layout

/-- In the layout of a snapshot the frames of a level stand side by side, the levels lie below each
other, and what belongs to a frame ends in its total width and on its level. -/
theorem Scene.arranged_load (sc : Scene Rat) (s : Snapshot) :
    (sc.load s).layout.Arranged sc.config :=
  Layout.arranged_ofSnapshot sc.config s

end EnvDiagram
