import EnvDiagram.Scalar.Exact
import EnvDiagram.Scene

/-!
# Scenes used again

A scene is used for many snapshots. What an operation leaves behind is the layout, with what
has been placed in it since, the marks of the last drawing, and the area of the frame that was
laid out last. Loading a snapshot clears the layout and goes on from what is left
(`Layout.layOver`); the area is the one thing that it does not clear, but every frame replaces it
before it is widened (`Layout.layOver_empty`). So a scene that has been used shows a snapshot as
a new one does (`Session.redraw_reached`).

* `Session` — a scene with the area that is left behind
* `Session.Reached` — what comes of a new scene by any operations
-/

namespace EnvDiagram

variable {α σ β ε : Type}

/-- If every step hides what is left behind, so does a list of steps. -/
theorem foldl_leave {step : σ → β → σ} {leave : σ → ε → σ}
    (hstep : ∀ s e b, ∃ e', step (leave s e) b = leave (step s b) e') (bs : List β) (s : σ)
    (e : ε) : ∃ e', bs.foldl step (leave s e) = leave (bs.foldl step s) e' := by
  induction bs generalizing s e with
  | nil => exact ⟨e, rfl⟩
  | cons b rest ih =>
    obtain ⟨e', he⟩ := hstep s e b
    rw [List.foldl_cons, he]
    exact ih (step s b) e'

namespace Layout

/-! ## The area that is left behind -/

/-- The row with another area left behind. -/
def Row.leave (row : Row α) (extent : Bounds α) : Row α :=
  { row with arena := { row.arena with extent } }

/-- The levels so far with another area left behind. -/
def Stack.leave (stack : Stack α) (extent : Bounds α) : Stack α :=
  { stack with arena := { stack.arena with extent } }

variable [Scalar α]

/-- A frame begins with its own area, whatever the one before has left. -/
theorem addFrame_leave (config : Config α) (s : Snapshot) (tree : EnvTree) (y : α) (row : Row α)
    (extent : Bounds α) (node : Nat) :
    ∃ left, addFrame config s tree y (row.leave extent) node =
      (addFrame config s tree y row node).leave left := by
  unfold addFrame
  cases tree.nodes[node]? with
  | none => exact ⟨extent, rfl⟩
  | some node => exact ⟨_, rfl⟩

/-- The levels after one more, given its row. -/
def closeLevel (config : Config α) (stack : Stack α) (row : Row α) : Stack α :=
  let startX := config.canvasPaddingX + config.levelPaddingX
  let area := row.bounds.getD ⟨startX, stack.y, Scalar.zero, Scalar.zero⟩
  let height := area.bottom - stack.y
  { frames := row.frames
    arena := row.arena
    y := stack.y + (height + config.frameMarginY)
    levels := stack.levels ++
      [⟨stack.levels.length, row.ids, ⟨startX, stack.y, area.right - startX, height⟩⟩] }

theorem addLevel_eq (config : Config α) (s : Snapshot) (tree : EnvTree) (stack : Stack α)
    (nodes : List Nat) :
    addLevel config s tree stack nodes = closeLevel config stack
      (nodes.foldl (addFrame config s tree stack.y)
        ⟨stack.frames, stack.arena, config.canvasPaddingX + config.levelPaddingX, none, []⟩) :=
  rfl

theorem addLevel_leave (config : Config α) (s : Snapshot) (tree : EnvTree) (stack : Stack α)
    (extent : Bounds α) (nodes : List Nat) :
    ∃ left, addLevel config s tree (stack.leave extent) nodes =
      (addLevel config s tree stack nodes).leave left := by
  let start : Row α :=
    ⟨stack.frames, stack.arena, config.canvasPaddingX + config.levelPaddingX, none, []⟩
  obtain ⟨left, hrow⟩ := foldl_leave (addFrame_leave config s tree stack.y) nodes start extent
  refine ⟨left, ?_⟩
  have hleft : addLevel config s tree (stack.leave extent) nodes =
      closeLevel config stack (nodes.foldl (addFrame config s tree stack.y) (start.leave extent)) :=
    addLevel_eq ..
  rw [hleft, hrow, addLevel_eq]
  rfl

/-- The layout that levels make up. -/
def ofStack (s : Snapshot) (tree : EnvTree) (defects : List Defect) (stack : Stack α) :
    Layout α where
  step := some s.step
  tree
  frames := stack.frames
  values := stack.arena.values
  cache := stack.arena.cache
  levels := stack.levels
  defects := defects ++ stack.arena.defects

/-- Lays out a snapshot over what is there already, with the area that is left behind. What
is there stays. -/
def layOver (config : Config α) (s : Snapshot) (l : Layout α) (extent : Bounds α) :
    Layout α × Bounds α :=
  let (tree, defects) := EnvTree.build s config.framePolicy
  let start : Stack α :=
    { frames := l.frames
      arena := ⟨l.values, l.cache, [], extent⟩
      y := config.canvasPaddingY + config.levelPaddingY
      levels := l.levels }
  let stack := tree.levels.foldl (addLevel config s tree) start
  (ofStack s tree (l.defects ++ defects) stack, stack.arena.extent)

-- nothing below depends on how the tree is built
attribute [local irreducible] EnvTree.build

/-- Over an empty layout a snapshot is laid out as anew, whatever area is left behind. -/
theorem layOver_empty (config : Config α) (s : Snapshot) (extent : Bounds α) :
    (layOver config s .empty extent).1 = .ofSnapshot config s := by
  let tree := (EnvTree.build s config.framePolicy).1
  let start : Stack α :=
    { frames := #[]
      arena := .empty .empty
      y := config.canvasPaddingY + config.levelPaddingY
      levels := [] }
  obtain ⟨left, hstack⟩ := foldl_leave (addLevel_leave config s tree) tree.levels start extent
  have hover : (layOver config s .empty extent).1 =
      ofStack s tree ([] ++ (EnvTree.build s config.framePolicy).2)
        (tree.levels.foldl (addLevel config s tree) (start.leave extent)) := rfl
  rw [hover, hstack]
  rfl

end Layout

/-! ## Sessions -/

namespace Scene

variable [Scalar α] {sc sc' : Scene α} {config : Config α} {s : Snapshot} {d : Datum}
  {r : Reference} {v : Nat}

/-- What a scene shows of a snapshot depends on its settings only. -/
theorem redraw_of_config (h : sc.config = config) (s : Snapshot) (printable : Bool) :
    sc.redraw s printable = (ofConfig config).redraw s printable := by
  rw [redraw, load, h]
  rfl

omit [Scalar α] in
theorem reset_of_config (h : sc.config = config) : sc.reset = ofConfig config := by
  rw [reset, h]

theorem config_place? (h : sc.place? s d r = .ok (sc', v)) : sc'.config = sc.config := by
  unfold place? at h
  cases hl : sc.layout.place? sc.config s d r with
  | error e => rw [hl] at h; cases h
  | ok placed => rw [hl] at h; cases h; rfl

theorem place?_cell (sc : Scene α) (s : Snapshot) (d : Datum) (array index : Nat) :
    sc.place? s d (.cell array index) =
      let placed := sc.layout.placeAt sc.config s d (sc.layout.arena.cellAnchor array index)
      .ok ({ sc with layout := placed.1 }, placed.2) := rfl

end Scene

/-- A scene in use, with the area of the frame that was laid out last. -/
structure Session (α : Type) where
  scene : Scene α
  extent : Bounds α

namespace Session

variable [Scalar α] {config : Config α} {c : Session α}

/-- A session that begins. -/
def ofConfig (config : Config α) : Session α := ⟨.ofConfig config, .empty⟩

/-- Forgets the layout, but not the area. -/
def reset (c : Session α) : Session α := { c with scene := c.scene.reset }

/-- Lays out a snapshot, with what is left when the layout is forgotten. -/
def load (c : Session α) (s : Snapshot) : Session α :=
  let cleared := c.reset
  let (layout, extent) := Layout.layOver cleared.scene.config s cleared.scene.layout cleared.extent
  ⟨{ cleared.scene with layout }, extent⟩

/-- Draws the layout. -/
def draw (c : Session α) (printable : Bool) : Diagram α × Session α :=
  let (diagram, scene) := c.scene.draw printable
  (diagram, { c with scene })

/-- Lays out a snapshot and draws it. -/
def redraw (c : Session α) (s : Snapshot) (printable : Bool) : Diagram α × Session α :=
  (c.load s).draw printable

/-- The sessions that operations lead to. A datum that is placed may widen the area to any
other. -/
inductive Reached (config : Config α) : Session α → Prop
  | begin : Reached config (ofConfig config)
  | reset {c : Session α} : Reached config c → Reached config c.reset
  | load {c : Session α} (s : Snapshot) : Reached config c → Reached config (c.load s)
  | draw {c : Session α} (printable : Bool) : Reached config c → Reached config (c.draw printable).2
  | redraw {c : Session α} (s : Snapshot) (printable : Bool) :
      Reached config c → Reached config (c.redraw s printable).2
  | place {c : Session α} {s : Snapshot} {d : Datum} {r : Reference} {sc : Scene α} {v : Nat}
      (extent : Bounds α) : Reached config c → c.scene.place? s d r = .ok (sc, v) →
      Reached config ⟨sc, extent⟩

/-- The area that is left makes no difference to the scene. -/
theorem scene_load (c : Session α) (s : Snapshot) : (c.load s).scene = c.scene.load s := by
  have hlayout := Layout.layOver_empty c.scene.config s c.extent
  rw [Scene.load, ← hlayout]
  rfl

theorem redraw_eq (c : Session α) (s : Snapshot) (printable : Bool) :
    ((c.redraw s printable).1, (c.redraw s printable).2.scene) = c.scene.redraw s printable := by
  rw [Scene.redraw, ← scene_load]
  rfl

/-- No operation changes the settings. -/
theorem config_of_reached (h : Reached config c) : c.scene.config = config := by
  induction h with
  | begin => rfl
  | reset _ ih => exact ih
  | load s _ ih => rwa [scene_load]
  | draw printable _ ih => exact ih
  | redraw s printable _ ih => exact ih
  | place extent _ hplace ih => exact (Scene.config_place? hplace).trans ih

/-- Whatever a session has been used for, it shows a snapshot as a new scene does, and once it
has forgotten its layout it draws what a new scene draws. -/
theorem redraw_reached (h : Reached config c) (s : Snapshot) (printable : Bool) :
    ((c.redraw s printable).1, (c.redraw s printable).2.scene) =
        (Scene.ofConfig config).redraw s printable ∧
      c.scene.redraw s printable = (Scene.ofConfig config).redraw s printable ∧
      (c.reset.draw printable).1 = ((Scene.ofConfig config).draw printable).1 := by
  have hconfig := config_of_reached h
  have hscene := Scene.redraw_of_config hconfig s printable
  refine ⟨(c.redraw_eq s printable).trans hscene, hscene, ?_⟩
  show (c.scene.reset.draw printable).1 = _
  rw [Scene.reset_of_config hconfig]

/-- An array has another value placed for its cell; the next drawing shows nothing of it. -/
theorem redraw_reached_place :
    let s : Snapshot :=
      ⟨0, [⟨⟨0⟩, "global", none, [⟨"xs", some (.object ⟨1⟩), false⟩]⟩],
        [(⟨1⟩, .array [.primitive (.bool true)])], some ⟨0⟩⟩
    let used : Session Rat := (((ofConfig .standard).load s).draw false).2
    let placed := used.scene.layout.placeAt used.scene.config s (.primitive (.bool false))
      (used.scene.layout.arena.cellAnchor 0 0)
    let c : Session Rat := ⟨{ used.scene with layout := placed.1 }, used.extent⟩
    Reached .standard c ∧
      ((c.redraw s true).1, (c.redraw s true).2.scene) = (Scene.ofConfig .standard).redraw s true ∧
      c.scene.redraw s true = (Scene.ofConfig .standard).redraw s true ∧
      (c.reset.draw true).1 = ((Scene.ofConfig .standard).draw true).1 := by
  intro s used placed c
  have hused : Reached .standard used := .draw false (.load s .begin)
  have hc : Reached .standard c := .place used.extent hused (used.scene.place?_cell s _ 0 0)
  exact ⟨hc, redraw_reached hc s true⟩

end Session

end EnvDiagram
