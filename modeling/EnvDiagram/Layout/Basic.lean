import EnvDiagram.Layout.Arena

/-!
# Layouts

A layout holds the frames and values of one snapshot at their positions. Levels of the
tree lie one below the other, the frames of a level side by side. The values of a frame
are placed right after it, so that the next frame starts to the right of them all.

* `Layout.ofSnapshot` — the layout of a snapshot
* `Layout.place?` — one more datum placed in a finished layout
* `Layout.frameOfEnv`, `Layout.binding?`, `Layout.cached` — what became of the parts of
  the snapshot
-/

namespace EnvDiagram

variable {α : Type}

/-- The frames of one depth of the tree. -/
structure Level (α : Type) where
  depth : Nat
  frames : List Nat
  /-- The area of the frames and of the values placed with them. -/
  bounds : Bounds α

/-- The frames and values of a snapshot at their positions. -/
structure Layout (α : Type) where
  /-- The step of the snapshot; absent before there is one. -/
  step : Option Nat
  tree : EnvTree
  frames : Array (Frame α)
  values : Array (Value α)
  /-- The values of objects, by identity. -/
  cache : List (DatumId × Nat)
  levels : List (Level α)
  defects : List Defect

namespace Layout

/-- The layout before any snapshot. -/
def empty : Layout α := ⟨none, .empty, #[], #[], [], [], []⟩

/-! ## Looking things up -/

/-- The value of an object. -/
def cached (l : Layout α) (id : DatumId) : Option Nat := l.cache.lookup id

/-- The frame of a node. -/
def frameOf (l : Layout α) (node : Nat) : Option Nat :=
  (l.frames.find? fun f => f.node = node).map Frame.id

/-- The frame that stands for an environment. -/
def frameOfEnv (l : Layout α) (env : EnvId) : Option Nat :=
  (l.tree.resolve env).bind l.frameOf

/-- The row of a name in the frame that stands for an environment. -/
def binding? (l : Layout α) (env : EnvId) (name : String) : Option (Binding α) :=
  (l.frameOfEnv env).bind fun f => (l.frames[f]?).bind fun frame => frame.binding? name

/-- The glyph of a value, if that is a function; an error if there is no such value. -/
def glyph? (l : Layout α) (v : Nat) : Except LookupError (Option (FunctionGlyph α)) :=
  match l.values[v]? with
  | none => .error (.noValue v)
  | some value => .ok value.glyph?

variable [Scalar α]

/-! ## Laying out -/

/-- The bindings of a frame with their values placed, so far. -/
structure Bound (α : Type) where
  arena : Arena α
  bindings : Array (Binding α)

/-- Places the value of one row. -/
def bindRow (sc : Scope α) (frame : Frame α) (bound : Bound α) (b : Binding α) : Bound α :=
  match b.datum with
  | none => ⟨bound.arena, bound.bindings.push b⟩
  | some d =>
    let anchor := .row frame.id b.index frame.node frame.bounds b.bounds
    let (arena, v) := bound.arena.place sc anchor d
    ⟨arena, bound.bindings.push { b with target := some v }⟩

/-- A level being laid out. -/
structure Row (α : Type) where
  frames : Array (Frame α)
  arena : Arena α
  /-- Where the next frame starts. -/
  x : α
  /-- The area of the level so far. -/
  bounds : Option (Bounds α)
  ids : List Nat

/-- The environments of a node, outermost first. -/
def envsOf (s : Snapshot) (node : TreeNode) : List Environment :=
  (node.merged ++ node.env.toList).filterMap s.env?

/-- Lays out the frame of a node, and the values of its bindings. -/
def addFrame (config : Config α) (s : Snapshot) (tree : EnvTree) (y : α) (row : Row α)
    (nodeId : Nat) : Row α :=
  match tree.nodes[nodeId]? with
  | none => row
  | some node =>
    let id := row.frames.size
    let frame := Frame.place config id nodeId node (envsOf s node) ⟨row.x, y⟩
    let sc : Scope α := ⟨config, s.heap, tree, row.frames.push frame⟩
    let bound := frame.bindings.foldl (bindRow sc frame)
      ⟨{ row.arena with extent := frame.bounds }, #[]⟩
    let extent := bound.arena.extent
    let totalWidth := extent.right - frame.bounds.x
    { frames := row.frames.push { frame with totalWidth, bindings := bound.bindings }
      arena := bound.arena
      x := row.x + (totalWidth + config.frameMarginX)
      bounds := some (match row.bounds with
        | none => extent
        | some b => b.union extent)
      ids := row.ids ++ [id] }

/-- The levels laid out so far. -/
structure Stack (α : Type) where
  frames : Array (Frame α)
  arena : Arena α
  /-- Where the next level starts. -/
  y : α
  levels : List (Level α)

/-- Lays out one level. Values may lie above its top edge, so its height is measured down
to the lowest point. -/
def addLevel (config : Config α) (s : Snapshot) (tree : EnvTree) (stack : Stack α)
    (nodes : List Nat) : Stack α :=
  let startX := config.canvasPaddingX + config.levelPaddingX
  let y := stack.y
  let row := nodes.foldl (addFrame config s tree y) ⟨stack.frames, stack.arena, startX, none, []⟩
  let area := row.bounds.getD ⟨startX, y, Scalar.zero, Scalar.zero⟩
  let height := area.bottom - y
  { frames := row.frames
    arena := row.arena
    y := y + (height + config.frameMarginY)
    levels := stack.levels ++
      [⟨stack.levels.length, row.ids, ⟨startX, y, area.right - startX, height⟩⟩] }

/-- The layout of a snapshot. -/
def ofSnapshot (config : Config α) (s : Snapshot) : Layout α :=
  let (tree, defects) := EnvTree.build s config.framePolicy
  let start : Stack α :=
    { frames := #[]
      arena := .empty .empty
      y := config.canvasPaddingY + config.levelPaddingY
      levels := [] }
  let stack := tree.levels.foldl (addLevel config s tree) start
  { step := some s.step
    tree
    frames := stack.frames
    values := stack.arena.values
    cache := stack.arena.cache
    levels := stack.levels
    defects := defects ++ stack.arena.defects }

/-! ## Adding to a layout -/

/-- The values of a layout, open for further ones. -/
def arena (l : Layout α) : Arena α := ⟨l.values, l.cache, l.defects, .empty⟩

/-- The layout with its values replaced. -/
def withArena (l : Layout α) (a : Arena α) : Layout α :=
  { l with values := a.values, cache := a.cache, defects := a.defects }

/-- The anchor of a row, if there is such a row. -/
def rowAnchor? (l : Layout α) (frame index : Nat) : Option (Anchor α) :=
  (l.frames[frame]?).bind fun f => (f.bindings[index]?).map fun b =>
    .row frame index f.node f.bounds b.bounds

/-- What placing a datum in the layout looks at. -/
def scope (config : Config α) (l : Layout α) (s : Snapshot) : Scope α :=
  ⟨config, s.heap, l.tree, l.frames⟩

/-- Places a datum as seen from an anchor. -/
def placeAt (config : Config α) (l : Layout α) (s : Snapshot) (d : Datum) (anchor : Anchor α) :
    Layout α × Nat :=
  let (arena, v) := l.arena.place (l.scope config s) anchor d
  (l.withArena arena, v)

/-- The placed value that a datum denotes. -/
def placed (l : Layout α) : Datum → Option Nat
  | .object id => l.cached id
  | _ => none

/-- Whether a further reference from a frame leaves a value where it is, so that nobody
asks where in the frame the reference sits. -/
def staysPut (l : Layout α) (sc : Scope α) (v : Nat) (frame : Nat) : Bool :=
  match (l.values[v]?).bind fun value => value.glyph?.map (value, ·) with
  | none => true
  | some (value, f) =>
    match l.frames[frame]? with
    | none => false
    | some fr => fr.node ≠ f.enclosing || value.references.any (sc.isRowOf f.enclosing)

/-- Places a datum as seen from a reference. A cell that no array has is as good as one at
the origin. A row that no frame has can be noted as a reference to a value that stays
where it is, and brings nothing else. -/
def place? (config : Config α) (l : Layout α) (s : Snapshot) (d : Datum) :
    Reference → Except LookupError (Layout α × Nat)
  | .cell array index => .ok (l.placeAt config s d (l.arena.cellAnchor array index))
  | .binding frame index =>
    match l.rowAnchor? frame index, l.placed d with
    | some anchor, _ => .ok (l.placeAt config s d anchor)
    | none, some v =>
      if l.staysPut (l.scope config s) v frame then
        .ok (l.withArena (l.arena.addReference v (.binding frame index)), v)
      else .error (.noBinding frame index)
    | none, none => .error (.noBinding frame index)

end Layout

end EnvDiagram
