import EnvDiagram.Layout.Basic

/-!
# The steps of a layout

A datum is visited from an anchor, which finds its value or adds one. A row has its value placed
as seen from its anchor; a node gets a frame, whose rows have their values placed one after the
other, and the frame takes its place in the level; levels are stacked. What each of these steps
does is said here once.

* `visit_cases`, `reanchor_cases` — all that a visit can do
* `cellAnchor_visit`, `cellAnchor_visitArray` — the anchors of old cells and of new ones
* `run_keeps` — what filling one cell keeps is kept until no cell waits any more
* `bindRow_of_some`, `addFrame_of_some`, `addLevel_eq_add` — the further steps as equations
* `ofSnapshot_eq` — a layout by the levels of its tree
-/

namespace EnvDiagram

variable {α : Type}

/-! ## Visits -/

namespace Arena

variable [Scalar α] {sc : Scope α} {a : Arena α} {anchor : Anchor α}

/-- A function is moved to a row, or all stays where it is. -/
theorem reanchor_cases (sc : Scope α) (a : Arena α) (v : Nat) (anchor : Anchor α) :
    a.reanchor sc v anchor = a ∨
      ∃ value f, a.values[v]? = some value ∧ value.kind = .function f ∧
        a.reanchor sc v anchor =
          { a with
            values := a.values.modify v fun _ => value.moveTo (anchor.functionCenter sc.config)
            extent := a.extent.union (value.moveTo (anchor.functionCenter sc.config)).bounds } := by
  unfold reanchor
  split
  · rename_i value hvalue
    split
    · rename_i f hf
      split
      · exact Or.inr ⟨value, f, hvalue, hf, rfl⟩
      · exact Or.inl rfl
    · exact Or.inl rfl
  · exact Or.inl rfl

theorem defects_reanchor (sc : Scope α) (a : Arena α) (v : Nat) (anchor : Anchor α) :
    (a.reanchor sc v anchor).defects = a.defects := by
  rcases reanchor_cases sc a v anchor with heq | ⟨value, f, -, -, heq⟩
  · rw [heq]
  · rw [heq]

/-- An object that has a value is met again. -/
theorem visit_of_cached {id : DatumId} {v : Nat} (h : a.cached id = some v) (sc : Scope α)
    (anchor : Anchor α) : a.visit sc anchor (.object id) =
      ⟨(a.reanchor sc v anchor).addReference v anchor.reference, v, []⟩ := by
  simp only [visit, h]

/-- A visit finds a value again, or adds a text, an array or a function. A text may stand for a
defect, which is noted. -/
theorem visit_cases (sc : Scope α) (a : Arena α) (anchor : Anchor α) (d : Datum) :
    (∃ v, a.visit sc anchor d =
      ⟨(a.reanchor sc v anchor).addReference v anchor.reference, v, []⟩) ∨
    (∃ (b : Arena α) (text : String) (placeholder : Bool), b.values = a.values ∧
      b.extent = a.extent ∧ a.visit sc anchor d = b.visitText sc anchor text placeholder) ∨
    (∃ id cells, a.visit sc anchor d = a.visitArray sc anchor id cells) ∨
    ∃ id c node, a.visit sc anchor d =
      let f := FunctionGlyph.ofClosure sc.config c node (anchor.functionCenter sc.config)
      ⟨a.push (some id) (.function f) f.bounds anchor.reference, a.values.size, []⟩ := by
  cases d with
  | primitive p => exact Or.inr (Or.inl ⟨a, _, _, rfl, rfl, rfl⟩)
  | null => exact Or.inr (Or.inl ⟨a, _, _, rfl, rfl, rfl⟩)
  | object id =>
    cases hc : a.cached id with
    | some v => exact Or.inl ⟨v, visit_of_cached hc sc anchor⟩
    | none =>
      right
      cases hf : sc.heap.find? id with
      | none =>
        exact Or.inl ⟨a.addDefect (.unresolvedDatum id), sc.config.unknownText, true, rfl, rfl,
          by simp only [visit, hc, hf]⟩
      | some object =>
        cases object with
        | array cells => exact Or.inr (Or.inl ⟨id, cells, by simp only [visit, hc, hf]⟩)
        | closure c =>
          cases hn : sc.tree.resolve c.env with
          | none =>
            exact Or.inl ⟨a.addDefect (.malformedClosure id c.env), c.signature, false, rfl, rfl,
              by simp only [visit, hc, hf, visitClosure, hn]⟩
          | some node =>
            exact Or.inr (Or.inr ⟨id, c, node, by simp only [visit, hc, hf, visitClosure, hn]⟩)

end Arena

/-! ## The anchors of cells -/

/-- The anchor of a cell of a value. -/
def Value.cellAnchor (value : Value α) (array index : Nat) : Anchor α :=
  match value.cells?.bind (·[index]?) with
  | some cell => .cell array index cell.bounds cell.isLast value.bounds.height
  | none => .stray array index

/-- An anchor does not ask what cells hold. -/
theorem Value.cellAnchor_setContent (value : Value α) (i c array index : Nat) :
    (value.setContent i c).cellAnchor array index = value.cellAnchor array index := by
  obtain ⟨id, datum, kind, bounds, references⟩ := value
  cases kind with
  | literal => rfl
  | function => rfl
  | array cells =>
    simp only [setContent, cellAnchor, cells?, Option.bind_some, Array.getElem?_modify]
    by_cases hi : i = index
    · rw [if_pos hi]
      cases cells[index]? <;> rfl
    · rw [if_neg hi]

theorem Value.cellAnchor_moveTo (value : Value α) [Scalar α] (center : Point α)
    (array index : Nat) :
    (value.moveTo center).cellAnchor array index = value.cellAnchor array index := by
  obtain ⟨id, datum, kind, bounds, references⟩ := value
  cases kind <;> rfl

namespace Arena

variable {a b : Arena α} {array index : Nat}

theorem cellAnchor_eq (a : Arena α) (array index : Nat) : a.cellAnchor array index =
    ((a.values[array]?).map fun value => value.cellAnchor array index).getD
      (.stray array index) := by
  rw [cellAnchor, cell?]
  cases a.values[array]? with
  | none => rfl
  | some value =>
    simp only [Option.bind_some, Option.map_some, Option.getD_some, Value.cellAnchor]
    cases value.cells?.bind (·[index]?) <;> rfl

theorem cellAnchor_modify {v : Nat} (change : Value α → Value α)
    (hb : b.values = a.values.modify v change)
    (h : ∀ value, a.values[v]? = some value →
      (change value).cellAnchor array index = value.cellAnchor array index) :
    b.cellAnchor array index = a.cellAnchor array index := by
  rw [cellAnchor_eq, cellAnchor_eq, hb, Array.getElem?_modify]
  split
  · rename_i hv
    subst hv
    cases hvalue : a.values[v]? with
    | none => rfl
    | some value => exact h value hvalue
  · rfl

theorem cellAnchor_addReference (a : Arena α) (v : Nat) (r : Reference) (array index : Nat) :
    (a.addReference v r).cellAnchor array index = a.cellAnchor array index :=
  cellAnchor_modify (fun value => value.addReference r) rfl fun _ _ => rfl

theorem cellAnchor_setContent (a : Arena α) (i j c array index : Nat) :
    (a.setContent i j c).cellAnchor array index = a.cellAnchor array index :=
  cellAnchor_modify (fun value => value.setContent j c) rfl fun value _ =>
    value.cellAnchor_setContent j c array index

/-- A cell that there is has an anchor. -/
theorem lt_size_of_cellAnchor (h : a.cellAnchor array index ≠ .stray array index) :
    array < a.values.size := by
  refine Nat.lt_of_not_le fun hle => h ?_
  rw [cellAnchor_eq, Array.getElem?_eq_none hle]
  rfl

variable [Scalar α]

theorem cellAnchor_push (h : array < a.values.size) (datum : Option DatumId) (kind : ValueKind α)
    (bounds : Bounds α) (r : Reference) (index : Nat) :
    (a.push datum kind bounds r).cellAnchor array index = a.cellAnchor array index := by
  unfold push
  rw [cellAnchor_eq, cellAnchor_eq, Array.getElem?_push_lt h, Array.getElem?_eq_getElem h]

theorem cellAnchor_reanchor (sc : Scope α) (a : Arena α) (v : Nat) (anchor : Anchor α)
    (array index : Nat) :
    (a.reanchor sc v anchor).cellAnchor array index = a.cellAnchor array index := by
  rcases reanchor_cases sc a v anchor with heq | ⟨value, f, hvalue, -, heq⟩
  · rw [heq]
  · rw [heq]
    refine cellAnchor_modify (fun _ => value.moveTo (anchor.functionCenter sc.config)) rfl ?_
    intro value' hvalue'
    rw [hvalue, Option.some.injEq] at hvalue'
    rw [← hvalue', Value.cellAnchor_moveTo]

/-- A visit leaves the cells where they are. -/
theorem cellAnchor_visit (sc : Scope α) (anchor : Anchor α) (d : Datum)
    (h : a.cellAnchor array index ≠ .stray array index) :
    (a.visit sc anchor d).arena.cellAnchor array index = a.cellAnchor array index := by
  have hlt := lt_size_of_cellAnchor h
  rcases visit_cases sc a anchor d with ⟨v, heq⟩ | ⟨b, text, placeholder, hvalues, -, heq⟩ |
    ⟨id, cells, heq⟩ | ⟨id, c, node, heq⟩
  · rw [heq]
    show ((a.reanchor sc v anchor).addReference v _).cellAnchor array index = _
    rw [cellAnchor_addReference, cellAnchor_reanchor]
  · rw [heq]
    have hb : b.cellAnchor array index = a.cellAnchor array index := by
      rw [cellAnchor_eq, hvalues, ← cellAnchor_eq]
    exact (cellAnchor_push (hvalues ▸ hlt) ..).trans hb
  · rw [heq]
    exact cellAnchor_push hlt ..
  · rw [heq]
    exact cellAnchor_push hlt ..

/-- The anchor of a cell of an array that has just been placed. -/
theorem cellAnchor_visitArray (sc : Scope α) (a : Arena α) (anchor : Anchor α) (id : DatumId)
    {cells : List Datum} {i : Nat} (hi : i < cells.length) :
    (a.visitArray sc anchor id cells).arena.cellAnchor a.values.size i =
      let cell := Cell.place sc.config a.values.size cells.length (anchor.arrayOrigin sc.config) i
      .cell a.values.size i cell.bounds cell.isLast sc.config.cellHeight := by
  let p := anchor.arrayOrigin sc.config
  have hlast : (a.visitArray sc anchor id cells).arena.values[a.values.size]? =
      some ⟨a.values.size, some id, .array (Cell.row sc.config a.values.size cells.length p),
        arrayBounds sc.config cells.length p, [anchor.reference]⟩ := Array.getElem?_push_size
  rw [cellAnchor_eq, hlast]
  simp only [Option.map_some, Option.getD_some, Value.cellAnchor, Value.cells?, Option.bind_some,
    Cell.row, List.getElem?_toArray, List.getElem?_map, List.getElem?_range hi]
  rfl

/-! ## Working off the agenda -/

/-- What holds of an arena and of the cells that wait, and still does when the first of them is
passed over or filled, holds when no cell waits any more. -/
theorem run_keeps {P : Arena α → List CellTask → Prop} {agenda : List CellTask}
    (hpass : ∀ {a : Arena α} {task : CellTask} {rest : List CellTask},
      P a (task :: rest) → P a rest)
    (hfill : ∀ {a : Arena α} {task : CellTask} {rest : List CellTask}, P a (task :: rest) →
      let v := a.visit sc (a.cellAnchor task.array task.index) task.datum
      P (v.arena.setContent task.array task.index v.value) (v.cells ++ rest))
    (h : P a agenda) : P (a.run sc agenda) [] := by
  fun_induction run sc a agenda with
  | case1 a => exact h
  | case2 a task rest hd ih => exact ih (hpass h)
  | case3 a task rest hd v ih => exact ih (hfill h)

end Arena

/-! ## Rows, frames and levels -/

/-- The anchor of a row of a frame. -/
def Frame.rowAnchor (f : Frame α) (b : Binding α) : Anchor α :=
  .row f.id b.index f.node f.bounds b.bounds

namespace Layout

variable [Scalar α]

/-- A frame and the area of its values, put to the right of what a level has so far. -/
def Row.add (config : Config α) (row : Row α) (frame : Frame α) (bound : Bound α) : Row α :=
  let totalWidth := bound.arena.extent.right - frame.bounds.x
  { frames := row.frames.push { frame with totalWidth, bindings := bound.bindings }
    arena := bound.arena
    x := row.x + (totalWidth + config.frameMarginX)
    bounds := some (match row.bounds with
      | none => bound.arena.extent
      | some b => b.union bound.arena.extent)
    ids := row.ids ++ [row.frames.size] }

/-- The values of all rows of a frame, placed in the area that starts as the frame itself. -/
def bindFrame (sc : Scope α) (a : Arena α) (frame : Frame α) : Bound α :=
  frame.bindings.foldl (bindRow sc frame) ⟨{ a with extent := frame.bounds }, #[]⟩

theorem bindRow_of_none {b : Binding α} (h : b.datum = none) (sc : Scope α) (frame : Frame α)
    (bound : Bound α) : bindRow sc frame bound b = ⟨bound.arena, bound.bindings.push b⟩ := by
  rw [bindRow, h]

theorem bindRow_of_some {b : Binding α} {d : Datum} (h : b.datum = some d) (sc : Scope α)
    (frame : Frame α) (bound : Bound α) : bindRow sc frame bound b =
      ⟨(bound.arena.place sc (frame.rowAnchor b) d).1,
        bound.bindings.push { b with
          target := some (bound.arena.place sc (frame.rowAnchor b) d).2 }⟩ := by
  rw [bindRow, h]
  rfl

theorem addFrame_of_none {tree : EnvTree} {nodeId : Nat} (h : tree.nodes[nodeId]? = none)
    (config : Config α) (s : Snapshot) (y : α) (row : Row α) :
    addFrame config s tree y row nodeId = row := by
  rw [addFrame, h]

theorem addFrame_of_some {tree : EnvTree} {nodeId : Nat} {node : TreeNode}
    (h : tree.nodes[nodeId]? = some node) (config : Config α) (s : Snapshot) (y : α) (row : Row α) :
    addFrame config s tree y row nodeId =
      let frame := Frame.place config row.frames.size nodeId node (envsOf s node) ⟨row.x, y⟩
      row.add config frame
        (bindFrame ⟨config, s.heap, tree, row.frames.push frame⟩ row.arena frame) := by
  rw [addFrame, h]
  rfl

/-- A level before its first frame. -/
def Stack.openRow (config : Config α) (stack : Stack α) : Row α :=
  ⟨stack.frames, stack.arena, config.canvasPaddingX + config.levelPaddingX, none, []⟩

/-- The levels with one more below them. -/
def Stack.add (config : Config α) (stack : Stack α) (row : Row α) : Stack α :=
  let startX := config.canvasPaddingX + config.levelPaddingX
  let area := row.bounds.getD ⟨startX, stack.y, Scalar.zero, Scalar.zero⟩
  let height := area.bottom - stack.y
  { frames := row.frames
    arena := row.arena
    y := stack.y + (height + config.frameMarginY)
    levels := stack.levels ++
      [⟨stack.levels.length, row.ids, ⟨startX, stack.y, area.right - startX, height⟩⟩] }

theorem addLevel_eq_add (config : Config α) (s : Snapshot) (tree : EnvTree) (stack : Stack α)
    (nodes : List Nat) : addLevel config s tree stack nodes =
      stack.add config (nodes.foldl (addFrame config s tree stack.y) (stack.openRow config)) := rfl

/-! ## The layout of a snapshot -/

-- nothing below depends on how the tree is built
attribute [local irreducible] EnvTree.build

/-- The levels of a snapshot's tree, laid out. -/
def stackOf (config : Config α) (s : Snapshot) : Stack α :=
  let tree := (EnvTree.build s config.framePolicy).1
  tree.levels.foldl (Layout.addLevel config s tree)
    { frames := #[]
      arena := .empty .empty
      y := config.canvasPaddingY + config.levelPaddingY
      levels := [] }

theorem ofSnapshot_eq (config : Config α) (s : Snapshot) :
    ofSnapshot config s =
      { step := some s.step
        tree := (EnvTree.build s config.framePolicy).1
        frames := (stackOf config s).frames
        values := (stackOf config s).arena.values
        cache := (stackOf config s).arena.cache
        levels := (stackOf config s).levels
        defects := (EnvTree.build s config.framePolicy).2 ++ (stackOf config s).arena.defects } :=
  rfl

theorem tree_ofSnapshot (config : Config α) (s : Snapshot) :
    (ofSnapshot config s).tree = (EnvTree.build s config.framePolicy).1 := by
  rw [ofSnapshot_eq]

theorem frames_ofSnapshot (config : Config α) (s : Snapshot) :
    (ofSnapshot config s).frames = (stackOf config s).frames := by
  rw [ofSnapshot_eq]

theorem levels_ofSnapshot (config : Config α) (s : Snapshot) :
    (ofSnapshot config s).levels = (stackOf config s).levels := by
  rw [ofSnapshot_eq]

theorem values_ofSnapshot (config : Config α) (s : Snapshot) :
    (ofSnapshot config s).values = (stackOf config s).arena.values := by
  rw [ofSnapshot_eq]

theorem cache_ofSnapshot (config : Config α) (s : Snapshot) :
    (ofSnapshot config s).cache = (stackOf config s).arena.cache := by
  rw [ofSnapshot_eq]

end Layout

end EnvDiagram
