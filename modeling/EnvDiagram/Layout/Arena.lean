import EnvDiagram.Layout.Anchor
import EnvDiagram.Layout.Frame

/-!
# Placing values

The arena holds the values placed so far. An object of the heap is placed by the first
reference that reaches it and kept by its identity, so that later references find it
again; literals are placed anew for every reference.

An array brings its cells along. They wait on an agenda, in front of what waited before,
so the cells of an array are filled in order and everything that a cell leads to is
placed before the next cell. The agenda runs dry also on a cyclic heap: an object enters
the arena before its cells are looked at, and with every array that enters there is one
object less that has not (`unplaced`).

* `Arena.visit` — one datum seen from one anchor
* `Arena.run` — the agenda worked off
* `Arena.place` — a datum with everything that it leads to
-/

namespace EnvDiagram

variable {α : Type}

/-- The values placed so far. -/
structure Arena (α : Type) where
  values : Array (Value α)
  /-- The values of objects, by identity. -/
  cache : List (DatumId × Nat)
  /-- The defects met on the way, in order. -/
  defects : List Defect
  /-- The area of the frame being laid out and of the values placed with it. -/
  extent : Bounds α

/-- What placing a value looks at and does not change. -/
structure Scope (α : Type) where
  config : Config α
  heap : Heap
  tree : EnvTree
  /-- The frames laid out so far. -/
  frames : Array (Frame α)

/-- A cell that waits for its value. -/
structure CellTask where
  array : Nat
  index : Nat
  datum : Datum

/-- What comes of a visit: the arena, the value, and the cells to look at next. -/
structure Visit (α : Type) where
  arena : Arena α
  value : Nat
  cells : List CellTask

/-- Whether a reference is a row of a frame of the given node. -/
def Scope.isRowOf (sc : Scope α) (node : Nat) : Reference → Bool
  | .binding frame _ => (sc.frames[frame]?).any fun f => f.node = node
  | .cell _ _ => false

/-- The cells of an array that hold something, as tasks. -/
def cellTasks (array : Nat) (cells : List Datum) : List CellTask :=
  cells.mapIdx fun index datum => ⟨array, index, datum⟩

namespace Arena

/-- The value of an object, if it is placed. -/
def cached (a : Arena α) (id : DatumId) : Option Nat := a.cache.lookup id

/-- Notes a further reference to a value. -/
def addReference (a : Arena α) (v : Nat) (r : Reference) : Arena α :=
  { a with values := a.values.modify v fun value => value.addReference r }

/-- Notes a defect. -/
def addDefect (a : Arena α) (d : Defect) : Arena α := { a with defects := a.defects ++ [d] }

/-- Puts a value into a cell of an array. -/
def setContent (a : Arena α) (array index content : Nat) : Arena α :=
  { a with values := a.values.modify array fun value => value.setContent index content }

/-- The cell of an array. -/
def cell? (a : Arena α) (array index : Nat) : Option (Cell α) :=
  (a.values[array]?).bind Value.cells? |>.bind (·[index]?)

/-- The anchor of a cell. -/
def cellAnchor (a : Arena α) (array index : Nat) : Anchor α :=
  match a.values[array]?, a.cell? array index with
  | some value, some cell => .cell array index cell.bounds cell.isLast value.bounds.height
  | _, _ => .stray array index

variable [Scalar α]

/-- The arena before any value, with the area of a frame. -/
def empty (extent : Bounds α) : Arena α := ⟨#[], [], [], extent⟩

/-- Adds a value, and widens the area by it. -/
def push (a : Arena α) (datum : Option DatumId) (kind : ValueKind α) (bounds : Bounds α)
    (r : Reference) : Arena α where
  values := a.values.push { id := a.values.size, datum, kind, bounds, references := [r] }
  cache :=
    match datum with
    | none => a.cache
    | some id => (id, a.values.size) :: a.cache
  defects := a.defects
  extent := a.extent.union bounds

/-- Moves a function that is reached again to its anchor, if that is the first row seen in
the frame that the function closes over. -/
def reanchor (sc : Scope α) (a : Arena α) (v : Nat) (anchor : Anchor α) : Arena α :=
  match anchor, a.values[v]? with
  | .row _ _ node _ _, some value =>
    match value.kind with
    | .function f =>
      if node = f.enclosing ∧ value.references.any (sc.isRowOf f.enclosing) = false then
        let moved := value.moveTo (anchor.functionCenter sc.config)
        { a with
          values := a.values.modify v fun _ => moved
          extent := a.extent.union moved.bounds }
      else a
    | _ => a
  | _, _ => a

/-- Places a literal. -/
def visitText (sc : Scope α) (a : Arena α) (anchor : Anchor α) (text : String)
    (placeholder : Bool) : Visit α :=
  let (text, bounds) := anchor.placeText sc.config text
  { arena := a.push none (.literal text placeholder) bounds anchor.reference
    value := a.values.size
    cells := [] }

/-- Places an array; its cells are to follow. -/
def visitArray (sc : Scope α) (a : Arena α) (anchor : Anchor α) (id : DatumId)
    (cells : List Datum) : Visit α :=
  let p := anchor.arrayOrigin sc.config
  let array := a.values.size
  { arena :=
      a.push (some id) (.array (Cell.row sc.config array cells.length p))
        (arrayBounds sc.config cells.length p) anchor.reference
    value := array
    cells := cellTasks array cells }

/-- Places a function, or its signature as a text if the environment that it closes over is not in
the tree. -/
def visitClosure (sc : Scope α) (a : Arena α) (anchor : Anchor α) (id : DatumId)
    (c : Closure) : Visit α :=
  match sc.tree.resolve c.env with
  | none => (a.addDefect (.malformedClosure id c.env)).visitText sc anchor c.signature false
  | some node =>
    let f := FunctionGlyph.ofClosure sc.config c node (anchor.functionCenter sc.config)
    { arena := a.push (some id) (.function f) f.bounds anchor.reference
      value := a.values.size
      cells := [] }

/-- One datum as seen from an anchor. -/
def visit (sc : Scope α) (a : Arena α) (anchor : Anchor α) : Datum → Visit α
  | .primitive p => a.visitText sc anchor p.display false
  | .null => a.visitText sc anchor "null" false
  | .object id =>
    match a.cached id with
    | some v => ⟨(a.reanchor sc v anchor).addReference v anchor.reference, v, []⟩
    | none =>
      match sc.heap.find? id with
      | some (.array cells) => a.visitArray sc anchor id cells
      | some (.closure c) => a.visitClosure sc anchor id c
      | none => (a.addDefect (.unresolvedDatum id)).visitText sc anchor sc.config.unknownText true

/-! ## The agenda comes to an end -/

/-- The number of objects that are not placed. -/
def unplaced (heap : Heap) (cache : List (DatumId × Nat)) : Nat :=
  heap.countP fun entry => (cache.lookup entry.1).isNone

theorem unplaced_cons_le (heap : Heap) (cache : List (DatumId × Nat)) (id : DatumId)
    (v : Nat) : unplaced heap ((id, v) :: cache) ≤ unplaced heap cache := by
  apply List.countP_mono_left
  intro entry _ h
  simp only [List.lookup_cons] at h
  split at h
  · simp at h
  · exact h

theorem unplaced_cons_lt {heap : Heap} {cache : List (DatumId × Nat)} {id : DatumId}
    (v : Nat) {object : HeapObject} (hfind : heap.find? id = some object)
    (hcache : cache.lookup id = none) : unplaced heap ((id, v) :: cache) < unplaced heap cache := by
  induction heap with
  | nil => simp [Heap.find?] at hfind
  | cons entry rest ih =>
    obtain ⟨d, o⟩ := entry
    by_cases h : id = d
    · subst h
      have hle := unplaced_cons_le rest cache id v
      simp only [unplaced, List.countP_cons, List.lookup_cons, beq_self_eq_true, hcache] at *
      simp only [Option.isNone_some, Option.isNone_none, if_true]
      simp
      omega
    · have hid : (id == d) = false := by simpa using h
      have hd : (d == id) = false := by simpa using Ne.symm h
      have hlt := ih (by simpa [Heap.find?, List.lookup_cons, hid] using hfind)
      simp only [unplaced, List.countP_cons, List.lookup_cons, hd] at *
      omega

omit [Scalar α] in
@[simp]
theorem cache_addReference (a : Arena α) (v : Nat) (r : Reference) :
    (a.addReference v r).cache = a.cache := rfl

omit [Scalar α] in
@[simp]
theorem cache_setContent (a : Arena α) (array index content : Nat) :
    (a.setContent array index content).cache = a.cache := rfl

@[simp]
theorem cache_reanchor (sc : Scope α) (a : Arena α) (v : Nat) (anchor : Anchor α) :
    (a.reanchor sc v anchor).cache = a.cache := by
  unfold reanchor
  repeat' split
  all_goals rfl

@[simp]
theorem cache_visitText (sc : Scope α) (a : Arena α) (anchor : Anchor α) (text : String)
    (placeholder : Bool) : (a.visitText sc anchor text placeholder).arena.cache = a.cache := rfl

@[simp]
theorem cells_visitText (sc : Scope α) (a : Arena α) (anchor : Anchor α) (text : String)
    (placeholder : Bool) : (a.visitText sc anchor text placeholder).cells = [] := rfl

/-- A visit either places an object of the heap that was not placed, or has no cells to
follow and leaves the cache as it was. -/
theorem visit_progress (sc : Scope α) (a : Arena α) (anchor : Anchor α) (d : Datum) :
    unplaced sc.heap (a.visit sc anchor d).arena.cache < unplaced sc.heap a.cache ∨
      (a.visit sc anchor d).cells = [] ∧ (a.visit sc anchor d).arena.cache = a.cache := by
  cases d with
  | primitive p => right; simp [visit]
  | null => right; simp [visit]
  | object id =>
    simp only [visit]
    split
    · right; simp
    · rename_i hcache
      split
      · rename_i cells hfind
        left
        exact unplaced_cons_lt _ hfind hcache
      · rename_i c hfind
        unfold visitClosure
        split
        · right; exact ⟨rfl, rfl⟩
        · left
          exact unplaced_cons_lt _ hfind hcache
      · right; exact ⟨rfl, rfl⟩

/-! ## Working off the agenda -/

/-- Fills the cells of the agenda, and those of the arrays met on the way. A cell that
holds the empty list stays as it is. -/
def run (sc : Scope α) (a : Arena α) : List CellTask → Arena α
  | [] => a
  | task :: rest =>
    match task.datum with
    | .null => a.run sc rest
    | d =>
      let v := a.visit sc (a.cellAnchor task.array task.index) d
      (v.arena.setContent task.array task.index v.value).run sc (v.cells ++ rest)
termination_by agenda => (unplaced sc.heap a.cache, agenda.length)
decreasing_by
  · exact Prod.Lex.right _ (Nat.lt_succ_self _)
  · simp only [Prod.lex_def, cache_setContent, List.length_cons, List.length_append]
    rcases visit_progress sc a (a.cellAnchor task.array task.index) d with h | ⟨h, hc⟩
    · exact Or.inl h
    · right
      simp [h, hc]

@[simp]
theorem run_nil (sc : Scope α) (a : Arena α) : a.run sc [] = a := by
  rw [run]

theorem run_cons_of_null (sc : Scope α) (a : Arena α) {task : CellTask} (rest : List CellTask)
    (h : task.datum = .null) : a.run sc (task :: rest) = a.run sc rest := by
  rw [run, h]

theorem run_cons_of_ne_null (sc : Scope α) (a : Arena α) {task : CellTask} (rest : List CellTask)
    (h : task.datum ≠ .null) :
    a.run sc (task :: rest) =
      let v := a.visit sc (a.cellAnchor task.array task.index) task.datum
      (v.arena.setContent task.array task.index v.value).run sc (v.cells ++ rest) := by
  rw [run]
  cases hd : task.datum with
  | null => exact absurd hd h
  | primitive p => rfl
  | object id => rfl

/-- Places a datum as seen from an anchor, with everything that it leads to. -/
def place (sc : Scope α) (a : Arena α) (anchor : Anchor α) (d : Datum) : Arena α × Nat :=
  let v := a.visit sc anchor d
  (v.arena.run sc v.cells, v.value)

end Arena

end EnvDiagram
