import EnvDiagram.Proofs.EnvTree.Checked
import EnvDiagram.Proofs.Layout.Walk

/-!
# Placing by recursion

The agenda of `Arena.run` flattens a recursion: to place an array is to place what its cells
hold, one after the other, and to fill each cell when what it holds is placed. Here is that
recursion, with every lookup checked and with a bound on its depth. It fails where it would
look up what is not there, and where it would open one array more inside others than the
bound allows.

It does neither, if the bound is the number of arrays of the heap that are not placed
(`Arena.place?_eq`): every array that is opened is placed before its cells are looked at.

* `Arena.run_append`, `Arena.run_setContent` — an agenda is worked off in parts, and does not
  care when the cells of other arrays are filled
* `Ledger.Fits` — the values and frames that an arena speaks of are there
* `Arena.unplacedArrays` — the bound
-/

namespace EnvDiagram

variable {α : Type}

/-! ## What an arena speaks of -/

namespace Ledger

variable {heap : Heap} {tree : EnvTree} {l l' : Ledger} {r : Reference} {d : Datum} {v : Nat}
  {cells : List CellTask} {task : CellTask} {frames array index : Nat}

/-- The objects that are placed have values, and the rows that refer to a value are rows of
frames. -/
structure Fits (frames : Nat) (l : Ledger) : Prop where
  cached_lt : ∀ {id : DatumId} {v : Nat}, l.cached id = some v → v < l.size
  frame_lt : ∀ {v frame index : Nat} {x : Entry}, l.entries[v]? = some x →
    .binding frame index ∈ x.references → frame < frames

/-- Whether an array has a cell. -/
def HasCell (l : Ledger) (array index : Nat) : Prop :=
  ∃ x, l.entries[array]? = some x ∧ index < x.contents.length

theorem HasCell.lt_size (h : l.HasCell array index) : array < l.size := by
  obtain ⟨x, hx, -⟩ := h
  exact lt_size_of_entry hx

theorem Meets.size_le (hm : l.Meets heap tree r d l' v cells) : l.size ≤ l'.size := by
  cases hm with
  | again => rw [size_note]
  | array => rw [size_add]; exact Nat.le_succ _
  | function => rw [size_add]; exact Nat.le_succ _
  | literal => rw [size_add]; exact Nat.le_succ _

/-- The cells that follow a meeting are those of the array that it added. -/
theorem Meets.array_of_mem (hm : l.Meets heap tree r d l' v cells) (ht : task ∈ cells) :
    task.array = l.size := by
  cases hm with
  | again => simp at ht
  | array => exact (mem_cellTasks.mp ht).1
  | function => simp at ht
  | literal => simp at ht

theorem Meets.hasCell_of_mem (hm : l.Meets heap tree r d l' v cells) (ht : task ∈ cells) :
    l'.HasCell task.array task.index := by
  cases hm with
  | again => simp at ht
  | array =>
    obtain ⟨harray, hcell⟩ := mem_cellTasks.mp ht
    refine ⟨_, by rw [entries_add, if_pos harray], ?_⟩
    show task.index < (List.map _ _).length
    rw [List.length_map]
    exact (List.getElem?_eq_some_iff.mp hcell).1
  | function => simp at ht
  | literal => simp at ht

theorem HasCell.add (h : l.HasCell array index) (datum : Option DatumId) (form : Form)
    (r : Reference) : (l.add datum form r).HasCell array index := by
  obtain ⟨x, hx, hlt⟩ := h
  refine ⟨x, ?_, hlt⟩
  rw [entries_add, if_neg (Nat.ne_of_lt (lt_size_of_entry hx))]
  exact hx

theorem HasCell.meets (h : l.HasCell array index) (hm : l.Meets heap tree r d l' v cells) :
    l'.HasCell array index := by
  cases hm with
  | again =>
    obtain ⟨x, hx, hlt⟩ := h
    refine ⟨_, by rw [entries_note, hx]; rfl, ?_⟩
    split
    · exact hlt
    · exact hlt
  | array => exact h.add ..
  | function => exact h.add ..
  | literal => exact h.add ..

theorem HasCell.fill (h : l.HasCell array index) (i j c : Nat) :
    (l.fill i j c).HasCell array index := by
  obtain ⟨x, hx, hlt⟩ := h
  refine ⟨_, by rw [entries_fill, hx]; rfl, ?_⟩
  split
  · rw [Entry.contents_setContent, List.length_set]
    exact hlt
  · exact hlt

theorem Fits.meets (h : l.Fits frames) (hr : ∀ frame index, r = .binding frame index → frame < frames)
    (hm : l.Meets heap tree r d l' v cells) : l'.Fits frames where
  cached_lt := by
    intro id w hc
    have hadd : ∀ {e : DatumId} {form : Form}, (l.add (some e) form r).cached id = some w →
        w < l.size + 1 := by
      intro e form hc
      rw [cached_add] at hc
      split at hc
      · cases hc
        exact Nat.lt_succ_self _
      · exact Nat.lt_succ_of_lt (h.cached_lt hc)
    cases hm with
    | again => rw [size_note]; exact h.cached_lt hc
    | array => rw [size_add]; exact hadd hc
    | function => rw [size_add]; exact hadd hc
    | literal => rw [size_add]; exact Nat.lt_succ_of_lt (h.cached_lt hc)
  frame_lt := by
    intro w frame index x' hx' hmem
    rcases hm.entry_cases hx' with ⟨x, hx, -, -, hrefs, -⟩ | ⟨-, -, hrefs, -⟩
    · rw [hrefs] at hmem
      split at hmem
      · rcases List.mem_append.mp hmem with hmem | hmem
        · exact h.frame_lt hx hmem
        · exact hr frame index (List.mem_singleton.mp hmem).symm
      · exact h.frame_lt hx hmem
    · rw [hrefs] at hmem
      exact hr frame index (List.mem_singleton.mp hmem).symm

theorem Fits.fill (h : l.Fits frames) (i j c : Nat) : (l.fill i j c).Fits frames where
  cached_lt := by
    intro id v hc
    rw [size_fill]
    exact h.cached_lt hc
  frame_lt := by
    intro v frame index x' hx' hmem
    obtain ⟨x, hx, hrefs, -⟩ := fill_entry_cases hx'
    rw [hrefs] at hmem
    exact h.frame_lt hx hmem

end Ledger

/-! ## Filling a cell later -/

theorem Value.setContent_addReference (x : Value α) (r : Reference) (index content : Nat) :
    (x.addReference r).setContent index content = (x.setContent index content).addReference r := by
  obtain ⟨id, datum, kind, bounds, references⟩ := x
  cases kind <;> rfl

namespace Arena

variable {sc : Scope α} {a : Arena α} {anchor : Anchor α} {array index content i j c : Nat}
  {agenda : List CellTask} {task : CellTask}

theorem values_setContent (a : Arena α) (i j c v : Nat) : (a.setContent i j c).values[v]? =
    (a.values[v]?).map fun x => if i = v then x.setContent j c else x := by
  rw [setContent, Array.getElem?_modify]
  split
  · rfl
  · simp

@[simp]
theorem size_setContent (a : Arena α) (i j c : Nat) :
    (a.setContent i j c).values.size = a.values.size := by
  simp [setContent]

theorem setContent_addReference (a : Arena α) (v : Nat) (r : Reference) (i j c : Nat) :
    (a.setContent i j c).addReference v r = (a.addReference v r).setContent i j c := by
  rw [setContent, setContent, addReference, addReference]
  congr 1
  apply Array.ext_getElem?
  intro w
  simp only [Array.getElem?_modify]
  by_cases hi : i = w
  · by_cases hv : v = w
    · simp [hi, hv, Function.comp_def, Value.setContent_addReference]
    · simp [hv, hi]
  · by_cases hv : v = w <;> simp [hv, hi]

/-- Cells of different arrays are filled in any order. -/
theorem setContent_comm (h : array ≠ i) (index content j c : Nat) :
    (a.setContent i j c).setContent array index content =
      (a.setContent array index content).setContent i j c := by
  rw [setContent, setContent, setContent, setContent]
  congr 1
  apply Array.ext_getElem?
  intro w
  simp only [Array.getElem?_modify]
  by_cases hi : i = w
  · have harray : array ≠ w := hi ▸ h
    simp [hi, harray]
  · by_cases harray : array = w <;> simp [harray, hi]

variable [Scalar α]

theorem setContent_push (hi : i < a.values.size) (datum : Option DatumId) (kind : ValueKind α)
    (bounds : Bounds α) (r : Reference) (j c : Nat) :
    (a.setContent i j c).push datum kind bounds r = (a.push datum kind bounds r).setContent i j c := by
  have hvalues : ((a.setContent i j c).push datum kind bounds r).values =
      ((a.push datum kind bounds r).setContent i j c).values := by
    apply Array.ext_getElem?
    intro w
    simp only [push, values_setContent, Array.getElem?_push, size_setContent]
    by_cases hw : w = a.values.size
    · have hiw : i ≠ w := by omega
      simp [hw, hw ▸ hiw]
    · simp [hw]
  have hcache : ((a.setContent i j c).push datum kind bounds r).cache =
      ((a.push datum kind bounds r).setContent i j c).cache := by
    simp only [push, cache_setContent, size_setContent]
  calc (a.setContent i j c).push datum kind bounds r
      = ⟨((a.setContent i j c).push datum kind bounds r).values,
          ((a.setContent i j c).push datum kind bounds r).cache, a.defects,
          a.extent.union bounds⟩ := rfl
    _ = (a.push datum kind bounds r).setContent i j c := by
      rw [hvalues, hcache]
      rfl

/-- Nothing is moved because of a cell. -/
theorem reanchor_of_cell (h : anchor.reference = .cell array index) (v : Nat) :
    a.reanchor sc v anchor = a := by
  cases anchor with
  | row => simp [Anchor.reference] at h
  | cell => rfl
  | stray => rfl

theorem visitText_setContent (hi : i < a.values.size) (text : String) (placeholder : Bool)
    (j c : Nat) : (a.setContent i j c).visitText sc anchor text placeholder =
      { a.visitText sc anchor text placeholder with
        arena := (a.visitText sc anchor text placeholder).arena.setContent i j c } := by
  simp only [visitText, setContent_push hi, size_setContent]

/-- A visit from a cell does not look into the cells of other arrays. -/
theorem visit_setContent (hr : anchor.reference = .cell array index) (hi : i < a.values.size)
    (j c : Nat) (d : Datum) :
    (a.setContent i j c).visit sc anchor d =
      { a.visit sc anchor d with arena := (a.visit sc anchor d).arena.setContent i j c } := by
  cases d with
  | primitive p => exact visitText_setContent hi ..
  | null => exact visitText_setContent hi ..
  | object id =>
    have hcached : (a.setContent i j c).cached id = a.cached id := rfl
    rw [visit, visit, hcached]
    cases a.cached id with
    | some v =>
      simp only [reanchor_of_cell hr]
      rw [setContent_addReference]
    | none =>
      simp only
      cases sc.heap.find? id with
      | none => exact visitText_setContent (a := a.addDefect _) hi ..
      | some object =>
        cases object with
        | array cells => simp only [visitArray, setContent_push hi, size_setContent]
        | closure cl =>
          simp only [visitClosure]
          cases sc.tree.resolve cl.env with
          | none => exact visitText_setContent (a := a.addDefect _) hi ..
          | some node => simp only [setContent_push hi, size_setContent]

/-! ## Agendas in parts -/

theorem run_append (sc : Scope α) (a : Arena α) (first rest : List CellTask) :
    a.run sc (first ++ rest) = (a.run sc first).run sc rest := by
  fun_induction run sc a first with
  | case1 a => rfl
  | case2 a task agenda hd ih =>
    rw [List.cons_append, run_cons_of_null sc a _ hd]
    exact ih
  | case3 a task agenda hd v ih =>
    rw [List.cons_append, run_cons_of_ne_null sc a _ hd]
    rw [List.append_assoc] at ih
    exact ih

theorem size_le_visit (sc : Scope α) (a : Arena α) (anchor : Anchor α) (d : Datum) :
    a.values.size ≤ (a.visit sc anchor d).arena.values.size := by
  rw [← size_ledger, ← size_ledger]
  exact (meets_visit sc a anchor d).size_le

theorem array_of_mem_cells {d : Datum} (h : task ∈ (a.visit sc anchor d).cells) :
    task.array = a.values.size := by
  rw [← size_ledger]
  exact (meets_visit sc a anchor d).array_of_mem h

/-- What an agenda does is the same before and after a cell of another array is filled. -/
theorem run_setContent (sc : Scope α) (hi : i < a.values.size) (j c : Nat)
    (h : ∀ t ∈ agenda, t.array ≠ i) :
    (a.setContent i j c).run sc agenda = (a.run sc agenda).setContent i j c := by
  fun_induction run sc a agenda with
  | case1 a => rw [run_nil]
  | case2 a task rest hd ih =>
    rw [run_cons_of_null sc _ _ hd]
    exact ih hi fun t ht => h t (List.mem_cons_of_mem _ ht)
  | case3 a task rest hd v ih =>
    have htask : task.array ≠ i := h task List.mem_cons_self
    -- the tasks to come are those of a new array, or waited already
    have hsize : i < (v.arena.setContent task.array task.index v.value).values.size := by
      rw [size_setContent]
      exact Nat.lt_of_lt_of_le hi (size_le_visit sc a _ _)
    rw [run_cons_of_ne_null sc _ _ hd, cellAnchor_setContent,
      visit_setContent (reference_cellAnchor a task.array task.index) hi]
    simp only
    rw [setContent_comm htask]
    refine ih hsize fun t ht => ?_
    rcases List.mem_append.mp ht with ht | ht
    · rw [array_of_mem_cells ht]
      omega
    · exact h t (List.mem_cons_of_mem _ ht)

/-- A cell may as well be filled when what it holds is placed with all that it leads to. -/
theorem run_cons_of_place (sc : Scope α) (rest : List CellTask) (hd : task.datum ≠ .null)
    (ht : task.array < a.values.size) :
    a.run sc (task :: rest) =
      let placed := a.place sc (a.cellAnchor task.array task.index) task.datum
      (placed.1.setContent task.array task.index placed.2).run sc rest := by
  have hsize := Nat.lt_of_lt_of_le ht
    (size_le_visit sc a (a.cellAnchor task.array task.index) task.datum)
  rw [run_cons_of_ne_null sc a rest hd]
  simp only
  rw [run_append, run_setContent sc hsize]
  · rfl
  · intro t hmem
    rw [array_of_mem_cells hmem]
    omega

end Arena

/-! ## Arrays that are not placed -/

/-- Whether an object is an array. -/
def Heap.isArray (heap : Heap) (id : DatumId) : Bool :=
  match heap.find? id with
  | some (.array _) => true
  | _ => false

/-- The arrays of a heap, each once. -/
def Heap.arrays (heap : Heap) : List DatumId := (heap.map Prod.fst).dedup.filter heap.isArray

theorem Heap.mem_arrays {heap : Heap} {id : DatumId} {cells : List Datum}
    (h : heap.find? id = some (.array cells)) : id ∈ heap.arrays := by
  obtain ⟨l₁, l₂, hheap, -⟩ := List.lookup_eq_some_iff.mp h
  refine List.mem_filter.mpr ⟨List.mem_dedup.mpr ?_, ?_⟩
  · rw [hheap]
    simp
  · rw [isArray, h]

namespace Arena

/-- The number of arrays that are not placed. -/
def unplacedArrays (heap : Heap) (cache : List (DatumId × Nat)) : Nat :=
  heap.arrays.countP fun id => (cache.lookup id).isNone

theorem unplacedArrays_le (heap : Heap) (cache : List (DatumId × Nat)) :
    unplacedArrays heap cache ≤ heap.arrays.length := List.countP_le_length

/-- Objects that are placed stay placed. -/
theorem unplacedArrays_mono {heap : Heap} {cache cache' : List (DatumId × Nat)}
    (h : ∀ id v, cache.lookup id = some v → cache'.lookup id = some v) :
    unplacedArrays heap cache' ≤ unplacedArrays heap cache := by
  apply List.countP_mono_left
  intro id _ hnone
  cases hc : cache.lookup id with
  | none => rfl
  | some v =>
    rw [h id v hc] at hnone
    simp at hnone

/-- Placing an array leaves one less to be placed. -/
theorem unplacedArrays_cons_lt {heap : Heap} {cache : List (DatumId × Nat)} {id : DatumId}
    {cells : List Datum} (v : Nat) (hfind : heap.find? id = some (.array cells))
    (hcache : cache.lookup id = none) :
    unplacedArrays heap ((id, v) :: cache) < unplacedArrays heap cache := by
  -- the arrays placed now are among those that were not placed before, and this is not one
  have hsub : unplacedArrays heap ((id, v) :: cache) =
      (heap.arrays.filter fun e => (cache.lookup e).isNone).countP fun e =>
        (((id, v) :: cache).lookup e).isNone := by
    rw [List.countP_filter]
    refine List.countP_congr fun e _ => ?_
    rw [List.lookup_cons]
    cases e == id <;> simp
  have hlen : unplacedArrays heap cache =
      (heap.arrays.filter fun e => (cache.lookup e).isNone).length := List.countP_eq_length_filter
  rw [hsub, hlen, List.countP_lt_length_iff]
  exact ⟨id, List.mem_filter.mpr ⟨Heap.mem_arrays hfind, by simp [hcache]⟩, by simp⟩

variable {sc : Scope α} {a : Arena α} {anchor : Anchor α} {v depth : Nat} {d : Datum}
  {task : CellTask}

/-! ## Placing with every lookup checked -/

/-- The frames that the rows among some references belong to, compared with a node. -/
def rowsOf? (sc : Scope α) (node : Nat) (references : List Reference) : Option (List Bool) :=
  references.mapM fun
    | .binding frame _ => (sc.frames[frame]?).map fun f => f.node = node
    | .cell _ _ => some false

/-- Whether a visit of a datum adds an array. -/
def opens (sc : Scope α) (a : Arena α) : Datum → Bool
  | .object id => (a.cached id).isNone && sc.heap.isArray id
  | _ => false

/-- `cellAnchor` -/
def cellAnchor? (a : Arena α) (array index : Nat) : Option (Anchor α) := do
  let value ← a.values[array]?
  let cell ← a.cell? array index
  some (.cell array index cell.bounds cell.isLast value.bounds.height)

/-- `setContent` -/
def setContent? (a : Arena α) (array index content : Nat) : Option (Arena α) := do
  let _ ← a.cell? array index
  some (a.setContent array index content)

/-- Fills a cell, given how what it holds is placed. -/
def fillCell? (place : Arena α → Anchor α → Datum → Option (Arena α × Nat)) (a : Arena α)
    (task : CellTask) : Option (Arena α) := do
  let anchor ← a.cellAnchor? task.array task.index
  match task.datum with
  | .null => some a
  | d =>
    let (b, content) ← place a anchor d
    b.setContent? task.array task.index content

variable [Scalar α]

/-- `reanchor` -/
def reanchor? (sc : Scope α) (a : Arena α) (v : Nat) (anchor : Anchor α) : Option (Arena α) := do
  let value ← a.values[v]?
  match anchor, value.kind with
  | .row _ _ node _ _, .function f =>
    let rows ← rowsOf? sc f.enclosing value.references
    if node = f.enclosing ∧ rows.any id = false then
      let moved := value.moveTo (anchor.functionCenter sc.config)
      some { a with
        values := a.values.modify v fun _ => moved
        extent := a.extent.union moved.bounds }
    else some a
  | _, _ => some a

/-- `visit` -/
def visit? (sc : Scope α) (a : Arena α) (anchor : Anchor α) : Datum → Option (Visit α)
  | .object id =>
    match a.cached id with
    | some v => do
      let moved ← a.reanchor? sc v anchor
      let _ ← moved.values[v]?
      some ⟨moved.addReference v anchor.reference, v, []⟩
    | none => some (a.visit sc anchor (.object id))
  | d => some (a.visit sc anchor d)

/-- `place`, with at most so many arrays opened inside each other. -/
def place? (sc : Scope α) : Nat → Arena α → Anchor α → Datum → Option (Arena α × Nat)
  | 0, a, anchor, d => do
    if a.opens sc d then none
    else
      let v ← a.visit? sc anchor d
      some (v.arena, v.value)
  | depth + 1, a, anchor, d => do
    let v ← a.visit? sc anchor d
    let b ← v.cells.foldlM (fillCell? (place? sc depth)) v.arena
    some (b, v.value)

omit [Scalar α] in
theorem cell?_of_hasCell {a : Arena α} {array index : Nat} (h : a.ledger.HasCell array index) :
    ∃ value cell, a.values[array]? = some value ∧ a.cell? array index = some cell := by
  obtain ⟨x, hx, hlt⟩ := h
  rw [ledger_entries] at hx
  obtain ⟨value, hvalue, rfl⟩ := Option.map_eq_some_iff.mp hx
  rw [cell?, hvalue]
  cases hk : value.kind with
  | array cells =>
    have hlt' : index < cells.size := by simpa [Value.entry, Entry.contents, ValueKind.form, hk] using hlt
    refine ⟨value, cells[index], rfl, ?_⟩
    simp [Value.cells?, hk, hlt']
  | literal text placeholder => simp [Value.entry, Entry.contents, ValueKind.form, hk] at hlt
  | function f => simp [Value.entry, Entry.contents, ValueKind.form, hk] at hlt

omit [Scalar α] in
theorem cellAnchor?_eq {a : Arena α} {array index : Nat} (h : a.ledger.HasCell array index) :
    a.cellAnchor? array index = some (a.cellAnchor array index) := by
  obtain ⟨value, cell, hvalue, hcell⟩ := cell?_of_hasCell h
  rw [cellAnchor?, cellAnchor, hvalue, hcell]
  rfl

omit [Scalar α] in
theorem setContent?_eq {a : Arena α} {array index : Nat} (h : a.ledger.HasCell array index)
    (content : Nat) : a.setContent? array index content = some (a.setContent array index content) := by
  obtain ⟨value, cell, -, hcell⟩ := cell?_of_hasCell h
  rw [setContent?, hcell]
  rfl

omit [Scalar α] in
theorem fillCell?_of_null (place : Arena α → Anchor α → Datum → Option (Arena α × Nat))
    (h : a.ledger.HasCell task.array task.index) (hd : task.datum = .null) :
    fillCell? place a task = some a := by
  rw [fillCell?, cellAnchor?_eq h, hd]
  rfl

omit [Scalar α] in
theorem fillCell?_of_ne_null (place : Arena α → Anchor α → Datum → Option (Arena α × Nat))
    (h : a.ledger.HasCell task.array task.index) (hd : task.datum ≠ .null) :
    fillCell? place a task =
      (place a (a.cellAnchor task.array task.index) task.datum).bind fun placed =>
        placed.1.setContent? task.array task.index placed.2 := by
  rw [fillCell?, cellAnchor?_eq h]
  cases hdatum : task.datum with
  | null => exact absurd hdatum hd
  | primitive p => rfl
  | object id => rfl

omit [Scalar α] in
theorem rowsOf?_eq {references : List Reference}
    (h : ∀ frame index, .binding frame index ∈ references → frame < sc.frames.size) (node : Nat) :
    rowsOf? sc node references = some (references.map (sc.isRowOf node)) := by
  refine mapM_eq_some_map fun r hr => ?_
  cases r with
  | binding frame index =>
    have hf := Array.getElem?_eq_getElem (h frame index hr)
    simp only [Scope.isRowOf, hf]
    rfl
  | cell array index => rfl

theorem reanchor?_eq (hv : v < a.values.size) (h : a.ledger.Fits sc.frames.size)
    (anchor : Anchor α) : a.reanchor? sc v anchor = some (a.reanchor sc v anchor) := by
  have hvalue := Array.getElem?_eq_getElem hv
  have hentry : a.ledger.entries[v]? = some a.values[v].entry := by
    rw [ledger_entries, hvalue]
    rfl
  have hrows : ∀ node, rowsOf? sc node a.values[v].references =
      some (a.values[v].references.map (sc.isRowOf node)) :=
    rowsOf?_eq fun frame index hmem => h.frame_lt hentry hmem
  cases anchor with
  | cell => simp only [reanchor?, reanchor, hvalue, Option.bind_eq_bind, Option.bind_some]
  | stray => simp only [reanchor?, reanchor, hvalue, Option.bind_eq_bind, Option.bind_some]
  | row frame index node frameBounds rowBounds =>
    simp only [reanchor?, reanchor, hvalue, Option.bind_eq_bind, Option.bind_some]
    cases hk : a.values[v].kind with
    | literal text placeholder => rfl
    | array cells => rfl
    | function f =>
      simp only [hrows, List.any_map, Function.id_comp, Option.bind_some]
      by_cases hmove : node = f.enclosing ∧
          a.values[v].references.any (sc.isRowOf f.enclosing) = false
      · rw [if_pos hmove, if_pos hmove]
      · rw [if_neg hmove, if_neg hmove]

theorem visit?_eq (h : a.ledger.Fits sc.frames.size) (anchor : Anchor α) (d : Datum) :
    a.visit? sc anchor d = some (a.visit sc anchor d) := by
  cases d with
  | primitive p => rfl
  | null => rfl
  | object id =>
    rw [visit?]
    cases hc : a.cached id with
    | none => rfl
    | some v =>
      have hv : v < a.values.size := by
        rw [← size_ledger]
        exact h.cached_lt hc
      have hmoved : (a.reanchor sc v anchor).values.size = a.values.size := by
        rw [← size_ledger, ledger_reanchor, size_ledger]
      have hlt : v < (a.reanchor sc v anchor).values.size := by rwa [hmoved]
      have hlookup := Array.getElem?_eq_getElem hlt
      simp only [reanchor?_eq hv h, hlookup, visit, hc, Option.bind_eq_bind, Option.bind_some]

/-- Cells follow a visit only if it adds an array. -/
theorem cells_of_not_opens (h : a.opens sc d = false) : (a.visit sc anchor d).cells = [] := by
  have hm := meets_visit sc a anchor d
  generalize (a.visit sc anchor d).arena.ledger = l at hm
  generalize (a.visit sc anchor d).value = v at hm
  generalize (a.visit sc anchor d).cells = cells at hm ⊢
  cases hm with
  | again => rfl
  | array hc hf => simp [opens, ← cached_ledger, hc, Heap.isArray, hf] at h
  | function => rfl
  | literal => rfl

/-- A visit that adds an array leaves one less to be placed. -/
theorem unplacedArrays_visit_lt (anchor : Anchor α) (h : a.opens sc d = true) :
    unplacedArrays sc.heap (a.visit sc anchor d).arena.cache < unplacedArrays sc.heap a.cache := by
  cases d with
  | primitive p => simp [opens] at h
  | null => simp [opens] at h
  | object id =>
    simp only [opens, Bool.and_eq_true, Option.isNone_iff_eq_none, Heap.isArray] at h
    obtain ⟨hc, hf⟩ := h
    split at hf
    · rename_i cells hfind
      simp only [visit, hc, hfind, visitArray, push]
      exact unplacedArrays_cons_lt _ hfind hc
    · simp at hf

omit [Scalar α] in
theorem unplacedArrays_le_of_grows {b : Arena α} (h : a.ledger.Grows b.ledger) (heap : Heap) :
    unplacedArrays heap b.cache ≤ unplacedArrays heap a.cache :=
  unplacedArrays_mono fun id v hc => h.cached (show a.ledger.cached id = some v from hc)

/-- What a visit and the agenda after it keep, placing keeps. -/
theorem fits_run (h : a.ledger.Fits sc.frames.size) (agenda : List CellTask) :
    (a.run sc agenda).ledger.Fits sc.frames.size := by
  refine run_keeps (P := fun b _ => b.ledger.Fits sc.frames.size) id ?_ h
  intro b task rest hb v
  have hm := meets_visit sc b (b.cellAnchor task.array task.index) task.datum
  rw [reference_cellAnchor] at hm
  rw [ledger_setContent]
  exact (hb.meets (by simp) hm).fill ..

theorem hasCell_run {array index : Nat} (h : a.ledger.HasCell array index)
    (agenda : List CellTask) : (a.run sc agenda).ledger.HasCell array index := by
  refine run_keeps (P := fun b _ => b.ledger.HasCell array index) id ?_ h
  intro b task rest hb v
  rw [ledger_setContent]
  exact (hb.meets (meets_visit sc b _ _)).fill ..

theorem hasCell_place {array index : Nat} (h : a.ledger.HasCell array index) (anchor : Anchor α)
    (d : Datum) : (a.place sc anchor d).1.ledger.HasCell array index :=
  hasCell_run (h.meets (meets_visit sc a anchor d)) _

theorem fits_place (h : a.ledger.Fits sc.frames.size)
    (hr : ∀ frame index, anchor.reference = .binding frame index → frame < sc.frames.size)
    (d : Datum) : (a.place sc anchor d).1.ledger.Fits sc.frames.size :=
  fits_run (h.meets hr (meets_visit sc a anchor d)) _

/-- The cells of an array are filled one after the other, if a datum is placed without
failing. -/
theorem foldlM_fillCell? {place : Arena α → Anchor α → Datum → Option (Arena α × Nat)}
    (hplace : ∀ {b : Arena α} {anchor : Anchor α} {d : Datum}, b.ledger.Fits sc.frames.size →
      (∀ frame index, anchor.reference = .binding frame index → frame < sc.frames.size) →
      unplacedArrays sc.heap b.cache ≤ depth → place b anchor d = some (b.place sc anchor d))
    (h : a.ledger.Fits sc.frames.size) (hdepth : unplacedArrays sc.heap a.cache ≤ depth)
    {agenda : List CellTask} (hcells : ∀ t ∈ agenda, a.ledger.HasCell t.array t.index) :
    agenda.foldlM (fillCell? place) a = some (a.run sc agenda) := by
  induction agenda generalizing a with
  | nil => rw [run_nil]; rfl
  | cons task rest ih =>
    have hcell := hcells task List.mem_cons_self
    have hrest : ∀ t ∈ rest, a.ledger.HasCell t.array t.index := fun t ht =>
      hcells t (List.mem_cons_of_mem _ ht)
    rw [List.foldlM_cons]
    by_cases hd : task.datum = .null
    · rw [fillCell?_of_null place hcell hd, run_cons_of_null sc a rest hd]
      exact ih h hdepth hrest
    · have hr : ∀ frame index,
          (a.cellAnchor task.array task.index).reference = .binding frame index →
          frame < sc.frames.size := by
        intro frame index heq
        rw [reference_cellAnchor] at heq
        simp at heq
      set placed := a.place sc (a.cellAnchor task.array task.index) task.datum with hplaced
      -- the cell is there before its datum is placed and after
      have hfill : fillCell? place a task =
          some (placed.1.setContent task.array task.index placed.2) := by
        rw [fillCell?_of_ne_null place hcell hd, hplace h hr hdepth]
        exact setContent?_eq (hasCell_place hcell _ _) _
      have harray : task.array < a.values.size := by
        rw [← size_ledger]
        exact hcell.lt_size
      rw [hfill, run_cons_of_place sc rest hd harray]
      show rest.foldlM (fillCell? place) (placed.1.setContent task.array task.index placed.2) = _
      refine ih ?_ ?_ fun t ht => ?_
      · rw [ledger_setContent]
        exact (fits_place h hr _).fill ..
      · rw [cache_setContent]
        exact (unplacedArrays_le_of_grows (grows_place ..) _).trans hdepth
      · rw [ledger_setContent]
        exact (hasCell_place (hrest t ht) ..).fill ..

/-- Placing a datum opens no more arrays inside each other than there are arrays that are not
placed, and looks up nothing that is not there. -/
theorem place?_eq (h : a.ledger.Fits sc.frames.size)
    (hr : ∀ frame index, anchor.reference = .binding frame index → frame < sc.frames.size)
    (hdepth : unplacedArrays sc.heap a.cache ≤ depth) :
    place? sc depth a anchor d = some (a.place sc anchor d) := by
  induction depth generalizing a anchor d with
  | zero =>
    have hopens : a.opens sc d = false := by
      cases ho : a.opens sc d with
      | false => rfl
      | true =>
        have hlt := unplacedArrays_visit_lt anchor ho
        omega
    simp only [place?, place, hopens, visit?_eq h, cells_of_not_opens hopens, run_nil,
      Option.bind_eq_bind, Option.bind_some]
    rfl
  | succ depth ih =>
    have hv := (h.meets hr (meets_visit sc a anchor d))
    have hfold : (a.visit sc anchor d).cells.foldlM (fillCell? (place? sc depth))
        (a.visit sc anchor d).arena =
          some ((a.visit sc anchor d).arena.run sc (a.visit sc anchor d).cells) := by
      cases ho : a.opens sc d with
      | false =>
        rw [cells_of_not_opens ho, run_nil]
        rfl
      | true =>
        -- the array is placed by now, so there is one less to be placed
        have hlt := unplacedArrays_visit_lt anchor ho
        exact foldlM_fillCell? ih hv (by omega) fun t ht =>
          (meets_visit sc a anchor d).hasCell_of_mem ht
    simp only [place?, place, visit?_eq h, hfold, Option.bind_eq_bind, Option.bind_some]

end Arena

end EnvDiagram
