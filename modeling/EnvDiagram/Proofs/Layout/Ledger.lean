import Mathlib
import EnvDiagram.Layout.Arena

/-!
# What an arena holds apart from geometry

Which values there are, of which objects, what their cells hold and who refers to them does
not depend on any length. A ledger keeps just that of an arena, and `meets_visit` says once
what a visit does to it; moving a function leaves it as it is. What is proved of ledgers
holds over every type of numbers.

* `Heap.Reaches`, `Heap.Drawable` — what a datum leads to, and which objects are drawn
* `Ledger.Meets` — the four things that a visit can do
* `Arena.meets_visit`, `Arena.ledger_setContent` — an arena and its ledger go together
-/

namespace EnvDiagram

/-! ## The heap -/

/-- The objects that a datum leads to through the cells of arrays. -/
inductive Heap.Reaches (heap : Heap) (d : Datum) : DatumId → Prop
  | self {id : DatumId} : d = .object id → heap.Reaches d id
  | cell {array id : DatumId} {cells : List Datum} : heap.Reaches d array →
      heap.find? array = some (.array cells) → .object id ∈ cells → heap.Reaches d id

/-- Whether an object is drawn as a value of its own: an array, or a closure over an
environment of the tree. -/
def Heap.Drawable (heap : Heap) (tree : EnvTree) (id : DatumId) : Prop :=
  (∃ cells, heap.find? id = some (.array cells)) ∨
    ∃ c node, heap.find? id = some (.closure c) ∧ tree.resolve c.env = some node

/-! ## Ledgers -/

/-- The form of a value: the contents of the cells, or the node of the frame closed over. -/
inductive Form where
  | literal
  | array (contents : List (Option Nat))
  | function (enclosing : Nat)

/-- A value without its geometry. -/
structure Entry where
  datum : Option DatumId
  form : Form
  references : List Reference

/-- The values of an arena without their geometry. -/
structure Ledger where
  entries : List Entry
  /-- The values of objects, by identity. -/
  cache : List (DatumId × Nat)

namespace Entry

/-- The contents of the cells of an array. -/
def contents (x : Entry) : List (Option Nat) :=
  match x.form with
  | .array contents => contents
  | _ => []

/-- The entry with one more reference to it. -/
def addReference (r : Reference) (x : Entry) : Entry := { x with references := x.references ++ [r] }

/-- An array with a value put into one of its cells. -/
def setContent (index content : Nat) (x : Entry) : Entry :=
  match x.form with
  | .array contents => { x with form := .array (contents.set index (some content)) }
  | _ => x

/-- Whether an entry is a literal without an object, an array of the heap, or a closure of
the heap over an environment of the tree. -/
inductive Represents (heap : Heap) (tree : EnvTree) : Entry → Prop
  | literal {refs : List Reference} : Represents heap tree ⟨none, .literal, refs⟩
  | array {id : DatumId} {cells : List Datum} {contents : List (Option Nat)}
      {refs : List Reference} : heap.find? id = some (.array cells) →
      contents.length = cells.length → Represents heap tree ⟨some id, .array contents, refs⟩
  | function {id : DatumId} {c : Closure} {node : Nat} {refs : List Reference} :
      heap.find? id = some (.closure c) → tree.resolve c.env = some node →
      Represents heap tree ⟨some id, .function node, refs⟩

@[simp]
theorem datum_addReference (r : Reference) (x : Entry) : (x.addReference r).datum = x.datum := rfl

@[simp]
theorem form_addReference (r : Reference) (x : Entry) : (x.addReference r).form = x.form := rfl

@[simp]
theorem contents_addReference (r : Reference) (x : Entry) :
    (x.addReference r).contents = x.contents := rfl

@[simp]
theorem references_addReference (r : Reference) (x : Entry) :
    (x.addReference r).references = x.references ++ [r] := rfl

@[simp]
theorem datum_setContent (index content : Nat) (x : Entry) :
    (x.setContent index content).datum = x.datum := by
  unfold setContent
  split <;> rfl

@[simp]
theorem references_setContent (index content : Nat) (x : Entry) :
    (x.setContent index content).references = x.references := by
  unfold setContent
  split <;> rfl

@[simp]
theorem contents_setContent (index content : Nat) (x : Entry) :
    (x.setContent index content).contents = x.contents.set index (some content) := by
  unfold setContent contents
  cases hx : x.form <;> simp [hx]

theorem form_setContent_eq_literal {index content : Nat} {x : Entry} :
    (x.setContent index content).form = .literal ↔ x.form = .literal := by
  unfold setContent
  cases hx : x.form <;> simp [hx]

/-! ## What an entry stands for -/

variable {heap : Heap} {tree : EnvTree} {x : Entry} {id : DatumId}

theorem Represents.addReference (h : x.Represents heap tree) (r : Reference) :
    (x.addReference r).Represents heap tree := by
  cases h with
  | literal => exact .literal
  | array hf hlen => exact .array hf hlen
  | function hf hres => exact .function hf hres

theorem Represents.setContent (h : x.Represents heap tree) (index content : Nat) :
    (x.setContent index content).Represents heap tree := by
  cases h with
  | literal => exact .literal
  | array hf hlen => exact .array hf (by simpa using hlen)
  | function hf hres => exact .function hf hres

theorem Represents.form_ne_literal (h : x.Represents heap tree) (hd : x.datum = some id) :
    x.form ≠ .literal := by
  cases h <;> simp_all

/-- The value of an array has as many cells as its object. -/
theorem Represents.form_of_array (h : x.Represents heap tree) (hd : x.datum = some id)
    {data : List Datum} (hfind : heap.find? id = some (.array data)) :
    ∃ contents, x.form = .array contents ∧ contents.length = data.length := by
  cases h with
  | literal => simp at hd
  | array hf hlen =>
    cases hd
    rw [hf] at hfind
    cases hfind
    exact ⟨_, rfl, hlen⟩
  | function hf hres =>
    cases hd
    rw [hf] at hfind
    simp at hfind

/-- The value of a closure is the function of its node. -/
theorem Represents.form_of_closure (h : x.Represents heap tree) (hd : x.datum = some id)
    {c : Closure} (hfind : heap.find? id = some (.closure c)) :
    ∃ node, x.form = .function node ∧ tree.resolve c.env = some node := by
  cases h with
  | literal => simp at hd
  | array hf hlen =>
    cases hd
    rw [hf] at hfind
    simp at hfind
  | function hf hres =>
    cases hd
    rw [hf] at hfind
    cases hfind
    exact ⟨_, rfl, hres⟩

theorem Represents.exists_array (h : x.Represents heap tree) {contents : List (Option Nat)}
    (hf : x.form = .array contents) : ∃ id data, x.datum = some id ∧
      heap.find? id = some (.array data) ∧ contents.length = data.length := by
  cases h with
  | literal => simp at hf
  | array hfind hlen =>
    cases hf
    exact ⟨_, _, rfl, hfind, hlen⟩
  | function hfind hres => simp at hf

theorem Represents.exists_closure (h : x.Represents heap tree) {node : Nat}
    (hf : x.form = .function node) : ∃ id c, x.datum = some id ∧
      heap.find? id = some (.closure c) ∧ tree.resolve c.env = some node := by
  cases h with
  | literal => simp at hf
  | array hfind hlen => simp at hf
  | function hfind hres =>
    cases hf
    exact ⟨_, _, rfl, hfind, hres⟩

theorem Represents.form_of_none (h : x.Represents heap tree) (hd : x.datum = none) :
    x.form = .literal := by
  cases h <;> simp_all

theorem Represents.length_contents (h : x.Represents heap tree) (hd : x.datum = some id)
    {data : List Datum} (hfind : heap.find? id = some (.array data)) :
    x.contents.length = data.length := by
  obtain ⟨contents, hform, hlen⟩ := h.form_of_array hd hfind
  rw [Entry.contents, hform]
  exact hlen

end Entry

namespace Ledger

/-- The number of values. -/
def size (l : Ledger) : Nat := l.entries.length

/-- The value of an object, if it is placed. -/
def cached (l : Ledger) (id : DatumId) : Option Nat := l.cache.lookup id

/-- The value in a cell of an array. -/
def content? (l : Ledger) (array index : Nat) : Option Nat :=
  (l.entries[array]?).bind fun x => x.contents[index]?.join

/-- Adds a value. -/
def add (l : Ledger) (datum : Option DatumId) (form : Form) (r : Reference) : Ledger where
  entries := l.entries ++ [⟨datum, form, [r]⟩]
  cache :=
    match datum with
    | none => l.cache
    | some id => (id, l.size) :: l.cache

/-- Notes a further reference to a value. -/
def note (l : Ledger) (v : Nat) (r : Reference) : Ledger :=
  { l with entries := l.entries.modify v (Entry.addReference r) }

/-- Puts a value into a cell of an array. -/
def fill (l : Ledger) (array index content : Nat) : Ledger :=
  { l with entries := l.entries.modify array (Entry.setContent index content) }

/-- What a visit of a datum from a reference can do: find the value of an object again, or
add an array with empty cells, a function or a literal. The cells of a new array follow. -/
inductive Meets (heap : Heap) (tree : EnvTree) (l : Ledger) (r : Reference) :
    Datum → Ledger → Nat → List CellTask → Prop
  | again {id : DatumId} {v : Nat} : l.cached id = some v →
      Meets heap tree l r (.object id) (l.note v r) v []
  | array {id : DatumId} {cells : List Datum} : l.cached id = none →
      heap.find? id = some (.array cells) →
      Meets heap tree l r (.object id) (l.add (some id) (.array (cells.map fun _ => none)) r)
        l.size (cellTasks l.size cells)
  | function {id : DatumId} {c : Closure} {node : Nat} : l.cached id = none →
      heap.find? id = some (.closure c) → tree.resolve c.env = some node →
      Meets heap tree l r (.object id) (l.add (some id) (.function node) r) l.size []
  | literal {d : Datum} : (∀ id, d = .object id → ¬ heap.Drawable tree id) →
      Meets heap tree l r d (l.add none .literal r) l.size []

end Ledger

/-! ## The ledger of an arena -/

variable {α : Type}

/-- The form of a value. -/
def ValueKind.form : ValueKind α → Form
  | .literal .. => .literal
  | .array cells => .array (cells.toList.map Cell.content)
  | .function f => .function f.enclosing

/-- The value without its geometry. -/
def Value.entry (x : Value α) : Entry := ⟨x.datum, x.kind.form, x.references⟩

theorem Value.entry_addReference (x : Value α) (r : Reference) :
    (x.addReference r).entry = x.entry.addReference r := rfl

theorem Value.entry_setContent (x : Value α) (index content : Nat) :
    (x.setContent index content).entry = x.entry.setContent index content := by
  obtain ⟨id, datum, kind, bounds, references⟩ := x
  cases kind with
  | literal text placeholder => rfl
  | function f => rfl
  | array cells =>
    simp only [Value.setContent, Value.entry, Entry.setContent, ValueKind.form, Entry.mk.injEq,
      Form.array.injEq, true_and, and_true]
    apply List.ext_getElem?
    intro j
    simp only [Array.toList_modify, List.getElem?_map, List.getElem?_modify, List.getElem?_set,
      List.length_map, Array.length_toList]
    by_cases hj : index = j
    · subst hj
      by_cases hlt : index < cells.size <;> simp [hlt]
    · simp [hj]

theorem Value.entry_moveTo [Scalar α] (x : Value α) (center : Point α) :
    (x.moveTo center).entry = x.entry := by
  unfold Value.moveTo Value.entry
  split
  · rename_i f hf
    simp [hf, ValueKind.form]
  · rfl

namespace Arena

/-- The arena without its geometry. -/
def ledger (a : Arena α) : Ledger := ⟨a.values.toList.map Value.entry, a.cache⟩

theorem ledger_entries (a : Arena α) (v : Nat) :
    a.ledger.entries[v]? = (a.values[v]?).map Value.entry := by
  simp [ledger]

@[simp]
theorem size_ledger (a : Arena α) : a.ledger.size = a.values.size := by
  simp [ledger, Ledger.size]

@[simp]
theorem cached_ledger (a : Arena α) (id : DatumId) : a.ledger.cached id = a.cached id := rfl

@[simp]
theorem ledger_addDefect (a : Arena α) (d : Defect) : (a.addDefect d).ledger = a.ledger := rfl

@[simp]
theorem ledger_extent (a : Arena α) (extent : Bounds α) : { a with extent }.ledger = a.ledger := rfl

theorem ledger_modify (a : Arena α) (v : Nat) (f : Value α → Value α) (g : Entry → Entry)
    (h : ∀ x, (f x).entry = g x.entry) :
    (a.values.modify v f).toList.map Value.entry = a.ledger.entries.modify v g := by
  apply List.ext_getElem?
  intro j
  simp only [ledger, Array.toList_modify, List.getElem?_map, List.getElem?_modify]
  by_cases hj : v = j
  · cases a.values.toList[j]? <;> simp [hj, h]
  · simp [hj]

theorem ledger_addReference (a : Arena α) (v : Nat) (r : Reference) :
    (a.addReference v r).ledger = a.ledger.note v r := by
  rw [Ledger.note, ← ledger_modify a v _ _ fun x => x.entry_addReference r]
  rfl

theorem ledger_setContent (a : Arena α) (array index content : Nat) :
    (a.setContent array index content).ledger = a.ledger.fill array index content := by
  rw [Ledger.fill, ← ledger_modify a array _ _ fun x => x.entry_setContent index content]
  rfl

theorem reference_cellAnchor (a : Arena α) (array index : Nat) :
    (a.cellAnchor array index).reference = .cell array index := by
  unfold cellAnchor
  split <;> rfl

variable [Scalar α]

theorem ledger_push (a : Arena α) (datum : Option DatumId) (kind : ValueKind α) (bounds : Bounds α)
    (r : Reference) : (a.push datum kind bounds r).ledger = a.ledger.add datum kind.form r := by
  cases datum <;> simp [ledger, push, Ledger.add, Ledger.size, Value.entry]

/-- Moving a function changes its geometry only. -/
@[simp]
theorem ledger_reanchor (sc : Scope α) (a : Arena α) (v : Nat) (anchor : Anchor α) :
    (a.reanchor sc v anchor).ledger = a.ledger := by
  unfold reanchor
  split
  · rename_i frame index node frameBounds rowBounds value hvalue
    split
    · split
      · show Ledger.mk ((a.values.modify v fun _ => _).toList.map Value.entry) a.cache = _
        congr 1
        apply List.ext_getElem?
        intro j
        simp only [Array.toList_modify, List.getElem?_map, List.getElem?_modify]
        by_cases hj : v = j
        · subst hj
          rw [Array.getElem?_toList, hvalue]
          simp [Value.entry_moveTo]
        · simp [hj]
      · rfl
    · rfl
  · rfl

/-- A literal is placed for what is not drawn; defects do not matter. -/
theorem meets_visitText (sc : Scope α) {a b : Arena α} (hb : b.ledger = a.ledger)
    (anchor : Anchor α) (text : String) (placeholder : Bool) {d : Datum}
    (hd : ∀ id, d = .object id → ¬ sc.heap.Drawable sc.tree id) :
    a.ledger.Meets sc.heap sc.tree anchor.reference d
      (b.visitText sc anchor text placeholder).arena.ledger
      (b.visitText sc anchor text placeholder).value
      (b.visitText sc anchor text placeholder).cells := by
  unfold visitText
  simp only [ledger_push, hb, ← size_ledger]
  exact .literal hd

/-- What a visit does to the ledger. -/
theorem meets_visit (sc : Scope α) (a : Arena α) (anchor : Anchor α) (d : Datum) :
    a.ledger.Meets sc.heap sc.tree anchor.reference d (a.visit sc anchor d).arena.ledger
      (a.visit sc anchor d).value (a.visit sc anchor d).cells := by
  cases d with
  | primitive p => exact meets_visitText sc rfl anchor _ _ (by simp)
  | null => exact meets_visitText sc rfl anchor _ _ (by simp)
  | object id =>
    rw [visit]
    cases hc : a.cached id with
    | some v =>
      simp only [ledger_addReference, ledger_reanchor]
      exact .again hc
    | none =>
      cases hfind : sc.heap.find? id with
      | none =>
        refine meets_visitText sc (ledger_addDefect ..) anchor _ _ ?_
        intro id' hid
        cases hid
        simp [Heap.Drawable, hfind]
      | some object =>
        cases object with
        | array cells =>
          simp only [visitArray, ledger_push, ← size_ledger]
          have hform : (ValueKind.array (Cell.row sc.config a.ledger.size cells.length
              (anchor.arrayOrigin sc.config))).form = .array (cells.map fun _ => none) := by
            simp [ValueKind.form, Cell.row, Cell.place, Function.comp_def]
          rw [hform]
          exact .array hc hfind
        | closure c =>
          simp only [visitClosure]
          cases hres : sc.tree.resolve c.env with
          | none =>
            refine meets_visitText sc (ledger_addDefect ..) anchor _ _ ?_
            intro id' hid
            cases hid
            simp [Heap.Drawable, hfind, hres]
          | some node =>
            simp only [ledger_push, ← size_ledger]
            exact .function hc hfind hres

end Arena

end EnvDiagram
