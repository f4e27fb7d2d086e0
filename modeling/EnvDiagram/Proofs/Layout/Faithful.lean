import EnvDiagram.Proofs.Layout.Walk
import EnvDiagram.Scene

/-!
# A layout is a faithful image of the heap

The values of a layout are the drawn objects that the rows lead to, each of them once, and
literals. Objects that are shared are shared in the layout, and circles through arrays are
circles of values.

* `Snapshot.Drawable`, `Layout.Shows` — which objects get values, and the value of a datum
* `Layout.Faithful` — the layout is the image of what its rows lead to
* `Scene.faithful_load` — that is so whatever was shown before
-/

namespace EnvDiagram

-- a layout is known by its lemmas here, not by how it is computed
attribute [local irreducible] Layout.ofSnapshot

variable {α : Type}

/-- Whether an object is drawn as a value of its own: an array, or a closure over an
environment of the snapshot. -/
def Snapshot.Drawable (s : Snapshot) (id : DatumId) : Prop :=
  (∃ cells, s.heap.find? id = some (.array cells)) ∨
    ∃ c, s.heap.find? id = some (.closure c) ∧ ∃ env ∈ s.envs, env.id = c.env

namespace Layout

/-- What the value of a datum is: the one value of an object that is drawn, and a literal
without an identity for anything else. -/
inductive Shows (s : Snapshot) (l : Layout α) : Datum → Nat → Prop
  | object {id : DatumId} {v : Nat} : s.Drawable id → l.cached id = some v →
      Shows s l (.object id) v
  | literal {d : Datum} {v : Nat} {x : Value α} : (∀ id, d = .object id → ¬ s.Drawable id) →
      l.values[v]? = some x → x.datum = none → x.isLiteral → Shows s l d v

/-- Whether a layout is the image of what its rows lead to. -/
structure Faithful (s : Snapshot) (l : Layout α) : Prop where
  /-- No two values are of the same object. -/
  injective : ∀ {v w : Nat} {x y : Value α} {id : DatumId}, l.values[v]? = some x →
    l.values[w]? = some y → x.datum = some id → y.datum = some id → v = w
  cached_iff : ∀ {id : DatumId} {v : Nat},
    l.cached id = some v ↔ ∃ x, l.values[v]? = some x ∧ x.datum = some id
  /-- The objects with values are those that are drawn and that some row leads to. -/
  cached_isSome : ∀ {id : DatumId}, (l.cached id).isSome ↔
    (∃ frame ∈ l.frames, ∃ b ∈ frame.bindings, ∃ d, b.datum = some d ∧ s.heap.Reaches d id) ∧
      s.Drawable id
  /-- An array has a cell for every cell of its object, in order. -/
  array : ∀ {id : DatumId} {v : Nat} {data : List Datum}, l.cached id = some v →
    s.heap.find? id = some (.array data) →
      ∃ x cells, l.values[v]? = some x ∧ x.kind = .array cells ∧ cells.size = data.length ∧
        ∀ (i : Nat) (c : Cell α) (d : Datum), cells[i]? = some c → data[i]? = some d →
          c.array = v ∧ c.index = i ∧
            (d = .null ∧ c.content = none ∨ d ≠ .null ∧ ∃ w, c.content = some w ∧ l.Shows s d w)
  /-- A function knows the node that its environment resolves to. -/
  function : ∀ {id : DatumId} {v : Nat} {c : Closure}, l.cached id = some v →
    s.heap.find? id = some (.closure c) →
      ∃ x f, l.values[v]? = some x ∧ x.kind = .function f ∧ l.tree.resolve c.env = some f.enclosing
  /-- All other values are literals. -/
  literal : ∀ {v : Nat} {x : Value α}, l.values[v]? = some x → x.datum = none → x.isLiteral
  row : ∀ {frame : Frame α} {b : Binding α}, frame ∈ l.frames → b ∈ frame.bindings →
    b.datum = none ∧ b.target = none ∨
      ∃ d v, b.datum = some d ∧ b.target = some v ∧ l.Shows s d v

/-! ## From ledgers to layouts -/

/-- The layout without its geometry. -/
def ledger (l : Layout α) : Ledger := ⟨l.values.toList.map Value.entry, l.cache⟩

theorem ledger_entries (l : Layout α) (v : Nat) :
    l.ledger.entries[v]? = (l.values[v]?).map Value.entry := by
  simp [ledger]

theorem entry_of_value {l : Layout α} {v : Nat} {x : Value α} (h : l.values[v]? = some x) :
    l.ledger.entries[v]? = some x.entry := by
  rw [ledger_entries, h]
  rfl

theorem cached_ledger (l : Layout α) (id : DatumId) : l.ledger.cached id = l.cached id := rfl

theorem form_eq_literal {x : Value α} : x.entry.form = .literal ↔ x.isLiteral := by
  cases hk : x.kind <;> simp [Value.entry, Value.isLiteral, ValueKind.form, hk]

theorem kind_of_array {x : Value α} {contents : List (Option Nat)}
    (h : x.entry.form = .array contents) :
    ∃ cells, x.kind = .array cells ∧ cells.toList.map Cell.content = contents := by
  cases hk : x.kind <;> simp_all [Value.entry, ValueKind.form]

theorem kind_of_function {x : Value α} {node : Nat} (h : x.entry.form = .function node) :
    ∃ f, x.kind = .function f ∧ f.enclosing = node := by
  cases hk : x.kind <;> simp_all [Value.entry, ValueKind.form]

/-- The value in a cell of an array. -/
theorem content?_ledger {l : Layout α} {v i : Nat} {x : Value α} {cells : Array (Cell α)}
    {c : Cell α} (hx : l.values[v]? = some x) (hk : x.kind = .array cells)
    (hc : cells[i]? = some c) : l.ledger.content? v i = c.content := by
  rw [Ledger.content?, ledger_entries, hx]
  simp [Value.entry, Entry.contents, hk, ValueKind.form, hc]

variable [Scalar α] {config : Config α} {s : Snapshot}

/-- The invariants of the ledger hold when the layout is done. -/
theorem working_ofSnapshot (config : Config α) (s : Snapshot) :
    Ledger.Working s.heap (ofSnapshot config s).tree (rowTarget (ofSnapshot config s).frames)
      (IsRowDatum (ofSnapshot config s).frames) (walk config s) (ofSnapshot config s).ledger [] :=
  (ofSnapshot_laid config s).built.working

/-- The objects that the tree can draw are those that the snapshot knows the environment of. -/
theorem drawable_iff {id : DatumId} :
    s.heap.Drawable (ofSnapshot config s).tree id ↔ s.Drawable id := by
  rw [Heap.Drawable, Snapshot.Drawable, tree_ofSnapshot]
  refine or_congr Iff.rfl (exists_congr fun c => ?_)
  rw [← EnvTree.resolve_isSome_iff config.framePolicy, Option.isSome_iff_exists]
  exact exists_and_left

theorem shows_of_ledger {d : Datum} {v : Nat}
    (h : (ofSnapshot config s).ledger.Shows s.heap (ofSnapshot config s).tree d v) :
    (ofSnapshot config s).Shows s d v := by
  cases h with
  | object hd hc => exact .object (drawable_iff.mp hd) hc
  | literal hd hx hdat hform =>
    rw [ledger_entries] at hx
    obtain ⟨y, hy, rfl⟩ := Option.map_eq_some_iff.mp hx
    exact .literal (fun id hid hdraw => hd id hid (drawable_iff.mpr hdraw)) hy hdat
      (form_eq_literal.mp hform)

omit [Scalar α] in
theorem Shows.cached {l : Layout α} {id : DatumId} {v : Nat} (h : l.Shows s (.object id) v)
    (hdraw : s.Drawable id) : l.cached id = some v := by
  cases h with
  | object _ hc => exact hc
  | literal hnot => exact absurd hdraw (hnot _ rfl)

/-! ## The layout of a snapshot -/

theorem row_ofSnapshot {frame : Frame α} {b : Binding α} (hf : frame ∈ (ofSnapshot config s).frames)
    (hb : b ∈ frame.bindings) : b.datum = none ∧ b.target = none ∨
      ∃ d v, b.datum = some d ∧ b.target = some v ∧ (ofSnapshot config s).Shows s d v := by
  obtain ⟨f, hf'⟩ := Array.getElem?_of_mem hf
  obtain ⟨i, hi⟩ := Array.getElem?_of_mem hb
  refine ((ofSnapshot_laid config s).built.row_target hf' hi).imp_right fun ⟨d, v, hd, hv, hs⟩ => ?_
  exact ⟨d, v, hd, hv, shows_of_ledger hs⟩

theorem cached_ofSnapshot_iff {id : DatumId} {v : Nat} : (ofSnapshot config s).cached id = some v ↔
    ∃ x, (ofSnapshot config s).values[v]? = some x ∧ x.datum = some id := by
  rw [← cached_ledger, (working_ofSnapshot config s).coherent.cached_iff, ledger_entries]
  constructor
  · rintro ⟨y, hy, hd⟩
    obtain ⟨x, hx, rfl⟩ := Option.map_eq_some_iff.mp hy
    exact ⟨x, hx, hd⟩
  · rintro ⟨x, hx, hd⟩
    exact ⟨x.entry, by rw [hx]; rfl, hd⟩

/-- The value of an array has the cells of its object, each with its content. -/
theorem array_ofSnapshot {id : DatumId} {v : Nat} {data : List Datum}
    (hc : (ofSnapshot config s).cached id = some v) (hf : s.heap.find? id = some (.array data)) :
    ∃ x cells, (ofSnapshot config s).values[v]? = some x ∧ x.kind = .array cells ∧
      cells.size = data.length ∧
      ∀ (i : Nat) (c : Cell α) (d : Datum), cells[i]? = some c → data[i]? = some d →
        c.array = v ∧ c.index = i ∧ (d = .null ∧ c.content = none ∨
          d ≠ .null ∧ ∃ w, c.content = some w ∧ (ofSnapshot config s).Shows s d w) := by
  have hwork := working_ofSnapshot config s
  obtain ⟨x, hx, hd⟩ := cached_ofSnapshot_iff.mp hc
  have hentry := entry_of_value hx
  obtain ⟨contents, hform, hlen⟩ := (hwork.coherent.represents hentry).form_of_array hd hf
  obtain ⟨cells, hk, rfl⟩ := kind_of_array hform
  refine ⟨x, cells, hx, hk, ?_, fun i c d hci hdi => ?_⟩
  · rwa [List.length_map, Array.length_toList] at hlen
  · obtain ⟨harray, hindex⟩ := ((ofSnapshot_laid config s).built.labelled.value hx).cell hk hci
    refine ⟨harray, hindex, ?_⟩
    rw [← content?_ledger hx hk hci]
    rcases hwork.filled.cell hentry hd hf hdi with ⟨hnone, hnull⟩ | ⟨hne, w, hw, hs⟩
    · exact Or.inl ⟨by simpa using hnull, hnone⟩
    · exact Or.inr ⟨hne, w, hw, shows_of_ledger hs⟩

/-- A function is of a closure, whose environment resolves to its node. -/
theorem closure_of_function {v : Nat} {x : Value α} {f : FunctionGlyph α}
    (hx : (ofSnapshot config s).values[v]? = some x) (hk : x.kind = .function f) :
    ∃ id c, x.datum = some id ∧ s.heap.find? id = some (.closure c) ∧
      (ofSnapshot config s).tree.resolve c.env = some f.enclosing := by
  have hform : x.entry.form = .function f.enclosing := by
    rw [Value.entry, hk]
    rfl
  exact ((working_ofSnapshot config s).coherent.represents (entry_of_value hx)).exists_closure hform

/-- What a row leads to and is drawn has a value. -/
theorem cached_of_reaches {frame : Frame α} {b : Binding α} {d : Datum} {id : DatumId}
    (hf : frame ∈ (ofSnapshot config s).frames) (hb : b ∈ frame.bindings) (hd : b.datum = some d)
    (hreach : s.heap.Reaches d id) (hdraw : s.Drawable id) :
    ((ofSnapshot config s).cached id).isSome := by
  -- along the way to the object every array has a value, whose cells have theirs
  induction hreach with
  | self hid =>
    rcases row_ofSnapshot hf hb with ⟨hnone, -⟩ | ⟨d', v, hd', -, hs⟩
    · rw [hd] at hnone
      simp at hnone
    · rw [hd] at hd'
      cases hd'
      subst hid
      rw [hs.cached hdraw]
      rfl
  | @cell array id data _ hfind hmem ih =>
    obtain ⟨v, hv⟩ := Option.isSome_iff_exists.mp (ih (Or.inl ⟨data, hfind⟩))
    obtain ⟨x, cells, -, -, hsize, hcells⟩ := array_ofSnapshot hv hfind
    obtain ⟨i, hi⟩ := List.getElem?_of_mem hmem
    have hlt : i < cells.size := hsize ▸ (List.getElem?_eq_some_iff.mp hi).1
    obtain ⟨-, -, hcontent⟩ := hcells i _ _ (Array.getElem?_eq_getElem hlt) hi
    rcases hcontent with ⟨hnull, -⟩ | ⟨-, w, -, hs⟩
    · simp at hnull
    · rw [hs.cached hdraw]
      rfl

/-- Only what a row leads to has a value. -/
theorem reaches_of_cached {id : DatumId} {v : Nat} (h : (ofSnapshot config s).cached id = some v) :
    ∃ frame ∈ (ofSnapshot config s).frames, ∃ b ∈ frame.bindings, ∃ d,
      b.datum = some d ∧ s.heap.Reaches d id := by
  obtain ⟨d, ⟨frame, hf, b, hb, hd⟩, hreach⟩ := (working_ofSnapshot config s).rooted.reached h
  exact ⟨frame, hf, b, hb, d, hd, hreach⟩

theorem faithful_ofSnapshot (config : Config α) (s : Snapshot) :
    (ofSnapshot config s).Faithful s where
  injective := by
    intro v w x y id hx hy hdx hdy
    have hv := cached_ofSnapshot_iff.mpr ⟨x, hx, hdx⟩
    rw [cached_ofSnapshot_iff.mpr ⟨y, hy, hdy⟩] at hv
    simpa using hv.symm
  cached_iff := cached_ofSnapshot_iff
  cached_isSome := by
    intro id
    constructor
    · intro h
      obtain ⟨v, hv⟩ := Option.isSome_iff_exists.mp h
      exact ⟨reaches_of_cached hv,
        drawable_iff.mp ((working_ofSnapshot config s).coherent.drawable hv)⟩
    · rintro ⟨⟨frame, hf, b, hb, d, hd, hreach⟩, hdraw⟩
      exact cached_of_reaches hf hb hd hreach hdraw
  array := array_ofSnapshot
  function := by
    intro id v c hc hf
    obtain ⟨x, hx, hd⟩ := cached_ofSnapshot_iff.mp hc
    have hrep := (working_ofSnapshot config s).coherent.represents (entry_of_value hx)
    obtain ⟨node, hform, hres⟩ := hrep.form_of_closure hd hf
    obtain ⟨f, hk, rfl⟩ := kind_of_function hform
    exact ⟨x, f, hx, hk, hres⟩
  literal := by
    intro v x hx hd
    have hrep := (working_ofSnapshot config s).coherent.represents (entry_of_value hx)
    exact form_eq_literal.mp (hrep.form_of_none hd)
  row := row_ofSnapshot

end Layout

/-- Laying out a snapshot gives a faithful image of it, whatever was shown before. -/
theorem Scene.faithful_load [Scalar α] (sc : Scene α) (s : Snapshot) :
    (sc.load s).layout.Faithful s :=
  Layout.faithful_ofSnapshot sc.config s

end EnvDiagram
