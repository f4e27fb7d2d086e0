import EnvDiagram.Proofs.Layout.Faithful

/-!
# Back references

A value lists the references to it while rows and cells are filled one after the other. When
the layout is done both directions agree: a value lists a row or a cell exactly if that leads
to it, in the order of the walk, and the reference that brought it comes first.

* `Layout.target?` — what a row or a cell leads to
* `Layout.BackReferences` — every value lists what leads to it
* `Scene.backReferences_load` — so it is after loading a snapshot, whatever was shown before
-/

namespace EnvDiagram

-- a layout is known by its lemmas here, not by how it is computed
attribute [local irreducible] Layout.ofSnapshot

variable {α : Type}

namespace Layout

/-- The value that a row or a cell leads to. -/
def target? (l : Layout α) : Reference → Option Nat
  | .binding frame index => rowTarget l.frames frame index
  | .cell array index =>
    ((l.values[array]?).bind Value.cells?).bind fun cells => (cells[index]?).bind Cell.content

/-- Whether the values list the references that lead to them, given the meetings that led to
the layout. -/
structure BackReferences (walk : List Meeting) (l : Layout α) : Prop where
  count : ∀ {v : Nat} {x : Value α}, l.values[v]? = some x →
    ∀ r, x.references.count r = if l.target? r = some v then 1 else 0
  order : ∀ {v : Nat} {x : Value α}, l.values[v]? = some x →
    x.references = (walk.filter (·.value = v)).map Meeting.reference
  nonempty : ∀ {v : Nat} {x : Value α}, l.values[v]? = some x → x.references ≠ []
  literal : ∀ {v : Nat} {x : Value α}, l.values[v]? = some x → x.isLiteral →
    x.references.length = 1
  /-- Just one meeting added the value, and the value was placed by its reference. -/
  placed : ∀ {v : Nat} {x : Value α}, l.values[v]? = some x →
    ∃ m, (walk.filter fun m => m.value = v ∧ m.isNew) = [m] ∧ x.placedBy = some m.reference

variable {l : Layout α} {log : List Meeting} {v : Nat} {x : Value α}

theorem BackReferences.mem_iff (h : l.BackReferences log) (hx : l.values[v]? = some x)
    {r : Reference} : r ∈ x.references ↔ l.target? r = some v := by
  rw [← List.count_pos_iff, h.count hx]
  split <;> simp [*]

theorem BackReferences.nodup (h : l.BackReferences log) (hx : l.values[v]? = some x) :
    x.references.Nodup := by
  rw [List.nodup_iff_count_le_one]
  intro r
  rw [h.count hx]
  split <;> simp

theorem target?_binding_iff {i j : Nat} : l.target? (.binding i j) = some v ↔
    ∃ f b, l.frames[i]? = some f ∧ f.bindings[j]? = some b ∧ b.target = some v := by
  simp only [target?, rowTarget, Option.bind_eq_some_iff]
  constructor
  · rintro ⟨f, hf, b, hb, ht⟩
    exact ⟨f, b, hf, hb, ht⟩
  · rintro ⟨f, b, hf, hb, ht⟩
    exact ⟨f, hf, b, hb, ht⟩

theorem cells?_eq_some_iff {cells : Array (Cell α)} :
    x.cells? = some cells ↔ x.kind = .array cells := by
  cases hk : x.kind <;> simp [Value.cells?, hk]

theorem target?_cell_iff {array i : Nat} : l.target? (.cell array i) = some v ↔
    ∃ x cells c, l.values[array]? = some x ∧ x.kind = .array cells ∧ cells[i]? = some c ∧
      c.content = some v := by
  simp only [target?, Option.bind_eq_some_iff]
  constructor
  · rintro ⟨cells, ⟨x, hx, hcells⟩, c, hc, hcontent⟩
    exact ⟨x, cells, c, hx, cells?_eq_some_iff.mp hcells, hc, hcontent⟩
  · rintro ⟨x, cells, c, hx, hk, hc, hcontent⟩
    exact ⟨cells, ⟨x, hx, cells?_eq_some_iff.mpr hk⟩, c, hc, hcontent⟩

theorem target?_ledger (l : Layout α) :
    l.ledger.target? (rowTarget l.frames) = l.target? := by
  funext r
  cases r with
  | binding frame index => rfl
  | cell array index =>
    rw [Ledger.target?, target?, Ledger.content?, ledger_entries]
    cases l.values[array]? with
    | none => rfl
    | some x =>
      cases hk : x.kind with
      | literal text placeholder => simp [Value.entry, Entry.contents, Value.cells?, ValueKind.form, hk]
      | function f => simp [Value.entry, Entry.contents, Value.cells?, ValueKind.form, hk]
      | array cells =>
        cases hc : cells[index]? <;>
          simp [Value.entry, Entry.contents, Value.cells?, ValueKind.form, hk, hc]

variable [Scalar α]

theorem logged_ofSnapshot (config : Config α) (s : Snapshot) :
    (ofSnapshot config s).ledger.Logged (ofSnapshot config s).target? (walk config s) := by
  rw [← target?_ledger]
  exact (working_ofSnapshot config s).logged

theorem backReferences_ofSnapshot (config : Config α) (s : Snapshot) :
    (ofSnapshot config s).BackReferences (walk config s) where
  count := by
    intro v x hx r
    have hlog := logged_ofSnapshot config s
    have hrefs := hlog.references (entry_of_value hx)
    have hnodup : x.references.Nodup := by
      rw [show x.references = _ from hrefs]
      exact hlog.nodup.sublist (List.filter_sublist.map _)
    rw [hnodup.count]
    refine if_congr ?_ rfl rfl
    rw [hlog.links_iff, show x.references = _ from hrefs, List.mem_map]
    simp only [List.mem_filter, decide_eq_true_eq]
    constructor
    · rintro ⟨m, ⟨hm, hv⟩, hr⟩
      exact ⟨m, hm, hr, hv⟩
    · rintro ⟨m, hm, hr, hv⟩
      exact ⟨m, ⟨hm, hv⟩, hr⟩
  order := fun hx => (logged_ofSnapshot config s).references (entry_of_value hx)
  nonempty := fun hx => (logged_ofSnapshot config s).nonempty (entry_of_value hx)
  literal := fun hx hlit =>
    (logged_ofSnapshot config s).literal (entry_of_value hx) (form_eq_literal.mpr hlit)
  placed := fun hx => (logged_ofSnapshot config s).placed (entry_of_value hx)

end Layout

/-- Every value of a snapshot that is laid out lists the rows and cells that lead to it and
nothing else, whatever was shown before. -/
theorem Scene.backReferences_load [Scalar α] (sc : Scene α) (s : Snapshot) :
    (sc.load s).layout.BackReferences (Layout.walk sc.config s) :=
  Layout.backReferences_ofSnapshot sc.config s

end EnvDiagram
