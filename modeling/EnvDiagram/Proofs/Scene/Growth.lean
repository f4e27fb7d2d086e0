import EnvDiagram.Proofs.Layout.Anchors
import EnvDiagram.Proofs.Layout.Faithful
import EnvDiagram.Proofs.Scene.Reuse

/-!
# Placing one more datum

A layout stays open: a datum of any snapshot may be placed in it as seen from a row or a cell that
is there. Placing only adds. What was there is there still and knows the same references first;
only cells of arrays that are new are filled, and only the function that is met again may be moved.
The arena is worked on by visits, which keep all values that there are, and by filling cells, which
keeps all values but one (`Arena.KeepsFirst`); the cells that wait belong to arrays that are new.

* `Value.Extends` — a value with further references to it
* `Ledger.Indexed` — the cache leads to arrays and functions of its objects
* `Layout.GrowsTo` — what comes of a layout when a datum is placed in it
* `Session.place_reached` — placing a datum answers its value and only adds to the layout
-/

namespace EnvDiagram

-- a layout is known by its lemmas here, not by how it is computed
attribute [local irreducible] Layout.ofSnapshot

variable {α : Type}

/-! ## The cache -/

namespace Ledger

variable {heap : Heap} {tree : EnvTree} {l l' : Ledger} {r : Reference} {d : Datum} {v : Nat}
  {cells : List CellTask}

/-- Whether the cache leads to values of the objects that it knows, none of which is a literal. -/
structure Indexed (l : Ledger) : Prop where
  entry : ∀ {id : DatumId} {v : Nat}, l.cached id = some v →
    ∃ x, l.entries[v]? = some x ∧ x.datum = some id ∧ x.form ≠ .literal

theorem Coherent.indexed (h : l.Coherent heap tree) : l.Indexed := by
  refine ⟨fun hc => ?_⟩
  obtain ⟨x, hx, hd⟩ := h.cached_iff.mp hc
  exact ⟨x, hx, hd, (h.represents hx).form_ne_literal hd⟩

/-- What the cache knew it goes on knowing; only what is new has to be looked at. -/
theorem Indexed.grows (h : l.Indexed) (hg : l.Grows l')
    (hnew : ∀ {id : DatumId} {v : Nat}, l'.cached id = some v → l.cached id = some v ∨
      ∃ x, l'.entries[v]? = some x ∧ x.datum = some id ∧ x.form ≠ .literal) : l'.Indexed := by
  refine ⟨fun hc => (hnew hc).elim (fun hold => ?_) id⟩
  obtain ⟨x, hx, hd, hform⟩ := h.entry hold
  obtain ⟨y, hy, hyd, hyform, -⟩ := hg.entry hx
  exact ⟨y, hy, hyd.trans hd, mt hyform.mp hform⟩

theorem Indexed.add (h : l.Indexed) {id : DatumId} {form : Form} (hc : l.cached id = none)
    (hform : form ≠ .literal) (r : Reference) : (l.add (some id) form r).Indexed := by
  refine h.grows (grows_add fun e he => Option.some.inj he ▸ hc) fun {e v} he => ?_
  rw [cached_add] at he
  split at he
  · rename_i heq
    obtain rfl := Option.some.inj he
    exact Or.inr ⟨_, by rw [entries_add, if_pos rfl], by rw [heq], hform⟩
  · exact Or.inl he

theorem Indexed.meets (h : l.Indexed) (hm : l.Meets heap tree r d l' v cells) : l'.Indexed := by
  cases hm with
  | again => exact h.grows (grows_note ..) Or.inl
  | array hc => exact h.add hc (by simp) r
  | function hc => exact h.add hc (by simp) r
  | literal => exact h.grows (grows_add (by simp)) Or.inl

/-- An object without a value gets one if it can be drawn; for anything else a literal is placed. -/
theorem Meets.answers (hm : l.Meets heap tree r d l' v cells)
    (hnew : ∀ id, d = .object id → l.cached id = none) :
    (∃ id, d = .object id ∧ heap.Drawable tree id ∧ l'.cached id = some v) ∨
      (∀ id, d = .object id → ¬ heap.Drawable tree id) ∧
        ∃ x, l'.entries[v]? = some x ∧ x.form = .literal := by
  cases hm with
  | @again id _ hc =>
    rw [hnew id rfl] at hc
    cases hc
  | @array id cells hc hf =>
    exact Or.inl ⟨id, rfl, Or.inl ⟨cells, hf⟩, by rw [cached_add, if_pos rfl]⟩
  | @function id c node hc hf hres =>
    exact Or.inl ⟨id, rfl, Or.inr ⟨c, node, hf, hres⟩, by rw [cached_add, if_pos rfl]⟩
  | literal hd => exact Or.inr ⟨hd, _, by rw [entries_add, if_pos rfl], rfl⟩

end Ledger

/-! ## Values that are kept -/

namespace Value

/-- Whether a value is another one with further references to it. -/
def Extends (x y : Value α) : Prop :=
  ∃ more, y = { x with references := x.references ++ more }

theorem Extends.refl (x : Value α) : x.Extends x := ⟨[], by rw [List.append_nil]⟩

theorem Extends.trans {x y z : Value α} (h : x.Extends y) (h' : y.Extends z) : x.Extends z := by
  obtain ⟨more, rfl⟩ := h
  obtain ⟨further, rfl⟩ := h'
  exact ⟨more ++ further, by rw [List.append_assoc]⟩

theorem extends_addReference (x : Value α) (r : Reference) : x.Extends (x.addReference r) :=
  ⟨[r], rfl⟩

end Value

namespace Arena

/-- Whether the first values of an arena are there in another one, with further references. -/
def KeepsFirst (n : Nat) (a b : Arena α) : Prop := ∀ v < n, ∀ x, a.values[v]? = some x →
  ∃ y, b.values[v]? = some y ∧ x.Extends y

variable {a b c : Arena α} {n v : Nat}

theorem KeepsFirst.refl (n : Nat) (a : Arena α) : a.KeepsFirst n a :=
  fun _ _ x hx => ⟨x, hx, .refl x⟩

theorem KeepsFirst.trans (h : a.KeepsFirst n b) (h' : b.KeepsFirst n c) : a.KeepsFirst n c := by
  intro v hv x hx
  obtain ⟨y, hy, hxy⟩ := h v hv x hx
  obtain ⟨z, hz, hyz⟩ := h' v hv y hy
  exact ⟨z, hz, hxy.trans hyz⟩

theorem keepsFirst_of_push {x : Value α} (hb : b.values = a.values.push x) (n : Nat) :
    a.KeepsFirst n b := by
  intro w _ y hy
  obtain ⟨hlt, -⟩ := Array.getElem?_eq_some_iff.mp hy
  exact ⟨y, by rw [hb, Array.getElem?_push_lt hlt, ← hy, Array.getElem?_eq_getElem hlt], .refl y⟩

/-- Cells are filled in an array that comes later. -/
theorem keepsFirst_setContent {array : Nat} (h : n ≤ array) (a : Arena α) (index content : Nat) :
    a.KeepsFirst n (a.setContent array index content) := by
  intro w hw x hx
  refine ⟨x, ?_, .refl x⟩
  show (a.values.modify array _)[w]? = some x
  rw [Array.getElem?_modify, if_neg (by omega), hx]

/-! ## Visits -/

variable [Scalar α] {sc : Scope α} {anchor : Anchor α} {d : Datum} {id : DatumId}

/-- What has no value yet brings a new one, and may bring cells of that and a defect. -/
theorem visit_of_new (h : ∀ id, d = .object id → a.cached id = none) (sc : Scope α)
    (anchor : Anchor α) : ∃ x noted,
      (a.visit sc anchor d).arena.values = a.values.push x ∧
      (a.visit sc anchor d).arena.defects = a.defects ++ noted ∧
      ∀ t ∈ (a.visit sc anchor d).cells, t.array = a.values.size := by
  cases d with
  | primitive p => exact ⟨_, [], rfl, (List.append_nil _).symm, by simp [visit]⟩
  | null => exact ⟨_, [], rfl, (List.append_nil _).symm, by simp [visit]⟩
  | object id =>
    simp only [visit, h id rfl]
    cases sc.heap.find? id with
    | none => exact ⟨_, [_], rfl, rfl, by simp⟩
    | some object =>
      cases object with
      | array cells =>
        exact ⟨_, [], rfl, (List.append_nil _).symm, fun t ht => (Ledger.mem_cellTasks.mp ht).1⟩
      | closure c =>
        simp only [visitClosure]
        cases sc.tree.resolve c.env with
        | none => exact ⟨_, [_], rfl, rfl, by simp⟩
        | some node => exact ⟨_, [], rfl, (List.append_nil _).symm, by simp⟩

omit [Scalar α] in
theorem new_or_cached (a : Arena α) (d : Datum) :
    (∀ id, d = .object id → a.cached id = none) ∨
      ∃ id v, d = .object id ∧ a.cached id = some v := by
  cases d with
  | primitive p => exact Or.inl fun id h => by cases h
  | null => exact Or.inl fun id h => by cases h
  | object id =>
    cases hc : a.cached id with
    | none => exact Or.inl fun e h => by cases h; exact hc
    | some v => exact Or.inr ⟨id, v, rfl, hc⟩

/-- A visit adds values and defects at the end, and the cells that it brings are those of a new
array. -/
theorem visit_adds (sc : Scope α) (a : Arena α) (anchor : Anchor α) (d : Datum) :
    a.values.size ≤ (a.visit sc anchor d).arena.values.size ∧
      a.defects <+: (a.visit sc anchor d).arena.defects ∧
      ∀ t ∈ (a.visit sc anchor d).cells, a.values.size ≤ t.array := by
  rcases a.new_or_cached d with hnew | ⟨id, v, rfl, hc⟩
  · obtain ⟨x, noted, hvalues, hdefects, hcells⟩ := visit_of_new hnew sc anchor
    rw [hvalues, hdefects, Array.size_push]
    exact ⟨Nat.le_succ _, List.prefix_append _ _, fun t ht => (hcells t ht).ge⟩
  · rw [visit_of_cached hc]
    refine ⟨?_, ?_, by simp⟩
    · show _ ≤ ((a.reanchor sc v anchor).addReference v anchor.reference).values.size
      rw [values_again, Array.size_modify]
    · show _ <+: (a.reanchor sc v anchor).defects
      rw [defects_reanchor]

/-- A value that is there is there after a visit. If it is moved, it is the one that is visited. -/
theorem value_visit {x : Value α} (hx : a.values[v]? = some x) (sc : Scope α) (anchor : Anchor α)
    (d : Datum) : ∃ y, (a.visit sc anchor d).arena.values[v]? = some y ∧
      (x.Extends y ∨ x.Moves sc anchor ∧
        (x.moveTo (anchor.functionCenter sc.config)).Extends y ∧
        ∃ id, d = .object id ∧ a.cached id = some v) := by
  rcases a.new_or_cached d with hnew | ⟨id, w, rfl, hc⟩
  · obtain ⟨z, noted, hvalues, -⟩ := visit_of_new hnew sc anchor
    obtain ⟨y, hy, hxy⟩ := keepsFirst_of_push hvalues (v + 1) v (Nat.lt_succ_self v) x hx
    exact ⟨y, hy, Or.inl hxy⟩
  · have hvalues : (a.visit sc anchor (.object id)).arena.values =
        a.values.modify w fun x => (x.reanchor sc anchor).addReference anchor.reference := by
      rw [visit_of_cached hc, ← values_again]
    rw [hvalues, Array.getElem?_modify, hx]
    split
    · rename_i hwv
      refine ⟨(x.reanchor sc anchor).addReference anchor.reference, rfl, ?_⟩
      by_cases hmoves : x.Moves sc anchor
      · rw [Value.reanchor_of_moves hmoves]
        exact Or.inr ⟨hmoves, Value.extends_addReference _ _, id, rfl, hwv ▸ hc⟩
      · rw [Value.reanchor_of_not_moves hmoves]
        exact Or.inl (x.extends_addReference _)
    · exact ⟨x, rfl, Or.inl (.refl x)⟩

omit [Scalar α] in
theorem isRowOf_cellAnchor (a : Arena α) (array index node : Nat) :
    (a.cellAnchor array index).isRowOf node = false := by
  unfold cellAnchor
  split <;> rfl

/-- Seen from a cell nothing is moved. -/
theorem keepsFirst_visit_cell (sc : Scope α) (a : Arena α) (array index : Nat) (d : Datum)
    (n : Nat) :
    a.KeepsFirst n (a.visit sc (a.cellAnchor array index) d).arena := by
  intro w _ x hx
  obtain ⟨y, hy, hxy | ⟨⟨f, -, hrow, -⟩, -⟩⟩ := value_visit hx sc (a.cellAnchor array index) d
  · exact ⟨y, hy, hxy⟩
  · rw [isRowOf_cellAnchor] at hrow
    cases hrow

/-! ## Placing -/

/-- Filling the cells of arrays that come later keeps the first values. -/
theorem keepsFirst_run (sc : Scope α) {agenda : List CellTask} (hsize : n ≤ a.values.size)
    (hagenda : ∀ t ∈ agenda, n ≤ t.array) :
    a.KeepsFirst n (a.run sc agenda) ∧ a.defects <+: (a.run sc agenda).defects := by
  let P : Arena α → List CellTask → Prop := fun b agenda =>
    (a.KeepsFirst n b ∧ a.defects <+: b.defects) ∧ n ≤ b.values.size ∧ ∀ t ∈ agenda, n ≤ t.array
  refine (run_keeps (P := P) (fun h => ⟨h.1, h.2.1, fun t ht => h.2.2 t (.tail _ ht)⟩) ?_
    ⟨⟨.refl n a, List.prefix_refl _⟩, hsize, hagenda⟩).1
  intro b task rest hb v
  obtain ⟨⟨hkeeps, hdefects⟩, hn, htasks⟩ := hb
  obtain ⟨hsize, hnoted, hcells⟩ :=
    visit_adds sc b (b.cellAnchor task.array task.index) task.datum
  have hvisit := keepsFirst_visit_cell sc b task.array task.index task.datum n
  have hfill := keepsFirst_setContent (htasks task (.head _)) v.arena task.index v.value
  refine ⟨⟨(hkeeps.trans hvisit).trans hfill, hdefects.trans hnoted⟩, ?_, ?_⟩
  · show n ≤ (v.arena.values.modify task.array _).size
    rw [Array.size_modify]
    exact hn.trans hsize
  · intro t ht
    rcases List.mem_append.mp ht with ht | ht
    · exact hn.trans (hcells t ht)
    · exact htasks t (.tail _ ht)

/-- A value that is there is there when a datum is placed. Only a function that is met again may be
moved. -/
theorem value_place {x : Value α} (hx : a.values[v]? = some x) (sc : Scope α) (anchor : Anchor α)
    (d : Datum) : ∃ y, (a.place sc anchor d).1.values[v]? = some y ∧
      (x.Extends y ∨ ∃ f center, x.kind = .function f ∧ (x.moveTo center).Extends y ∧
        ∃ id, d = .object id ∧ a.cached id = some v) := by
  obtain ⟨hsize, -, hcells⟩ := visit_adds sc a anchor d
  obtain ⟨y, hy, hxy⟩ := value_visit hx sc anchor d
  obtain ⟨z, hz, hyz⟩ := (keepsFirst_run sc hsize hcells).1 v
    (Array.getElem?_eq_some_iff.mp hx).1 y hy
  refine ⟨z, hz, hxy.imp (fun h => h.trans hyz) fun ⟨⟨f, hf, _⟩, hmoved, hmet⟩ => ?_⟩
  exact ⟨f, _, hf, hmoved.trans hyz, hmet⟩

theorem defects_place (sc : Scope α) (a : Arena α) (anchor : Anchor α) (d : Datum) :
    a.defects <+: (a.place sc anchor d).1.defects := by
  obtain ⟨hsize, hnoted, hcells⟩ := visit_adds sc a anchor d
  exact hnoted.trans (keepsFirst_run sc hsize hcells).2

theorem indexed_place (h : a.ledger.Indexed) (sc : Scope α) (anchor : Anchor α) (d : Datum) :
    (a.place sc anchor d).1.ledger.Indexed := by
  refine run_keeps (P := fun b _ => b.ledger.Indexed) id ?_ (h.meets (meets_visit sc a anchor d))
  intro b task rest hb v
  rw [ledger_setContent]
  exact (hb.meets (meets_visit sc b _ _)).grows (Ledger.grows_fill ..) Or.inl

/-- What is answered for a datum is the value of the object, if that has one already or can be
drawn, and otherwise a literal. -/
theorem answers_place (sc : Scope α) (a : Arena α) (anchor : Anchor α) (d : Datum) :
    (∃ id, d = .object id ∧ ((a.cached id).isSome ∨ sc.heap.Drawable sc.tree id) ∧
        (a.place sc anchor d).1.cached id = some (a.place sc anchor d).2) ∨
      (∀ id, d = .object id → a.cached id = none ∧ ¬ sc.heap.Drawable sc.tree id) ∧
        ∃ x, (a.place sc anchor d).1.values[(a.place sc anchor d).2]? = some x ∧ x.isLiteral := by
  have hgrows := grows_run sc (a.visit sc anchor d).arena (a.visit sc anchor d).cells
  rcases a.new_or_cached d with hnew | ⟨id, v, rfl, hc⟩
  · refine ((meets_visit sc a anchor d).answers hnew).imp ?_ ?_
    · rintro ⟨id, hid, hdraw, hcached⟩
      exact ⟨id, hid, Or.inr hdraw, hgrows.cached hcached⟩
    · rintro ⟨hdraw, x, hx, hform⟩
      obtain ⟨y, hy, -, hyform, -⟩ := hgrows.entry hx
      rw [ledger_entries] at hy
      obtain ⟨z, hz, rfl⟩ := Option.map_eq_some_iff.mp hy
      exact ⟨fun id hid => ⟨hnew id hid, hdraw id hid⟩, z, hz,
        Layout.form_eq_literal.mp (hyform.mpr hform)⟩
  · refine Or.inl ⟨id, rfl, Or.inl (by rw [hc]; rfl), ?_⟩
    have hagain : (a.place sc anchor (.object id)).2 = v := by
      rw [place, visit_of_cached hc]
    rw [hagain]
    exact (grows_place sc a anchor _).cached hc

/-- An object that has a value is met again, which adds none. -/
theorem place_of_cached {id : DatumId} (h : a.cached id = some v) (sc : Scope α)
    (anchor : Anchor α) :
    (a.place sc anchor (.object id)).2 = v ∧
      (a.place sc anchor (.object id)).1.values.size = a.values.size := by
  have hplace : a.place sc anchor (.object id) =
      ((a.reanchor sc v anchor).addReference v anchor.reference, v) := by
    rw [place, visit_of_cached h, run_nil]
  rw [hplace]
  refine ⟨rfl, ?_⟩
  show ((a.reanchor sc v anchor).addReference v anchor.reference).values.size = _
  rw [values_again, Array.size_modify]

end Arena

/-! ## Layouts and scenes -/

namespace Layout

variable [Scalar α] {l l' : Layout α} {config : Config α} {s : Snapshot} {d : Datum}
  {r : Reference} {v : Nat}

/-- Whether there is such a row or cell. -/
def HasReference (l : Layout α) (r : Reference) : Prop := (l.arena.anchor? l.frames r).isSome

/-- Whether a layout comes of another one by placing a datum. Frames and levels stay, defects are
noted after those that are known, and cached objects keep their values. A value gets further
references; the one value that may be moved as well is a function that the datum denotes. -/
structure GrowsTo (d : Datum) (l l' : Layout α) : Prop where
  step : l'.step = l.step
  tree : l'.tree = l.tree
  frames : l'.frames = l.frames
  levels : l'.levels = l.levels
  defects : l.defects <+: l'.defects
  cached : ∀ {id : DatumId} {v : Nat}, l.cached id = some v → l'.cached id = some v
  value : ∀ {v : Nat} {x : Value α}, l.values[v]? = some x → ∃ y, l'.values[v]? = some y ∧
    (x.Extends y ∨ ∃ f center, x.kind = .function f ∧ (x.moveTo center).Extends y ∧
      ∃ id, d = .object id ∧ l.cached id = some v)

theorem growsTo_placeAt (config : Config α) (l : Layout α) (s : Snapshot) (d : Datum)
    (anchor : Anchor α) : l.GrowsTo d (l.placeAt config s d anchor).1 where
  step := rfl
  tree := rfl
  frames := rfl
  levels := rfl
  defects := Arena.defects_place (l.scope config s) l.arena anchor d
  cached := (Arena.grows_place (l.scope config s) l.arena anchor d).cached
  value := fun hx => Arena.value_place hx (l.scope config s) anchor d

/-- Cells are not lost. -/
theorem GrowsTo.hasReference (h : l.GrowsTo d l') (hr : l.HasReference r) : l'.HasReference r := by
  cases r with
  | binding frame index =>
    show ((l'.frames[frame]?).bind _).isSome
    rw [h.frames]
    exact hr
  | cell array index =>
    rw [HasReference, Arena.anchor?, Option.isSome_map] at hr ⊢
    obtain ⟨cell, hcell⟩ := Option.isSome_iff_exists.mp hr
    obtain ⟨cells, hcells, hindex⟩ := Option.bind_eq_some_iff.mp hcell
    obtain ⟨x, hx, hxcells⟩ := Option.bind_eq_some_iff.mp hcells
    obtain ⟨y, hy, ⟨more, rfl⟩ | ⟨f, center, hf, -⟩⟩ := h.value hx
    · have hcell' : l'.arena.cell? array index = some cell :=
        Option.bind_eq_some_iff.mpr ⟨cells, Option.bind_eq_some_iff.mpr ⟨_, hy, hxcells⟩, hindex⟩
      rw [hcell']
      rfl
    · -- a function has no cells
      rw [Value.cells?, hf] at hxcells
      cases hxcells

/-- From a row or a cell that is there a datum can be placed. -/
theorem HasReference.place? (h : l.HasReference r) (config : Config α) (s : Snapshot) (d : Datum) :
    ∃ anchor, l.place? config s d r = .ok (l.placeAt config s d anchor) := by
  cases r with
  | binding frame index =>
    obtain ⟨anchor, hanchor⟩ := Option.isSome_iff_exists.mp h
    have hrow : l.rowAnchor? frame index = some anchor := hanchor
    exact ⟨anchor, by rw [Layout.place?, hrow]⟩
  | cell array index => exact ⟨_, rfl⟩

theorem indexed_place? (h : l.arena.ledger.Indexed) (hp : l.place? config s d r = .ok (l', v)) :
    l'.arena.ledger.Indexed := by
  cases r with
  | cell array index =>
    cases hp
    exact Arena.indexed_place h ..
  | binding frame index =>
    rw [place?] at hp
    split at hp
    · cases hp
      exact Arena.indexed_place h ..
    · split at hp
      · cases hp
        show (l.arena.addReference _ _).ledger.Indexed
        rw [Arena.ledger_addReference]
        exact h.grows (Ledger.grows_note ..) Or.inl
      · cases hp
    · cases hp

end Layout

namespace Scene

variable [Scalar α] {before after : Scene α} {s : Snapshot} {d : Datum} {r : Reference} {v : Nat}

/-- What it means that a datum of a snapshot is placed in a scene with a value for an answer. -/
structure Places (s : Snapshot) (d : Datum) (before after : Scene α) (v : Nat) : Prop where
  config : after.config = before.config
  marks : after.marks = before.marks
  grows : before.layout.GrowsTo d after.layout
  hasReference : ∀ r, before.layout.HasReference r → after.layout.HasReference r
  value_lt : v < after.layout.values.size
  /-- An array or a function is answered for an object that has a value or can be drawn. -/
  isLiteral_iff : ∀ x, after.layout.values[v]? = some x → (x.isLiteral = false ↔ ∃ id,
    d = .object id ∧ ((before.layout.cached id).isSome ∨ s.heap.Drawable before.layout.tree id))
  /-- It is the value of the object from then on, which is found again and not placed again. -/
  again : ∀ x, after.layout.values[v]? = some x → x.isLiteral = false →
    ∃ id, d = .object id ∧ after.layout.cached id = some v ∧
      ∀ (s' : Snapshot) (r' : Reference), after.layout.HasReference r' →
        ∃ later, after.place? s' d r' = .ok (later, v) ∧
          later.layout.values.size = after.layout.values.size

theorem place?_of_hasReference (h : before.layout.HasReference r) (s : Snapshot) (d : Datum) :
    ∃ anchor, before.place? s d r =
      let placed := before.layout.placeAt before.config s d anchor
      .ok ({ before with layout := placed.1 }, placed.2) := by
  obtain ⟨anchor, hplace⟩ := h.place? before.config s d
  exact ⟨anchor, by rw [place?, hplace]; rfl⟩

/-- An object that has a value is found again from every row and cell. -/
theorem place?_of_cached {id : DatumId} (h : after.layout.cached id = some v)
    (hr : after.layout.HasReference r) (s : Snapshot) :
    ∃ later, after.place? s (.object id) r = .ok (later, v) ∧
      later.layout.values.size = after.layout.values.size := by
  obtain ⟨anchor, hplace⟩ := place?_of_hasReference hr s (.object id)
  obtain ⟨hanswer, hsize⟩ := Arena.place_of_cached (a := after.layout.arena) h
    (after.layout.scope after.config s) anchor
  rw [hplace]
  refine ⟨_, congrArg (fun w => Except.ok (_, w)) hanswer, hsize⟩

/-- Placing a datum answers its value, and only adds to the scene. -/
theorem places_placeAt (h : before.layout.arena.ledger.Indexed) (s : Snapshot) (d : Datum)
    (anchor : Anchor α) :
    let placed := before.layout.placeAt before.config s d anchor
    Places s d before { before with layout := placed.1 } placed.2 := by
  intro placed
  let sc := before.layout.scope before.config s
  have hgrows := before.layout.growsTo_placeAt before.config s d anchor
  rcases Arena.answers_place sc before.layout.arena anchor d with
    ⟨id, rfl, hdraw, hcached⟩ | ⟨hnone, x, hx, hlit⟩
  · -- what is cached is no literal
    obtain ⟨e, he, -, hform⟩ := (Arena.indexed_place h sc anchor (.object id)).entry hcached
    rw [Arena.ledger_entries] at he
    obtain ⟨x, hx, rfl⟩ := Option.map_eq_some_iff.mp he
    have hlit : x.isLiteral = false := by simpa using mt Layout.form_eq_literal.mpr hform
    refine ⟨rfl, rfl, hgrows, fun r => hgrows.hasReference, ?_, fun y hy => ?_, fun y hy _ => ?_⟩
    · exact (Array.getElem?_eq_some_iff.mp hx).1
    · obtain rfl : x = y := Option.some.inj (hx.symm.trans hy)
      exact iff_of_true hlit ⟨id, rfl, hdraw⟩
    · have hkept : { before with layout := placed.1 }.layout.cached id = some placed.2 := hcached
      exact ⟨id, rfl, hkept, fun s' _ hr => place?_of_cached hkept hr s'⟩
  · refine ⟨rfl, rfl, hgrows, fun r => hgrows.hasReference, ?_, fun y hy => ?_, fun y hy hy' => ?_⟩
    · exact (Array.getElem?_eq_some_iff.mp hx).1
    · obtain rfl : x = y := Option.some.inj (hx.symm.trans hy)
      refine iff_of_false (by simp [hlit]) ?_
      rintro ⟨id, hid, hdraw⟩
      obtain ⟨hnew, hnot⟩ := hnone id hid
      refine hdraw.elim (fun hsome => ?_) hnot
      have hfound : (before.layout.arena.cached id).isSome = true := hsome
      rw [hnew] at hfound
      cases hfound
    · obtain rfl : x = y := Option.some.inj (hx.symm.trans hy)
      rw [hlit] at hy'
      cases hy'

end Scene

namespace Session

variable [Scalar α] {config : Config α} {c : Session α}

/-- Whatever a session has been used for, its cache leads to values. -/
theorem indexed_of_reached (h : Reached config c) : c.scene.layout.arena.ledger.Indexed := by
  have hload : ∀ (sc : Scene α) (s : Snapshot), (sc.load s).layout.arena.ledger.Indexed :=
    fun sc s => (Layout.working_ofSnapshot sc.config s).coherent.indexed
  have hempty : (Layout.empty : Layout α).arena.ledger.Indexed := ⟨fun hc => by cases hc⟩
  induction h with
  | begin => exact hempty
  | reset => exact hempty
  | @load c s _ _ =>
    rw [scene_load]
    exact hload c.scene s
  | draw printable _ ih => exact ih
  | @redraw c s printable _ _ =>
    show (c.load s).scene.layout.arena.ledger.Indexed
    rw [scene_load]
    exact hload c.scene s
  | @place c s d r sc v extent _ hplace ih =>
    rw [Scene.place?] at hplace
    cases hp : c.scene.layout.place? c.scene.config s d r with
    | error e =>
      rw [hp] at hplace
      cases hplace
    | ok placed =>
      rw [hp] at hplace
      cases hplace
      exact Layout.indexed_place? ih hp

/-- Whatever a session has been used for, a datum of any snapshot can be placed from every row and
cell that there is. That only adds to the layout, and an object that is drawn is placed once. -/
theorem place_reached (h : Reached config c) (s : Snapshot) (d : Datum) {r : Reference}
    (hr : c.scene.layout.HasReference r) :
    ∃ sc v, c.scene.place? s d r = .ok (sc, v) ∧ Scene.Places s d c.scene sc v := by
  obtain ⟨anchor, hplace⟩ := Scene.place?_of_hasReference hr s d
  exact ⟨_, _, hplace, Scene.places_placeAt (indexed_of_reached h) s d anchor⟩

/-- An array of another snapshot that holds itself is placed from a cell of one that is shown. -/
theorem place_reached_circle :
    let s : Snapshot :=
      ⟨0, [⟨⟨0⟩, "global", none, [⟨"xs", some (.object ⟨1⟩), false⟩]⟩],
        [(⟨1⟩, .array [.primitive (.bool true)])], some ⟨0⟩⟩
    let later : Snapshot := ⟨1, [], [(⟨2⟩, .array [.object ⟨2⟩, .object ⟨1⟩])], none⟩
    let c : Session Rat := (ofConfig .standard).load s
    Reached .standard c ∧ c.scene.layout.HasReference (.cell 0 0) ∧
      ∃ sc v, c.scene.place? later (.object ⟨2⟩) (.cell 0 0) = .ok (sc, v) ∧
        Scene.Places later (.object ⟨2⟩) c.scene sc v := by
  intro s later c
  have hc : Reached .standard c := .load s .begin
  have hr : c.scene.layout.HasReference (.cell 0 0) := by
    show (c.scene.layout.arena.anchor? c.scene.layout.frames (.cell 0 0)).isSome = true
    rw [scene_load]
    cbv
  exact ⟨hc, hr, place_reached hc later (.object ⟨2⟩) hr⟩

end Session

end EnvDiagram
