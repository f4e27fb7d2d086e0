import EnvDiagram.Proofs.Layout.Anchors

/-!
# What an anchor makes of a value

A value gets its form and its place in one go: when it is placed, or when it moves. Both are made
for an anchor, and all of the value is: the text that is cut to its room, the cells of an array
side by side, the circles of a function. What happens to the value otherwise, a reference that is
noted or a cell that is filled, leaves form and place alone. So what holds of all anchors that are
met can be read off every value.

* `Value.PlacedFrom` — a value as it is made for an anchor
* `Anchor.Spreads` — what holds of an anchor holds of the cells of an array that is placed there
* `Arena.Sited`, `Layout.sited_bindFrame` — all values are made for anchors of a kind
-/

namespace EnvDiagram

variable {α : Type} [Scalar α] {config : Config α} {sc : Scope α} {anchor anchor' : Anchor α}
  {x : Value α} {A : Anchor α → Prop} {a b : Arena α}

/-! ## Values -/

namespace Value

/-- Whether a value has the form and the place that it is given for an anchor. -/
def PlacedFrom (config : Config α) (anchor : Anchor α) (x : Value α) : Prop :=
  match x.kind with
  | .literal text _ => ∃ whole, anchor.placeText config whole = (text, x.bounds)
  | .array cells =>
    x.bounds = arrayBounds config cells.size (anchor.arrayOrigin config) ∧
      ∀ (i : Nat) (c : Cell α), cells[i]? = some c →
        { c with content := none } =
          Cell.place config c.array cells.size (anchor.arrayOrigin config) i
  | .function f => f.center = anchor.functionCenter config ∧ f.radius = config.circleRadius ∧
      f.innerRadius = config.dotRadius ∧ x.bounds = f.bounds

theorem PlacedFrom.addReference (h : x.PlacedFrom config anchor) (r : Reference) :
    (x.addReference r).PlacedFrom config anchor := h

theorem PlacedFrom.setContent (h : x.PlacedFrom config anchor) (index content : Nat) :
    (x.setContent index content).PlacedFrom config anchor := by
  obtain ⟨id, datum, kind, bounds, references⟩ := x
  cases kind with
  | literal text placeholder => exact h
  | function f => exact h
  | array cells =>
    obtain ⟨hbounds, hcells⟩ := h
    have hsize : (cells.modify index fun c => { c with content := some content }).size =
        cells.size := Array.size_modify
    refine ⟨?_, fun i c hc => ?_⟩
    · rw [hsize]
      exact hbounds
    · rw [hsize]
      rw [Array.getElem?_modify] at hc
      split at hc
      · obtain ⟨c', hc', rfl⟩ := Option.map_eq_some_iff.mp hc
        exact hcells i c' hc'
      · exact hcells i c hc

/-- A function that moves is made for its new anchor; anything else stays as it is. -/
theorem PlacedFrom.reanchor (h : x.PlacedFrom sc.config anchor') (anchor : Anchor α) :
    (x.reanchor sc anchor).PlacedFrom sc.config anchor' ∨
      (x.reanchor sc anchor).PlacedFrom sc.config anchor := by
  by_cases hmoves : x.Moves sc anchor
  · right
    rw [reanchor_of_moves hmoves]
    obtain ⟨f, hkind, -⟩ := hmoves
    rw [PlacedFrom, hkind] at h
    obtain ⟨-, hradius, hinner, -⟩ := h
    rw [moveTo, hkind]
    exact ⟨rfl, hradius, hinner, rfl⟩
  · left
    rw [reanchor_of_not_moves hmoves]
    exact h

end Value

/-! ## Placing values -/

/-- Whether what holds of an anchor also holds of the cells of an array that is placed there. -/
def Anchor.Spreads (config : Config α) (A : Anchor α → Prop) : Prop :=
  ∀ (anchor : Anchor α) (array length i : Nat), A anchor → i < length →
    let cell := Cell.place config array length (anchor.arrayOrigin config) i
    A (.cell array i cell.bounds cell.isLast config.cellHeight)

namespace Arena

/-- Whether all values of an arena are made for anchors of a kind. -/
structure Sited (config : Config α) (A : Anchor α → Prop) (a : Arena α) : Prop where
  value : ∀ {v : Nat} {x : Value α}, a.values[v]? = some x →
    ∃ anchor, A anchor ∧ x.PlacedFrom config anchor

theorem Sited.push (h : a.Sited config A) (hb : b.values = a.values.push x) (hA : A anchor)
    (hx : x.PlacedFrom config anchor) : b.Sited config A := by
  refine ⟨fun {w y} hy => ?_⟩
  rw [hb, Array.getElem?_push] at hy
  split at hy
  · cases hy
    exact ⟨anchor, hA, hx⟩
  · exact h.value hy

theorem Sited.modify (h : a.Sited config A) {v : Nat} (change : Value α → Value α)
    (hb : b.values = a.values.modify v change)
    (hchange : ∀ x anchor, A anchor → x.PlacedFrom config anchor →
      ∃ anchor, A anchor ∧ (change x).PlacedFrom config anchor) : b.Sited config A := by
  refine ⟨fun {w y} hy => ?_⟩
  rw [hb, Array.getElem?_modify] at hy
  split at hy
  · obtain ⟨x, hx, rfl⟩ := Option.map_eq_some_iff.mp hy
    obtain ⟨anchor, hA, hplaced⟩ := h.value hx
    exact hchange x anchor hA hplaced
  · exact h.value hy

theorem sited_setContent (h : a.Sited config A) (array index content : Nat) :
    (a.setContent array index content).Sited config A :=
  h.modify (fun x => x.setContent index content) rfl fun _ anchor hA hx =>
    ⟨anchor, hA, hx.setContent index content⟩

theorem placedFrom_array (config : Config α) (anchor : Anchor α) (v : Nat) (id : DatumId)
    (length : Nat) (references : List Reference) :
    Value.PlacedFrom config anchor
      ⟨v, some id, .array (Cell.row config v length (anchor.arrayOrigin config)),
        arrayBounds config length (anchor.arrayOrigin config), references⟩ := by
  have hsize : (Cell.row config v length (anchor.arrayOrigin config)).size = length := by
    simp [Cell.row]
  refine ⟨by rw [hsize], fun i c hc => ?_⟩
  rw [hsize]
  simp only [Cell.row, List.getElem?_toArray, List.getElem?_map] at hc
  obtain ⟨j, hj, rfl⟩ := Option.map_eq_some_iff.mp hc
  obtain ⟨-, rfl⟩ := List.getElem?_eq_some_iff.mp hj
  rw [List.getElem_range]
  rfl

theorem sited_visit (h : a.Sited sc.config A) (hA : A anchor) (d : Datum) :
    (a.visit sc anchor d).arena.Sited sc.config A := by
  rcases visit_cases sc a anchor d with ⟨v, heq⟩ | ⟨b, text, placeholder, hvalues, -, heq⟩ |
    ⟨id, cells, heq⟩ | ⟨id, c, node, heq⟩
  · rw [heq]
    refine h.modify _ (values_again sc a v anchor) fun x old hold hx => ?_
    rcases hx.reanchor anchor with hx | hx
    · exact ⟨old, hold, hx.addReference _⟩
    · exact ⟨anchor, hA, hx.addReference _⟩
  · rw [heq]
    exact h.push (values_visitText hvalues sc anchor text placeholder) hA ⟨text, rfl⟩
  · rw [heq]
    exact h.push rfl hA (placedFrom_array sc.config anchor a.values.size id cells.length _)
  · rw [heq]
    exact h.push rfl hA ⟨rfl, rfl, rfl, rfl⟩

/-- The cells that a visit brings along are of the kind of the anchor. -/
theorem spreads_cells (hspreads : Anchor.Spreads sc.config A) (hA : A anchor) {d : Datum}
    {task : CellTask} (h : task ∈ (a.visit sc anchor d).cells) :
    A ((a.visit sc anchor d).arena.cellAnchor task.array task.index) := by
  rcases visit_cases sc a anchor d with ⟨v, heq⟩ | ⟨b, text, placeholder, -, -, heq⟩ |
    ⟨id, cells, heq⟩ | ⟨id, c, node, heq⟩
  · rw [heq] at h
    cases h
  · rw [heq] at h
    cases h
  · rw [heq] at h ⊢
    obtain ⟨harray, hdatum⟩ := Ledger.mem_cellTasks.mp h
    have hlt := (List.getElem?_eq_some_iff.mp hdatum).1
    rw [harray, cellAnchor_visitArray sc a anchor id hlt]
    exact hspreads anchor _ _ _ hA hlt
  · rw [heq] at h
    cases h

/-- All that a datum leads to is made for anchors of the kind of the first one. -/
theorem sited_place (h : a.Sited sc.config A) (hspreads : Anchor.Spreads sc.config A)
    (hA : A anchor) (d : Datum) : (a.place sc anchor d).1.Sited sc.config A := by
  let P : Arena α → List CellTask → Prop := fun b agenda =>
    b.Sited sc.config A ∧ ∀ task ∈ agenda, A (b.cellAnchor task.array task.index) ∧
      b.cellAnchor task.array task.index ≠ .stray task.array task.index
  refine (run_keeps (P := P) ?pass ?fill ⟨sited_visit h hA d, fun task ht =>
    ⟨spreads_cells hspreads hA ht, cellAnchor_of_mem_cells ht⟩⟩).1
  case pass => exact fun h => ⟨h.1, fun t ht => h.2 t (List.mem_cons_of_mem _ ht)⟩
  case fill =>
    rintro b task rest ⟨hb, hcells⟩ v
    obtain ⟨hcell, -⟩ := hcells task List.mem_cons_self
    refine ⟨sited_setContent (sited_visit hb hcell task.datum) .., fun t ht => ?_⟩
    rw [cellAnchor_setContent]
    rcases List.mem_append.mp ht with ht | ht
    · exact ⟨spreads_cells hspreads hcell ht, cellAnchor_of_mem_cells ht⟩
    · -- a cell that waited is where it was
      have hold := hcells t (List.mem_cons_of_mem _ ht)
      rw [cellAnchor_visit sc _ task.datum hold.2]
      exact hold

end Arena

/-- The values of a frame are made for its rows and for the cells that these lead to. -/
theorem Layout.sited_bindFrame {frame : Frame α} (h : a.Sited sc.config A)
    (hspreads : Anchor.Spreads sc.config A) (hrows : ∀ b ∈ frame.bindings, A (frame.rowAnchor b)) :
    (bindFrame sc a frame).arena.Sited sc.config A := by
  rw [bindFrame, ← Array.foldl_toList]
  refine foldl_keeps (P := fun _ (bound : Bound α) => bound.arena.Sited sc.config A)
    frame.bindings.toList (fun done b bound hdone hbound => ?_) ⟨h.value⟩
  have hb : b ∈ frame.bindings :=
    Array.mem_toList_iff.mp (hdone.subset (List.mem_append_right _ List.mem_cons_self))
  cases hd : b.datum with
  | none =>
    rw [bindRow_of_none hd]
    exact hbound
  | some d =>
    rw [bindRow_of_some hd]
    exact Arena.sited_place hbound hspreads (hrows b hb) d

end EnvDiagram
