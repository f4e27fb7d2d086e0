import EnvDiagram.Proofs.Diagram.Inventory
import EnvDiagram.Scalar.Exact

/-!
# What an arrow points at

An arrow is drawn for every reference, whether or not its target can be seen. A frame is seen by
its rectangle, a function by its circles and an array by its cells; so an array without cells
takes up room and is pointed at, but nothing is drawn of it. It is the only target of that kind
(`Scene.depicts_target_iff`).

* `Diagram.Depicts` — a diagram has a shape that an arrow can point at
* `Layout.IsBlank` — the target is an array without cells
-/

namespace EnvDiagram

variable {α : Type}

/-- Whether something of a target can be seen: a cell or a circle of a value, the rectangle of a
frame. -/
def Diagram.Depicts (d : Diagram α) : ArrowTarget → Prop
  | .value v => (∃ i bounds, .cell v i bounds ∈ d.parts) ∨ ∃ center r, .circle v center r ∈ d.parts
  | .frame f => ∃ bounds, .box f bounds ∈ d.parts

/-- Whether a target is the value of an array without cells. -/
def Layout.IsBlank (s : Snapshot) (l : Layout α) : ArrowTarget → Prop
  | .value v => ∃ id, l.cached id = some v ∧ s.heap.find? id = some (.array [])
  | .frame _ => False

/-- What is drawn together with a part; a diagonal does not tell. -/
def Part.mark? : Part α → Option Mark
  | .label f _ | .box f _ => some (.frame f)
  | .key f index _ => some (.binding f index)
  | .literal v _ | .circle v _ _ | .tooltip v _ => some (.value v)
  | .cell array index _ => some (.cell array index)
  | .diagonal .. => none

section

-- a layout is known by its lemmas here, not by how it is computed
attribute [local irreducible] Layout.ofSnapshot

variable [Scalar α] {printable : Bool} {part : Part α} {m : Mark} {v i : Nat}

theorem Value.mark?_of_mem_parts {x : Value α} (h : part ∈ x.parts printable v) :
    part.mark? = some (.value v) := by
  unfold parts at h
  split at h
  · obtain rfl := List.mem_singleton.mp h
    rfl
  · simp at h
  · simp only [FunctionGlyph.parts, List.mem_cons, List.not_mem_nil, or_false] at h
    rcases h with rfl | rfl | rfl | rfl | rfl <;> rfl

theorem Cell.mark?_of_mem_parts {c : Cell α} (h : part ∈ c.parts v i) :
    part.mark? = some (.cell v i) ∨ part.mark? = none := by
  unfold parts at h
  rcases List.mem_cons.mp h with rfl | h
  · exact Or.inl rfl
  · split at h
    · obtain rfl := List.mem_singleton.mp h
      exact Or.inr rfl
    · simp at h

/-- A part belongs to what it names. -/
theorem Layout.mark?_of_mem_partsOf {l : Layout α} (h : part ∈ l.partsOf printable m) :
    part.mark? = some m ∨ part.mark? = none := by
  cases m with
  | frame i =>
    cases hf : l.frames[i]? with
    | none => simp [partsOf, hf] at h
    | some f =>
      have hpart : part = .label i f.label ∨ part = .box i f.bounds := by
        simpa [partsOf, hf] using h
      rcases hpart with rfl | rfl <;> exact Or.inl rfl
  | binding i j =>
    cases hb : (l.frames[i]?).bind fun f => f.bindings[j]? with
    | none => simp [partsOf, hb] at h
    | some b =>
      obtain rfl : part = .key i j b.keyText := by simpa [partsOf, hb] using h
      exact Or.inl rfl
  | value v =>
    cases hx : l.values[v]? with
    | none => simp [partsOf, hx] at h
    | some x => exact Or.inl (Value.mark?_of_mem_parts (x := x) (by simpa [partsOf, hx] using h))
  | cell v i =>
    cases hc : ((l.values[v]?).bind Value.cells?).bind (·[i]?) with
    | none => simp [partsOf, hc] at h
    | some c => exact Cell.mark?_of_mem_parts (c := c) (by simpa [partsOf, hc] using h)

namespace Scene

variable {sc : Scene α} {s : Snapshot}

/-- A diagram has the parts that name something if the layout has that, and shows it so. -/
theorem mem_parts_redraw_iff (hm : part.mark? = some m) :
    part ∈ (sc.redraw s printable).1.parts ↔
      (sc.load s).layout.Has m ∧ part ∈ (sc.load s).layout.partsOf printable m := by
  rw [mem_parts_redraw]
  constructor
  · rintro ⟨m', hm', hin⟩
    obtain rfl : m' = m := by simpa [hm, eq_comm] using Layout.mark?_of_mem_partsOf hin
    exact ⟨hm', hin⟩
  · exact fun h => ⟨m, h⟩

theorem depicts_frame {f : Nat} {frame : Frame α}
    (hf : (sc.load s).layout.frames[f]? = some frame) :
    (sc.redraw s printable).1.Depicts (.frame f) := by
  refine ⟨frame.bounds, (mem_parts_redraw_iff rfl).mpr ⟨?_, ?_⟩⟩
  · exact (Array.getElem?_eq_some_iff.mp hf).1
  · simp [Layout.partsOf, hf]

/-- A value can be seen if it is an array with cells or a function. -/
theorem depicts_value_iff {x : Value α} (hx : (sc.load s).layout.values[v]? = some x) :
    (sc.redraw s printable).1.Depicts (.value v) ↔
      (∃ cells, x.kind = .array cells ∧ cells ≠ #[]) ∨ ∃ f, x.kind = .function f := by
  constructor
  · rintro (⟨i, bounds, hpart⟩ | ⟨center, r, hpart⟩)
    · obtain ⟨hm, -⟩ := (mem_parts_redraw_iff rfl).mp hpart
      obtain ⟨y, cells, hy, hk, hi⟩ := hm
      obtain rfl : y = x := Option.some.inj (hy.symm.trans hx)
      refine Or.inl ⟨cells, hk, ?_⟩
      rintro rfl
      simp at hi
    · obtain ⟨-, hin⟩ := (mem_parts_redraw_iff rfl).mp hpart
      rw [Layout.partsOf, hx] at hin
      cases hk : x.kind with
      | literal text placeholder => simp [Value.parts, hk] at hin
      | array cells => simp [Value.parts, hk] at hin
      | function f => exact Or.inr ⟨f, rfl⟩
  · rintro (⟨cells, hk, hne⟩ | ⟨f, hk⟩)
    · have hlt : 0 < cells.size := Array.size_pos_iff.mpr hne
      refine Or.inl ⟨0, cells[0].bounds, (mem_parts_redraw_iff rfl).mpr ⟨?_, ?_⟩⟩
      · exact ⟨x, cells, hx, hk, hlt⟩
      · simp [Layout.partsOf, hx, Value.cells?, hk, hlt, Cell.parts]
    · refine Or.inr ⟨f.leftCircle, f.radius, (mem_parts_redraw_iff rfl).mpr ⟨?_, ?_⟩⟩
      · exact (Array.getElem?_eq_some_iff.mp hx).1
      · simp [Layout.partsOf, hx, Value.parts, hk, FunctionGlyph.parts]

/-- The arrays without cells are the values of the empty arrays of the heap. -/
theorem isBlank_value_iff {x : Value α} (hx : (sc.load s).layout.values[v]? = some x) :
    (sc.load s).layout.IsBlank s (.value v) ↔ x.kind = .array #[] := by
  constructor
  · rintro ⟨id, hc, hfind⟩
    obtain ⟨y, cells, hy, hk, hsize, -⟩ := Layout.array_ofSnapshot hc hfind
    obtain rfl : y = x := Option.some.inj (hy.symm.trans hx)
    rw [hk, Array.eq_empty_of_size_eq_zero hsize]
  · intro hk
    have hform : x.entry.form = .array [] := by rw [Value.entry, hk]; rfl
    obtain ⟨id, data, hd, hfind, hlen⟩ := ((Layout.working_ofSnapshot sc.config s).coherent.represents
      (Layout.entry_of_value hx)).exists_array hform
    obtain rfl : data = [] := List.eq_nil_of_length_eq_zero hlen.symm
    exact ⟨id, Layout.cached_ofSnapshot_iff.mpr ⟨x, hx, hd⟩, hfind⟩

/-- Every arrow points at something that can be seen, except for those to empty arrays. -/
theorem depicts_target_iff (sc : Scene α) (s : Snapshot) (printable : Bool) :
    ∀ c ∈ (sc.redraw s printable).1.connectors, (sc.redraw s printable).1.Depicts c.target ↔
      ¬ (sc.redraw s printable).2.layout.IsBlank s c.target := by
  intro c hc
  have harrow : (sc.load s).layout.Arrow s c.source c.target :=
    mem_arrows_redraw.mp (List.mem_map.mpr ⟨c, hc, rfl⟩)
  show _ ↔ ¬ (sc.load s).layout.IsBlank s c.target
  generalize c.source = source, c.target = target at harrow ⊢
  cases harrow with
  | @reference r v x ht hx hlit =>
    rw [depicts_value_iff hx, isBlank_value_iff hx]
    cases hk : x.kind with
    | literal => simp [Value.isLiteral, hk] at hlit
    | array cells => simp
    | function f => simp
  | @function v f x id closure hx hd hfind hframe =>
    obtain ⟨node, -, hof⟩ := Option.bind_eq_some_iff.mp hframe
    obtain ⟨frame, hf, -⟩ := Layout.frameOf_eq_some_iff.mp hof
    exact iff_of_true (depicts_frame hf) not_false

end Scene

end

/-- The only cell of an array leads back to the array: the arrow points at that cell. -/
theorem Scene.depicts_target_iff_loop :
    let s : Snapshot := ⟨0, [⟨⟨0⟩, "global", none, [⟨"x", some (.object ⟨7⟩), false⟩]⟩],
      [(⟨7⟩, .array [.object ⟨7⟩])], some ⟨0⟩⟩
    let sc : Scene Rat := .ofConfig .standard
    ∃ c ∈ (sc.redraw s false).1.connectors, c.source = .reference (.cell 0 0) ∧
      (sc.redraw s false).1.Depicts c.target := by
  intro s sc
  have htarget : (sc.load s).layout.target? (.cell 0 0) = some 0 := by cbv
  have hcells : ((sc.load s).layout.values[0]?).map (fun x => x.cells?.map Array.size) =
      some (some 1) := by cbv
  obtain ⟨x, hx, hsize⟩ := Option.map_eq_some_iff.mp hcells
  obtain ⟨cells, hk, hone⟩ := Option.map_eq_some_iff.mp hsize
  have hkind : x.kind = .array cells := Layout.cells?_eq_some_iff.mp hk
  obtain ⟨c, hc, hsource, hvalue⟩ := exists_connector false
    (.reference htarget hx (by rw [Value.isLiteral, hkind]))
  refine ⟨c, hc, hsource, (depicts_target_iff sc s false c hc).mpr ?_⟩
  rw [hvalue]
  intro hblank
  have hempty := (isBlank_value_iff hx).mp hblank
  rw [hkind] at hempty
  cases hempty
  simp at hone

/-- A row leads to an empty array: its arrow points at nothing that can be seen. -/
theorem Scene.not_depicts_target_empty :
    let s : Snapshot := ⟨0, [⟨⟨0⟩, "global", none, [⟨"x", some (.object ⟨7⟩), false⟩]⟩],
      [(⟨7⟩, .array [])], some ⟨0⟩⟩
    let sc : Scene Rat := .ofConfig .standard
    ∃ c ∈ (sc.redraw s false).1.connectors, c.target = .value 0 ∧
      ¬ (sc.redraw s false).1.Depicts c.target := by
  intro s sc
  have htarget : (sc.load s).layout.target? (.binding 0 0) = some 0 := by cbv
  have hkind : ((sc.load s).layout.values[0]?).map Value.kind = some (.array #[]) := by cbv
  obtain ⟨x, hx, hk⟩ := Option.map_eq_some_iff.mp hkind
  obtain ⟨c, hc, -, hvalue⟩ := exists_connector false
    (.reference htarget hx (by rw [Value.isLiteral, hk]))
  refine ⟨c, hc, hvalue, ?_⟩
  rw [hvalue, depicts_value_iff hx, hk]
  simp

end EnvDiagram
