import EnvDiagram.Proofs.Diagram.Complete
import EnvDiagram.Proofs.Steps

/-!
# The functions of a diagram

A diagram knows its functions by the circles that it has drawn, and lists each of them once
(`Diagram.nodup_functions`). They are just the function values of the layout
(`Scene.mem_functions_redraw`), since every value is drawn and only a function is drawn with
circles.
-/

namespace EnvDiagram

-- a layout is known by its lemmas here, not by how it is computed
attribute [local irreducible] Layout.ofSnapshot

variable {α : Type} {l : Layout α} {v w : Nat}

theorem Diagram.circleOwner?_eq_some {shape : Shape α} :
    circleOwner? shape = some v ↔ shape.kind.outline = .circle v := by
  obtain ⟨key, kind⟩ := shape
  cases kind <;> simp [circleOwner?, ShapeKind.outline]

/-- The functions of a diagram are the owners of its circles. -/
theorem Diagram.mem_functions {d : Diagram α} : v ∈ d.functions ↔ .circle v ∈ d.outlines := by
  have howners : v ∈ d.shapes.toList.filterMap circleOwner? ↔ .circle v ∈ d.outlines := by
    simp only [List.mem_filterMap, outlines, List.mem_map, circleOwner?_eq_some]
  rw [← howners, functions]
  let P : List Nat → List Nat → Prop := fun done found => v ∈ found ↔ v ∈ done
  refine foldl_keeps (P := P) _ ?_ Iff.rfl
  intro done w found _ hfound
  show v ∈ (if w ∈ found then found else found ++ [w]) ↔ _
  rw [List.mem_append, List.mem_singleton, ← show v ∈ found ↔ v ∈ done from hfound]
  by_cases hw : w ∈ found
  · rw [if_pos hw]
    exact (or_iff_left_of_imp fun h => h ▸ hw).symm
  · rw [if_neg hw, List.mem_append, List.mem_singleton]

/-- No function is listed twice. -/
theorem Diagram.nodup_functions (d : Diagram α) : d.functions.Nodup := by
  refine foldl_keeps (P := fun _ (found : List Nat) => found.Nodup) _ ?_ List.nodup_nil
  intro done w found _ hfound
  show (if w ∈ found then found else found ++ [w]).Nodup
  split
  · exact hfound
  · rename_i hw
    refine List.nodup_append.mpr ⟨hfound, List.nodup_singleton w, fun v hv u hu => ?_⟩
    rw [List.mem_singleton.mp hu]
    exact ne_of_mem_of_not_mem hv hw

namespace Layout

theorem glyph?_eq_ok {f : Option (FunctionGlyph α)} :
    l.glyph? v = .ok f ↔ ∃ x, l.values[v]? = some x ∧ x.glyph? = f := by
  unfold glyph?
  cases l.values[v]? <;> simp

theorem circle_not_mem_arrowOutlines (r : Reference) (t : Nat) :
    .circle v ∉ l.arrowOutlines r t := by
  unfold arrowOutlines
  repeat' split
  all_goals simp

theorem circle_not_mem_frameOutlines (f : Frame α) : .circle v ∉ l.frameOutlines f := by
  have hrow : ∀ b : Binding α, .circle v ∉ l.rowOutlines b := by
    intro b
    unfold rowOutlines
    cases b.target with
    | none => simp
    | some t => simpa using circle_not_mem_arrowOutlines _ t
  simpa [frameOutlines] using fun b _ => hrow b

theorem circle_not_mem_cellOutlines (c : Cell α) : .circle v ∉ l.cellOutlines c := by
  unfold cellOutlines
  cases c.content with
  | none => simp
  | some t => simpa using circle_not_mem_arrowOutlines _ t

/-- Circles are drawn for functions only. -/
theorem circle_mem_kindOutlines {kind : ValueKind α} :
    .circle v ∈ l.kindOutlines w kind ↔ v = w ∧ ∃ f, kind = .function f := by
  cases kind with
  | literal => simp [kindOutlines]
  | array cells => simpa [kindOutlines] using fun c _ => circle_not_mem_cellOutlines c
  | function f =>
    have hclosure : .circle v ∉ l.closureOutlines w f := by
      unfold closureOutlines
      split <;> simp
    simp [kindOutlines, hclosure]

theorem circle_mem_valueOutlines :
    .circle v ∈ l.valueOutlines w ↔ v = w ∧ ∃ f, l.glyph? w = .ok (some f) := by
  unfold valueOutlines glyph?
  cases l.values[w]? with
  | none => simp
  | some x =>
    rw [circle_mem_kindOutlines]
    cases hk : x.kind <;> simp [Value.glyph?, hk]

end Layout

/-- The functions of the diagram of a snapshot are those of its layout. -/
theorem Scene.mem_functions_redraw [Scalar α] {sc : Scene α} {s : Snapshot} {printable : Bool} :
    v ∈ (sc.redraw s printable).1.functions ↔
      ∃ f, (sc.load s).layout.glyph? v = .ok (some f) := by
  rw [Diagram.mem_functions, (sc.outlines_redraw s printable).mem_iff, List.mem_append,
    List.mem_flatMap, List.mem_flatMap]
  constructor
  · rintro (⟨f, -, hf⟩ | ⟨w, -, hw⟩)
    · exact absurd hf (Layout.circle_not_mem_frameOutlines f)
    · obtain ⟨rfl, hf⟩ := Layout.circle_mem_valueOutlines.mp hw
      exact hf
  · rintro ⟨f, hf⟩
    obtain ⟨x, hx, -⟩ := Layout.glyph?_eq_ok.mp hf
    refine Or.inr ⟨v, List.mem_range.mpr (Array.getElem?_eq_some_iff.mp hx).1, ?_⟩
    exact Layout.circle_mem_valueOutlines.mpr ⟨rfl, f, hf⟩

end EnvDiagram
