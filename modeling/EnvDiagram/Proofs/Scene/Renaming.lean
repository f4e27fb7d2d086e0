import EnvDiagram.Proofs.Layout.Renaming
import EnvDiagram.Scene

/-!
# Drawings do not depend on identities

A drawing looks at numbers, positions and texts of a layout, at none of the identities in it
(`Drawing.paint_rename`). With the layouts, a scene draws the same shapes of a snapshot and of a
renamed one; the warnings speak of the new identities (`Scene.redraw_rename`).
-/

namespace EnvDiagram

-- a layout is known by its lemmas here, not by how it is computed
attribute [local irreducible] Layout.ofSnapshot

variable {α : Type}

def Warning.rename (ρ : Renaming) : Warning α → Warning α
  | .defect d => .defect (d.rename ρ)
  | .oversizedExport width height scale => .oversizedExport width height scale

/-- A diagram with new identities in its warnings; nothing else names any. -/
def Diagram.rename (ρ : Renaming) (d : Diagram α) : Diagram α :=
  { d with warnings := d.warnings.map (Warning.rename ρ) }

/-- The drawing of a layout with new identities. -/
def Drawing.rename (ρ : Renaming) (d : Drawing α) : Drawing α :=
  { d with layout := d.layout.rename ρ }

variable (ρ : Renaming)

theorem Layout.frameOf_rename (l : Layout α) (node : Nat) :
    (l.rename ρ).frameOf node = l.frameOf node := by
  rw [frameOf, show (l.rename ρ).frames = l.frames.map (Frame.rename ρ) from rfl,
    Array.find?_map, Option.map_map]
  rfl

theorem Layout.getElem?_frames_rename (l : Layout α) (i : Nat) :
    (l.rename ρ).frames[i]? = (l.frames[i]?).map (Frame.rename ρ) := Array.getElem?_map

theorem Layout.getElem?_values_rename (l : Layout α) (v : Nat) :
    (l.rename ρ).values[v]? = (l.values[v]?).map (Value.rename ρ) := Array.getElem?_map

namespace Drawing

variable [Scalar α] (d : Drawing α) (p : Painter α)

theorem paintFunction_rename (v : Nat) (f : FunctionGlyph α) :
    (d.rename ρ).paintFunction p v f = d.paintFunction p v f := by
  unfold paintFunction
  rw [show (d.rename ρ).layout.frameOf f.enclosing = _ from
    Layout.frameOf_rename ρ d.layout f.enclosing]
  cases hf : d.layout.frameOf f.enclosing with
  | none => rfl
  | some frame =>
    simp only [Option.bind_some]
    rw [show (d.rename ρ).layout.frames[frame]? = _ from
      Layout.getElem?_frames_rename ρ d.layout frame]
    cases d.layout.frames[frame]? <;> rfl

theorem paintValue_rename (v : Nat) (value : Value α) :
    (d.rename ρ).paintValue p v (value.rename ρ) = d.paintValue p v value := by
  obtain ⟨id, datum, kind, bounds, references⟩ := value
  cases kind with
  | literal => rfl
  | array => rfl
  | function f => exact congrArg (·, []) (paintFunction_rename ρ d (p.mark (.value v)) v f)

theorem paintArrow_rename (source : Reference) (start : Point α) (loop : Option (Bounds α))
    (target : Nat) :
    (d.rename ρ).paintArrow p source start loop target =
      d.paintArrow p source start loop target := by
  unfold paintArrow
  rw [show (d.rename ρ).layout.values[target]? = _ from
    Layout.getElem?_values_rename ρ d.layout target]
  cases d.layout.values[target]? with
  | none => rfl
  | some value => rfl

omit [Scalar α] in
theorem fresh?_rename (v : Nat) :
    (d.rename ρ).fresh? p v = (d.fresh? p v).map (Value.rename ρ) := by
  unfold fresh?
  split
  · rfl
  · exact Layout.getElem?_values_rename ρ d.layout v

/-- The agenda is worked off in the same way. -/
theorem run_rename (agenda : List (DrawTask α)) :
    (d.rename ρ).run p agenda = d.run p agenda := by
  fun_induction run d p agenda with
  | case1 p => rw [run_nil]
  | case2 p v rest hv ih =>
    have hv' : (d.rename ρ).fresh? p v = none := by rw [fresh?_rename, hv]; rfl
    rw [run_value_of_none rest hv', ih]
  | case3 p v rest value hv step ih =>
    have hv' : (d.rename ρ).fresh? p v = some (value.rename ρ) := by rw [fresh?_rename, hv]; rfl
    rw [run_value_of_some rest hv', paintValue_rename, ih]
  | case4 p rest bounds c step ih =>
    rw [run_cell]
    exact ih
  | case5 p rest source start loop target ih =>
    rw [run_arrow, paintArrow_rename, ih]

theorem paintBinding_rename (b : Binding α) :
    (d.rename ρ).paintBinding p (b.rename ρ) = d.paintBinding p b := by
  unfold paintBinding
  rw [show (b.rename ρ).target = b.target from rfl]
  cases b.target with
  | none => rfl
  | some target => exact run_rename ρ d _ _

theorem paintFrame_rename (frame : Nat) :
    (d.rename ρ).paintFrame p frame = d.paintFrame p frame := by
  unfold paintFrame
  rw [show (d.rename ρ).layout.frames[frame]? = _ from
    Layout.getElem?_frames_rename ρ d.layout frame]
  cases d.layout.frames[frame]? with
  | none => rfl
  | some f =>
    show (f.bindings.map (Binding.rename ρ)).foldl (d.rename ρ).paintBinding _ = _
    rw [Array.foldl_map]
    simp only [paintBinding_rename]
    rfl

/-- What is painted does not depend on identities. -/
theorem paint_rename : (d.rename ρ).paint = d.paint := by
  show (d.layout.levels.flatMap Level.frames).foldl (d.rename ρ).paintFrame d.start = _
  rw [show (d.rename ρ).paintFrame = d.paintFrame from
    funext fun p => funext fun frame => paintFrame_rename ρ d p frame]
  rfl

/-- The defects come before the warning of the size, which names no identity. -/
theorem diagram_rename : (d.rename ρ).diagram p = (d.diagram p).rename ρ := by
  have hsize : ∀ width height, (d.sizeWarning width height).map (Warning.rename ρ) =
      d.sizeWarning width height := by
    intro width height
    rw [sizeWarning]
    split <;> rfl
  unfold diagram Diagram.rename
  dsimp only
  rw [List.map_append, hsize, List.map_map]
  show Diagram.mk _ _ _ _ _ _ ((d.layout.defects.map (Defect.rename ρ)).map .defect ++ _) = _
  rw [List.map_map]
  rfl

end Drawing

/-- Of a renamed snapshot a scene draws the same shapes, and it warns of the same in the same
order. -/
theorem Scene.redraw_rename [Scalar α] (sc : Scene α) (ρ : Renaming) (s : Snapshot)
    (printable : Bool) :
    (sc.redraw (s.rename ρ) printable).1 = (sc.redraw s printable).1.rename ρ := by
  let d : Drawing α :=
    ⟨sc.config, .ofSnapshot sc.config s, sc.config.palette printable, printable⟩
  calc (sc.redraw (s.rename ρ) printable).1
      = ((Layout.ofSnapshot sc.config (s.rename ρ)).draw sc.config printable).1 := rfl
    _ = ((Layout.ofSnapshot sc.config s).rename ρ |>.draw sc.config printable).1 := by
      rw [Layout.ofSnapshot_rename]
    _ = (d.rename ρ).diagram (d.rename ρ).paint := rfl
    _ = (d.diagram d.paint).rename ρ := by rw [Drawing.paint_rename, Drawing.diagram_rename]
    _ = (sc.redraw s printable).1.rename ρ := rfl

end EnvDiagram
