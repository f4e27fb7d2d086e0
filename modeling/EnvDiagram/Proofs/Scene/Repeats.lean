import EnvDiagram.Proofs.EnvTree.Diagnosis
import EnvDiagram.Proofs.Layout.Steps
import EnvDiagram.Proofs.Snapshot.ScopeChain
import EnvDiagram.Scene

/-!
# Repeated identities

An environment whose identity has occurred before is reported and otherwise ignored. The walk
outward asks for parents only (`outward_congr`), the nesting starts from the first environment of
every identity, and a frame has the names that are found by identity. So the layout of a snapshot
is that of its first environments with further defects (`Layout.ofSnapshot_withoutLater`), and a
drawing does not look at defects (`Drawing.paint_report`).

* `Snapshot.withoutLater` — a snapshot without the environments that are ignored
* `Scene.redraw_withoutLater` — what is drawn of the two
-/

namespace EnvDiagram

variable {α : Type}

/-- The snapshot without the environments whose identity has occurred before. -/
def Snapshot.withoutLater (s : Snapshot) : Snapshot := { s with envs := s.firstEnvs }

/-- The defects of the environments whose identity has occurred before, in order. -/
def Snapshot.repeats (s : Snapshot) : List Defect :=
  s.laterEnvs.map fun env => .duplicateEnv env.id

/-- A layout with further defects in front of its own. -/
def Layout.report (l : Layout α) (defects : List Defect) : Layout α :=
  { l with defects := defects ++ l.defects }

/-- The drawing of a layout with further defects. -/
def Drawing.report (d : Drawing α) (defects : List Defect) : Drawing α :=
  { d with layout := d.layout.report defects }

/-- A diagram with further warnings in front of its own. -/
def Diagram.warn (d : Diagram α) (warnings : List (Warning α)) : Diagram α :=
  { d with warnings := warnings ++ d.warnings }

/-! ## The first environments -/

theorem withoutDuplicates_of_nodup {envs : List Environment}
    (h : (envs.map Environment.id).Nodup) : withoutDuplicates envs = envs := by
  induction envs using List.reverseRecOn with
  | nil => rfl
  | append_singleton envs env ih =>
    rw [List.map_append, List.map_singleton, List.nodup_append_comm, List.singleton_append,
      List.nodup_cons] at h
    have hnew : ¬envs.any (fun kept => kept.id = env.id) = true := by
      simpa using h.1
    rw [withoutDuplicates_concat, ih h.2, if_neg hnew]

namespace Snapshot

variable (s : Snapshot)

theorem nodup_ids_withoutLater : s.withoutLater.ids.Nodup := by
  rw [ids, withoutLater, ← withoutDuplicates_envs]
  exact nodup_ids_withoutDuplicates s.envs

theorem withoutDuplicates_withoutLater :
    withoutDuplicates s.withoutLater.envs = withoutDuplicates s.envs := by
  rw [withoutDuplicates_of_nodup s.nodup_ids_withoutLater, withoutDuplicates_envs]
  rfl

theorem duplicates_withoutLater : duplicates [] s.withoutLater.envs = [] := by
  rw [duplicates_envs, laterEnvs_eq_nil_iff.mpr s.nodup_ids_withoutLater, List.map_nil]

/-- An identity names the same environment. -/
theorem env?_withoutLater (e : EnvId) : s.withoutLater.env? e = s.env? e := by
  rw [env?, withoutLater, ← withoutDuplicates_envs, find?_withoutDuplicates, env?]

theorem scopeChain_withoutLater : s.withoutLater.scopeChain = s.scopeChain := by
  have hparent : ∀ e, parentOf s.withoutLater.envs e = parentOf s.envs e := fun e =>
    congrArg (Option.bind · Environment.parent) (s.env?_withoutLater e)
  rw [scopeChain, scopeChain, show s.withoutLater.current = s.current from rfl]
  cases s.current with
  | none => rfl
  | some id => exact outward_congr (fun e _ => hparent e) id

end Snapshot

/-- The environments are nested in the same way, and the repeated ones are reported first. -/
theorem Nesting.ofSnapshot_withoutLater (s : Snapshot) : ofSnapshot s =
    ((ofSnapshot s.withoutLater).1, s.repeats ++ (ofSnapshot s.withoutLater).2) := by
  have hrepeats : (duplicates [] s.envs).map Defect.duplicateEnv = s.repeats := by
    rw [Snapshot.duplicates_envs, List.map_map]
    rfl
  unfold ofSnapshot
  dsimp only
  rw [s.withoutDuplicates_withoutLater, s.scopeChain_withoutLater, s.duplicates_withoutLater,
    hrepeats, List.map_nil, List.nil_append]
  simp only [List.append_assoc]

theorem EnvTree.build_withoutLater (s : Snapshot) (policy : FramePolicy) : build s policy =
    ((build s.withoutLater policy).1, s.repeats ++ (build s.withoutLater policy).2) := by
  rw [build, Nesting.ofSnapshot_withoutLater]
  rfl

/-! ## Layouts -/

namespace Layout

variable [Scalar α] (config : Config α) (s : Snapshot)

theorem envsOf_withoutLater : envsOf s.withoutLater = envsOf s := by
  funext node
  rw [envsOf, funext s.env?_withoutLater, envsOf]

theorem addLevel_withoutLater (tree : EnvTree) :
    addLevel config s.withoutLater tree = addLevel config s tree := by
  funext stack nodes
  have hframe : addFrame config s.withoutLater tree stack.y =
      addFrame config s tree stack.y := by
    funext row nodeId
    unfold addFrame
    rw [envsOf_withoutLater]
    rfl
  rw [addLevel_eq_add, hframe, addLevel_eq_add]

theorem stackOf_withoutLater : stackOf config s.withoutLater = stackOf config s := by
  rw [stackOf, stackOf, EnvTree.build_withoutLater s]
  dsimp only
  rw [addLevel_withoutLater]

theorem ofSnapshot_withoutLater :
    ofSnapshot config s = (ofSnapshot config s.withoutLater).report s.repeats := by
  rw [ofSnapshot_eq, ofSnapshot_eq config s.withoutLater, stackOf_withoutLater,
    EnvTree.build_withoutLater s, report]
  simp only [List.append_assoc]
  rfl

end Layout

/-! ## Drawings -/

namespace Drawing

variable [Scalar α] (d : Drawing α) (defects : List Defect) (p : Painter α)

/-- The agenda is worked off in the same way. -/
theorem run_report (agenda : List (DrawTask α)) :
    (d.report defects).run p agenda = d.run p agenda := by
  fun_induction run d p agenda with
  | case1 p => rw [run_nil]
  | case2 p v rest hv ih => rw [run_value_of_none rest (d := d.report defects) hv, ih]
  | case3 p v rest value hv step ih =>
    rw [run_value_of_some rest (d := d.report defects) hv]
    exact ih
  | case4 p rest bounds c step ih =>
    rw [run_cell]
    exact ih
  | case5 p rest source start loop target ih =>
    rw [run_arrow]
    exact ih

theorem paintFrame_report : (d.report defects).paintFrame p = d.paintFrame p := by
  have hbinding : (d.report defects).paintBinding = d.paintBinding := by
    funext p b
    unfold paintBinding
    simp only [run_report]
    rfl
  funext frame
  unfold paintFrame
  rw [hbinding]
  rfl

/-- What is painted does not depend on defects. -/
theorem paint_report : (d.report defects).paint = d.paint := by
  unfold paint
  rw [show (d.report defects).paintFrame = d.paintFrame from
    funext fun p => paintFrame_report d defects p]
  rfl

theorem diagram_report :
    (d.report defects).diagram p = (d.diagram p).warn (defects.map .defect) := by
  unfold diagram Diagram.warn
  dsimp only
  rw [← List.append_assoc, ← List.map_append]
  rfl

end Drawing

-- a layout is known by its lemmas here, not by how it is computed
attribute [local irreducible] Layout.ofSnapshot

/-- Of a snapshot a scene draws what it draws without the environments whose identity has occurred
before. For each of them there is one warning, in order and before all others. -/
theorem Scene.redraw_withoutLater [Scalar α] (sc : Scene α) (s : Snapshot) (printable : Bool) :
    (sc.redraw s printable).1 = (sc.redraw s.withoutLater printable).1.warn
      (s.laterEnvs.map fun env => .defect (.duplicateEnv env.id)) := by
  let d : Drawing α :=
    ⟨sc.config, .ofSnapshot sc.config s.withoutLater, sc.config.palette printable, printable⟩
  have hwarn : s.repeats.map (Warning.defect (α := α)) =
      s.laterEnvs.map fun env => .defect (.duplicateEnv env.id) := by
    rw [Snapshot.repeats, List.map_map]
    rfl
  calc (sc.redraw s printable).1
      = ((Layout.ofSnapshot sc.config s).draw sc.config printable).1 := rfl
    _ = (((Layout.ofSnapshot sc.config s.withoutLater).report s.repeats).draw
          sc.config printable).1 := by rw [Layout.ofSnapshot_withoutLater]
    _ = (d.report s.repeats).diagram (d.report s.repeats).paint := rfl
    _ = (d.diagram d.paint).warn (s.repeats.map .defect) := by
      rw [Drawing.paint_report, Drawing.diagram_report]
    _ = _ := by rw [hwarn]; rfl

end EnvDiagram
