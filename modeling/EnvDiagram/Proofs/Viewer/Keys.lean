import EnvDiagram.Viewer
import EnvDiagram.Scalar.Exact
import EnvDiagram.Proofs.Diagram.Functions
import EnvDiagram.Proofs.Scene.Reuse
import EnvDiagram.Proofs.Snapshot.Timeline

/-!
# Key presses

The viewer keeps a history, a scene, a diagram and a hover in step. What is kept is said once
(`Viewer.InStep`): the scene has the current snapshot laid out, the diagram is what a new
scene would draw of it, and the hover is on a function of that diagram (`Hover.Fits`). Every
key press keeps it and never looks up what is not there (`Viewer.inStep_press`), so any
number of them does (`Viewer.consistent_pressAll`).
-/

namespace EnvDiagram

-- a layout is known by its lemmas here, not by how it is computed
attribute [local irreducible] Layout.ofSnapshot

variable {α : Type} [Scalar α]

/-! ## Hovering -/

namespace Hover

variable {h : Hover} {config : Config α} {printable : Bool} {functions : List Nat} {l : Layout α}
  {d : Diagram α} {v : Nat}

/-- A hover fits a palette and the functions of a diagram. -/
structure Fits (h : Hover) (config : Config α) (printable : Bool) (functions : List Nat) :
    Prop where
  owner : h.glyph.owner = h.tooltip.owner
  drawn : ∀ v, h.hovered = some v → v ∈ functions
  /-- In a diagram that is not printable a hover changes both overlays. -/
  interactive : printable = false → h = none ∨
    h.glyph.stroke = some (config.palette false).hovered ∧ h.tooltip.visible = true ∧
      h.tooltip.raised = true
  /-- In a printable diagram it changes none. -/
  printable : printable = true → h.glyph.stroke = .none ∧ h.tooltip.visible = false

omit [Scalar α] in
theorem fits_none (config : Config α) (printable : Bool) (functions : List Nat) :
    none.Fits config printable functions where
  owner := rfl
  drawn := by simp
  interactive := fun _ => Or.inl rfl
  printable := fun _ => ⟨rfl, rfl⟩

omit [Scalar α] in
/-- Leaving a function that the layout has. -/
theorem leave_eq_ok (hv : ∀ v, h.hovered = some v → ∃ f, l.glyph? v = .ok f) (printable : Bool) :
    h.leave l printable = .ok (if printable then h else none) := by
  unfold leave
  cases ho : h.hovered with
  | none => rfl
  | some v =>
    obtain ⟨f, hf⟩ := hv v ho
    simp only [hf]
    rfl

theorem mem_of_next? (hn : h.next? functions = some v) : v ∈ functions := by
  unfold next? at hn
  split at hn
  · exact List.mem_of_head? hn
  · obtain ⟨i, -, hi⟩ := Option.bind_eq_some_iff.mp hn
    exact List.mem_of_getElem? hi

omit [Scalar α] in
/-- The overlays of a function that is come over fit. -/
theorem fits_enter (hh : h.Fits config printable functions) (hv : v ∈ functions) :
    let left := if printable then h else none
    (Hover.enter ⟨{ left.glyph with owner := some v }, { left.tooltip with owner := some v }⟩
      printable (config.palette printable)).Fits config printable functions := by
  intro left
  cases printable with
  | true =>
    obtain ⟨hstroke, hvisible⟩ := hh.printable rfl
    exact ⟨rfl, fun w hw => Option.some.inj hw ▸ hv, by simp, fun _ => ⟨hstroke, hvisible⟩⟩
  | false =>
    exact ⟨rfl, fun w hw => Option.some.inj hw ▸ hv, fun _ => Or.inr ⟨rfl, rfl, rfl⟩, by simp⟩

omit [Scalar α] in
/-- Moving on in a diagram whose functions the layout has. -/
theorem fits_advance (hh : h.Fits config d.printable d.functions)
    (hd : ∀ v ∈ d.functions, ∃ f, l.glyph? v = .ok (some f)) :
    ∃ h', h.advance d l config = .ok h' ∧ h'.Fits config d.printable d.functions := by
  have hleave : h.leave l d.printable = .ok (if d.printable then h else none) := by
    refine leave_eq_ok (fun v hv => ?_) d.printable
    obtain ⟨f, hf⟩ := hd v (hh.drawn v hv)
    exact ⟨some f, hf⟩
  rw [advance, hleave]
  cases hn : h.next? d.functions with
  | none =>
    refine ⟨_, rfl, ?_⟩
    split
    · exact hh
    · exact fits_none ..
  | some v =>
    have hv := mem_of_next? hn
    obtain ⟨f, hf⟩ := hd v hv
    refine ⟨_, ?_, fits_enter hh hv⟩
    simp only [Except.bind, hf, Except.map]

end Hover

/-! ## The invariant of the viewer -/

namespace Viewer

variable {config : Config α} {v w : Viewer α} {s : Snapshot} {history : History} {key : Key}

/-- The history, the scene, the diagram and the hover of a viewer are in step. -/
structure InStep (config : Config α) (v : Viewer α) : Prop where
  settings : v.scene.config = config
  inRange : v.history.InRange
  blank : v.history.current? = none → v.diagram = none
  layout : ∀ s, v.history.current? = some s → v.scene.layout = .ofSnapshot config s
  diagram : ∀ s, v.history.current? = some s →
    v.diagram = some ((Scene.ofConfig config).redraw s v.printable).1
  hover : v.hover.Fits config v.printable (v.diagram.elim [] Diagram.functions)

/-- What is drawn of a layout does not depend on what has been drawn before. -/
theorem draw_of_layout {sc : Scene α} (hc : sc.config = config)
    (hl : sc.layout = .ofSnapshot config s) (printable : Bool) :
    (sc.draw printable).1 = ((Scene.ofConfig config).redraw s printable).1 := by
  rw [Scene.draw, hc, hl]
  rfl

theorem printable_redraw (sc : Scene α) (s : Snapshot) (printable : Bool) :
    (sc.redraw s printable).1.printable = printable := rfl

theorem inStep_refresh (hc : v.scene.config = config) (hr : v.history.InRange) :
    v.refresh.InStep config := by
  unfold refresh
  cases hs : v.history.current? with
  | none => exact ⟨hc, hr, fun _ => rfl, by simp [hs], by simp [hs], Hover.fits_none ..⟩
  | some s =>
    have hlayout : (v.scene.redraw s v.printable).2.layout = .ofSnapshot config s := by
      rw [Scene.redraw_of_config hc]
      rfl
    refine ⟨hc, hr, by simp [hs], ?_, ?_, Hover.fits_none ..⟩
    · intro s' hs'
      cases hs.symm.trans hs'
      exact hlayout
    · intro s' hs'
      cases hs.symm.trans hs'
      exact congrArg (fun drawn => some drawn.1) (Scene.redraw_of_config hc s v.printable)

/-- The viewer of a history begins in step. -/
theorem inStep_ofHistory (hr : history.InRange) (config : Config α) (title : String) :
    (ofHistory history config title).InStep config :=
  inStep_refresh rfl hr

/-- The message does not matter. -/
theorem InStep.withStatus (h : v.InStep config) (status : String) :
    { v with status }.InStep config :=
  ⟨h.settings, h.inRange, h.blank, h.layout, h.diagram, h.hover⟩

theorem InStep.goTo (h : v.InStep config) (hr : history.InRange) (status : String) :
    (v.goTo history status).InStep config :=
  (inStep_refresh (v := { v with history }) h.settings hr).withStatus status

theorem InStep.step (h : v.InStep config) {result : Except HistoryError History}
    (hr : ∀ history, result = .ok history → history.InRange) (done failed : String) :
    (v.step result done failed).InStep config := by
  cases result with
  | error e => exact h.withStatus _
  | ok history => exact h.goTo (hr history rfl) done

/-- What is drawn is the current snapshot. -/
theorem InStep.exists_current {d : Diagram α} (h : v.InStep config) (hd : v.diagram = some d) :
    ∃ s, v.history.current? = some s ∧ d = ((Scene.ofConfig config).redraw s v.printable).1 := by
  cases hs : v.history.current? with
  | none =>
    rw [h.blank hs] at hd
    cases hd
  | some s =>
    rw [h.diagram s hs, Option.some.injEq] at hd
    exact ⟨s, rfl, hd.symm⟩

/-- The functions of the diagram are values of the layout. -/
theorem InStep.exists_glyph {d : Diagram α} (h : v.InStep config) (hd : v.diagram = some d) :
    ∀ o ∈ d.functions, ∃ f, v.scene.layout.glyph? o = .ok (some f) := by
  intro o ho
  obtain ⟨s, hs, rfl⟩ := h.exists_current hd
  rw [h.layout s hs]
  exact Scene.mem_functions_redraw.mp ho

theorem InStep.exists_hovered {o : Nat} (h : v.InStep config) (ho : v.hover.hovered = some o) :
    ∃ d f, v.diagram = some d ∧ o ∈ d.functions ∧ v.scene.layout.glyph? o = .ok (some f) := by
  have hmem := h.hover.drawn o ho
  cases hd : v.diagram with
  | none => simp [hd] at hmem
  | some d =>
    rw [hd, Option.elim_some] at hmem
    obtain ⟨f, hf⟩ := h.exists_glyph hd o hmem
    exact ⟨d, f, rfl, hmem, hf⟩

/-! ## Key presses keep the invariant -/

theorem InStep.switchPalette (h : v.InStep config) :
    ∃ w, v.switchPalette = .ok w ∧ w.InStep config := by
  unfold Viewer.switchPalette
  cases hd : v.diagram with
  | none => exact ⟨v, rfl, h⟩
  | some d =>
    have hleave := Hover.leave_eq_ok (h := v.hover) (l := v.scene.layout) (fun o ho => by
      obtain ⟨-, f, -, -, hf⟩ := h.exists_hovered ho
      exact ⟨some f, hf⟩) v.printable
    obtain ⟨s, hs, -⟩ := h.exists_current hd
    rw [hleave]
    refine ⟨_, rfl, ?_⟩
    have hdraw := draw_of_layout h.settings (h.layout s hs) (!v.printable)
    refine ⟨h.settings, h.inRange, by simp [hs], h.layout, ?_, Hover.fits_none ..⟩
    intro s' hs'
    cases hs.symm.trans hs'
    exact congrArg some hdraw

theorem InStep.hoverNext (h : v.InStep config) :
    ∃ w, v.hoverNext = .ok w ∧ w.InStep config := by
  unfold Viewer.hoverNext
  cases hd : v.diagram with
  | none => exact ⟨v, rfl, h⟩
  | some d =>
    obtain ⟨s, hs, hfresh⟩ := h.exists_current hd
    have hprintable : d.printable = v.printable := by rw [hfresh, printable_redraw]
    have hfits := h.hover
    rw [hd, Option.elim_some, ← hprintable] at hfits
    obtain ⟨hover, hadvance, hfits'⟩ := Hover.fits_advance hfits (h.exists_glyph hd)
    have hstep : ∀ status, InStep config { v with hover, status } := by
      refine fun status => ⟨h.settings, h.inRange, h.blank, h.layout, h.diagram, ?_⟩
      rwa [hd, Option.elim_some, ← hprintable]
    simp only [h.settings, hadvance, Except.bind]
    cases ho : hover.hovered with
    | none => exact ⟨_, rfl, hd ▸ hstep _⟩
    | some o =>
      obtain ⟨f, hf⟩ := h.exists_glyph hd o (hfits'.drawn o ho)
      simp only [hf]
      exact ⟨_, rfl, hd ▸ hstep _⟩

/-- A command looks up nothing that is not there, and leaves the viewer in step. -/
theorem InStep.run (h : v.InStep config) (command : Command) :
    ∃ w, v.run command = .ok w ∧ w.InStep config := by
  cases command with
  | quit => exact ⟨_, rfl, ⟨h.settings, h.inRange, h.blank, h.layout, h.diagram, h.hover⟩⟩
  | forward => exact ⟨_, rfl, h.step (fun _ => History.InRange.forward) _ _⟩
  | backward => exact ⟨_, rfl, h.step (fun _ => h.inRange.backward) _ _⟩
  | switchPalette => exact h.switchPalette
  | hoverNext => exact h.hoverNext
  | toEnd => exact ⟨_, rfl, h.goTo (History.inRange_toEnd _) _⟩
  | toStart => exact ⟨_, rfl, h.goTo (History.inRange_toStart _) _⟩

theorem InStep.press (h : v.InStep config) (key : Key) :
    ∃ w, v.press key = .ok w ∧ w.InStep config := by
  unfold Viewer.press
  cases key.command? with
  | none => exact ⟨v, rfl, h⟩
  | some command => exact h.run command

/-- The viewer after a sequence of key presses. -/
def pressAll (v : Viewer α) (keys : List Key) : Except LookupError (Viewer α) :=
  keys.foldlM press v

theorem InStep.pressAll (h : v.InStep config) (keys : List Key) :
    ∃ w, v.pressAll keys = .ok w ∧ w.InStep config := by
  induction keys generalizing v with
  | nil => exact ⟨v, rfl, h⟩
  | cons key rest ih =>
    obtain ⟨w, hw, hstep⟩ := h.press key
    obtain ⟨x, hx, hlast⟩ := ih hstep
    refine ⟨x, ?_, hlast⟩
    rw [Viewer.pressAll, List.foldlM_cons, hw]
    exact hx

/-! ## What a user sees -/

/-- The parts of a viewer agree with one another. -/
structure Consistent (config : Config α) (v : Viewer α) : Prop where
  /-- Only without a snapshot nothing is shown. -/
  empty : v.diagram = none ↔ v.history.length = 0
  /-- The current snapshot is shown as a new scene shows it. -/
  fresh : ∀ d, v.diagram = some d → ∃ s, v.history.current? = some s ∧
    d = ((Scene.ofConfig config).redraw s v.printable).1
  /-- Both overlays are on the same function. -/
  owner : v.hover.glyph.owner = v.hover.tooltip.owner
  /-- The hovered function is one of the diagram and of the layout. -/
  hovered : ∀ o, v.hover.hovered = some o →
    ∃ d f, v.diagram = some d ∧ o ∈ d.functions ∧ v.scene.layout.glyph? o = .ok (some f)
  interactive : v.printable = false → v.hover = .none ∨
    v.hover.glyph.stroke = some (config.palette false).hovered ∧
      v.hover.tooltip.visible = true ∧ v.hover.tooltip.raised = true
  /-- A printable diagram is shown as it was drawn. -/
  stroke : v.printable = true → ∀ o, v.hover.strokeOf o = none
  tooltip : v.printable = true → ∀ o shown, v.hover.showsTooltip o shown = shown
  /-- A step that the history refuses is reported and changes nothing else. -/
  refused : ∀ key e, key.command? = some .forward ∧ v.history.forward = .error e ∨
    key.command? = some .backward ∧ v.history.backward = .error e →
    ∃ status, v.press key = .ok { v with status }

theorem press_refused {e : HistoryError}
    (h : key.command? = some .forward ∧ v.history.forward = .error e ∨
      key.command? = some .backward ∧ v.history.backward = .error e) :
    ∃ status, v.press key = .ok { v with status } := by
  unfold press
  rcases h with ⟨hk, he⟩ | ⟨hk, he⟩
  · rw [hk]
    simp only [run, he]
    exact ⟨_, rfl⟩
  · rw [hk]
    simp only [run, he]
    exact ⟨_, rfl⟩

theorem InStep.consistent (h : v.InStep config) : v.Consistent config where
  empty := by
    rw [← h.inRange.current?_eq_none_iff]
    refine ⟨fun hd => ?_, h.blank⟩
    cases hs : v.history.current? with
    | none => rfl
    | some s =>
      rw [h.diagram s hs] at hd
      cases hd
  fresh := fun _ => h.exists_current
  owner := h.hover.owner
  hovered := fun _ => h.exists_hovered
  interactive := h.hover.interactive
  stroke := by
    intro hp o
    rw [Hover.strokeOf, (h.hover.printable hp).1]
    exact ite_self none
  tooltip := by
    intro hp o shown
    simp [Hover.showsTooltip, (h.hover.printable hp).2]
  refused := fun _ _ => press_refused

/-- Whatever keys are pressed, none looks up what is not there, and the parts of the viewer
agree. -/
theorem consistent_pressAll (hr : history.InRange) (config : Config α) (title : String)
    (keys : List Key) :
    ∃ v, (ofHistory history config title).pressAll keys = .ok v ∧ v.Consistent config := by
  obtain ⟨v, hv, hstep⟩ := (inStep_ofHistory hr config title).pressAll keys
  exact ⟨v, hv, hstep.consistent⟩

/-- From the end of a history back to its start, and over a function in either palette. -/
theorem consistent_pressAll_pair :
    let s : Snapshot :=
      ⟨0, [⟨⟨0⟩, "global", none, [⟨"f", some (.object ⟨1⟩), false⟩]⟩],
        [(⟨1⟩, .closure ⟨"f", [], "1", ⟨0⟩⟩)], some ⟨0⟩⟩
    let history : History := ⟨#[s, .ofStep 1], 1, 10, 2⟩
    let keys : List Key := [.left, .char 'f', .char 'p', .char 'f', .right, .right]
    history.InRange ∧ ∃ v : Viewer Rat,
      (ofHistory history .standard "pair").pressAll keys = .ok v ∧ v.Consistent .standard := by
  intro s history keys
  have hr : history.InRange := Nat.le_refl 1
  exact ⟨hr, consistent_pressAll hr .standard "pair" _⟩

end Viewer

end EnvDiagram
