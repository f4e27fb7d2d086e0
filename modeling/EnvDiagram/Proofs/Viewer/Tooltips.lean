import EnvDiagram.Proofs.Diagram.Canvas
import EnvDiagram.Proofs.Diagram.Inventory
import EnvDiagram.Proofs.Viewer.Keys

/-!
# Tooltips on the canvas

The tooltip of a function begins to the right of its circles and a little above them. Circles
always take up room on the canvas, so with the standard settings a tooltip begins on the canvas,
too. In an export it is shown from the start and has room of its own. In the interactive view it
is hidden while the canvas is sized and takes up no room, so one that is shown later on may reach
beyond the right or the bottom edge.

* `Diagram.tooltips` — the tooltips of a diagram
* `Scene.begins_redraw` — where they begin
* `Viewer.tooltips_pressAll`, `Viewer.overflows_pressAll` — what a user may see of them
-/

namespace EnvDiagram

open Scalar

variable {α : Type}

/-- The tooltip of a shape. -/
def Diagram.tooltip? (s : Shape α) : Option (Tooltip α) :=
  match s.kind with
  | .tooltip t => some t
  | _ => none

/-- The tooltips of a diagram, in order. -/
def Diagram.tooltips (d : Diagram α) : List (Tooltip α) := d.shapes.toList.filterMap tooltip?

theorem Diagram.mem_tooltips {d : Diagram α} {t : Tooltip α} :
    t ∈ d.tooltips ↔ ∃ shape ∈ d.shapes, shape.kind = .tooltip t := by
  simp only [tooltips, List.mem_filterMap, Array.mem_toList_iff]
  refine exists_congr fun s => and_congr_right fun _ => ?_
  cases hk : s.kind <;> simp [tooltip?, hk]

namespace Tooltip

/-- The number of lines of a tooltip. -/
def lines (t : Tooltip α) : Nat := (Text.lines t.text.toList).length

/-- Whether a tooltip lies on the canvas of a diagram. -/
structure LiesOn (config : Config Rat) (t : Tooltip Rat) (d : Diagram Rat) : Prop where
  left : 0 ≤ t.origin.x
  top : 0 ≤ t.origin.y
  right : t.origin.x + t.width ≤ d.width
  bottom : t.origin.y + (t.lines : Rat) * config.fontSize ≤ d.height

/-- Whether a tooltip begins on the canvas of a diagram. Down to the bottom edge there is room for
four lines with the standard settings. -/
structure BeginsOn (t : Tooltip Rat) (d : Diagram Rat) : Prop where
  left : 0 ≤ t.origin.x
  top : 0 ≤ t.origin.y
  right : t.origin.x + 10 ≤ d.width
  bottom : t.origin.y + 65 ≤ d.height

end Tooltip

section

-- a layout is known by its lemmas here, not by how it is computed
attribute [local irreducible] Layout.ofSnapshot

theorem ShapeKind.extent?_of_circle [Scalar α] {kind : ShapeKind α} {owner : Nat}
    {center : Point α} {radius : α} (h : kind.part? = some (.circle owner center radius))
    (config : Config α) :
    kind.extent? config =
      some ⟨center.x - radius, center.y - radius, twice radius, twice radius⟩ := by
  cases kind with
  | circle =>
    cases h
    rfl
  | rect _ _ _ role => cases role <;> cases h
  | text _ _ _ role => cases role <;> cases h
  | line => cases h
  | tooltip => cases h
  | connector => cases h

namespace Scene

variable {sc : Scene Rat} {s : Snapshot} {printable : Bool} {v : Nat} {x : Value Rat}
  {f : FunctionGlyph Rat} {t : Tooltip Rat}

/-- The canvas makes room for the right circle of a function, and for the padding after it. -/
theorem fits_rightCircle (hx : (sc.load s).layout.values[v]? = some x)
    (hk : x.kind = .function f) (printable : Bool) :
    f.rightCircle.x + f.radius ≤ (sc.redraw s printable).1.width - sc.config.canvasPaddingX ∧
      f.rightCircle.y + f.radius ≤
        (sc.redraw s printable).1.height - sc.config.canvasPaddingY := by
  have hpart : .circle v f.rightCircle f.radius ∈ (sc.redraw s printable).1.parts := by
    refine mem_parts_redraw.mpr ⟨.value v, (Array.getElem?_eq_some_iff.mp hx).1, ?_⟩
    rw [Layout.partsOf, hx, Option.map_some, Option.getD_some, Value.parts, hk]
    simp [FunctionGlyph.parts]
  obtain ⟨shape, hshape, hcircle⟩ := List.mem_filterMap.mp hpart
  obtain ⟨hright, hbottom⟩ := fits_redraw (Array.mem_toList_iff.mp hshape)
    (ShapeKind.extent?_of_circle hcircle sc.config)
  constructor
  · have hend : f.rightCircle.x - f.radius + 2 * f.radius ≤ _ := hright
    linarith
  · have hend : f.rightCircle.y - f.radius + 2 * f.radius ≤ _ := hbottom
    linarith

/-- A tooltip begins on the canvas, and one that is shown from the start lies on it. -/
theorem tooltip_redraw (hconfig : sc.config = .standard)
    (ht : t ∈ (sc.redraw s printable).1.tooltips) :
    t.visible = printable ∧ t.BeginsOn (sc.redraw s printable).1 ∧
      (printable = true → t.LiesOn .standard (sc.redraw s printable).1) := by
  obtain ⟨config, layout, marks⟩ := sc
  obtain rfl : config = .standard := hconfig
  set sc : Scene Rat := ⟨.standard, layout, marks⟩
  obtain ⟨shape, hshape, hkind⟩ := Diagram.mem_tooltips.mp ht
  have hpaint := sc.mayPaint_redraw s printable shape hshape
  rw [hkind] at hpaint
  obtain ⟨v, x, f, hx, hk, htooltip⟩ := hpaint.tooltip
  have horigin : t.origin = f.tooltipCorner .standard :=
    congrArg Tooltip.origin (ShapeKind.tooltip.inj htooltip)
  have hvisible : t.visible = printable :=
    congrArg Tooltip.visible (ShapeKind.tooltip.inj htooltip)
  obtain ⟨hleft, htop, hradius, -⟩ := Layout.clear_function hx hk
  obtain ⟨hx0, hy0⟩ := Drawing.onCanvas_tooltipCorner hleft htop hradius
  rw [← horigin] at hx0 hy0
  have htx : t.origin.x = f.center.x + 2 * f.radius + 2 * 10 := congrArg Point.x horigin
  have hty : t.origin.y = f.center.y - 20 := congrArg Point.y horigin
  refine ⟨hvisible, ⟨hx0, hy0, ?_, ?_⟩, fun hprintable => ?_⟩
  · -- the tooltip begins twenty units to the right of the circles, the padding is thirty
    have hright : f.center.x + f.radius + f.radius ≤ (sc.redraw s printable).1.width - 30 :=
      (fits_rightCircle hx hk printable).1
    linarith
  · have hbottom : f.center.y + f.radius ≤ (sc.redraw s printable).1.height - 30 :=
      (fits_rightCircle hx hk printable).2
    linarith
  · have hextent : shape.kind.extent? sc.config =
        some (ShapeKind.textBounds sc.config t.origin t.text t.width) := by
      rw [hkind, ShapeKind.extent?, if_pos (hvisible.trans hprintable)]
    obtain ⟨hright, hbottom⟩ := fits_redraw hshape hextent
    have hright' : t.origin.x + t.width ≤ (sc.redraw s printable).1.width - 30 := hright
    have hbottom' : t.origin.y + ((max t.lines 1 : Nat) : Rat) * 15 ≤
        (sc.redraw s printable).1.height - 30 := hbottom
    have hlines : (t.lines : Rat) ≤ (max t.lines 1 : Nat) := Nat.cast_le.mpr (Nat.le_max_left ..)
    refine ⟨hx0, hy0, by linarith, ?_⟩
    show t.origin.y + (t.lines : Rat) * 15 ≤ _
    linarith

end Scene

namespace Viewer

/-- Whatever keys are pressed, tooltips begin on the canvas, and those that are shown lie on it as
a whole, apart from that of the function that is hovered in the interactive view. -/
theorem tooltips_pressAll {history : History} (hr : history.InRange) (title : String)
    (keys : List Key) :
    ∃ v : Viewer Rat, (ofHistory history .standard title).pressAll keys = .ok v ∧
      ∀ d, v.diagram = some d → ∀ t ∈ d.tooltips, t.BeginsOn d ∧
        (v.hover.showsTooltip t.owner t.visible = true →
          t.LiesOn .standard d ∨ v.printable = false ∧ v.hover.hovered = some t.owner) := by
  obtain ⟨v, hv, hstep⟩ := (inStep_ofHistory hr (.standard : Config Rat) title).pressAll keys
  refine ⟨v, hv, fun d hd t ht => ?_⟩
  obtain ⟨s, -, rfl⟩ := hstep.exists_current hd
  obtain ⟨hvisible, hbegins, hlies⟩ := Scene.tooltip_redraw rfl ht
  refine ⟨hbegins, fun hshown => ?_⟩
  cases hp : v.printable with
  | true => exact Or.inl (hp ▸ hlies hp)
  | false =>
    -- the tooltip is hidden in the diagram, so it is the overlay that shows it
    rw [hvisible, hp, Hover.showsTooltip, Bool.false_or, Bool.and_eq_true,
      decide_eq_true_iff] at hshown
    exact Or.inr ⟨rfl, hstep.hover.owner.trans hshown.1⟩

end Viewer

end

namespace Viewer

/-- In the printable view the tooltip of a function lies on the canvas. -/
theorem tooltips_pressAll_printable :
    let s : Snapshot :=
      ⟨0, [⟨⟨0⟩, "global", none, [⟨"f", some (.object ⟨1⟩), false⟩]⟩],
        [(⟨1⟩, .closure ⟨"f", [], "1", ⟨0⟩⟩)], some ⟨0⟩⟩
    let history : History := ⟨#[s], 0, 1000, s.size⟩
    history.InRange ∧ ∃ (v : Viewer Rat) (d : Diagram Rat) (t : Tooltip Rat),
      (ofHistory history .standard "f").pressAll [.char 'p'] = .ok v ∧ v.diagram = some d ∧
        t ∈ d.tooltips ∧ v.hover.showsTooltip t.owner t.visible = true ∧ t.LiesOn .standard d := by
  intro s history
  have hr : history.InRange := Nat.zero_le 0
  obtain ⟨v, hv, htooltips⟩ := tooltips_pressAll hr "f" [.char 'p']
  have hview : ((ofHistory history (.standard : Config Rat) "f").pressAll [.char 'p']).toOption.map
      (fun v => (v.printable, v.diagram.map fun d => d.tooltips.map Tooltip.visible)) =
        some (true, some [true]) := by cbv
  rw [hv] at hview
  obtain ⟨hp, hdiagram⟩ := Prod.mk.inj (Option.some.inj hview)
  obtain ⟨d, hd, hvisible⟩ := Option.map_eq_some_iff.mp hdiagram
  obtain ⟨t, ht⟩ := List.exists_mem_of_ne_nil d.tooltips (by rintro hnil; simp [hnil] at hvisible)
  have hshown : v.hover.showsTooltip t.owner t.visible = true := by
    have hmem : t.visible ∈ [true] := hvisible ▸ List.mem_map_of_mem ht
    rw [List.mem_singleton.mp hmem]
    rfl
  refine ⟨hr, v, d, t, hv, hd, ht, hshown, ?_⟩
  rcases (htooltips d hd t ht).2 hshown with hlies | ⟨hinteractive, -⟩
  · exact hlies
  · cases hp.symm.trans hinteractive

/-- In the interactive view the tooltip of a function that is hovered may reach beyond the right
and the bottom edge. -/
theorem overflows_pressAll :
    let body := "1\n2\n3\n4\n5\n6\n7\n8\n9\n10\n11\n12\n13\n14\n15\n16"
    let s : Snapshot :=
      ⟨0, [⟨⟨0⟩, "global", none, [⟨"f", some (.object ⟨1⟩), false⟩]⟩],
        [(⟨1⟩, .closure ⟨"f", [], body, ⟨0⟩⟩)], some ⟨0⟩⟩
    let history : History := ⟨#[s], 0, 1000, s.size⟩
    history.InRange ∧ ∃ (v : Viewer Rat) (d : Diagram Rat) (t : Tooltip Rat),
      (ofHistory history .standard "f").pressAll [.char 'f'] = .ok v ∧ v.diagram = some d ∧
        t ∈ d.tooltips ∧ v.hover.showsTooltip t.owner t.visible = true ∧
        d.width < t.origin.x + t.width ∧
        d.height < t.origin.y + (t.lines : Rat) * (Config.standard : Config Rat).fontSize := by
  intro body s history
  have hr : history.InRange := Nat.zero_le 0
  obtain ⟨v, hv, -⟩ := (inStep_ofHistory hr (.standard : Config Rat) "f").pressAll [.char 'f']
  have hview : ((ofHistory history (.standard : Config Rat) "f").pressAll [.char 'f']).toOption.bind
      (fun v => v.diagram.map fun d => (d.width, d.height, d.tooltips.map fun t =>
        (v.hover.showsTooltip t.owner t.visible, t.origin, t.width, t.lines))) =
          some (300, 300, [(true, ⟨275, 70⟩, 90, 17)]) := by cbv
  rw [hv] at hview
  obtain ⟨d, hd, heq⟩ := Option.map_eq_some_iff.mp hview
  simp only [Prod.mk.injEq] at heq
  obtain ⟨hwidth, hheight, htooltips⟩ := heq
  obtain ⟨t, ht, heq⟩ : ∃ t ∈ d.tooltips,
      (v.hover.showsTooltip t.owner t.visible, t.origin, t.width, t.lines) =
        (true, ⟨275, 70⟩, 90, 17) := by
    refine List.mem_map.mp ?_
    rw [htooltips]
    exact List.mem_singleton_self _
  simp only [Prod.mk.injEq] at heq
  obtain ⟨hshown, horigin, htwidth, hlines⟩ := heq
  refine ⟨hr, v, d, t, hv, hd, ht, hshown, ?_, ?_⟩
  · rw [hwidth, horigin, htwidth]
    norm_num
  · rw [hheight, horigin, hlines]
    norm_num [Config.standard]

end Viewer

end EnvDiagram
