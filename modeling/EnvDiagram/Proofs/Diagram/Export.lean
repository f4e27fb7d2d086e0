import Mathlib
import EnvDiagram.Proofs.Geometry
import EnvDiagram.Scene

/-!
# Exports that are too large

An export has limits, and a diagram beyond them is scaled down. Whether it is beyond them is found
by comparing the sides one by one; the factor is the least of the quotients and of one. Both agree
because no canvas is empty. So a printable diagram warns of its size just when it is scaled down.
The warning is the diagram's own: the layout, which is drawn again, does not get it.

* `Diagram.exportFactor_lt_one_iff` — when a diagram is scaled down
* `Diagram.WarnsOfSize` — a diagram warns of its size as it should
* `Scene.warnsOfSize_draw` — so does every drawing of a scene, however many came before
-/

namespace EnvDiagram

open Scalar

variable {α : Type}

/-- Whether a warning is of the size of a diagram. -/
def Warning.IsOversized (w : Warning α) : Prop :=
  ∃ width height scale, w = .oversizedExport width height scale

/-- The warnings of a layout. -/
def Layout.warnings (l : Layout α) : List (Warning α) := l.defects.map .defect

/-- A layout is not warned of for the size of its drawings. -/
theorem Layout.not_isOversized {l : Layout α} {w : Warning α} (hw : w ∈ l.warnings) :
    ¬ w.IsOversized := by
  rintro ⟨width, height, scale, rfl⟩
  obtain ⟨defect, -, heq⟩ := List.mem_map.mp hw
  cases heq

/-- The scene after it has been drawn several times. -/
def Scene.drawn [Scalar α] (sc : Scene α) (modes : List Bool) : Scene α :=
  modes.foldl (fun sc printable => (sc.draw printable).2) sc

/-- Drawings leave the layout and the settings as they are. -/
theorem Scene.drawn_eq [Scalar α] (sc : Scene α) (modes : List Bool) :
    (sc.drawn modes).layout = sc.layout ∧ (sc.drawn modes).config = sc.config := by
  unfold drawn
  induction modes generalizing sc with
  | nil => exact ⟨rfl, rfl⟩
  | cons printable rest ih => exact ih (sc.draw printable).2

namespace Diagram

variable {config : Config Rat} {d : Diagram Rat}

/-! ## The factor of an export -/

theorem exportFactor_eq (config : Config Rat) (d : Diagram Rat) :
    d.exportFactor config =
      min (min (config.maxExportWidth / d.width) (config.maxExportHeight / d.height)) 1 := by
  rw [exportFactor, fitFactor, least_eq_min, least_eq_min]
  rfl

/-- A diagram is scaled down if one of its sides is beyond its limit. -/
theorem exportFactor_lt_one_iff (hwidth : 0 < d.width) (hheight : 0 < d.height) :
    d.exportFactor config < 1 ↔
      config.maxExportWidth < d.width ∨ config.maxExportHeight < d.height := by
  rw [exportFactor_eq, min_lt_iff, min_lt_iff, div_lt_one hwidth, div_lt_one hheight]
  exact or_iff_left (lt_irrefl 1)

/-- A diagram that is scaled down is made to fit. -/
theorem fitFactor_eq_exportFactor (h : d.exportFactor config < 1) :
    fitFactor config d.width d.height = d.exportFactor config := by
  rw [exportFactor, least_eq_min] at h ⊢
  rcases min_lt_iff.mp h with hfit | hone
  · exact (min_eq_left hfit.le).symm
  · exact absurd hone (lt_irrefl _)

theorem width_mul_exportFactor_le (hwidth : 0 < d.width) :
    d.width * d.exportFactor config ≤ config.maxExportWidth := by
  have hfactor : d.exportFactor config ≤ config.maxExportWidth / d.width := by
    rw [exportFactor_eq]
    exact (min_le_left ..).trans (min_le_left ..)
  rw [mul_comm]
  exact (le_div_iff₀ hwidth).mp hfactor

theorem height_mul_exportFactor_le (hheight : 0 < d.height) :
    d.height * d.exportFactor config ≤ config.maxExportHeight := by
  have hfactor : d.exportFactor config ≤ config.maxExportHeight / d.height := by
    rw [exportFactor_eq]
    exact (min_le_left ..).trans (min_le_right ..)
  rw [mul_comm]
  exact (le_div_iff₀ hheight).mp hfactor

/-! ## The warning -/

/-- Whether a diagram warns of its size as it should, beside the warnings of its layout. -/
structure WarnsOfSize (config : Config Rat) (own : List (Warning Rat)) (d : Diagram Rat) :
    Prop where
  /-- There is a warning of the size just if an export is scaled down. -/
  exists_iff : (∃ w ∈ d.warnings, w.IsOversized) ↔ d.printable = true ∧ d.exportFactor config < 1
  /-- Then it is one, behind the warnings of the layout, and has the size and the factor. -/
  oversized : d.printable = true → d.exportFactor config < 1 →
    d.warnings = own ++ [.oversizedExport d.width d.height (d.exportFactor config)]
  /-- Else there are just the warnings of the layout. -/
  fitting : d.printable = false ∨ 1 ≤ d.exportFactor config → d.warnings = own
  /-- Scaled, the diagram is within the limits. -/
  width_le : d.width * d.exportFactor config ≤ config.maxExportWidth
  height_le : d.height * d.exportFactor config ≤ config.maxExportHeight

end Diagram

theorem Drawing.le_canvasSize (used padding minimum : Rat) :
    minimum ≤ canvasSize used padding minimum := by
  rw [canvasSize, greatest_eq_max]
  exact le_max_right ..

/-- Whatever is painted, the diagram warns of its size as it should. -/
theorem Drawing.warnsOfSize_diagram (d : Drawing Rat) (p : Painter Rat)
    (hwidth : 0 < d.config.canvasMinWidth) (hheight : 0 < d.config.canvasMinHeight) :
    (d.diagram p).WarnsOfSize d.config d.layout.warnings := by
  set diagram := d.diagram p with hdiagram
  have hwide : 0 < diagram.width := hwidth.trans_le (le_canvasSize ..)
  have hhigh : 0 < diagram.height := hheight.trans_le (le_canvasSize ..)
  have hwarnings : diagram.warnings =
      d.layout.warnings ++ d.sizeWarning diagram.width diagram.height := rfl
  have hmode : diagram.printable = d.printable := rfl
  have hfactor : diagram.exportFactor d.config < 1 ↔
      d.config.maxExportWidth < diagram.width ∨ d.config.maxExportHeight < diagram.height :=
    Diagram.exportFactor_lt_one_iff hwide hhigh
  have hoversized : diagram.printable = true → diagram.exportFactor d.config < 1 →
      diagram.warnings = d.layout.warnings ++
        [.oversizedExport diagram.width diagram.height (diagram.exportFactor d.config)] := by
    intro hprintable hlt
    rw [hwarnings, sizeWarning, if_pos ⟨hmode ▸ hprintable, hfactor.mp hlt⟩,
      Diagram.fitFactor_eq_exportFactor hlt]
  have hfitting : diagram.printable = false ∨ 1 ≤ diagram.exportFactor d.config →
      diagram.warnings = d.layout.warnings := by
    intro h
    rw [hwarnings, sizeWarning, if_neg, List.append_nil]
    rintro ⟨hprintable, hlimits⟩
    rcases h with hnot | hle
    · rw [hmode, hprintable] at hnot
      cases hnot
    · exact absurd (hfactor.mpr hlimits) (not_lt.mpr hle)
  refine ⟨⟨?_, ?_⟩, hoversized, hfitting, Diagram.width_mul_exportFactor_le hwide,
    Diagram.height_mul_exportFactor_le hhigh⟩
  · rintro ⟨w, hw, hsize⟩
    -- without such a warning of the drawing there would be only those of the layout
    by_contra hnot
    have hfits : diagram.printable = false ∨ 1 ≤ diagram.exportFactor d.config := by
      rcases not_and_or.mp hnot with hmode | hge
      · exact .inl (Bool.eq_false_of_not_eq_true hmode)
      · exact .inr (not_lt.mp hge)
    rw [hfitting hfits] at hw
    exact Layout.not_isOversized hw hsize
  · rintro ⟨hprintable, hlt⟩
    rw [hoversized hprintable hlt]
    exact ⟨_, List.mem_append_right _ (List.mem_singleton_self _), _, _, _, rfl⟩

/-- However often a scene has been drawn, its layout has the warnings that it had, none of them of
a size, and its next diagram warns of its own size just if it is an export that is scaled down. -/
theorem Scene.warnsOfSize_draw (sc : Scene Rat) (hwidth : 0 < sc.config.canvasMinWidth)
    (hheight : 0 < sc.config.canvasMinHeight) (modes : List Bool) (printable : Bool) :
    (sc.drawn modes).layout.warnings = sc.layout.warnings ∧
      (∀ w ∈ (sc.drawn modes).layout.warnings, ¬ w.IsOversized) ∧
      ((sc.drawn modes).draw printable).1.printable = printable ∧
      ((sc.drawn modes).draw printable).1.WarnsOfSize sc.config sc.layout.warnings := by
  obtain ⟨hlayout, hconfig⟩ := sc.drawn_eq modes
  let d : Drawing Rat :=
    ⟨(sc.drawn modes).config, (sc.drawn modes).layout, (sc.drawn modes).config.palette printable,
      printable⟩
  have hdraw : ((sc.drawn modes).draw printable).1 = d.diagram d.paint := rfl
  have hd : d.config = sc.config ∧ d.layout = sc.layout := ⟨hconfig, hlayout⟩
  have hwarns := d.warnsOfSize_diagram d.paint (by rw [hd.1]; exact hwidth)
    (by rw [hd.1]; exact hheight)
  rw [hd.1, hd.2] at hwarns
  refine ⟨by rw [hlayout], fun w hw => Layout.not_isOversized hw, rfl, ?_⟩
  rw [hdraw]
  exact hwarns

/-- A canvas that is twice as wide as an export may be, drawn for the viewer, then as an export, and
again. -/
theorem Scene.warnsOfSize_draw_narrow :
    let config : Config Rat := { Config.standard with maxExportWidth := 150 }
    let s : Snapshot := ⟨0, [⟨⟨0⟩, "global", none, [⟨"x", some .null, false⟩]⟩], [], none⟩
    let sc := (Scene.ofConfig config).load s
    0 < sc.config.canvasMinWidth ∧ 0 < sc.config.canvasMinHeight ∧
      ((sc.drawn [false, true]).draw true).1.warnings = [.oversizedExport 300 300 (1 / 2)] ∧
      ((sc.drawn [false, true]).draw true).1.WarnsOfSize sc.config sc.layout.warnings := by
  intro config s sc
  have hwidth : 0 < sc.config.canvasMinWidth := by decide +kernel
  have hheight : 0 < sc.config.canvasMinHeight := by decide +kernel
  exact ⟨hwidth, hheight, by cbv,
    (sc.warnsOfSize_draw hwidth hheight [false, true] true).2.2.2⟩

end EnvDiagram
