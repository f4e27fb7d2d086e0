import EnvDiagram.Proofs.Layout.Glyphs
import EnvDiagram.Proofs.Scalar.Multiples
import EnvDiagram.Proofs.Text.Abridging
import EnvDiagram.Proofs.Viewer.Tooltips

/-!
# How wide tooltips are

A tooltip shows the parameters of a function and, on further lines, its body. The two are measured
one by one and the wider one counts. That is the width of the whole text: the parameters end with a
parenthesis, so the line feed after them ends their last line and adds none, and a body begins with
a letter. The larger of two multiples of a character's width is the one with more characters.

* `FunctionGlyph.greatest_width` — parameters and a body, measured one by one and together
* `Scene.width_tooltips` — the tooltips of a diagram
-/

namespace EnvDiagram

open Scalar

variable {α : Type}

/-! ## Texts that are measured in parts -/

/-- A text that is abridged keeps its beginning. -/
theorem head?_abridged {c : Char} {text : String} (hc : c ≠ '\n')
    (h : text.toList.head? = some c) : (abridged text).toList.head? = some c := by
  obtain ⟨rest, hrest⟩ := List.head?_eq_some_iff.mp h
  unfold abridged
  rw [hrest, String.toList_append, String.toList_ofList]
  split
  · rw [List.take_succ_cons, Text.takeLines_cons hc]
    rfl
  · rw [Text.takeLines_cons hc]
    rfl

variable [Scalar α] [GrowingMultiples α] {config : Config α}

/-- Two texts with a line feed between them are as wide as the wider one. -/
theorem Text.width_append_feed {a b : String} {first last first' : Char}
    (hchar : zero ≤ config.charWidth) (hfirst : StaysInLine first)
    (ha : a.toList.head? = some first) (hlast : StaysInLine last)
    (ha' : a.toList.getLast? = some last) (hfirst' : StaysInLine first')
    (hb : b.toList.head? = some first') (hlt : (a ++ "\n" ++ b).length < 2 ^ 64) :
    width config (a ++ "\n" ++ b) = greatest (width config a) (width config b) := by
  have hcolumns := columns_append_feed hlast ha' b
  have hbound := columns_ofList_le (a ++ "\n" ++ b).toList
  rw [String.ofList_toList, String.length_toList, hcolumns] at hbound
  rw [width, hcolumns, width, width]
  exact (greatest_mul_eq (columns_pos hfirst ha) (columns_pos hfirst' hb) (hbound.trans_lt hlt)
    hchar).symm

/-! ## The tooltips of closures -/

namespace FunctionGlyph

/-- Whether the tooltips of a function are as wide as their texts. No text has more characters than
a machine can count. -/
structure Measures (config : Config α) (f : FunctionGlyph α) : Prop where
  tooltip : f.tooltip.length < 2 ^ 64 → f.tooltipWidth config = Text.width config f.tooltip
  exportTooltip : f.exportTooltip.length < 2 ^ 64 →
    f.exportTooltipWidth config = Text.width config f.exportTooltip

/-- The text of the parameters is enclosed in what stays in its lines, so below it a body may begin
with anything that does. -/
theorem greatest_width_params (hchar : zero ≤ config.charWidth) (params : String) {body : String}
    (hbody : body.toList.head? = some 'b')
    (hlt : ("params: (" ++ params ++ ")" ++ "\n" ++ body).length < 2 ^ 64) :
    greatest (Text.width config ("params: (" ++ params ++ ")")) (Text.width config body) =
      Text.width config ("params: (" ++ params ++ ")" ++ "\n" ++ body) := by
  have hfirst : ("params: (" ++ params ++ ")").toList.head? = some 'p' := by
    simp [String.toList_append]
  have hlast : ("params: (" ++ params ++ ")").toList.getLast? = some ')' := by
    rw [String.toList_append]
    exact List.getLast?_concat
  have hp : Text.StaysInLine 'p' := by simp [Text.StaysInLine]
  have hparenthesis : Text.StaysInLine ')' := by simp [Text.StaysInLine]
  have hb : Text.StaysInLine 'b' := by simp [Text.StaysInLine]
  exact (Text.width_append_feed hchar hp hfirst hparenthesis hlast hb hbody hlt).symm

theorem measures_ofClosure (hchar : zero ≤ config.charWidth) (c : Closure) (enclosing : Nat)
    (center : Point α) : (ofClosure config c enclosing center).Measures config := by
  have hbody : ("body: " ++ c.body).toList.head? = some 'b' := by simp [String.toList_append]
  exact ⟨greatest_width_params hchar c.paramList hbody,
    greatest_width_params hchar c.paramList (head?_abridged (by simp) hbody)⟩

end FunctionGlyph

/-! ## The tooltips of a diagram -/

section

-- a layout is known by its lemmas here, not by how it is computed
attribute [local irreducible] Layout.ofSnapshot

/-- Every tooltip of a diagram is as wide as its text, in the interactive view and in an export, and
so are both tooltips of every closure. -/
theorem Scene.width_tooltips (sc : Scene α) (s : Snapshot) (printable : Bool)
    (hchar : zero ≤ sc.config.charWidth) :
    (∀ t ∈ (sc.redraw s printable).1.tooltips, t.text.length < 2 ^ 64 →
        t.width = Text.width sc.config t.text) ∧
      ∀ (c : Closure) (enclosing : Nat) (center : Point α),
        (FunctionGlyph.ofClosure sc.config c enclosing center).Measures sc.config := by
  refine ⟨fun t ht hlt => ?_, FunctionGlyph.measures_ofClosure hchar⟩
  obtain ⟨shape, hshape, hkind⟩ := Diagram.mem_tooltips.mp ht
  have hpaint := sc.mayPaint_redraw s printable shape hshape
  rw [hkind] at hpaint
  obtain ⟨v, x, f, hx, hf, htooltip⟩ := hpaint.tooltip
  obtain ⟨c, hc⟩ := Layout.exists_closure hx hf
  have hmeasures : f.Measures sc.config := hc ▸ FunctionGlyph.measures_ofClosure hchar c ..
  obtain rfl := ShapeKind.tooltip.inj htooltip
  cases printable with
  | false => exact hmeasures.tooltip hlt
  | true => exact hmeasures.exportTooltip hlt

end

/-- A body of two lines with carriage returns, measured in floats and shown in an export. -/
theorem Scene.width_tooltips_carriage_return :
    let c : Closure := ⟨"f", ["x"], "1\r\n2\r", ⟨0⟩⟩
    let f : FunctionGlyph Float := .ofClosure .standard c 0 ⟨zero, zero⟩
    let s : Snapshot :=
      ⟨0, [⟨⟨0⟩, "global", none, [⟨"f", some (.object ⟨1⟩), false⟩]⟩],
        [(⟨1⟩, .closure c)], some ⟨0⟩⟩
    let sc : Scene Rat := .ofConfig .standard
    zero ≤ (Config.standard : Config Float).charWidth ∧
      f.tooltipWidth .standard = Text.width .standard f.tooltip ∧
      f.exportTooltipWidth .standard = Text.width .standard f.exportTooltip ∧
      ∃ t ∈ (sc.redraw s true).1.tooltips, t.text = "params: (x)\nbody: 1\r\n2\r ..." ∧
        t.width = Text.width sc.config t.text := by
  intro c f s sc
  have hfloat : zero ≤ (Config.standard : Config Float).charWidth := by decide +kernel
  have hrat : zero ≤ sc.config.charWidth := by decide +kernel
  obtain ⟨-, hclosures⟩ := width_tooltips (.ofConfig (.standard : Config Float)) s true hfloat
  obtain ⟨htooltips, -⟩ := width_tooltips sc s true hrat
  have htexts : (sc.redraw s true).1.tooltips.map Tooltip.text =
      ["params: (x)\nbody: 1\r\n2\r ..."] := by cbv
  obtain ⟨t, ht, htext⟩ : ∃ t ∈ (sc.redraw s true).1.tooltips,
      t.text = "params: (x)\nbody: 1\r\n2\r ..." := by
    refine List.mem_map.mp ?_
    rw [htexts]
    exact List.mem_singleton_self _
  have hmeasures : f.Measures .standard := hclosures c 0 ⟨zero, zero⟩
  have hlt : t.text.length < 2 ^ 64 := by
    rw [htext]
    decide
  exact ⟨hfloat, hmeasures.tooltip (by decide +kernel), hmeasures.exportTooltip (by decide +kernel),
    t, ht, htext, htooltips t ht hlt⟩

end EnvDiagram
