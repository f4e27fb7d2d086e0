import Mathlib
import EnvDiagram.Proofs.Layout.Literals
import EnvDiagram.Proofs.Text.Columns
import EnvDiagram.Scene

/-!
# Texts that stick out of their frames

A frame is as wide as its widest row asks for, and a row asks for no more than the greatest width
of a text. But the colon comes after a name that is cut to that width by itself, and the ellipsis
of a text takes a place even where the key has left none. So a long name may stick out of its
frame, by the width of the colon and the ellipsis at most.

* `Layout.exists_widest` — how wide a frame is, and where its rows begin
* `Frame.columns_keyText_le` — how many columns a key has
* `Scene.overhang_load` — which texts stick out, and how far
-/

namespace EnvDiagram

open Scalar

/-! ## The width of a frame -/

namespace Frame

variable {config : Config Rat}

/-- The widest of some rows is no wider than a text may be. -/
theorem widest_spec (hmax : 0 ≤ config.textMaxWidth) (rows : List Variable) :
    rows.foldl (fun w v => greatest w (rowWidth config v)) zero ≤ config.textMaxWidth ∧
      ∀ v ∈ rows, rowWidth config v ≤
        rows.foldl (fun w v => greatest w (rowWidth config v)) zero := by
  let P : List Variable → Rat → Prop := fun done w =>
    w ≤ config.textMaxWidth ∧ ∀ v ∈ done, rowWidth config v ≤ w
  refine foldl_keeps (P := P) rows (fun done v w _ hw => ?_)
    ⟨hmax, fun v hv => absurd hv List.not_mem_nil⟩
  rw [greatest_eq_max]
  refine ⟨max_le hw.1 ((least_eq_min ..).trans_le (min_le_right ..)), fun u hu => ?_⟩
  rcases List.mem_append.mp hu with hu | hu
  · exact le_max_of_le_left (hw.2 u hu)
  · rw [List.mem_singleton.mp hu]
    exact le_max_right ..

end Frame

/-- How wide a frame is by its widest row, and where its rows begin. -/
theorem Layout.exists_widest {config : Config Rat} {s : Snapshot} {f : Frame Rat}
    (hmax : 0 ≤ config.textMaxWidth) (hf : f ∈ (ofSnapshot config s).frames) :
    ∃ widest : Rat, widest ≤ config.textMaxWidth ∧
      f.bounds.width = max config.frameMinWidth widest + 2 * config.framePaddingX ∧
      ∀ b ∈ f.bindings, ∃ v : Variable, b.name = v.name ∧ b.constant = v.constant ∧
        b.keyText = Frame.keyText config v ∧
        b.bounds.x = f.bounds.x + config.framePaddingX ∧
        b.bounds.width = Text.width config b.keyText ∧
        min (Text.width config b.keyText + Text.width config (rowText config b.datum))
          config.textMaxWidth ≤ widest := by
  obtain ⟨i, hi⟩ := Array.getElem?_of_mem hf
  obtain ⟨node, p, -, hplace⟩ := exists_place_ofSnapshot hi
  obtain ⟨hwidest, hrows⟩ := Frame.widest_spec hmax (overlay (envsOf s node))
  refine ⟨_, hwidest, ?_, fun b hb => ?_⟩
  · rw [← greatest_eq_max]
    exact congrArg (fun g => g.bounds.width) hplace
  · obtain ⟨j, v, hv, hrow⟩ := exists_row_of_place hplace hb
    have hwide := hrows v hv
    have hkey : b.keyText = Frame.keyText config v := congrArg Binding.keyText hrow
    have hdatum : b.datum = v.value := congrArg Binding.datum hrow
    refine ⟨v, congrArg Binding.name hrow, congrArg Binding.constant hrow, hkey, ?_, ?_, ?_⟩
    · have hx : f.bounds.x = p.x := congrArg (fun g => g.bounds.x) hplace
      rw [hx]
      exact congrArg (fun row => row.bounds.x) hrow
    · rw [hkey]
      exact congrArg (fun row => row.bounds.width) hrow
    · rw [hkey, hdatum]
      exact (least_eq_min ..).ge.trans hwide

/-! ## The standard settings -/

theorem Config.charWidth_standard_pos : 0 < (Config.standard : Config Rat).charWidth := by
  norm_num [Config.standard]

theorem Text.width_standard (text : String) :
    Text.width (Config.standard : Config Rat) text = (Text.columns text : Rat) * 9 := rfl

theorem Text.width_ellipsis_standard :
    Text.width (Config.standard : Config Rat) (Config.standard : Config Rat).ellipsis = 9 := by
  cbv

theorem Text.textMaxWidth_standard : (Config.standard : Config Rat).textMaxWidth = 300 := rfl

/-- A name is cut to the columns of the greatest width. -/
theorem Text.columns_fit_standard_le (text : String) :
    Text.columns (Text.fit (Config.standard : Config Rat)
      (Config.standard : Config Rat).textMaxWidth text) ≤ min (Text.columns text) 33 := by
  set cut := Text.fit (Config.standard : Config Rat)
    (Config.standard : Config Rat).textMaxWidth text with hcut
  have hle : Text.columns cut ≤ 33 := by
    have hmax : max (Config.standard : Config Rat).textMaxWidth
        (Text.width (Config.standard : Config Rat) (Config.standard : Config Rat).ellipsis) =
          300 := by
      rw [Text.width_ellipsis_standard, Text.textMaxWidth_standard]
      norm_num
    have hfit : (Text.columns cut : Rat) * 9 ≤ 300 :=
      (Text.width_fit_le Config.charWidth_standard_pos _ text).trans_eq hmax
    by_contra hlt
    have hlt' : (34 : Rat) ≤ Text.columns cut := by exact_mod_cast Nat.lt_of_not_le hlt
    linarith only [hfit, hlt']
  refine le_min ?_ hle
  by_cases hfits : Text.width (Config.standard : Config Rat) text ≤
      (Config.standard : Config Rat).textMaxWidth
  · rw [hcut, Text.fit_of_le hfits]
  · -- a text that is cut has more columns than are left of it
    rw [Text.width_standard, Text.textMaxWidth_standard, not_le] at hfits
    have hlong : (33 : Rat) < Text.columns text := by linarith only [hfits]
    have hlong' : 33 < Text.columns text := by exact_mod_cast hlong
    omega

/-- The colon comes after the name. -/
theorem Frame.columns_keyText_le (v : Variable) :
    Text.columns (keyText (Config.standard : Config Rat) v) ≤
      min (Text.columns v.name) 33 + if v.constant then 3 else 2 := by
  have hcolon : Text.columns (if v.constant then ":= " else ": ") =
      if v.constant then 3 else 2 := by
    cases v.constant <;> cbv
  have happend := Text.columns_append_le
    (Text.fit (Config.standard : Config Rat) (Config.standard : Config Rat).textMaxWidth v.name)
    (if v.constant then ":= " else ": ")
  rw [hcolon] at happend
  exact happend.trans (Nat.add_le_add_right (Text.columns_fit_standard_le v.name) _)

section

/-! ## Inside the frame

The width left for the key and the text of a row is that of the widest row, and the padding. -/

variable {k t : Nat} {widest w : Rat} (hmax : widest ≤ 300)
  (hwide : min ((k : Rat) * 9 + t * 9) 300 ≤ widest)

include hmax hwide

theorem keyEnd_le_edge_iff : (k : Rat) * 9 ≤ max 100 widest + 20 ↔ k ≤ 35 := by
  constructor
  · intro h
    by_contra hk
    have hk' : (36 : Rat) ≤ k := by exact_mod_cast Nat.lt_of_not_le hk
    have hmax' : max 100 widest ≤ 300 := max_le (by norm_num) hmax
    linarith only [h, hk', hmax']
  · intro hk
    have hk' : (k : Rat) ≤ 35 := by exact_mod_cast hk
    have ht : (0 : Rat) ≤ t := Nat.cast_nonneg t
    have hle : widest ≤ max 100 widest := le_max_right ..
    rcases min_le_iff.mp hwide with h | h <;> linarith only [h, hk', ht, hle]

omit hmax in
theorem keyEnd_le_edge_add (hk : k ≤ 36) : (k : Rat) * 9 ≤ max 100 widest + 20 + 4 := by
  have hk' : (k : Rat) ≤ 36 := by exact_mod_cast hk
  have ht : (0 : Rat) ≤ t := Nat.cast_nonneg t
  have hle : widest ≤ max 100 widest := le_max_right ..
  rcases min_le_iff.mp hwide with h | h <;> linarith only [h, hk', ht, hle]

variable (hfits : (k : Rat) * 9 + t * 9 ≤ 300 → w = t * 9) (hcut : w ≤ max (300 - (k : Rat) * 9) 9)

include hfits hcut

theorem textEnd_le_edge_iff (hnone : 34 ≤ k → w = 9) :
    k * 9 + w ≤ max 100 widest + 20 ↔ k ≤ 34 := by
  constructor
  · intro h
    by_contra hk
    have hk' : (35 : Rat) ≤ k := by exact_mod_cast Nat.lt_of_not_le hk
    have hmax' : max 100 widest ≤ 300 := max_le (by norm_num) hmax
    have hw := hnone (by omega)
    linarith only [h, hk', hmax', hw]
  · intro hk
    have hk' : (k : Rat) ≤ 34 := by exact_mod_cast hk
    have hle : widest ≤ max 100 widest := le_max_right ..
    rcases min_le_iff.mp hwide with h | h
    · have hw := hfits (h.trans hmax)
      linarith only [h, hle, hw]
    · rcases le_max_iff.mp hcut with hw | hw <;> linarith only [h, hk', hle, hw]

theorem textEnd_le_edge_add (hk : k ≤ 36) : k * 9 + w ≤ max 100 widest + 20 + 13 := by
  have hk' : (k : Rat) ≤ 36 := by exact_mod_cast hk
  have hle : widest ≤ max 100 widest := le_max_right ..
  rcases min_le_iff.mp hwide with h | h
  · have hw := hfits (h.trans hmax)
    linarith only [h, hle, hw]
  · rcases le_max_iff.mp hcut with hw | hw <;> linarith only [h, hk', hle, hw]

end

/-! ## The texts of a layout -/

/-- The text after a key takes the place that is left, but never less than the ellipsis. -/
theorem Binding.width_textAfterKey {b : Binding Rat} {k : Nat}
    (hk : b.bounds.width = (k : Rat) * 9) :
    let w := Text.width (Config.standard : Config Rat) (b.textAfterKey .standard)
    let t := Text.columns (rowText (Config.standard : Config Rat) b.datum)
    ((k : Rat) * 9 + t * 9 ≤ 300 → w = t * 9) ∧ w ≤ max (300 - (k : Rat) * 9) 9 ∧
      (34 ≤ k → w = 9) := by
  intro w t
  have hplace : (Config.standard : Config Rat).textMaxWidth - b.bounds.width =
      300 - (k : Rat) * 9 := by
    rw [hk]
    rfl
  have htext : b.textAfterKey .standard =
      Text.fit .standard (300 - (k : Rat) * 9)
        (rowText (Config.standard : Config Rat) b.datum) := by
    rw [textAfterKey]
    exact congrArg (fun place => Text.fit _ place _) hplace
  refine ⟨fun hfits => ?_, ?_, fun hlong => ?_⟩
  · have hle : (t : Rat) * 9 ≤ 300 - (k : Rat) * 9 := by linarith only [hfits]
    show Text.width _ _ = _
    rw [htext, Text.fit_of_le hle]
    rfl
  · have hcut := Text.width_fit_le Config.charWidth_standard_pos (300 - (k : Rat) * 9)
      (rowText (Config.standard : Config Rat) b.datum)
    rwa [Text.width_ellipsis_standard, ← htext] at hcut
  · have hlong' : (34 : Rat) ≤ k := by exact_mod_cast hlong
    have ht : (0 : Rat) ≤ t := Nat.cast_nonneg t
    have hnarrow : (300 : Rat) - k * 9 < 9 := by linarith only [hlong']
    have hwider : (300 : Rat) - k * 9 < t * 9 := by linarith only [hlong', ht]
    show Text.width _ _ = _
    rw [htext, Text.fit_of_lt_ellipsis Config.charWidth_standard_pos
      (hnarrow.trans_eq Text.width_ellipsis_standard.symm) hwider, Text.width_ellipsis_standard]

/-- Where the key of a row and the text after it end, seen from the right edge of the frame. -/
theorem Scene.overhang_load (layout : Layout Rat) (marks : List Mark) (s : Snapshot) :
    let l := ((Scene.mk Config.standard layout marks).load s).layout
    ∀ f ∈ l.frames, ∀ b ∈ f.bindings,
      Text.columns b.keyText ≤ min (Text.columns b.name) 33 + (if b.constant then 3 else 2) ∧
      (b.bounds.right ≤ f.bounds.right ↔ Text.columns b.keyText ≤ 35) ∧
      b.bounds.right ≤ f.bounds.right + 4 ∧
      ∀ d, b.datum = some d → d.IsText → ∃ (v : Nat) (x : Value Rat),
        b.target = some v ∧ l.values[v]? = some x ∧ x.isLiteral = true ∧
        x.bounds.x = b.bounds.right ∧
        (x.bounds.right ≤ f.bounds.right ↔ Text.columns b.keyText ≤ 34) ∧
        x.bounds.right ≤ f.bounds.right + 13 := by
  intro l f hf b hb
  obtain ⟨widest, hmax, hwidth, hrows⟩ := Layout.exists_widest (by norm_num [Config.standard]) hf
  obtain ⟨v, hname, hconst, hkey, hx, hkeywidth, hwide⟩ := hrows b hb
  have hcolumns : Text.columns b.keyText ≤
      min (Text.columns b.name) 33 + if b.constant then 3 else 2 := by
    rw [hname, hconst, hkey]
    exact Frame.columns_keyText_le v
  have hk : Text.columns b.keyText ≤ 36 := by
    split at hcolumns <;> omega
  have hedge : f.bounds.right = b.bounds.x + (max 100 widest + 20) := by
    have hwidth' : f.bounds.width = max 100 widest + 2 * 20 := hwidth
    have hx' : b.bounds.x = f.bounds.x + 20 := hx
    show f.bounds.x + f.bounds.width = _
    linarith only [hwidth', hx']
  have hend : b.bounds.right = b.bounds.x + (Text.columns b.keyText : Rat) * 9 :=
    congrArg (b.bounds.x + ·) hkeywidth
  refine ⟨hcolumns, ?_, ?_, fun d hd htext => ?_⟩
  · rw [hend, hedge, add_le_add_iff_left]
    exact keyEnd_le_edge_iff hmax hwide
  · rw [hend, hedge]
    have hle := keyEnd_le_edge_add hwide hk
    linarith only [hle]
  · obtain ⟨v, x, hv, hvx, hkind, hleft, hxwidth⟩ := Layout.showsText_ofSnapshot hf hb d hd htext
    obtain ⟨hfits, hcut, hnone⟩ := Binding.width_textAfterKey hkeywidth
    have hright : x.bounds.right = b.bounds.x + ((Text.columns b.keyText : Rat) * 9 +
        Text.width (Config.standard : Config Rat) (b.textAfterKey .standard)) := by
      show x.bounds.x + x.bounds.width = _
      rw [hleft, hxwidth, hend]
      exact add_assoc ..
    refine ⟨v, x, hv, hvx, by rw [Value.isLiteral, hkind], hleft, ?_, ?_⟩
    · rw [hright, hedge, add_le_add_iff_left]
      exact textEnd_le_edge_iff hmax hwide hfits hcut hnone
    · have hle := textEnd_le_edge_add hmax hwide hfits hcut hk
      rw [hright, hedge]
      linarith only [hle]

/-- Of a short name everything is inside the frame. -/
theorem Scene.overhang_load_short :
    let s : Snapshot := ⟨0, [⟨⟨0⟩, "global", none, [⟨"x", some .null, false⟩]⟩], [], some ⟨0⟩⟩
    let l := ((Scene.mk (Config.standard : Config Rat) .empty []).load s).layout
    ∃ f ∈ l.frames, ∃ b ∈ f.bindings, b.keyText = "x: " ∧ b.bounds.right ≤ f.bounds.right ∧
      b.datum = some .null ∧ Datum.null.IsText ∧ ∃ (v : Nat) (x : Value Rat), b.target = some v ∧
        l.values[v]? = some x ∧ x.bounds.right ≤ f.bounds.right := by
  intro s l
  have hrow : ((l.frames[0]?).bind fun f => (f.bindings[0]?).map fun b => (b.keyText, b.datum)) =
      some ("x: ", some .null) := by cbv
  obtain ⟨f, hf, hb⟩ := Option.bind_eq_some_iff.mp hrow
  obtain ⟨b, hb, heq⟩ := Option.map_eq_some_iff.mp hb
  obtain ⟨hkey, hdatum⟩ := Prod.mk.inj heq
  have hcolumns : Text.columns b.keyText = 3 := by
    rw [hkey]
    cbv
  have hfm : f ∈ l.frames := Array.mem_of_getElem? hf
  have hbm : b ∈ f.bindings := Array.mem_of_getElem? hb
  have htext : Datum.null.IsText := fun id h => by cases h
  obtain ⟨-, hend, -, htexts⟩ := overhang_load .empty [] s f hfm b hbm
  obtain ⟨v, x, hv, hx, -, -, hright, -⟩ := htexts .null hdatum htext
  refine ⟨f, hfm, b, hbm, hkey, hend.mpr ?_, hdatum, htext, v, x, hv, hx, hright.mpr ?_⟩
  · rw [hcolumns]
    decide
  · rw [hcolumns]
    decide

/-- A constant with a name of the greatest width has its colon outside of the frame, and the
ellipsis of its value further out. -/
theorem Scene.overhang_load_long :
    let s : Snapshot :=
      ⟨0, [⟨⟨0⟩, "global", none, [⟨"aaaaaaaaaaaaaaaaaaaaaaaaaaaaaaaaa", some .null, true⟩]⟩], [],
        some ⟨0⟩⟩
    let l := ((Scene.mk (Config.standard : Config Rat) .empty []).load s).layout
    ∃ f ∈ l.frames, ∃ b ∈ f.bindings, b.datum = some .null ∧ f.bounds.right < b.bounds.right ∧
      ∃ x ∈ l.values, x.kind = .literal "…" false ∧ f.bounds.right < x.bounds.right := by
  intro s l
  have hrow : ((l.frames[0]?).bind fun f => (f.bindings[0]?).map fun b =>
      (f.bounds.right, b.datum, b.bounds.right)) = some (380, some .null, 384) := by cbv
  have hvalue : (l.values[0]?).map (fun x => (x.kind, x.bounds.right)) =
      some (.literal "…" false, 393) := by cbv
  obtain ⟨f, hf, hb⟩ := Option.bind_eq_some_iff.mp hrow
  obtain ⟨b, hb, heq⟩ := Option.map_eq_some_iff.mp hb
  obtain ⟨x, hx, heq'⟩ := Option.map_eq_some_iff.mp hvalue
  simp only [Prod.mk.injEq] at heq heq'
  obtain ⟨hedge, hdatum, hend⟩ := heq
  obtain ⟨hkind, hright⟩ := heq'
  refine ⟨f, Array.mem_of_getElem? hf, b, Array.mem_of_getElem? hb, hdatum, ?_, x,
    Array.mem_of_getElem? hx, hkind, ?_⟩
  · rw [hedge, hend]
    norm_num
  · rw [hedge, hright]
    norm_num

end EnvDiagram
