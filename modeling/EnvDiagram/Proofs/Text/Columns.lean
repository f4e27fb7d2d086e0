import Mathlib.Algebra.Order.Field.Basic
import EnvDiagram.Proofs.Geometry
import EnvDiagram.Text.Measure

/-!
# How wide texts are

A text is as wide as its longest line. Putting two texts together joins the last line of one to
the first line of the other and leaves all other lines alone, so the whole has no more columns
than both texts have together. A text that is cut is no wider than its place, or than the ellipsis
if that alone is wider.

* `columns_append_le` — two texts put together
* `columns_ofList_le` — at most as many columns as characters
* `width_cut_le`, `width_fit_le`, `fit_of_lt_ellipsis` — a text that is cut
-/

namespace EnvDiagram.Text

variable {c : Char} {l r : List Char}

/-! ## Lines -/

/-- Whether a character in front of a text ends a line, by itself or with the one after it. -/
def EndsLine (c : Char) (rest : List Char) : Prop :=
  c = '\n' ∨ c = '\r' ∧ rest.head? = some '\n'

theorem EndsLine.append (h : EndsLine c l) (r : List Char) : EndsLine c (l ++ r) := by
  refine h.imp_right fun ⟨hc, hhead⟩ => ⟨hc, ?_⟩
  rw [List.head?_append, hhead]
  rfl

/-- A character that ends no line comes in front of the first one. -/
theorem lines_cons (h : ¬ EndsLine c l) :
    lines (c :: l) = (c :: (lines l).headD []) :: (lines l).tail := by
  have hfeed : c ≠ '\n' := fun hc => h (Or.inl hc)
  have hreturn : ∀ rest, c = '\r' → l ≠ '\n' :: rest := by
    rintro rest hc rfl
    exact h (Or.inr ⟨hc, rfl⟩)
  rw [lines.eq_4 c l hfeed hreturn]
  cases lines l <;> rfl

/-- A character that ends a line leaves the first one empty. The carriage return and the line
feed after it end the same line. -/
theorem lines_cons_of_endsLine (h : EndsLine c l) :
    lines (c :: l) = [] :: lines l ∨ lines (c :: l) = lines l ∧ (lines l).head? = some [] := by
  obtain rfl | ⟨rfl, hhead⟩ := h
  · exact Or.inl (lines.eq_2 l)
  · obtain ⟨rest, rfl⟩ := List.head?_eq_some_iff.mp hhead
    exact Or.inr ⟨(lines.eq_3 rest).trans (lines.eq_2 rest).symm, by rw [lines.eq_2]; rfl⟩

/-! ## Columns -/

/-- The length of the longest of some lines. -/
def longest (ls : List (List Char)) : Nat := (ls.map List.length).foldl max 0

/-- The length of the first line. -/
def firstLength (l : List Char) : Nat := ((lines l).headD []).length

theorem longest_cons (l : List Char) (ls : List (List Char)) :
    longest (l :: ls) = max l.length (longest ls) := by
  rw [longest, List.map_cons, List.foldl_cons, Nat.zero_max, ← Nat.max_zero l.length,
    List.foldl_assoc, Nat.max_zero]
  rfl

theorem columns_eq (text : String) : columns text = longest (lines text.toList) := rfl

theorem longest_lines (l : List Char) :
    longest (lines l) = max (firstLength l) (longest (lines l).tail) := by
  rw [firstLength]
  cases lines l with
  | nil => rfl
  | cons line more => exact longest_cons line more

theorem firstLength_cons (h : ¬ EndsLine c l) : firstLength (c :: l) = firstLength l + 1 := by
  rw [firstLength, lines_cons h]
  rfl

theorem firstLength_of_endsLine (h : EndsLine c l) : firstLength (c :: l) = 0 := by
  rw [firstLength]
  obtain heq | ⟨heq, hhead⟩ := lines_cons_of_endsLine h
  · rw [heq]
    rfl
  · rw [heq, List.headD_eq_head?_getD, hhead]
    rfl

theorem longest_lines_cons (h : ¬ EndsLine c l) :
    longest (lines (c :: l)) = max (firstLength l + 1) (longest (lines l).tail) := by
  rw [lines_cons h, longest_cons]
  rfl

theorem longest_lines_of_endsLine (h : EndsLine c l) :
    longest (lines (c :: l)) = longest (lines l) := by
  obtain heq | ⟨heq, -⟩ := lines_cons_of_endsLine h
  · rw [heq, longest_cons, List.length_nil, Nat.zero_max]
  · rw [heq]

theorem firstLength_append_le (l r : List Char) :
    firstLength (l ++ r) ≤ firstLength l + firstLength r := by
  induction l with
  | nil => exact Nat.le_add_left ..
  | cons c l ih =>
    rw [List.cons_append]
    by_cases h : EndsLine c (l ++ r)
    · rw [firstLength_of_endsLine h]
      exact Nat.zero_le _
    · rw [firstLength_cons h, firstLength_cons fun hl => h (hl.append r)]
      omega

theorem longest_lines_append_le (l r : List Char) :
    longest (lines (l ++ r)) ≤ longest (lines l) + longest (lines r) := by
  induction l with
  | nil => exact Nat.le_add_left ..
  | cons c l ih =>
    rw [List.cons_append]
    have hl := longest_lines l
    by_cases h : EndsLine c (l ++ r)
    · -- the line that ends is among those of the first text, or begins the second one
      rw [longest_lines_of_endsLine h]
      by_cases hc : EndsLine c l
      · rwa [longest_lines_of_endsLine hc]
      · rw [longest_lines_cons hc]
        omega
    · have hfirst := firstLength_append_le l r
      have hlr := longest_lines (l ++ r)
      have hr := longest_lines r
      rw [longest_lines_cons h, longest_lines_cons fun hl => h (hl.append r)]
      omega

/-- Two texts together have no more columns than one beside the other. -/
theorem columns_append_le (a b : String) : columns (a ++ b) ≤ columns a + columns b := by
  rw [columns_eq, columns_eq, columns_eq, String.toList_append]
  exact longest_lines_append_le ..

/-- A text has no more columns than characters. -/
theorem columns_ofList_le (l : List Char) : columns (String.ofList l) ≤ l.length := by
  rw [columns_eq, String.toList_ofList]
  induction l with
  | nil => exact Nat.zero_le _
  | cons c l ih =>
    rw [List.length_cons]
    by_cases h : EndsLine c l
    · rw [longest_lines_of_endsLine h]
      omega
    · have hl := longest_lines l
      rw [longest_lines_cons h]
      omega

/-! ## Cutting -/

/-- The start of a text with the ellipsis after it. -/
theorem columns_cut_le (config : Config Rat) (maxWidth : Rat) (text : String) :
    columns (String.ofList (text.toList.take (fitCount config maxWidth)) ++ config.ellipsis) ≤
      fitCount config maxWidth + columns config.ellipsis := by
  have happend := columns_append_le
    (String.ofList (text.toList.take (fitCount config maxWidth))) config.ellipsis
  have hstart := columns_ofList_le (text.toList.take (fitCount config maxWidth))
  have htake := List.length_take_le (fitCount config maxWidth) text.toList
  omega

variable {config : Config Rat} {maxWidth : Rat}

theorem floorNat_le {x : Rat} (h : 0 ≤ x) : (Scalar.floorNat x : Rat) ≤ x := by
  have hnonneg : 0 ≤ x.floor := Rat.le_floor_iff.mpr h
  show ((x.floor.toNat : Nat) : Rat) ≤ x
  rw [← Int.cast_natCast, Int.toNat_of_nonneg hnonneg]
  exact Rat.floor_le x

theorem floorNat_of_neg {x : Rat} (h : x < 0) : Scalar.floorNat x = 0 := by
  have hfloor : (x.floor : Rat) < 0 := (Rat.floor_le x).trans_lt h
  exact Int.toNat_of_nonpos (Int.cast_lt_zero.mp hfloor).le

theorem fitCount_of_lt_ellipsis (hchar : 0 < config.charWidth)
    (hplace : maxWidth < width config config.ellipsis) : fitCount config maxWidth = 0 :=
  floorNat_of_neg (div_neg_of_neg_of_pos (sub_neg.mpr hplace) hchar)

/-- A text that is cut for a place narrower than the ellipsis is the ellipsis. -/
theorem fit_of_lt_ellipsis {text : String} (hchar : 0 < config.charWidth)
    (hplace : maxWidth < width config config.ellipsis) (htext : maxWidth < width config text) :
    fit config maxWidth text = config.ellipsis := by
  rw [fit, if_neg (not_le.mpr htext), fitCount_of_lt_ellipsis hchar hplace, List.take_zero]
  exact String.empty_append

/-- A start that is cut to leave room for the ellipsis fits with it, if the ellipsis fits. -/
theorem width_cut_le (hchar : 0 < config.charWidth)
    (hplace : width config config.ellipsis ≤ maxWidth) (text : String) :
    width config (String.ofList (text.toList.take (fitCount config maxWidth)) ++ config.ellipsis) ≤
      maxWidth := by
  have hwhole := floorNat_le (div_nonneg (sub_nonneg.mpr hplace) hchar.le)
  have hcut : (fitCount config maxWidth : Rat) * config.charWidth ≤
      maxWidth - width config config.ellipsis := (le_div_iff₀ hchar).mp hwhole
  have hcolumns : (columns (String.ofList (text.toList.take (fitCount config maxWidth)) ++
      config.ellipsis) : Rat) ≤ fitCount config maxWidth + columns config.ellipsis := by
    exact_mod_cast columns_cut_le config maxWidth text
  have hwidth := mul_le_mul_of_nonneg_right hcolumns hchar.le
  rw [add_mul] at hwidth
  refine hwidth.trans ?_
  show _ + width config config.ellipsis ≤ _
  linarith only [hcut]

/-- A text in its place is no wider than that, or than the ellipsis. -/
theorem width_fit_le (hchar : 0 < config.charWidth) (maxWidth : Rat) (text : String) :
    width config (fit config maxWidth text) ≤ max maxWidth (width config config.ellipsis) := by
  by_cases htext : width config text ≤ maxWidth
  · rw [fit_of_le htext]
    exact htext.trans (le_max_left ..)
  by_cases hplace : maxWidth < width config config.ellipsis
  · rw [fit_of_lt_ellipsis hchar hplace (not_le.mp htext)]
    exact le_max_right ..
  · rw [fit, if_neg htext]
    exact le_max_of_le_left (width_cut_le hchar (not_lt.mp hplace) text)

end EnvDiagram.Text
