import EnvDiagram.Proofs.Text.Columns

/-!
# Texts that are cut

A text that is too wide is cut and ends with the ellipsis. The cut counts characters over all
lines, so of a text with several lines it may take more away than it has to. Of a text on one
line it leaves as much as fits: there every character is a column.

* `lines_append_feed`, `columns_of_not_mem` — a line feed parts a text, and without one all is one
  line
* `columns_append_feed` — two texts with a line feed between them
* `IsLongestStart` — the longest start of a text that leaves room for the ellipsis
* `IsCut`, `isCut_fit` — what becomes of a text in its place
-/

namespace EnvDiagram.Text

variable {c : Char} {l r : List Char}

/-! ## Texts with and without line feeds -/

theorem lines_carriage_return_cons (h : l.head? = some '\n') : lines ('\r' :: l) = lines l := by
  obtain ⟨rest, rfl⟩ := List.head?_eq_some_iff.mp h
  rw [lines.eq_3, lines.eq_2]

/-- A carriage return that ends the text stays in its line. -/
example : lines ['a', '\r', '\n', 'b', '\r'] = [['a'], ['b', '\r']] := rfl

theorem lines_ne_nil (h : l ≠ []) : lines l ≠ [] := by
  obtain ⟨c, l, rfl⟩ := List.exists_cons_of_ne_nil h
  by_cases hc : EndsLine c l
  · obtain heq | ⟨heq, hhead⟩ := lines_cons_of_endsLine hc
    · simp [heq]
    · intro hnil
      rw [← heq, hnil] at hhead
      cases hhead
  · simp [lines_cons hc]

/-- What comes after a line feed are lines of their own. -/
theorem lines_append_feed (l r : List Char) :
    lines (l ++ '\n' :: r) = lines (l ++ ['\n']) ++ lines r := by
  induction l with
  | nil => exact lines.eq_2 r
  | cons c l ih =>
    have hhead : (l ++ '\n' :: r).head? = (l ++ ['\n']).head? := by cases l <;> rfl
    rw [List.cons_append, List.cons_append]
    by_cases hfeed : c = '\n'
    · rw [hfeed, lines.eq_2, lines.eq_2, ih, List.cons_append]
    by_cases hreturn : c = '\r' ∧ (l ++ ['\n']).head? = some '\n'
    · obtain ⟨rfl, hnext⟩ := hreturn
      rw [lines_carriage_return_cons hnext, lines_carriage_return_cons (hhead ▸ hnext), ih]
    · have hends : ¬ EndsLine c (l ++ ['\n']) := not_or.mpr ⟨hfeed, hreturn⟩
      have hends' : ¬ EndsLine c (l ++ '\n' :: r) := by
        rw [EndsLine, hhead]
        exact hends
      rw [lines_cons hends, lines_cons hends', ih]
      cases hlines : lines (l ++ ['\n']) with
      | nil => exact absurd hlines (lines_ne_nil (by simp))
      | cons line more => rfl

theorem lines_of_not_mem (h : '\n' ∉ l) (hne : l ≠ []) : lines l = [l] := by
  induction l with
  | nil => exact absurd rfl hne
  | cons c l ih =>
    obtain ⟨hc, hl⟩ := not_or.mp (mt List.mem_cons.mpr h)
    have hends : ¬ EndsLine c l := by
      rintro (hfeed | ⟨-, hhead⟩)
      · exact hc hfeed.symm
      · exact hl (List.mem_of_head? hhead)
    rw [lines_cons hends]
    by_cases hnil : l = []
    · rw [hnil]
      rfl
    · rw [ih hl hnil]
      rfl

/-- A text of at most one line has no line feed but for one at its end. -/
theorem not_mem_or_concat_of_lines (h : (lines l).length ≤ 1) :
    '\n' ∉ l ∨ ∃ line, l = line ++ ['\n'] ∧ '\n' ∉ line := by
  by_cases hmem : '\n' ∈ l
  · obtain ⟨line, rest, rfl, hline⟩ := List.eq_append_cons_of_mem hmem
    refine Or.inr ⟨line, ?_, hline⟩
    rw [lines_append_feed, List.length_append] at h
    have hfirst := List.length_pos_iff.mpr (lines_ne_nil (l := line ++ ['\n']) (by simp))
    have hrest : lines rest = [] := List.length_eq_zero_iff.mp (by omega)
    rw [not_imp_not.mp lines_ne_nil hrest]
  · exact Or.inl hmem

theorem longest_append (ls ls' : List (List Char)) :
    longest (ls ++ ls') = max (longest ls) (longest ls') := by
  induction ls with
  | nil => exact (Nat.zero_max _).symm
  | cons line ls ih => rw [List.cons_append, longest_cons, longest_cons, ih, Nat.max_assoc]

theorem longest_lines_of_not_mem (h : '\n' ∉ l) : longest (lines l) = l.length := by
  by_cases hne : l = []
  · rw [hne]
    rfl
  · rw [lines_of_not_mem h hne, longest_cons]
    exact Nat.max_zero _

/-- Without line feeds there is a column for every character. -/
theorem columns_of_not_mem {text : String} (h : '\n' ∉ text.toList) :
    columns text = text.toList.length := by
  rw [columns_eq, longest_lines_of_not_mem h]

/-- Whether a character is in a line wherever it stands, and never belongs to the end of one. -/
def StaysInLine (c : Char) : Prop := c ≠ '\n' ∧ c ≠ '\r'

theorem StaysInLine.not_endsLine (h : StaysInLine c) (rest : List Char) : ¬ EndsLine c rest :=
  fun hends => hends.elim h.1 fun hreturn => h.2 hreturn.1

/-- A line feed ends the line before it and adds no other, unless that line has ended already or a
carriage return goes with it. -/
theorem lines_concat_feed (h : StaysInLine c) (l : List Char) :
    lines (l ++ [c, '\n']) = lines (l ++ [c]) := by
  induction l with
  | nil =>
    rw [List.nil_append, List.nil_append, lines_cons (h.not_endsLine _),
      lines_cons (h.not_endsLine _)]
    rfl
  | cons d l ih =>
    have hhead : (l ++ [c, '\n']).head? = (l ++ [c]).head? := by cases l <;> rfl
    rw [List.cons_append, List.cons_append]
    by_cases hends : EndsLine d (l ++ [c])
    · have hends' : EndsLine d (l ++ [c, '\n']) := by
        rw [EndsLine, hhead]
        exact hends
      obtain rfl | ⟨rfl, hnext⟩ := hends
      · rw [lines.eq_2, lines.eq_2, ih]
      · rw [lines_carriage_return_cons hnext, lines_carriage_return_cons (hhead ▸ hnext), ih]
    · have hends' : ¬ EndsLine d (l ++ [c, '\n']) := by
        rw [EndsLine, hhead]
        exact hends
      rw [lines_cons hends, lines_cons hends', ih]

/-- Two texts with a line feed between them are as wide as the wider one. The first one must not
end with a character that may belong to the end of a line. -/
theorem columns_append_feed (h : StaysInLine c) {a : String} (ha : a.toList.getLast? = some c)
    (b : String) : columns (a ++ "\n" ++ b) = max (columns a) (columns b) := by
  obtain ⟨l, hl⟩ := List.getLast?_eq_some_iff.mp ha
  have hfirst : lines (a.toList ++ ['\n']) = lines a.toList := by
    rw [hl, List.append_assoc]
    exact lines_concat_feed h l
  rw [columns_eq, columns_eq, columns_eq, String.toList_append, String.toList_append,
    List.append_assoc]
  show longest (lines (a.toList ++ '\n' :: b.toList)) = _
  rw [lines_append_feed, hfirst, longest_append]

/-- A text that begins with a character of a line is not without width. -/
theorem columns_pos (h : StaysInLine c) {text : String} (htext : text.toList.head? = some c) :
    0 < columns text := by
  obtain ⟨l, hl⟩ := List.head?_eq_some_iff.mp htext
  rw [columns_eq, hl, longest_lines_cons (h.not_endsLine l)]
  omega

/-! ## The longest start -/

variable {config : Config Rat} {maxWidth : Rat} {text : String}

/-- Whether the start of a text fits with the ellipsis after it. -/
def FitsCut (config : Config Rat) (maxWidth : Rat) (start : List Char) : Prop :=
  width config (String.ofList start ++ config.ellipsis) ≤ maxWidth

/-- Whether a start of a text is the longest one that fits with the ellipsis after it. It is empty
if none does. -/
structure IsLongestStart (config : Config Rat) (maxWidth : Rat) (text start : List Char) : Prop where
  fits : FitsCut config maxWidth start ∨ start = []
  longest : ∀ other, other <+: text → FitsCut config maxWidth other → other <+: start

theorem le_floorNat {n : Nat} {x : Rat} (h : (n : Rat) ≤ x) : n ≤ Scalar.floorNat x := by
  have hfloor : (n : Int) ≤ x.floor := Rat.le_floor_iff.mpr (by exact_mod_cast h)
  show n ≤ x.floor.toNat
  omega

/-- Of a start on one line, no more fits than is taken. -/
theorem length_le_fitCount {start : List Char} (hchar : 0 < config.charWidth)
    (hellipsis : '\n' ∉ config.ellipsis.toList) (hstart : '\n' ∉ start)
    (h : FitsCut config maxWidth start) : start.length ≤ fitCount config maxWidth := by
  have hcolumns : columns (String.ofList start ++ config.ellipsis) =
      start.length + columns config.ellipsis := by
    rw [columns_of_not_mem hellipsis, columns_of_not_mem, String.toList_append,
      String.toList_ofList, List.length_append]
    rw [String.toList_append, String.toList_ofList, List.mem_append]
    exact not_or.mpr ⟨hstart, hellipsis⟩
  refine le_floorNat ((le_div_iff₀ hchar).mpr ?_)
  rw [FitsCut, width, hcolumns, Nat.cast_add, add_mul] at h
  show _ ≤ _ - (columns config.ellipsis : Rat) * config.charWidth
  linarith only [h]

/-- A text that ends with a line feed is as wide with the ellipsis after it. -/
theorem width_le_of_concat {line : List Char} (hchar : 0 < config.charWidth)
    (htext : text.toList = line ++ ['\n']) :
    width config text ≤ width config (String.ofList text.toList ++ config.ellipsis) := by
  have hcolumns : columns text ≤ columns (String.ofList text.toList ++ config.ellipsis) := by
    rw [columns_eq, columns_eq, String.toList_append, String.toList_ofList, htext,
      List.append_assoc, List.singleton_append, lines_append_feed line config.ellipsis.toList,
      longest_append]
    exact Nat.le_max_left ..
  exact mul_le_mul_of_nonneg_right (by exact_mod_cast hcolumns) hchar.le

/-- What is taken fits, or nothing is taken. -/
theorem fitsCut_take (hchar : 0 < config.charWidth) (maxWidth : Rat) (text : String) :
    FitsCut config maxWidth (text.toList.take (fitCount config maxWidth)) ∨
      text.toList.take (fitCount config maxWidth) = [] := by
  by_cases hplace : maxWidth < width config config.ellipsis
  · rw [fitCount_of_lt_ellipsis hchar hplace]
    exact Or.inr rfl
  · exact Or.inl (width_cut_le hchar (not_lt.mp hplace) text)

/-- Of a text on one line that is too wide, the cut leaves as much as fits. -/
theorem isLongestStart_take (hchar : 0 < config.charWidth)
    (hellipsis : '\n' ∉ config.ellipsis.toList) (hline : (lines text.toList).length ≤ 1)
    (htext : maxWidth < width config text) :
    IsLongestStart config maxWidth text.toList
      (text.toList.take (fitCount config maxWidth)) where
  fits := fitsCut_take hchar maxWidth text
  longest := by
    intro other hother hfits
    have hfeed : '\n' ∉ other := by
      rcases not_mem_or_concat_of_lines hline with hnone | ⟨line, hconcat, hnone⟩
      · exact fun hmem => hnone (hother.subset hmem)
      · -- a start with the line feed at the end is the whole text, which does not fit
        rw [hconcat] at hother
        rcases List.prefix_concat_iff.mp hother with rfl | hother
        · have hwhole := width_le_of_concat hchar hconcat
          rw [hconcat] at hwhole
          exact absurd (hwhole.trans hfits) (not_le.mpr htext)
        · exact fun hmem => hnone (hother.subset hmem)
    have hcount := length_le_fitCount hchar hellipsis hfeed hfits
    rw [List.prefix_iff_eq_take.mp hother]
    exact List.take_prefix_take_left hcount

/-! ## Texts in their places -/

/-- What becomes of a text in a place of the given width. -/
structure IsCut (config : Config Rat) (maxWidth : Rat) (text result : String) : Prop where
  /-- A text that fits stays as it is. -/
  whole : width config text ≤ maxWidth → result = text
  /-- Of any other a start is left, with the ellipsis after it. If text and ellipsis are on one line
  each, that is the longest one with room for the ellipsis. -/
  start : maxWidth < width config text → ∃ start,
    start <+: text.toList ∧ result = String.ofList start ++ config.ellipsis ∧
      ((lines text.toList).length ≤ 1 → '\n' ∉ config.ellipsis.toList →
        IsLongestStart config maxWidth text.toList start)
  /-- The text is no wider than its place, or than the ellipsis. -/
  width_le : width config result ≤ max maxWidth (width config config.ellipsis)
  /-- In the same place it stays as it is. -/
  again : fit config maxWidth result = result

/-- A text is cut to its place, at most once, and on one line no more than need be. -/
theorem isCut_fit (hchar : 0 < config.charWidth) (maxWidth : Rat) (text : String) :
    IsCut config maxWidth text (fit config maxWidth text) where
  whole := fit_of_le
  start := by
    intro htext
    refine ⟨text.toList.take (fitCount config maxWidth), List.take_prefix .., ?_,
      fun hline hellipsis => isLongestStart_take hchar hellipsis hline htext⟩
    rw [fit, if_neg (not_le.mpr htext)]
  width_le := width_fit_le hchar maxWidth text
  again := by
    have hwidth := width_fit_le hchar maxWidth text
    by_cases hplace : maxWidth < width config config.ellipsis
    · by_cases htext : maxWidth < width config text
      · -- only the ellipsis is left, and that is too wide itself
        rw [fit_of_lt_ellipsis hchar hplace htext, fit_of_lt_ellipsis hchar hplace hplace]
      · rw [fit_of_le (not_lt.mp htext), fit_of_le (not_lt.mp htext)]
    · rw [max_eq_left (not_lt.mp hplace)] at hwidth
      exact fit_of_le hwidth

/-- A name is cut to five columns. -/
theorem isCut_fit_name :
    0 < (Config.standard : Config Rat).charWidth ∧
      fit (.standard : Config Rat) 45 "a_rather_long_name" = "a_ra…" ∧
      IsCut .standard 45 "a_rather_long_name"
        (fit (.standard : Config Rat) 45 "a_rather_long_name") := by
  have hchar : 0 < (Config.standard : Config Rat).charWidth := by decide +kernel
  exact ⟨hchar, by decide +kernel, isCut_fit hchar 45 "a_rather_long_name"⟩

end EnvDiagram.Text
