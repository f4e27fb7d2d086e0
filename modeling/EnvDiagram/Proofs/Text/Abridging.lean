import EnvDiagram.Layout.Value
import EnvDiagram.Proofs.Text.Fitting
import EnvDiagram.Scalar.Exact

/-!
# Bodies in exports

An export shows the start of a body and dots after it. The start is meant to have at most twenty
characters on at most two lines. Characters are only cut off a text of more than twenty-three,
though, so a text that is a little shorter keeps all of them, unless its lines are cut.

* `Text.lt_length_takeLines_iff` — how much of a text its first lines are
* `Abridges` — what an abridged text is
* `FunctionGlyph.abridges_exportBodyText` — when the body in an export is one
-/

namespace EnvDiagram

namespace Text

variable {c : Char} {n k : Nat} {l : List Char}

/-! ## The first lines of a text -/

theorem takeLines_cons (h : c ≠ '\n') (n : Nat) (l : List Char) :
    takeLines (n + 1) (c :: l) = c :: takeLines (n + 1) l :=
  if_neg h

theorem takeLines_one_feed (l : List Char) : takeLines 1 ('\n' :: l) = [] := rfl

theorem takeLines_succ_feed (n : Nat) (l : List Char) :
    takeLines (n + 2) ('\n' :: l) = '\n' :: takeLines (n + 1) l := rfl

theorem takeLines_isPrefix (n : Nat) (l : List Char) : takeLines (n + 1) l <+: l := by
  induction l generalizing n with
  | nil => exact List.nil_prefix
  | cons c l ih =>
    by_cases hc : c = '\n'
    · rw [hc]
      cases n with
      | zero => exact List.nil_prefix
      | succ n => exact (List.prefix_cons_inj _).mpr (ih n)
    · rw [takeLines_cons hc]
      exact (List.prefix_cons_inj c).mpr (ih n)

theorem count_takeLines_le (n : Nat) (l : List Char) : (takeLines (n + 1) l).count '\n' ≤ n := by
  induction l generalizing n with
  | nil => exact Nat.zero_le n
  | cons c l ih =>
    by_cases hc : c = '\n'
    · rw [hc]
      cases n with
      | zero => exact Nat.zero_le 0
      | succ n =>
        rw [takeLines_succ_feed, List.count_cons_self]
        exact Nat.succ_le_succ (ih n)
    · rw [takeLines_cons hc, List.count_cons_of_ne hc]
      exact ih n

/-- The first lines of a text hold a character if there are not too many line feeds up to it. -/
theorem lt_length_takeLines_iff :
    k < (takeLines (n + 1) l).length ↔ k < l.length ∧ (l.take (k + 1)).count '\n' ≤ n := by
  induction l generalizing n k with
  | nil => simp [takeLines]
  | cons c l ih =>
    rw [List.take_succ_cons, List.length_cons]
    by_cases hc : c = '\n'
    · rw [hc, List.count_cons_self]
      cases n with
      | zero => simp [takeLines_one_feed]
      | succ n =>
        rw [takeLines_succ_feed, List.length_cons, Nat.add_le_add_iff_right]
        cases k with
        | zero => simp
        | succ k => rw [Nat.add_lt_add_iff_right, Nat.add_lt_add_iff_right, ih]
    · rw [takeLines_cons hc, List.length_cons, List.count_cons_of_ne hc]
      cases k with
      | zero => simp
      | succ k => rw [Nat.add_lt_add_iff_right, Nat.add_lt_add_iff_right, ih]

/-- There is at most one line more than there are line feeds. -/
theorem length_lines_le (l : List Char) : (lines l).length ≤ l.count '\n' + 1 := by
  induction l with
  | nil => exact Nat.zero_le _
  | cons c l ih =>
    by_cases hfeed : c = '\n'
    · rw [hfeed, lines.eq_2, List.length_cons, List.count_cons_self]
      exact Nat.succ_le_succ ih
    rw [List.count_cons_of_ne hfeed]
    by_cases hreturn : c = '\r' ∧ l.head? = some '\n'
    · obtain ⟨rfl, hnext⟩ := hreturn
      rwa [lines_carriage_return_cons hnext]
    · rw [lines_cons (not_or.mpr ⟨hfeed, hreturn⟩), List.length_cons, List.length_tail]
      omega

end Text

/-! ## Abridged texts -/

/-- Whether a text is shown as its start, with dots after it. The start has at most so many
characters, and two lines. -/
def Abridges (limit : Nat) (text shown : String) : Prop :=
  ∃ start : String, shown = start ++ " ..." ∧ start.toList <+: text.toList ∧
    start.length ≤ limit ∧ (Text.lines start.toList).length ≤ 2

/-- Whether a text has more than twenty characters on its first two lines, but not enough in all to
be cut. -/
def EscapesCut (text : String) : Prop :=
  20 < text.length ∧ text.length ≤ 23 ∧ (text.toList.take 21).count '\n' ≤ 1

variable {limit : Nat} {text : String} {l : List Char}

/-- Dots are cut off in one way only. -/
theorem abridges_dots_iff : Abridges limit text (String.ofList l ++ " ...") ↔
    l <+: text.toList ∧ l.length ≤ limit ∧ (Text.lines l).length ≤ 2 := by
  constructor
  · rintro ⟨start, hshown, hstart, hlength, hlines⟩
    have hl : l = start.toList := by
      have happend := congrArg String.toList hshown
      rw [String.toList_append, String.toList_append, String.toList_ofList] at happend
      exact List.append_cancel_right happend
    rw [hl]
    exact ⟨hstart, hlength, hlines⟩
  · rintro ⟨hstart, hlength, hlines⟩
    refine ⟨String.ofList l, rfl, ?_, ?_, ?_⟩
    · rwa [String.toList_ofList]
    · rwa [String.length_ofList]
    · rwa [String.toList_ofList]

theorem abridges_takeLines_iff (h : l <+: text.toList) :
    Abridges limit text (String.ofList (Text.takeLines 2 l) ++ " ...") ↔
      (Text.takeLines 2 l).length ≤ limit := by
  have hlines : (Text.lines (Text.takeLines 2 l)).length ≤ 2 :=
    (Text.length_lines_le _).trans (Nat.succ_le_succ (Text.count_takeLines_le 1 l))
  rw [abridges_dots_iff]
  exact ⟨fun ⟨_, hlength, _⟩ => hlength,
    fun hlength => ⟨(Text.takeLines_isPrefix 1 l).trans h, hlength, hlines⟩⟩

theorem length_takeLines_le (l : List Char) : (Text.takeLines 2 l).length ≤ l.length :=
  (Text.takeLines_isPrefix 1 l).length_le

/-- A text is abridged to twenty-three characters, and to twenty but for those that escape. -/
theorem abridges_abridged (text : String) :
    Abridges 23 text (abridged text) ∧
      (Abridges 20 text (abridged text) ↔ ¬ EscapesCut text) := by
  unfold abridged
  by_cases hlong : 23 < text.length
  · have htake : (Text.takeLines 2 (text.toList.take 20)).length ≤ 20 :=
      (length_takeLines_le _).trans (List.length_take_le ..)
    have hstart : text.toList.take 20 <+: text.toList := List.take_prefix ..
    rw [if_pos hlong, abridges_takeLines_iff hstart, abridges_takeLines_iff hstart]
    exact ⟨by omega, iff_of_true htake fun ⟨_, hle, _⟩ => by omega⟩
  · have hlength : text.toList.length = text.length := String.length_toList
    have hle := length_takeLines_le text.toList
    have hescapes : EscapesCut text ↔ 20 < (Text.takeLines 2 text.toList).length := by
      rw [Text.lt_length_takeLines_iff, EscapesCut, hlength]
      exact and_congr_right fun _ => and_iff_right (by omega)
    rw [if_neg hlong, abridges_takeLines_iff List.prefix_rfl,
      abridges_takeLines_iff List.prefix_rfl, hescapes]
    exact ⟨by omega, not_lt.symm⟩

namespace FunctionGlyph

/-- The body of a closure is shown in an export as a start of at most two lines, with dots after
it. The start has at most twenty-three characters, and at most twenty unless the text escapes the
cut. -/
theorem abridges_exportBodyText {α : Type} [Scalar α] (config : Config α) (c : Closure)
    (enclosing : Nat) (center : Point α) :
    let shown := (ofClosure config c enclosing center).exportBodyText
    Abridges 23 ("body: " ++ c.body) shown ∧
      (Abridges 20 ("body: " ++ c.body) shown ↔ ¬ EscapesCut ("body: " ++ c.body)) :=
  abridges_abridged ("body: " ++ c.body)

/-- A body of seventeen characters is shown as a whole, with dots after it. -/
theorem not_abridges_exportBodyText_whole :
    let c : Closure := ⟨"f", ["a", "b", "c"], "return a + b + c;", ⟨0⟩⟩
    ¬ Abridges 20 ("body: " ++ c.body)
      (ofClosure (Config.standard : Config Rat) c 0 ⟨0, 0⟩).exportBodyText := by
  intro c
  show ¬ Abridges 20 ("body: " ++ c.body) (abridged ("body: " ++ c.body))
  rw [(abridges_abridged ("body: " ++ c.body)).2, not_not]
  unfold EscapesCut
  decide +kernel

end FunctionGlyph

end EnvDiagram
