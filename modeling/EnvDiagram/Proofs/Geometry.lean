import Mathlib.Algebra.Order.Ring.Rat
import Mathlib.Tactic.Linarith
import EnvDiagram.Geometry
import EnvDiagram.Scalar.Exact

/-!
# Rectangles over exact fractions

Over the rationals the larger of two numbers is their maximum and the smaller one their minimum, so
the far edges of a union are the further ones of the two rectangles.

* `Bounds.right_union`, `Bounds.bottom_union` — the far edges of a union
* `Bounds.Overlaps` — rectangles with a point in common
-/

namespace EnvDiagram

open Scalar

theorem greatest_eq_max (x y : Rat) : greatest x y = max x y := by
  rcases lt_or_ge x y with h | h
  · rw [max_eq_right h.le]
    exact if_pos h
  · rw [max_eq_left h]
    exact if_neg (not_lt.mpr h)

theorem least_eq_min (x y : Rat) : least x y = min x y := by
  rcases lt_or_ge y x with h | h
  · rw [min_eq_right h.le]
    exact if_pos h
  · rw [min_eq_left h]
    exact if_neg (not_lt.mpr h)

namespace Bounds

variable {a b : Bounds Rat}

theorem right_union (a b : Bounds Rat) : (a.union b).right = max a.right b.right := by
  rw [← greatest_eq_max]
  exact add_sub_cancel _ _

theorem bottom_union (a b : Bounds Rat) : (a.union b).bottom = max a.bottom b.bottom := by
  rw [← greatest_eq_max]
  exact add_sub_cancel _ _

theorem right_le_union_left (a b : Bounds Rat) : a.right ≤ (a.union b).right := by
  rw [right_union]
  exact le_max_left ..

theorem right_le_union_right (a b : Bounds Rat) : b.right ≤ (a.union b).right := by
  rw [right_union]
  exact le_max_right ..

theorem bottom_le_union_left (a b : Bounds Rat) : a.bottom ≤ (a.union b).bottom := by
  rw [bottom_union]
  exact le_max_left ..

theorem bottom_le_union_right (a b : Bounds Rat) : b.bottom ≤ (a.union b).bottom := by
  rw [bottom_union]
  exact le_max_right ..

/-- Whether a point is in a rectangle, be it on its edge. -/
def Contains (b : Bounds Rat) (p : Point Rat) : Prop :=
  b.x ≤ p.x ∧ p.x ≤ b.right ∧ b.y ≤ p.y ∧ p.y ≤ b.bottom

/-- Whether two rectangles have a point in common; they do if they touch. -/
def Overlaps (a b : Bounds Rat) : Prop := ∃ p, a.Contains p ∧ b.Contains p

theorem Overlaps.symm (h : a.Overlaps b) : b.Overlaps a := by
  obtain ⟨p, ha, hb⟩ := h
  exact ⟨p, hb, ha⟩

/-- What lies to the left of a rectangle does not overlap it. -/
theorem not_overlaps_of_right_lt (h : a.right < b.x) : ¬ a.Overlaps b := by
  rintro ⟨p, ⟨-, ha, -, -⟩, hb, -, -, -⟩
  exact absurd (hb.trans ha) (not_le.mpr h)

/-- What lies above a rectangle does not overlap it. -/
theorem not_overlaps_of_bottom_lt (h : a.bottom < b.y) : ¬ a.Overlaps b := by
  rintro ⟨p, ⟨-, -, -, ha⟩, -, -, hb, -⟩
  exact absurd (hb.trans ha) (not_le.mpr h)

end Bounds

end EnvDiagram
