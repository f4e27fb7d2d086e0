import EnvDiagram.Scalar

/-!
# Exact fractions as scalars

The rational numbers have all operations of `Scalar`, without rounding and without
undefined values. Statements about geometry that hold only up to rounding are stated
over them. Each operation is the usual one of the rationals.
-/

namespace EnvDiagram.ExactScalar

/-- The whole part of a positive fraction. -/
def floorNat (x : Rat) : Nat := x.floor.toNat

/-- The nearest whole number, a half away from zero. -/
def nearestInt (x : Rat) : Int :=
  if 0 ≤ x then (x + 1 / 2).floor else -((-x + 1 / 2).floor)

/-- A fraction with a fixed count of places. -/
def fixedText (places : Nat) (x : Rat) : String :=
  Decimal.signed (decide (x < 0)) ((Decimal.Ratio.mk x.num.natAbs x.den).fixed places)

end EnvDiagram.ExactScalar

namespace EnvDiagram

instance : Scalar Rat where
  decLe := inferInstance
  decLt := inferInstance
  least x y := if y < x then y else x
  greatest x y := if x < y then y else x
  floorNat := ExactScalar.floorNat
  nearestInt := ExactScalar.nearestInt
  fixedText := ExactScalar.fixedText

end EnvDiagram
