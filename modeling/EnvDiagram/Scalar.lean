import EnvDiagram.Decimal.Fixed

/-!
# Numbers for lengths and positions

All geometry is written over a type of numbers with the operations of `Scalar`, so that
one definition serves the floats that are drawn and the exact fractions that theorems
speak of.

Two operations deserve a word. `least` and `greatest` ignore an operand that cannot be
compared, so one undefined coordinate does not spoil a bounding box; and the two
conversions to whole numbers answer zero where there is nothing to convert.
-/

namespace EnvDiagram

/-- Numbers that lengths and positions are measured in. -/
class Scalar (α : Type) extends Add α, Sub α, Mul α, Div α, LE α, LT α, NatCast α where
  decLe : DecidableLE α
  decLt : DecidableLT α
  /-- The smaller operand; the other one if an operand is undefined. -/
  least : α → α → α
  /-- The larger operand; the other one if an operand is undefined. -/
  greatest : α → α → α
  /-- The whole part of a positive number, zero for any other. -/
  floorNat : α → Nat
  /-- The nearest whole number, a half away from zero. -/
  nearestInt : α → Int
  /-- The number with a fixed count of places. -/
  fixedText : Nat → α → String

attribute [reducible, instance] Scalar.decLe Scalar.decLt

namespace Scalar

variable {α : Type} [Scalar α]

/-- Zero. -/
def zero : α := (0 : Nat)

/-- Half of a length. -/
def half (x : α) : α := x / (2 : Nat)

/-- A length twice. -/
def twice (x : α) : α := (2 : Nat) * x

/-- Less than half a unit apart, which counts as the same row or column. -/
def Near (x y : α) : Prop :=
  x - y < (1 : Nat) / (2 : Nat) ∧ y - x < (1 : Nat) / (2 : Nat)

instance (x y : α) : Decidable (Near x y) := inferInstanceAs (Decidable (_ ∧ _))

end Scalar

/-! ## Floats -/

namespace FloatScalar

/-- The smaller of two floats, the first one of two equals. -/
def least (x y : Float) : Float :=
  if y < x then y else if x.isNaN then y else x

/-- The larger of two floats, the first one of two equals. -/
def greatest (x y : Float) : Float :=
  if x < y then y else if x.isNaN then y else x

/-- The whole part of a positive float, at most the largest 64-bit number. -/
def floorNat (x : Float) : Nat := x.floor.toUInt64.toNat

/-- The nearest whole number, a half away from zero, within the signed 64-bit numbers. -/
def nearestInt (x : Float) : Int := x.round.toInt64.toInt

end FloatScalar

instance : Scalar Float where
  natCast := Float.ofNat
  decLe := inferInstance
  decLt := inferInstance
  least := FloatScalar.least
  greatest := FloatScalar.greatest
  floorNat := FloatScalar.floorNat
  nearestInt := FloatScalar.nearestInt
  fixedText := Decimal.fixed

end EnvDiagram
