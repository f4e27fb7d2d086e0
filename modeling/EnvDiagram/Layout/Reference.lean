/-!
# References to values

A value is pointed at from a binding of a frame or from a cell of an array. Frames and
values are known by their numbers, counted from zero in the order in which they are
placed.
-/

namespace EnvDiagram

/-- What points at a value. -/
inductive Reference where
  | binding (frame index : Nat)
  | cell (array index : Nat)
deriving DecidableEq, Repr

/-- A number that denotes nothing in the layout at hand. -/
inductive LookupError where
  | noBinding (frame index : Nat)
  | noValue (value : Nat)
deriving DecidableEq, Repr

end EnvDiagram
