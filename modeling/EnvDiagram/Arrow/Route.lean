import EnvDiagram.Geometry

/-!
# Routes of arrows

A route is a polyline; the arrowhead sits on its last point. Four kinds are told apart by
how they get around their source.
-/

namespace EnvDiagram

/-- How a route gets to its target. -/
inductive RouteKind where
  /-- In one segment. -/
  | straight
  /-- Out to a vertical corridor, along it, and into the target. -/
  | elbow
  /-- Out, over the top, and back in from the left of a target behind the source. -/
  | detour
  /-- From a cell around to the left of its own array. -/
  | loop
deriving DecidableEq, Repr

/-- A polyline from a source to a target. -/
structure Route (α : Type) where
  kind : RouteKind
  points : List (Point α)
deriving DecidableEq, Repr

namespace Route

variable {α : Type}

/-- The first point. -/
def start? (r : Route α) : Option (Point α) := r.points.head?

/-- The last point. -/
def end? (r : Route α) : Option (Point α) := r.points.getLast?

/-- The pairs of neighbouring points. -/
def segmentsOf (points : List (Point α)) : List (Point α × Point α) :=
  points.zip points.tail

/-- The segments of a route. -/
def segments (r : Route α) : List (Point α × Point α) := segmentsOf r.points

/-- A route of one segment. -/
def straight (source target : Point α) : Route α := ⟨.straight, [source, target]⟩

@[simp]
theorem start?_straight (source target : Point α) :
    (straight source target).start? = some source := rfl

@[simp]
theorem end?_straight (source target : Point α) :
    (straight source target).end? = some target := rfl

end Route

end EnvDiagram
