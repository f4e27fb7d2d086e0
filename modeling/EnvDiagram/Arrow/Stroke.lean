import EnvDiagram.Arrow.Route

/-!
# Arrows as they are drawn

What a renderer needs of a route besides its points: its length, and the two barbs of the
arrowhead.
-/

namespace EnvDiagram

/-- The hypotenuse over two legs whose squares neither overflow nor vanish. The root of the sum of
the squares is off by about `(root² - long² - short²) / (2 * root)`, and that is taken off it. The
numerator is the same in both cases, written with the difference between the root and a leg, so
that its leading digits cancel before anything is multiplied. -/
def correctedRoot (long short : Float) : Float :=
  let root := (long * long + short * short).sqrt
  let excess :=
    if root ≤ 2.0 * short then
      let rest := root - short
      long * (2.0 * rest - long) + (rest - 2.0 * (long - short)) * rest
    else
      let rest := root - long
      2.0 * rest * (long - 2.0 * short) + ((4.0 * rest - short) * short + rest * rest)
  root - excess / (2.0 * root)

/-- The hypotenuse over two finite legs, of which `long` is the longer one and neither is
negative. A leg too short to reach the digits of the other one is simply added to it, and legs
with huge or tiny squares are measured in another power of two. -/
def legsHypotenuse (long short : Float) : Float :=
  if short.scaleB 54 ≤ long then long + short
  else if Float.scaleB 1.0 511 < long then
    (correctedRoot (long.scaleB (-600)) (short.scaleB (-600))).scaleB 600
  else if short < Float.scaleB 1.0 (-459) then
    (correctedRoot (long.scaleB 600) (short.scaleB 600)).scaleB (-600)
  else correctedRoot long short

/-- The distance of two numbers from zero taken as legs of a right angle; infinite if a leg
is, whatever the other one. -/
def hypotenuse (a b : Float) : Float :=
  let a := a.abs
  let b := b.abs
  if a.isInf || b.isInf then 1.0 / 0.0
  else if a.isNaN || b.isNaN then 0.0 / 0.0
  else if a < b then legsHypotenuse b a
  else legsHypotenuse a b

/-- The length of a route: the sum over its segments. -/
def Route.length (r : Route Float) : Float :=
  r.segments.foldl (fun sum s => sum + hypotenuse (s.2.x - s.1.x) (s.2.y - s.1.y)) 0.0

/-- The angle between an arrow and each of its barbs, a sixth of a half turn. -/
def barbAngle : Float := 0.5235987755982989

/-- The ends of the barbs of an arrowhead at `tip`, on an arrow that comes from
`before`. -/
def arrowhead (before tip : Point Float) (size : Float) : Point Float × Point Float :=
  let angle := Float.atan2 (tip.y - before.y) (tip.x - before.x)
  let barb := fun a => ⟨tip.x - size * Float.cos a, tip.y - size * Float.sin a⟩
  (barb (angle + barbAngle), barb (angle - barbAngle))

end EnvDiagram
