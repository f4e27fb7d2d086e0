import EnvDiagram.Geometry
import EnvDiagram.Screen.Buffer

/-!
# Drawing with dots

A cell of the terminal shows a braille character of two by four dots, so that lines can
be drawn finer than the cells are. A cell has one color for all its dots: that of the
last dot painted in it.

* `Viewport.dot?` — the dot of a point on the canvas
* `lineDots` — the dots of a line between two dots
* `DotGrid.paint` — sets a dot
-/

namespace EnvDiagram

/-- The canvas, and the cells of the terminal that show it. The canvas has its origin at
the bottom left; `y` grows upwards. -/
structure Viewport where
  width : Float
  height : Float
  columns : Nat
  rows : Nat

/-- Painted dots. -/
structure DotGrid where
  columns : Nat
  /-- The dots of each cell as the bits of its braille character, and their color. -/
  cells : Array (Nat × Color)

/-! ## From the canvas to the grid -/

/-- The whole number at or below a positive float, zero for any other. -/
def truncated (x : Float) : Nat := x.toUInt64.toNat

/-- Where a coordinate falls among `n` places from one end of a length to the other. -/
def placeAmong (n : Nat) (x length : Float) : Nat :=
  truncated (x * (Float.ofNat n - 1.0) / length.abs)

namespace Viewport

/-- Whether a point lies off the canvas. -/
def isOutside (v : Viewport) (p : Point Float) : Bool :=
  p.x < 0.0 || v.width < p.x || p.y < 0.0 || v.height < p.y

/-- The dot of a point. -/
def dot? (v : Viewport) (p : Point Float) : Option (Nat × Nat) :=
  if v.isOutside p || v.width == 0.0 || v.height == 0.0 then none
  else
    some (placeAmong (2 * v.columns) p.x v.width,
      placeAmong (4 * v.rows) (v.height - p.y) v.height)

end Viewport

/-! ## Lines of dots -/

/-- The dots of a slanted line, one for each step of the longer side: the number of steps,
the position along both sides, and how far the line is from the next step of the shorter
side. -/
def slantedDots (long short : Nat) (back : Bool) : Nat → Nat → Nat → Int → List (Nat × Nat)
  | 0, _, _, _ => []
  | n + 1, i, j, d =>
    let next := if 0 < d then (if back then j - 1 else j + 1) else j
    let rest := if 0 < d then d - 2 * (long : Int) else d
    (i, j) :: slantedDots long short back n (i + 1) next (rest + 2 * (short : Int))

/-- The dots between two numbers, both included. -/
def between (a b : Nat) : List Nat := (List.range (max a b - min a b + 1)).map (min a b + ·)

/-- The dots of a line between two dots. -/
def lineDots (p q : Nat × Nat) : List (Nat × Nat) :=
  let dx := max p.1 q.1 - min p.1 q.1
  let dy := max p.2 q.2 - min p.2 q.2
  if dx = 0 then (between p.2 q.2).map fun y => (p.1, y)
  else if dy = 0 then (between p.1 q.1).map fun x => (x, p.2)
  else if dy < dx then
    let (a, b) := if q.1 < p.1 then (q, p) else (p, q)
    slantedDots dx dy (b.2 < a.2) (dx + 1) a.1 a.2 (2 * dy - dx : Int)
  else
    let (a, b) := if q.2 < p.2 then (q, p) else (p, q)
    (slantedDots dy dx (b.1 < a.1) (dy + 1) a.2 a.1 (2 * dx - dy : Int)).map Prod.swap

/-! ## Painting -/

namespace DotGrid

/-- A grid without dots. -/
def blank (v : Viewport) : DotGrid :=
  ⟨v.columns, Array.replicate (v.columns * v.rows) (0, .reset)⟩

/-- The bit of a dot in the braille character of its cell. -/
def bit (x y : Nat) : Nat :=
  match y % 4, x % 2 with
  | 0, 0 => 0x01
  | 1, 0 => 0x02
  | 2, 0 => 0x04
  | 0, _ => 0x08
  | 1, _ => 0x10
  | 2, _ => 0x20
  | _, 0 => 0x40
  | _, _ => 0x80

/-- Sets a dot, and gives its cell a color. -/
def paint (color : Color) (g : DotGrid) (dot : Nat × Nat) : DotGrid :=
  let (x, y) := dot
  { g with
    cells := g.cells.modify (y / 4 * g.columns + x / 2) fun cell => (cell.1 ||| bit x y, color) }

/-- Paints a line, if both ends are on the canvas. -/
def line (v : Viewport) (color : Color) (p q : Point Float) (g : DotGrid) : DotGrid :=
  match v.dot? p, v.dot? q with
  | some a, some b => (lineDots a b).foldl (paint color) g
  | _, _ => g

/-- Paints the four sides of a rectangle with its bottom-left corner at `p`. -/
def rectangle (v : Viewport) (color : Color) (p : Point Float) (width height : Float)
    (g : DotGrid) : DotGrid :=
  let right := p.x + width
  let top := p.y + height
  g |> line v color p ⟨p.x, top⟩
    |> line v color ⟨p.x, top⟩ ⟨right, top⟩
    |> line v color ⟨right, p.y⟩ ⟨right, top⟩
    |> line v color p ⟨right, p.y⟩

/-- A degree in radians. -/
def degree : Float := 3.141592653589793 / 180.0

/-- Paints a circle, one point for each degree. -/
def circle (v : Viewport) (color : Color) (center : Point Float) (radius : Float)
    (g : DotGrid) : DotGrid :=
  (List.range 360).foldl (fun g a =>
    let angle := Float.ofNat a * degree
    match v.dot? ⟨radius * Float.cos angle + center.x, radius * Float.sin angle + center.y⟩ with
    | some dot => g.paint color dot
    | none => g) g

/-- The braille characters and colors of the cells that have dots, with their places. -/
def painted (g : DotGrid) : List (Nat × Nat × Char × Color) :=
  g.cells.toList.zipIdx.filterMap fun ((bits, color), i) =>
    if bits = 0 then none
    else some (i % g.columns, i / g.columns, Char.ofNat (0x2800 + bits), color)

end DotGrid

end EnvDiagram
