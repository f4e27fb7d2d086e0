import EnvDiagram.Scalar

/-!
# Points and bounding boxes

The canvas has its origin at the top left; `y` grows downwards.
-/

namespace EnvDiagram

open Scalar

variable {α : Type}

/-- A position on the canvas. -/
structure Point (α : Type) where
  x : α
  y : α
deriving DecidableEq, Repr

/-- A rectangle on the canvas, given by its top-left corner and its size. -/
structure Bounds (α : Type) where
  x : α
  y : α
  width : α
  height : α
deriving DecidableEq, Repr

variable [Scalar α]

/-- The top-left corner of the canvas. -/
def Point.origin : Point α := ⟨zero, zero⟩

namespace Bounds

/-- The empty rectangle at the top-left corner of the canvas. -/
def empty : Bounds α := ⟨zero, zero, zero, zero⟩

/-- The right edge. -/
def right (b : Bounds α) : α := b.x + b.width

/-- The bottom edge. -/
def bottom (b : Bounds α) : α := b.y + b.height

/-- The middle of the rectangle. -/
def center (b : Bounds α) : Point α := ⟨b.x + half b.width, b.y + half b.height⟩

/-- The smallest rectangle that covers both. -/
def union (a b : Bounds α) : Bounds α :=
  let x := least a.x b.x
  let y := least a.y b.y
  { x, y
    width := greatest a.right b.right - x
    height := greatest a.bottom b.bottom - y }

/-- The smallest rectangle that covers a rectangle and a list of further ones. -/
def cover : List (Bounds α) → Bounds α
  | [] => empty
  | b :: more => more.foldl union b

/-- The smallest rectangle that covers a list of points. -/
def ofPoints : List (Point α) → Bounds α
  | [] => empty
  | p :: more =>
    let left := more.foldl (fun x q => least x q.x) p.x
    let top := more.foldl (fun y q => least y q.y) p.y
    let right := more.foldl (fun x q => greatest x q.x) p.x
    let bottom := more.foldl (fun y q => greatest y q.y) p.y
    ⟨left, top, right - left, bottom - top⟩

@[simp]
theorem union_x (a b : Bounds α) : (a.union b).x = least a.x b.x := rfl

@[simp]
theorem union_y (a b : Bounds α) : (a.union b).y = least a.y b.y := rfl

end Bounds

end EnvDiagram
