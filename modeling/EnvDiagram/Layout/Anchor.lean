import EnvDiagram.Layout.Value

/-!
# Anchors

Where a reference sits decides where the value that it brings is placed. The anchor of a
reference holds what the placement needs to know of its surroundings.

* A literal stands where it is referred to.
* An array or function of a binding stands to the right of the frame, level with its row.
* One of the last cell of an array stands to the right of that array; one of any other
  cell stands below it.
-/

namespace EnvDiagram

/-- The surroundings of a reference. -/
inductive Anchor (α : Type) where
  /-- A row of a frame. -/
  | row (frame index node : Nat) (frameBounds rowBounds : Bounds α)
  /-- A cell of an array. -/
  | cell (array index : Nat) (cellBounds : Bounds α) (isLast : Bool) (height : α)
  /-- A cell that no array has. -/
  | stray (array index : Nat)

namespace Anchor

variable {α : Type}

/-- The reference that the anchor belongs to. -/
def reference : Anchor α → Reference
  | .row frame index .. => .binding frame index
  | .cell array index .. => .cell array index
  | .stray array index => .cell array index

variable [Scalar α]

open Scalar

/-- A literal's text, cut to its place, and its rectangle: after the key text of a row, or
in the middle of a cell. -/
def placeText (config : Config α) (text : String) : Anchor α → String × Bounds α
  | .row _ _ _ _ b =>
    let text := Text.fit config (config.textMaxWidth - b.width) text
    (text,
      { x := b.right
        y := b.y + half (b.height - config.fontSize)
        width := Text.width config text
        height := config.fontSize })
  | .cell _ _ b _ _ => inBox b
  | .stray _ _ => inBox .empty
where
  /-- The text in the middle of a rectangle. -/
  inBox (b : Bounds α) : String × Bounds α :=
    let text := Text.fit config (b.width - twice config.textMargin) text
    let width := Text.width config text
    (text,
      { x := b.x + half (b.width - width)
        y := b.y + half (b.height - config.fontSize)
        width
        height := config.fontSize })

/-- The left edge of what stands to the right of a frame. -/
def besideFrame (config : Config α) (frameBounds : Bounds α) : α :=
  frameBounds.right + config.frameMarginX / (4 : Nat)

/-- The top-left corner of an array. -/
def arrayOrigin (config : Config α) : Anchor α → Point α
  | .row _ _ _ frameBounds b => ⟨besideFrame config frameBounds, b.y⟩
  | .cell _ _ b isLast height =>
    if isLast then ⟨b.x + twice config.cellWidth, b.y⟩
    else ⟨b.x, b.y + height + config.cellHeight⟩
  | .stray _ _ => .origin

/-- The middle of a function. -/
def functionCenter (config : Config α) (anchor : Anchor α) : Point α :=
  match anchor with
  | .row _ _ _ frameBounds b =>
    ⟨besideFrame config frameBounds + twice config.circleRadius, b.y + half b.height⟩
  | .cell _ _ _ isLast _ =>
    let p := anchor.arrayOrigin config
    ⟨p.x + half config.cellWidth,
      if isLast then p.y + half config.cellHeight else p.y + config.circleRadius⟩
  | .stray _ _ =>
    let p := anchor.arrayOrigin config
    ⟨p.x + half config.cellWidth, p.y + config.circleRadius⟩

end Anchor

end EnvDiagram
