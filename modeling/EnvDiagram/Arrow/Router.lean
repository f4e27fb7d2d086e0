import EnvDiagram.Arrow.Route
import EnvDiagram.Config

/-!
# Routing arrows

The router picks the simplest route that does not cut back through its source. Arrows
that leave from the same `x` share a corridor and take its lanes in turn, so that
parallel arrows stay apart. A corridor is known by the whole number nearest to its `x`.

* `Router.toPoint` — from point to point
* `Router.intoBox` — into a box
* `Router.loopBack` — from a cell back to its own array
* `Router.toFrame` — from a function to the frame that it closes over
-/

namespace EnvDiagram

open Scalar

variable {α : Type}

/-- The lanes handed out so far in one drawing. -/
structure Router (α : Type) where
  laneGap : α
  lanes : Nat
  /-- How far a detour or a loop rises above what it goes around. -/
  loopHeight : α
  framePaddingY : α
  /-- The number of lanes taken in each corridor. -/
  corridors : List (Int × Nat)

namespace Router

/-- The number of arrows that have taken a lane of a corridor. -/
def taken (r : Router α) (corridor : Int) : Nat := (r.corridors.lookup corridor).getD 0

/-- Notes one more arrow in a corridor. -/
def take (r : Router α) (corridor : Int) : Router α :=
  { r with corridors := (corridor, r.taken corridor + 1) :: r.corridors }

/-- Forgets which lanes are taken. -/
def reset (r : Router α) : Router α := { r with corridors := [] }

@[simp]
theorem taken_take_self (r : Router α) (corridor : Int) :
    (r.take corridor).taken corridor = r.taken corridor + 1 := by
  simp [take, taken]

theorem taken_take_of_ne (r : Router α) {corridor other : Int} (h : other ≠ corridor) :
    (r.take corridor).taken other = r.taken other := by
  have hne : (other == corridor) = false := by simpa using h
  simp [take, taken, List.lookup_cons, hne]

@[simp]
theorem taken_reset (r : Router α) (corridor : Int) : r.reset.taken corridor = 0 := rfl

variable [Scalar α]

/-- A router with all lanes free; there is at least one lane. -/
def ofConfig (config : Config α) : Router α :=
  let lanes := max config.arrowLanes 1
  { laneGap := half config.frameMarginX / (lanes : α)
    lanes
    loopHeight := config.arrowMinHeight / (4 : Nat)
    framePaddingY := config.framePaddingY
    corridors := [] }

/-- The distance of the next lane from the start of a corridor. -/
def laneOffset (r : Router α) (corridor : Int) : α :=
  ((r.taken corridor % r.lanes + 1 : Nat) : α) * r.laneGap

/-- The width of a corridor. -/
def corridorWidth (r : Router α) : α := r.laneGap * (r.lanes : α)

/-- A route from point to point. -/
def toPoint (r : Router α) (source target : Point α) : Route α × Router α :=
  if (Near source.y target.y ∧ source.x < target.x) ∨ Near source.x target.x then
    (.straight source target, r)
  else
    let corridor := nearestInt source.x
    let offset := r.laneOffset corridor
    let r' := r.take corridor
    let out := source.x + offset
    if r.corridorWidth < target.x - source.x then
      (⟨.elbow, [source, ⟨out, source.y⟩, ⟨out, target.y⟩, target]⟩, r')
    else
      let top := least source.y target.y - r.loopHeight
      let back := target.x - offset
      (⟨.detour,
        [source, ⟨out, source.y⟩, ⟨out, top⟩, ⟨back, top⟩, ⟨back, target.y⟩, target]⟩, r')

/-- A route into a box. From straight above or below it drops onto the edge; otherwise it
lands on the left edge at the given height. -/
def intoBox (r : Router α) (source : Point α) (target : Bounds α) (entryY : α) :
    Route α × Router α :=
  if target.x ≤ source.x ∧ source.x ≤ target.right then
    let y := if source.y < target.y then target.y else target.bottom
    (.straight source ⟨source.x, y⟩, r)
  else r.toPoint source ⟨target.x, entryY⟩

/-- A route from a cell back to its own array: up, to the left, and in from the left. -/
def loopBack (r : Router α) (source : Point α) (array : Bounds α) : Route α :=
  let top := array.y - r.loopHeight
  let left := array.x - twice r.laneGap
  let mid := array.y + half array.height
  ⟨.loop, [source, ⟨source.x, top⟩, ⟨left, top⟩, ⟨left, mid⟩, ⟨array.x, mid⟩]⟩

/-- Where an arrow lands on the right edge of a frame. -/
def frameEntry (r : Router α) (frame : Bounds α) : Point α :=
  ⟨frame.right, frame.y + least (half frame.height) r.framePaddingY⟩

/-- A route from a function to the right edge of the frame that it closes over. -/
def toFrame (r : Router α) (source : Point α) (frame : Bounds α) : Route α × Router α :=
  let target := r.frameEntry frame
  if frame.right < source.x then
    if Near source.y target.y then (.straight source target, r)
    else (⟨.elbow, [source, ⟨source.x, target.y⟩, target]⟩, r)
  else r.toPoint source target

/-! ## What a route leaves behind -/

/-- A route takes a lane at most. -/
theorem reset_toPoint (r : Router α) (source target : Point α) :
    (r.toPoint source target).2.reset = r.reset := by
  unfold toPoint
  split
  · rfl
  · dsimp only
    split <;> rfl

theorem reset_intoBox (r : Router α) (source : Point α) (target : Bounds α) (entryY : α) :
    (r.intoBox source target entryY).2.reset = r.reset := by
  unfold intoBox
  split
  · rfl
  · exact reset_toPoint ..

theorem reset_toFrame (r : Router α) (source : Point α) (frame : Bounds α) :
    (r.toFrame source frame).2.reset = r.reset := by
  unfold toFrame
  dsimp only
  split
  · split <;> rfl
  · exact reset_toPoint ..

end Router

end EnvDiagram
