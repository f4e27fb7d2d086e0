import EnvDiagram.Snapshot.Size

/-!
# The history of a run

Snapshots in the order in which they were recorded, as far as a memory limit allows, and
a position that the viewer moves back and forth. An operation may be refused; what it has
done to the history by then is left behind.

* `History.Action` — operations on a history, with the history that they leave
* `History.push`, `History.forward`, `History.backward` — what comes of an operation that
  is not refused
-/

namespace EnvDiagram

/-- Why the history refuses an operation. -/
inductive HistoryError where
  | limitExceeded (used requested limit : Nat)
  | atStart
  | atEnd
  | empty
deriving DecidableEq, Repr

/-- The reason in words. -/
def HistoryError.message : HistoryError → String
  | .limitExceeded used requested limit =>
    "snapshot memory limit exceeded: " ++ toString used ++ " + " ++ toString requested ++
      " > " ++ toString limit
  | .atStart => "already at the first step"
  | .atEnd => "already at the last step"
  | .empty => "no snapshots recorded"

/-- Recorded snapshots with a cursor. -/
structure History where
  snapshots : Array Snapshot
  position : Nat
  limit : Nat
  used : Nat

namespace History

/-- A history without snapshots. -/
def ofLimit (limit : Nat) : History := ⟨#[], 0, limit, 0⟩

/-- The number of snapshots. -/
def length (h : History) : Nat := h.snapshots.size

/-- The snapshot at the cursor. -/
def current? (h : History) : Option Snapshot := h.snapshots[h.position]?

/-! ## Operations -/

/-- An operation that may be refused. There is a history after it in either case. -/
abbrev Action := EStateM HistoryError History Unit

namespace Action

/-- Records a snapshot at the end, unless the limit would be exceeded. -/
def push (s : Snapshot) : Action := do
  let h ← get
  if h.limit < h.used + s.size then
    throw (.limitExceeded h.used s.size h.limit)
  modify fun h => { h with used := h.used + s.size }
  modify fun h => { h with snapshots := h.snapshots.push s }

/-- Moves the cursor one snapshot on. -/
def forward : Action := do
  let h ← get
  if h.length = 0 then throw .empty
  if h.length ≤ h.position + 1 then throw .atEnd
  modify fun h => { h with position := h.position + 1 }

/-- Moves the cursor one snapshot back. -/
def backward : Action := do
  let h ← get
  if h.length = 0 then throw .empty
  if h.position = 0 then throw .atStart
  modify fun h => { h with position := h.position - 1 }

/-- Moves the cursor to the first snapshot. -/
def toStart : Action := modify fun h => { h with position := 0 }

/-- Moves the cursor to the last snapshot. -/
def toEnd : Action := modify fun h => { h with position := h.length - 1 }

/-- The history that is there in the end, refused or not. -/
def finalState : EStateM.Result HistoryError History Unit → History
  | .ok _ h => h
  | .error _ h => h

/-- The history that is made, or the reason why none is. -/
def toExcept : EStateM.Result HistoryError History Unit → Except HistoryError History
  | .ok _ h => .ok h
  | .error e _ => .error e

/-- The history that an operation leaves. -/
def left (action : Action) (h : History) : History := finalState (action.run h)

/-- The history that an operation makes, or why it is refused. -/
def result (action : Action) (h : History) : Except HistoryError History :=
  toExcept (action.run h)

variable (h : History)

theorem run_push (s : Snapshot) : (push s).run h =
    if h.limit < h.used + s.size then .error (.limitExceeded h.used s.size h.limit) h
    else .ok () { h with snapshots := h.snapshots.push s, used := h.used + s.size } := by
  unfold push
  split <;> simp [*]

theorem run_forward : forward.run h =
    if h.length = 0 then .error .empty h
    else if h.length ≤ h.position + 1 then .error .atEnd h
    else .ok () { h with position := h.position + 1 } := by
  unfold forward
  repeat' split
  all_goals simp [*]

theorem run_backward : backward.run h =
    if h.length = 0 then .error .empty h
    else if h.position = 0 then .error .atStart h
    else .ok () { h with position := h.position - 1 } := by
  unfold backward
  repeat' split
  all_goals simp [*]

end Action

/-- The history with one more snapshot. -/
def push (h : History) (s : Snapshot) : Except HistoryError History := (Action.push s).result h

/-- Records snapshots in order, up to the first one refused. -/
def pushAll (h : History) : List Snapshot → Except HistoryError History
  | [] => .ok h
  | s :: rest => (h.push s).bind fun h => h.pushAll rest

/-- The history at the next snapshot. -/
def forward (h : History) : Except HistoryError History := Action.forward.result h

/-- The history at the snapshot before. -/
def backward (h : History) : Except HistoryError History := Action.backward.result h

/-- The history at its first snapshot. -/
def toStart (h : History) : History := Action.toStart.left h

/-- The history at its last snapshot. -/
def toEnd (h : History) : History := Action.toEnd.left h

theorem push_eq (h : History) (s : Snapshot) : h.push s =
    if h.limit < h.used + s.size then .error (.limitExceeded h.used s.size h.limit)
    else .ok { h with snapshots := h.snapshots.push s, used := h.used + s.size } := by
  rw [push, Action.result, Action.run_push, apply_ite Action.toExcept]
  rfl

theorem forward_eq (h : History) : h.forward =
    if h.length = 0 then .error .empty
    else if h.length ≤ h.position + 1 then .error .atEnd
    else .ok { h with position := h.position + 1 } := by
  rw [forward, Action.result, Action.run_forward, apply_ite Action.toExcept,
    apply_ite Action.toExcept]
  rfl

theorem backward_eq (h : History) : h.backward =
    if h.length = 0 then .error .empty
    else if h.position = 0 then .error .atStart
    else .ok { h with position := h.position - 1 } := by
  rw [backward, Action.result, Action.run_backward, apply_ite Action.toExcept,
    apply_ite Action.toExcept]
  rfl

@[simp]
theorem position_toStart (h : History) : h.toStart.position = 0 := rfl

@[simp]
theorem length_toStart (h : History) : h.toStart.length = h.length := rfl

@[simp]
theorem length_toEnd (h : History) : h.toEnd.length = h.length := rfl

end History

end EnvDiagram
