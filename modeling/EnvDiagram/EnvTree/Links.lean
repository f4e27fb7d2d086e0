/-!
# Parent links

Members `0, 1, …, n - 1`, each with a link to its parent or with none. Links need not
form a forest: they may run in circles, which `openCircles` opens. Walks along the links
are bounded by the number of members, since a longer one has met a member twice.

* `climb` — the walk outward
* `openCircles` — opens every circle at its smallest member
* `nearest` — the nearest ancestor that passes a test
* `contract` — links between the members that pass a test
-/

namespace EnvDiagram

/-- The link of each member to its parent. -/
structure Links where
  parents : Array (Option Nat)
deriving DecidableEq, Repr

namespace Links

/-- The number of members. -/
def size (l : Links) : Nat := l.parents.size

/-- The parent of a member. -/
def parent (l : Links) (i : Nat) : Option Nat := l.parents.getD i none

/-- Links given by a function on the members `0, 1, …, n - 1`. -/
def ofFn (n : Nat) (f : Nat → Option Nat) : Links := ⟨((List.range n).map f).toArray⟩

/-- The links with one member's link removed. -/
def detach (l : Links) (i : Nat) : Links := ⟨l.parents.setIfInBounds i none⟩

@[simp]
theorem size_ofFn (n : Nat) (f : Nat → Option Nat) : (ofFn n f).size = n := by
  simp [ofFn, size]

theorem parent_ofFn {n i : Nat} (f : Nat → Option Nat) (h : i < n) :
    (ofFn n f).parent i = f i := by
  simp [ofFn, parent, Array.getD, h]

@[simp]
theorem size_detach (l : Links) (i : Nat) : (l.detach i).size = l.size := by
  simp [detach, size]

/-! ## Walking outward -/

/-- The member reached after at most the given number of steps outward. -/
def climb (l : Links) : Nat → Nat → Nat
  | 0, i => i
  | n + 1, i =>
    match l.parent i with
    | none => i
    | some p => l.climb n p

/-- The nearest proper ancestor that passes a test, at most the given number of steps
away. -/
def nearest (l : Links) (keep : Nat → Bool) : Nat → Nat → Option Nat
  | 0, _ => none
  | n + 1, i =>
    match l.parent i with
    | none => none
    | some p => if keep p then some p else l.nearest keep n p

/-- Links from every member to its nearest ancestor that passes a test. -/
def contract (l : Links) (keep : Nat → Bool) : Links :=
  ofFn l.size fun i => l.nearest keep l.size i

/-- The members whose parent is the given one, in order. -/
def children (l : Links) (p : Option Nat) : List Nat :=
  (List.range l.size).filter fun i => l.parent i = p

@[simp]
theorem size_contract (l : Links) (keep : Nat → Bool) : (l.contract keep).size = l.size := by
  simp [contract]

theorem mem_children {l : Links} {p : Option Nat} {i : Nat} :
    i ∈ l.children p ↔ i < l.size ∧ l.parent i = p := by
  simp [children]

/-! ## Opening circles -/

/-- The members met after `i` on the walk outward, before `start` is met. -/
def circleAfter (l : Links) (start : Nat) : Nat → Nat → List Nat
  | 0, _ => []
  | n + 1, i =>
    match l.parent i with
    | none => []
    | some p => if p = start then [] else p :: l.circleAfter start n p

/-- The smallest member of the circle through `i`. -/
def circleLeast (l : Links) (i : Nat) : Nat := (l.circleAfter i l.size i).foldl min i

/-- Opens the circle that the walk from `start` ends in, if there is one, and notes the
member that was detached. A walk of as many steps as there are members ends at a member
without a parent unless it is caught in a circle. -/
def openFrom (cut : Links × List Nat) (start : Nat) : Links × List Nat :=
  let (l, detached) := cut
  let i := l.climb l.size start
  match l.parent i with
  | none => (l, detached)
  | some _ => (l.detach (l.circleLeast i), detached ++ [l.circleLeast i])

/-- Opens every circle at its smallest member; the members detached, in the order in
which their circles were found. -/
def openCircles (l : Links) : Links × List Nat :=
  (List.range l.size).foldl openFrom (l, [])

end Links

end EnvDiagram
