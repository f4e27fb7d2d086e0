import EnvDiagram.Config
import EnvDiagram.EnvTree.Nesting

/-!
# Skipping and folding environments

A policy says which environments get a frame. Two kinds may do without:

* an environment without names is *skipped*: what lies in it hangs off the nearest
  environment that is kept;
* an environment of unassigned names only that holds exactly one kept environment is
  *folded* into that one, whose frame then lists those names first.

Whether an environment is folded depends only on the kept environments in it, not on other
foldings: folding one after the other, outermost first, ends in the same links
(`Snapshot.merging_eq`). A chain of folded environments ends in one that stands for all of
them.
-/

namespace EnvDiagram

/-- A nesting under a policy. -/
structure Folding where
  nesting : Nesting
  /-- Which positions are not skipped. -/
  kept : Array Bool
  /-- From every position to the nearest kept one around it. -/
  outer : Links
  /-- From a folded position to the one it is folded into. -/
  folds : Links

namespace Folding

/-- Whether the environment at a position is not skipped. -/
def keeps (n : Nesting) (policy : FramePolicy) (i : Nat) : Bool :=
  n.isRoot i || !(policy.skipEmpty && (n.envs[i]?).any fun env => env.vars.isEmpty)

/-- Where a position is folded into: its only kept child, if it is kept, not global, and
has unassigned names only. -/
def foldTarget (n : Nesting) (kept : Nat → Bool) (outer : Links) (i : Nat) : Option Nat :=
  if kept i && !n.isRoot i && n.onlyDeclares i then
    match (outer.children (some i)).filter kept with
    | [child] => some child
    | _ => none
  else none

/-- The kept environments of a nesting and the foldings between them. -/
def ofNesting (n : Nesting) (policy : FramePolicy) : Folding :=
  let kept := ((List.range n.size).map (keeps n policy)).toArray
  let isKept := fun i => kept.getD i false
  let outer := n.links.contract isKept
  let folds := Links.ofFn n.size fun i =>
    if policy.foldDeclared then foldTarget n isKept outer i else none
  ⟨n, kept, outer, folds⟩

/-- Whether a position is not skipped. -/
def isKept (f : Folding) (i : Nat) : Bool := f.kept.getD i false

/-- The number of environments. -/
def size (f : Folding) : Nat := f.nesting.size

/-- Whether a position other than the global one gets a node of its own. -/
def isNode (f : Folding) (i : Nat) : Bool :=
  f.isKept i && (f.folds.parent i).isNone && !f.nesting.isRoot i

/-- The positions folded into one, outermost first, at most the given number. -/
def foldedInto (f : Folding) : Nat → Nat → List Nat
  | 0, _ => []
  | n + 1, i =>
    match f.outer.parent i with
    | none => []
    | some p => if f.folds.parent p = some i then f.foldedInto n p ++ [p] else []

/-- The positions folded into one, outermost first. -/
def merged (f : Folding) (i : Nat) : List Nat := f.foldedInto f.size i

/-- The position around a node, none for the global environment. -/
def around (f : Folding) (i : Nat) : Option Nat :=
  f.outer.parent ((f.merged i).headD i)

/-- The links between the positions that have nodes. -/
def nodeLinks (f : Folding) : Links := Links.ofFn f.size f.around

/-- The position that stands for a kept one: where its chain of foldings ends. -/
def standIn (f : Folding) (i : Nat) : Nat := f.folds.climb f.size i

/-- The place that stands for a position: that of itself if it is kept, of the nearest
kept one around it if it is skipped. The global environment has the place `none`. -/
def place (f : Folding) (i : Nat) : Option Nat :=
  match if f.isKept i then some i else f.outer.parent i with
  | none => none
  | some j => if f.nesting.isRoot j then none else some (f.standIn j)

end Folding

end EnvDiagram
