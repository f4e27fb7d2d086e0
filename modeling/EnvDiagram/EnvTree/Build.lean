import EnvDiagram.EnvTree.Folding

/-!
# The tree of environments

The environments that get a frame form one rooted tree. Its nodes are numbered breadth
first, siblings in the order of their creation, so a level is a run of numbers. Every
environment of the snapshot, skipped and folded ones included, has a node that stands
for it. A node is known by its number.

* `EnvTree.build` — the tree of a snapshot under a policy, and the defects found
* `EnvTree.resolve` — the node that stands for an environment
* `EnvTree.levels` — the nodes level by level
-/

namespace EnvDiagram

/-- A node of the tree. -/
structure TreeNode where
  /-- Absent only in the global node of a snapshot without a global environment. -/
  env : Option EnvId
  parent : Option Nat
  children : List Nat
  level : Nat
  /-- The environments folded into this node, outermost first. -/
  merged : List EnvId
  /-- Whether the environment has names but no assigned one. -/
  onlyDeclares : Bool
deriving DecidableEq, Repr

/-- Whether the node is the global one. -/
def TreeNode.isRoot (node : TreeNode) : Bool := node.parent.isNone

/-- A rooted tree of environments. -/
structure EnvTree where
  nodes : Array TreeNode
  /-- The node that stands for each environment. -/
  homes : List (EnvId × Nat)
deriving DecidableEq, Repr

namespace EnvTree

/-- The tree before any snapshot has been read. -/
def empty : EnvTree := ⟨#[], []⟩

/-- The node that stands for an environment. -/
def resolve (t : EnvTree) (env : EnvId) : Option Nat := t.homes.lookup env

/-- The depth of the tree. -/
def depth (t : EnvTree) : Nat := t.nodes.foldl (fun d node => max d (node.level + 1)) 0

/-- The nodes of one level, in order. -/
def nodesAt (t : EnvTree) (level : Nat) : List Nat :=
  (List.range t.nodes.size).filter fun i => (t.nodes[i]?).any fun node => node.level = level

/-- The nodes level by level. -/
def levels (t : EnvTree) : List (List Nat) := (List.range t.depth).map t.nodesAt

/-! ## Numbering -/

/-- Rows of places, each holding the children of the row before; the first row is given.
There are at most as many rows as the bound says. One after the other, the rows hold the places
in the order in which a queue finds them (`Search.tree_eq_build`). -/
def rows (children : Option Nat → List Nat) : Nat → List (Option Nat) → List (List (Option Nat))
  | 0, _ => []
  | n + 1, row =>
    if row.isEmpty then []
    else row :: rows children n (row.flatMap fun place => (children place).map some)

/-- The children of a place, in the order of their creation. -/
def childrenOf (f : Folding) (links : Links) (place : Option Nat) : List Nat :=
  (links.children place).filter f.isNode

/-- The rows of places of a folding: the global one alone, then ever further in. -/
def rowsOf (f : Folding) : List (List (Option Nat)) :=
  let links := f.nodeLinks
  rows (childrenOf f links) (f.size + 1) [none]

/-- The node of a place, given the rows' places in order. -/
def nodeOf (f : Folding) (links : Links) (order : List (Option Nat)) (level : Nat) :
    Option Nat → TreeNode
  | none =>
    { env := f.nesting.root.bind f.nesting.id?
      parent := none
      children := (childrenOf f links none).map fun c => order.idxOf (some c)
      level
      merged := []
      onlyDeclares := f.nesting.root.any f.nesting.onlyDeclares }
  | some i =>
    { env := f.nesting.id? i
      parent := some (order.idxOf (links.parent i))
      children := (childrenOf f links (some i)).map fun c => order.idxOf (some c)
      level
      merged := (f.merged i).filterMap f.nesting.id?
      onlyDeclares := f.nesting.onlyDeclares i }

/-- The tree of a folding. -/
def ofFolding (f : Folding) : EnvTree :=
  let links := f.nodeLinks
  let rows := rowsOf f
  let order := rows.flatten
  { nodes := (rows.mapIdx fun level row => row.map (nodeOf f links order level)).flatten.toArray
    homes := (List.range f.size).filterMap fun i =>
      (f.nesting.id? i).map fun id => (id, order.idxOf (f.place i)) }

/-- The tree of a snapshot, and the defects of its environments. -/
def build (s : Snapshot) (policy : FramePolicy) : EnvTree × List Defect :=
  let (nesting, defects) := Nesting.ofSnapshot s
  (ofFolding (Folding.ofNesting nesting policy), defects)

end EnvTree

end EnvDiagram
