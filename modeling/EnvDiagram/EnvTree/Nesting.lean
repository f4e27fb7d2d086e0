import EnvDiagram.Defect
import EnvDiagram.EnvTree.Links
import EnvDiagram.Snapshot.Chain

/-!
# The nesting of environments

The environments of a snapshot, each identity once, with repaired parent links. One of
them is the global environment, unless the snapshot has none. A link of `none` means
that the environment hangs off the global one; that is where all links go that cannot be
followed.

* `withoutDuplicates` — the first environment of every identity
* `Nesting.ofSnapshot` — the repaired nesting, and the defects found
-/

namespace EnvDiagram

/-- The environments in order, later ones of an identity that has occurred left out. -/
def withoutDuplicates (envs : List Environment) : List Environment :=
  envs.foldl (fun kept env => if kept.any (·.id = env.id) then kept else kept ++ [env]) []

/-- The environments that `withoutDuplicates` leaves out, with the identities in `seen`
taken already. -/
def duplicates (seen : List EnvId) : List Environment → List EnvId
  | [] => []
  | env :: rest =>
    if env.id ∈ seen then env.id :: duplicates seen rest
    else duplicates (env.id :: seen) rest

/-- The environments of a snapshot and how they lie in one another. -/
structure Nesting where
  /-- The environments in the order of their creation, with distinct identities. -/
  envs : Array Environment
  /-- The position of the global environment. -/
  root : Option Nat
  /-- The links between positions; no link leads to the global environment. -/
  links : Links

namespace Nesting

/-- The position of an identity. -/
def position (envs : List Environment) (id : EnvId) : Option Nat :=
  envs.findIdx? fun env => env.id = id

/-- Whether the environment at a position has no parent. -/
def isParentless (envs : List Environment) (i : Nat) : Bool :=
  (envs[i]?).any fun env => env.parent.isNone

/-- The position of the global environment: where the walk outward from the current
environment ends, if that is a known environment without a parent, and otherwise the
first one without a parent. -/
def chooseRoot (envs : List Environment) (chain : List EnvId) : Option Nat :=
  ((chain.getLast?.bind (position envs)).filter (isParentless envs)).or
    (envs.findIdx? fun env => env.parent.isNone)

/-- The link of an environment, and the defect of a link that cannot be followed. -/
def link (envs : List Environment) (root : Option Nat) (i : Nat) (env : Environment) :
    Option Nat × Option Defect :=
  if root = some i then (none, none)
  else
    match env.parent with
    | none => (none, some (.extraRoot env.id))
    | some parent =>
      match position envs parent with
      | some p => (if root = some p then none else some p, none)
      | none => (none, some (.danglingParent env.id parent))

/-- The defects of circles, named by the positions at which they were opened. -/
def circleDefects (envs : List Environment) (detached : List Nat) : List Defect :=
  detached.filterMap fun i => (envs[i]?).map fun env => .parentCycle env.id

/-- The repaired nesting of a snapshot, and the defects in the order of the repairs. -/
def ofSnapshot (s : Snapshot) : Nesting × List Defect :=
  let envs := withoutDuplicates s.envs
  let root := chooseRoot envs s.scopeChain
  let linked := envs.mapIdx (link envs root)
  let (links, detached) := Links.openCircles ⟨(linked.map Prod.fst).toArray⟩
  let repeated := (duplicates [] s.envs).map .duplicateEnv
  let missing := if root.isNone then [.missingGlobal] else []
  let broken := linked.filterMap Prod.snd
  (⟨envs.toArray, root, links⟩,
    repeated ++ missing ++ broken ++ circleDefects envs detached)

/-- The number of environments. -/
def size (n : Nesting) : Nat := n.envs.size

/-- Whether a position is that of the global environment. -/
def isRoot (n : Nesting) (i : Nat) : Bool := n.root = some i

/-- The identity of the environment at a position. -/
def id? (n : Nesting) (i : Nat) : Option EnvId := (n.envs[i]?).map Environment.id

/-- Whether the environment at a position has names but no assigned one. -/
def onlyDeclares (n : Nesting) (i : Nat) : Bool :=
  (n.envs[i]?).any Environment.onlyDeclares

end Nesting

end EnvDiagram
