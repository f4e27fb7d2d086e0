import EnvDiagram.EnvTree.Build
import EnvDiagram.Geometry
import EnvDiagram.Layout.Reference
import EnvDiagram.Text.Measure

/-!
# Frames

A frame is the drawn form of a node of the tree: a label and one row for each name. The
names are those of the node's environments, outermost first; where an inner environment
binds a name again it replaces the outer one in its row.

* `overlay` — the rows of several environments
* `Frame.place` — a frame at a position
-/

namespace EnvDiagram

variable {α : Type}

/-- A row of a frame: a name, and where its value is. -/
structure Binding (α : Type) where
  name : String
  constant : Bool
  /-- Absent for a name that is declared but unassigned. -/
  datum : Option Datum
  target : Option Nat
  frame : Nat
  index : Nat
  /-- The name and the colon after it. -/
  keyText : String
  /-- The place of the key text; the value comes after it. -/
  bounds : Bounds α

/-- The drawn form of a node of the tree. -/
structure Frame (α : Type) where
  id : Nat
  node : Nat
  env : Option EnvId
  isGlobal : Bool
  label : String
  bounds : Bounds α
  /-- The width of the frame and of the values to its right. -/
  totalWidth : α
  bindings : Array (Binding α)
  onlyDeclares : Bool

/-! ## Rows -/

/-- Puts a variable into the row of its name, or into a new last row. -/
def overlayOne (rows : List Variable) (v : Variable) : List Variable :=
  if rows.any (·.name = v.name) then rows.map fun row => if row.name = v.name then v else row
  else rows ++ [v]

/-- The rows of several environments, outermost first. -/
def overlay (envs : List Environment) : List Variable :=
  (envs.flatMap Environment.vars).foldl overlayOne []

/-- The text after the key in the row itself; an object is drawn elsewhere. -/
def rowText (config : Config α) : Option Datum → String
  | none => config.unassignedText
  | some (.primitive p) => p.display
  | some .null => "null"
  | some (.object _) => ""

variable [Scalar α]

open Scalar

/-- The right end of the key text, in the middle of the row: where the arrow starts. -/
def Binding.arrowTail (b : Binding α) : Point α :=
  ⟨b.bounds.right, b.bounds.y + half b.bounds.height⟩

namespace Frame

/-- The key text of a row. -/
def keyText (config : Config α) (v : Variable) : String :=
  Text.fit config config.textMaxWidth v.name ++
    if v.constant then config.constantColon else config.variableColon

/-- The width of a row's key and inline text, as far as a frame makes room for it. -/
def rowWidth (config : Config α) (v : Variable) : α :=
  least (Text.width config (keyText config v) + Text.width config (rowText config v.value))
    config.textMaxWidth

/-- The label above a frame. -/
def labelText (config : Config α) (isGlobal onlyDeclares : Bool) (envs : List Environment) :
    String :=
  if isGlobal then config.globalLabel
  else if onlyDeclares then config.predeclaredText
  else Text.fit config config.textMaxWidth ((envs.getLast?.map Environment.name).getD "")

/-- The row of a variable in a frame with its top-left corner at `p`. -/
def row (config : Config α) (frame : Nat) (p : Point α) (index : Nat) (v : Variable) :
    Binding α :=
  let keyText := keyText config v
  { name := v.name
    constant := v.constant
    datum := v.value
    target := none
    frame
    index
    keyText
    bounds :=
      { x := p.x + config.framePaddingX
        y := p.y + config.framePaddingY + (index : α) * config.cellHeight
        width := Text.width config keyText
        height := config.cellHeight } }

/-- A frame for a node, with its top-left corner at `p`; `envs` are the environments of
the node, outermost first. -/
def place (config : Config α) (id : Nat) (nodeId : Nat) (node : TreeNode)
    (envs : List Environment) (p : Point α) : Frame α :=
  let slots := overlay envs
  let widest := slots.foldl (fun w v => greatest w (rowWidth config v)) zero
  let width := greatest config.frameMinWidth widest + twice config.framePaddingX
  { id
    node := nodeId
    env := node.env
    isGlobal := node.isRoot
    label := labelText config node.isRoot node.onlyDeclares envs
    bounds :=
      { x := p.x
        y := p.y
        width
        height := (slots.length : α) * config.cellHeight + twice config.framePaddingY }
    totalWidth := width
    bindings := (slots.mapIdx (row config id p)).toArray
    onlyDeclares := node.onlyDeclares }

/-- The identifier of a frame for renderers; the global frame has one of its own. -/
def ident (config : Config α) (f : Frame α) : String :=
  match f.isGlobal, f.env with
  | false, some env => toString env.val
  | _, _ => config.globalIdent

/-- The row of a name. -/
def binding? (f : Frame α) (name : String) : Option (Binding α) :=
  f.bindings.find? fun b => b.name = name

end Frame

end EnvDiagram
