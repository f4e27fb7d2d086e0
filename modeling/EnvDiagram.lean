import EnvDiagram.Main
import EnvDiagram.Scalar.Exact
import EnvDiagram.Proofs.Diagram.Checked
import EnvDiagram.Proofs.Diagram.Connectors
import EnvDiagram.Proofs.EnvTree.Accounting
import EnvDiagram.Proofs.EnvTree.BreadthFirst
import EnvDiagram.Proofs.EnvTree.Circles
import EnvDiagram.Proofs.EnvTree.Lexical
import EnvDiagram.Proofs.Layout.Apart
import EnvDiagram.Proofs.Scene.Renaming
import EnvDiagram.Proofs.Viewer.Keys
import EnvDiagram.Proofs.Scene.Garbage
import EnvDiagram.Proofs.Diagram.Tasks
import EnvDiagram.Proofs.Diagram.Inventory
import EnvDiagram.Proofs.Diagram.Joints
import EnvDiagram.Proofs.Diagram.Landing
import EnvDiagram.Proofs.Layout.Rows
import EnvDiagram.Proofs.Viewer.Hovering
import EnvDiagram.Proofs.Layout.Literals
import EnvDiagram.Proofs.Layout.Unassigned
import EnvDiagram.Proofs.Text.Columns
import EnvDiagram.Proofs.Layout.Overhang
import EnvDiagram.Proofs.EnvTree.Cousins
import EnvDiagram.Proofs.Layout.Levels
import EnvDiagram.Proofs.EnvTree.Openings
import EnvDiagram.Proofs.EnvTree.Chains
import EnvDiagram.Proofs.EnvTree.Diagnosis
import EnvDiagram.Proofs.Layout.Anchors
import EnvDiagram.Proofs.Diagram.Routing
import EnvDiagram.Proofs.Diagram.Palettes
import EnvDiagram.Proofs.Scene.Drawings
import EnvDiagram.Proofs.Layout.Areas
import EnvDiagram.Proofs.Layout.Arrangement
import EnvDiagram.Proofs.Diagram.Lanes
import EnvDiagram.Proofs.Layout.Sites
import EnvDiagram.Proofs.Layout.Margins
import EnvDiagram.Proofs.Diagram.Sources
import EnvDiagram.Proofs.Diagram.Plumb
import EnvDiagram.Proofs.Diagram.Canvas
import EnvDiagram.Proofs.Viewer.Tooltips
import EnvDiagram.Proofs.Text.Fitting
import EnvDiagram.Proofs.Diagram.Export
import EnvDiagram.Proofs.Layout.Stages
import EnvDiagram.Proofs.Layout.Tour
import EnvDiagram.Proofs.Diagram.Order
import EnvDiagram.Proofs.Scene.StandIns
import EnvDiagram.Proofs.Scene.Repeats
import EnvDiagram.Proofs.Layout.Overlay
import EnvDiagram.Proofs.Text.Abridging
import EnvDiagram.Proofs.Viewer.TooltipWidths
import EnvDiagram.Proofs.Layout.Counterparts
import EnvDiagram.Proofs.Scene.Growth
import EnvDiagram.Proofs.EnvTree.Queue
