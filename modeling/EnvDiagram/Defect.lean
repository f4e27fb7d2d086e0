import EnvDiagram.Scalar
import EnvDiagram.Snapshot.Basic

/-!
# Defects and warnings

Layout never fails. What is wrong with a snapshot is repaired where it occurs and
reported as a `Defect`; a diagram carries the defects of its snapshot as warnings, and
one more of its own if it is too large for the export.
-/

namespace EnvDiagram

/-- What is wrong with a snapshot. -/
inductive Defect where
  /-- No environment is without a parent. -/
  | missingGlobal
  /-- A second environment without a parent. -/
  | extraRoot (env : EnvId)
  /-- A later environment with an identity that is taken; it is ignored. -/
  | duplicateEnv (env : EnvId)
  /-- A parent that is not in the snapshot. -/
  | danglingParent (env parent : EnvId)
  /-- Parent links in a circle, which was cut at this environment. -/
  | parentCycle (env : EnvId)
  /-- An object that is not on the heap. -/
  | unresolvedDatum (datum : DatumId)
  /-- A closure over an environment that is not in the snapshot. -/
  | malformedClosure (datum : DatumId) (env : EnvId)
deriving DecidableEq, Repr

/-- The defect in words. -/
def Defect.message : Defect → String
  | .missingGlobal => "snapshot has no global environment"
  | .extraRoot env => "environment " ++ env.text ++ " has no parent, attached to global"
  | .duplicateEnv env => "environment " ++ env.text ++ " appears more than once"
  | .danglingParent env parent =>
    "environment " ++ env.text ++ " has unknown parent " ++ parent.text ++ ", attached to global"
  | .parentCycle env => "parent links cycle through environment " ++ env.text
  | .unresolvedDatum datum => "object " ++ datum.text ++ " is not in the snapshot"
  | .malformedClosure datum env =>
    "closure " ++ datum.text ++ " refers to unknown environment " ++ env.text

/-- What a diagram warns of. -/
inductive Warning (α : Type) where
  | defect (defect : Defect)
  /-- The diagram exceeds the export limits and is scaled down. -/
  | oversizedExport (width height scale : α)
deriving DecidableEq, Repr

/-- The warning in words. -/
def Warning.message {α : Type} [Scalar α] : Warning α → String
  | .defect d => d.message
  | .oversizedExport width height scale =>
    "diagram is " ++ Scalar.fixedText 0 width ++ "x" ++ Scalar.fixedText 0 height ++
      ", export scaled by " ++ Scalar.fixedText 3 scale

end EnvDiagram
