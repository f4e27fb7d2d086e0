import EnvDiagram.Snapshot.Basic

/-!
# The estimated memory of a snapshot

A rough figure in bytes: a hundred for an environment or a closure, forty for an array,
and forty for each variable or cell; a closure also counts the bytes of its body.
-/

namespace EnvDiagram

/-- The estimated size of an environment. -/
def Environment.size (env : Environment) : Nat := 100 + 40 * env.vars.length

/-- The estimated size of an object. -/
def HeapObject.size : HeapObject → Nat
  | .array cells => 40 + 40 * cells.length
  | .closure c => 100 + c.body.utf8ByteSize

/-- The estimated size of a snapshot. -/
def Snapshot.size (s : Snapshot) : Nat :=
  s.envs.foldl (fun n env => n + env.size) 0 + s.heap.foldl (fun n entry => n + entry.2.size) 0

end EnvDiagram
