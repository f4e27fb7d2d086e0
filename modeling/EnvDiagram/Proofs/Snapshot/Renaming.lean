import Mathlib.Data.List.Basic
import Mathlib.Logic.Embedding.Basic
import EnvDiagram.Defect
import EnvDiagram.Snapshot.Chain

/-!
# Other identities

A snapshot names its environments and its objects by identities, which are compared and never
ordered or computed with. A renaming gives different identities to different environments, and
to different objects; what is looked up by a new identity in a renamed snapshot is the renamed
form of what the old one finds (`env?_rename`, `find?_rename`), so the walk outward is the same
(`scopeChain_rename`).

* `Renaming`, `Snapshot.rename` — new identities, put in wherever there was an old one
-/

namespace EnvDiagram

/-- New identities for environments and for objects. -/
structure Renaming where
  env : EnvId ↪ EnvId
  datum : DatumId ↪ DatumId

/-! ## Renamed parts of a snapshot -/

def Datum.rename (ρ : Renaming) : Datum → Datum
  | .primitive p => .primitive p
  | .null => .null
  | .object id => .object (ρ.datum id)

def Closure.rename (ρ : Renaming) (c : Closure) : Closure := { c with env := ρ.env c.env }

def HeapObject.rename (ρ : Renaming) : HeapObject → HeapObject
  | .array cells => .array (cells.map (Datum.rename ρ))
  | .closure c => .closure (c.rename ρ)

def Heap.rename (ρ : Renaming) (heap : Heap) : Heap :=
  heap.map (Prod.map ρ.datum (HeapObject.rename ρ))

def Variable.rename (ρ : Renaming) (v : Variable) : Variable :=
  { v with value := v.value.map (Datum.rename ρ) }

def Environment.rename (ρ : Renaming) (env : Environment) : Environment :=
  { env with
    id := ρ.env env.id
    parent := env.parent.map ρ.env
    vars := env.vars.map (Variable.rename ρ) }

/-- A snapshot with new identities throughout. -/
def Snapshot.rename (ρ : Renaming) (s : Snapshot) : Snapshot :=
  { s with
    envs := s.envs.map (Environment.rename ρ)
    heap := s.heap.rename ρ
    current := s.current.map ρ.env }

def Defect.rename (ρ : Renaming) : Defect → Defect
  | .missingGlobal => .missingGlobal
  | .extraRoot env => .extraRoot (ρ.env env)
  | .duplicateEnv env => .duplicateEnv (ρ.env env)
  | .danglingParent env parent => .danglingParent (ρ.env env) (ρ.env parent)
  | .parentCycle env => .parentCycle (ρ.env env)
  | .unresolvedDatum datum => .unresolvedDatum (ρ.datum datum)
  | .malformedClosure datum env => .malformedClosure (ρ.datum datum) (ρ.env env)

variable (ρ : Renaming)

/-! ## Looking up by identity -/

/-- A list with its keys renamed one to one has the same entries. -/
theorem lookup_map_prod {κ κ' β β' : Type} [BEq κ] [LawfulBEq κ] [BEq κ'] [LawfulBEq κ']
    {g : κ → κ'} (hg : Function.Injective g) (f : β → β') (entries : List (κ × β)) (k : κ) :
    (entries.map (Prod.map g f)).lookup (g k) = (entries.lookup k).map f := by
  induction entries with
  | nil => rfl
  | cons entry rest ih =>
    obtain ⟨d, b⟩ := entry
    rw [List.map_cons, Prod.map_apply, List.lookup_cons, List.lookup_cons, ih]
    by_cases hd : k = d
    · simp [hd]
    · have hne : (k == d) = false := by simpa using hd
      have hne' : (g k == g d) = false := by simpa using hg.ne hd
      rw [hne, hne']

theorem Heap.find?_rename (heap : Heap) (id : DatumId) :
    (heap.rename ρ).find? (ρ.datum id) = (heap.find? id).map (HeapObject.rename ρ) :=
  lookup_map_prod ρ.datum.injective _ heap id

theorem find?_id_rename (envs : List Environment) (id : EnvId) :
    ((envs.map (Environment.rename ρ)).find? fun env => env.id = ρ.env id) =
      (envs.find? fun env => env.id = id).map (Environment.rename ρ) := by
  rw [List.find?_map]
  congr 2
  funext env
  simp [Environment.rename]

theorem Snapshot.env?_rename (s : Snapshot) (id : EnvId) :
    (s.rename ρ).env? (ρ.env id) = (s.env? id).map (Environment.rename ρ) :=
  find?_id_rename ρ s.envs id

/-! ## The walk outward -/

theorem parentOf_rename (envs : List Environment) (id : EnvId) :
    parentOf (envs.map (Environment.rename ρ)) (ρ.env id) = (parentOf envs id).map ρ.env := by
  rw [parentOf, find?_id_rename, Option.bind_map, parentOf, Option.map_bind]
  rfl

theorem others_rename (envs : List Environment) (id : EnvId) :
    others (envs.map (Environment.rename ρ)) (ρ.env id) =
      (others envs id).map (Environment.rename ρ) := by
  rw [others, List.filter_map, others]
  congr 2
  funext env
  simp [Environment.rename]

theorem outward_rename (envs : List Environment) (seen : List EnvId) (id : EnvId) :
    outward (envs.map (Environment.rename ρ)) (seen.map ρ.env) (ρ.env id) =
      (outward envs seen id).map ρ.env := by
  induction envs, seen, id using outward.induct with
  | case1 envs seen id hmem =>
    rw [outward_eq, outward_eq envs, if_pos hmem, if_pos (List.mem_map_of_mem hmem), List.map_nil]
  | case2 envs seen id hmem hp =>
    have hmem' := mt (List.mem_map_of_injective ρ.env.injective).mp hmem
    rw [outward_eq, outward_eq envs, if_neg hmem, if_neg hmem', parentOf_rename, hp]
    rfl
  | case3 envs seen id hmem parent hp ih =>
    have hmem' := mt (List.mem_map_of_injective ρ.env.injective).mp hmem
    rw [outward_eq, outward_eq envs, if_neg hmem, if_neg hmem', parentOf_rename, hp,
      Option.map_some, others_rename]
    exact congrArg _ ih

theorem Snapshot.scopeChain_rename (s : Snapshot) :
    (s.rename ρ).scopeChain = s.scopeChain.map ρ.env := by
  cases hc : s.current with
  | none => rw [scopeChain_of_none hc, scopeChain_of_none (by rw [rename, hc]; rfl)]; rfl
  | some id =>
    have hc' : (s.rename ρ).current = some (ρ.env id) := by rw [rename, hc]; rfl
    rw [scopeChain, scopeChain, hc, hc']
    exact outward_rename ρ s.envs [] id

end EnvDiagram
