import EnvDiagram.Snapshot.Basic

/-!
# The chain of environments around the running code

From the current environment the parent links lead outward to the global one. The walk
ends at an environment that is unknown or has no parent, and before one that it has
already met. It is finite because every environment met is struck off the list that is
searched next; `outward_eq` is the equation to reason with.
-/

namespace EnvDiagram

/-- The parent that the first environment of an identity names. -/
def parentOf (envs : List Environment) (id : EnvId) : Option EnvId :=
  (envs.find? fun env => env.id = id).bind Environment.parent

/-- The environments with another identity. -/
def others (envs : List Environment) (id : EnvId) : List Environment :=
  envs.filter fun env => env.id ≠ id

/-- Striking off an environment that is there shortens the list. -/
theorem length_others_lt {envs : List Environment} {id parent : EnvId}
    (h : parentOf envs id = some parent) : (others envs id).length < envs.length := by
  obtain ⟨env, hfind, _⟩ := Option.bind_eq_some_iff.mp h
  have hmem := List.mem_of_find?_eq_some hfind
  have hid : env.id = id := by simpa using List.find?_some hfind
  rw [others, List.length_filter_lt_length_iff_exists]
  exact ⟨env, hmem, by simp [hid]⟩

/-- The environments met from `id` outward, up to the first one of `seen`. -/
def outward (envs : List Environment) (seen : List EnvId) (id : EnvId) : List EnvId :=
  if id ∈ seen then []
  else
    match _h : parentOf envs id with
    | none => [id]
    | some parent => id :: outward (others envs id) (id :: seen) parent
termination_by envs.length
decreasing_by exact length_others_lt _h

theorem outward_eq (envs : List Environment) (seen : List EnvId) (id : EnvId) :
    outward envs seen id =
      if id ∈ seen then []
      else
        match parentOf envs id with
        | none => [id]
        | some parent => id :: outward (others envs id) (id :: seen) parent := by
  rw [outward]
  split
  · rfl
  · split <;> simp_all

/-- The environments from the current one outward to the global one. -/
def Snapshot.scopeChain (s : Snapshot) : List EnvId :=
  match s.current with
  | none => []
  | some id => outward s.envs [] id

@[simp]
theorem scopeChain_of_none {s : Snapshot} (h : s.current = none) : s.scopeChain = [] := by
  rw [Snapshot.scopeChain, h]

end EnvDiagram
