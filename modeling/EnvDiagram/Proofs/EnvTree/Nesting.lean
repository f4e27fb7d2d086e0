import EnvDiagram.EnvTree.Nesting
import EnvDiagram.Proofs.EnvTree.Circles
import EnvDiagram.Proofs.Steps

/-!
# The repaired nesting

Whatever the parent links of a snapshot are, the links of its nesting lead from positions to
positions, never to the global environment, and in no circle (`ofSnapshot_wellFormed`).
Every identity of the snapshot has a position (`mem_ids_withoutDuplicates`), and only one
(`nodup_ids_withoutDuplicates`).
-/

namespace EnvDiagram

variable {envs : List Environment} {s : Snapshot} {i p : Nat}

/-! ## Each identity once -/

theorem withoutDuplicates_concat (envs : List Environment) (env : Environment) :
    withoutDuplicates (envs ++ [env]) =
      if (withoutDuplicates envs).any (·.id = env.id) then withoutDuplicates envs
      else withoutDuplicates envs ++ [env] := by
  rw [withoutDuplicates, List.foldl_concat, ← withoutDuplicates]

/-- The environments that are kept have different identities, and every identity is kept. -/
theorem withoutDuplicates_spec (envs : List Environment) :
    ((withoutDuplicates envs).map Environment.id).Nodup ∧
      ∀ e, e ∈ (withoutDuplicates envs).map Environment.id ↔ e ∈ envs.map Environment.id := by
  let P : List Environment → List Environment → Prop := fun done kept =>
    (kept.map Environment.id).Nodup ∧
      ∀ e, e ∈ kept.map Environment.id ↔ e ∈ done.map Environment.id
  refine foldl_keeps (P := P) envs ?_ ⟨List.nodup_nil, by simp⟩
  rintro done env kept - ⟨hnd, hmem⟩
  by_cases hany : kept.any (·.id = env.id) = true
  · rw [if_pos hany]
    obtain ⟨k, hk, hid⟩ := List.any_eq_true.mp hany
    have hin : env.id ∈ done.map Environment.id := by
      rw [← hmem]
      exact List.mem_map.mpr ⟨k, hk, by simpa using hid⟩
    refine ⟨hnd, fun e => ?_⟩
    rw [hmem, List.map_append, List.mem_append]
    constructor
    · exact Or.inl
    · rintro (h | h)
      · exact h
      · rw [List.map_singleton, List.mem_singleton] at h
        rwa [h]
  · rw [if_neg hany]
    refine ⟨?_, fun e => ?_⟩
    · rw [List.map_append, List.nodup_append]
      refine ⟨hnd, by simp, ?_⟩
      rintro a ha b hb rfl
      obtain ⟨k, hk, hid⟩ := List.mem_map.mp ha
      have hb' : a = env.id := by simpa using hb
      exact hany (List.any_eq_true.mpr ⟨k, hk, by simp [hid, hb']⟩)
    · rw [List.map_append, List.map_append, List.mem_append, List.mem_append, hmem]

theorem nodup_ids_withoutDuplicates (envs : List Environment) :
    ((withoutDuplicates envs).map Environment.id).Nodup :=
  (withoutDuplicates_spec envs).1

theorem mem_ids_withoutDuplicates {envs : List Environment} {e : EnvId} :
    e ∈ (withoutDuplicates envs).map Environment.id ↔ e ∈ envs.map Environment.id :=
  (withoutDuplicates_spec envs).2 e

namespace Nesting

/-! ## Positions -/

theorem position_lt {id : EnvId} (h : position envs id = some p) : p < envs.length :=
  (List.findIdx?_eq_some_iff_findIdx_eq.mp h).1

theorem chooseRoot_lt {chain : List EnvId} {r : Nat} (h : chooseRoot envs chain = some r) :
    r < envs.length := by
  unfold chooseRoot at h
  rcases Option.or_eq_some_iff.mp h with h | ⟨-, h⟩
  · obtain ⟨hp, -⟩ := Option.filter_eq_some_iff.mp h
    obtain ⟨id, -, hp⟩ := Option.bind_eq_some_iff.mp hp
    exact position_lt hp
  · exact (List.findIdx?_eq_some_iff_findIdx_eq.mp h).1

/-! ## Links -/

/-- A link that can be followed leads from an environment other than the global one to the
position of its parent, which is not global either. -/
theorem link_eq_some {root : Option Nat} {env : Environment} (h : (link envs root i env).1 = some p) :
    root ≠ some i ∧ root ≠ some p ∧ ∃ id, env.parent = some id ∧ position envs id = some p := by
  unfold link at h
  split at h
  · simp at h
  · rename_i hi
    split at h
    · simp at h
    · rename_i id hid
      split at h
      · rename_i q hq
        split at h
        · simp at h
        · rename_i hroot
          have hqp : q = p := by simpa using h
          subst hqp
          exact ⟨hi, hroot, id, hid, hq⟩
      · simp at h

/-- The links of the environments before circles are opened. -/
def rawLinks (envs : List Environment) (root : Option Nat) : Links :=
  ⟨((envs.mapIdx (link envs root)).map Prod.fst).toArray⟩

theorem size_rawLinks (envs : List Environment) (root : Option Nat) :
    (rawLinks envs root).size = envs.length := by
  simp [rawLinks, Links.size]

theorem parent_rawLinks {root : Option Nat} (h : (rawLinks envs root).parent i = some p) :
    ∃ env, envs[i]? = some env ∧ (link envs root i env).1 = some p := by
  have hi : i < envs.length := by
    rw [← size_rawLinks envs root]
    exact Links.lt_size_of_parent h
  refine ⟨envs[i], List.getElem?_eq_getElem hi, ?_⟩
  simpa [rawLinks, Links.parent, Array.getD, hi] using h

theorem closed_rawLinks (envs : List Environment) (root : Option Nat) :
    (rawLinks envs root).Closed := by
  intro i p hp
  obtain ⟨env, -, hlink⟩ := parent_rawLinks hp
  obtain ⟨-, -, id, -, hpos⟩ := link_eq_some hlink
  rw [size_rawLinks]
  exact position_lt hpos

/-! ## The nesting of a snapshot -/

theorem ofSnapshot_envs (s : Snapshot) :
    (ofSnapshot s).1.envs = (withoutDuplicates s.envs).toArray := rfl

theorem ofSnapshot_links (s : Snapshot) :
    (ofSnapshot s).1.links =
      (rawLinks (withoutDuplicates s.envs) (ofSnapshot s).1.root).openCircles.1 := rfl

theorem ofSnapshot_snd (s : Snapshot) : (ofSnapshot s).2 =
    (duplicates [] s.envs).map .duplicateEnv ++
      (if (ofSnapshot s).1.root.isNone then [.missingGlobal] else []) ++
      ((withoutDuplicates s.envs).mapIdx
        (link (withoutDuplicates s.envs) (ofSnapshot s).1.root)).filterMap Prod.snd ++
      (rawLinks (withoutDuplicates s.envs) (ofSnapshot s).1.root).openCircles.2.filterMap fun i =>
        ((withoutDuplicates s.envs)[i]?).map fun env => .parentCycle env.id := rfl

/-- What the repairs establish. -/
structure WellFormed (n : Nesting) : Prop where
  size_links : n.links.size = n.size
  closed : n.links.Closed
  forest : n.links.Forest
  root_lt : ∀ {r : Nat}, n.root = some r → r < n.size
  /-- No link leads to the global environment. -/
  root_ne : ∀ {i p : Nat}, n.links.parent i = some p → n.root ≠ some p
  /-- The global environment has no link. -/
  root_parentless : ∀ {r : Nat}, n.root = some r → n.links.parent r = none

theorem size_links_ofSnapshot (s : Snapshot) :
    (ofSnapshot s).1.links.size = (withoutDuplicates s.envs).length := by
  have hsub := Links.openCircles_sub (rawLinks (withoutDuplicates s.envs) (ofSnapshot s).1.root)
  rw [ofSnapshot_links, hsub.size, size_rawLinks]

/-- The links that are left were there from the start. -/
theorem parent_ofSnapshot (h : (ofSnapshot s).1.links.parent i = some p) :
    ∃ env, (withoutDuplicates s.envs)[i]? = some env ∧
      (link (withoutDuplicates s.envs) (ofSnapshot s).1.root i env).1 = some p := by
  have hsub := Links.openCircles_sub (rawLinks (withoutDuplicates s.envs) (ofSnapshot s).1.root)
  rw [ofSnapshot_links] at h
  exact parent_rawLinks (hsub.parent h)

theorem size_ofSnapshot (s : Snapshot) :
    (ofSnapshot s).1.size = (withoutDuplicates s.envs).length := by
  simp [size, ofSnapshot_envs]

theorem ofSnapshot_wellFormed (s : Snapshot) : (ofSnapshot s).1.WellFormed where
  size_links := by rw [size_links_ofSnapshot, size_ofSnapshot]
  closed := by
    intro i p h
    obtain ⟨env, -, hlink⟩ := parent_ofSnapshot h
    obtain ⟨-, -, id, -, hpos⟩ := link_eq_some hlink
    rw [size_links_ofSnapshot]
    exact position_lt hpos
  forest := by
    rw [ofSnapshot_links]
    exact Links.openCircles_forest _
  root_lt := by
    intro r h
    rw [size_ofSnapshot]
    exact chooseRoot_lt h
  root_ne := by
    intro i p h
    obtain ⟨env, -, hlink⟩ := parent_ofSnapshot h
    exact (link_eq_some hlink).2.1
  root_parentless := by
    intro r hr
    cases hp : (ofSnapshot s).1.links.parent r with
    | none => rfl
    | some p =>
      obtain ⟨env, -, hlink⟩ := parent_ofSnapshot hp
      exact absurd hr (link_eq_some hlink).1

theorem exists_id?_iff (s : Snapshot) (e : EnvId) :
    (∃ i < (ofSnapshot s).1.size, (ofSnapshot s).1.id? i = some e) ↔
      ∃ env ∈ s.envs, env.id = e := by
  have hmem := @mem_ids_withoutDuplicates s.envs e
  simp only [List.mem_map] at hmem
  rw [← hmem]
  simp only [id?, size, ofSnapshot_envs, List.size_toArray, List.getElem?_toArray,
    Option.map_eq_some_iff]
  constructor
  · rintro ⟨i, -, env, henv, hid⟩
    exact ⟨env, List.mem_of_getElem? henv, hid⟩
  · rintro ⟨env, henv, hid⟩
    obtain ⟨i, hi, rfl⟩ := List.mem_iff_getElem.mp henv
    exact ⟨i, hi, _, List.getElem?_eq_getElem hi, hid⟩

end Nesting

end EnvDiagram
