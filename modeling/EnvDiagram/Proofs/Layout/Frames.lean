import EnvDiagram.Proofs.Layout.Walk

/-!
# Frames and nodes

Every node of the tree has one frame, and a frame knows its own number. So every environment
of the snapshot has a frame that stands for it.

* `Layout.Numbered` — the frames, rows and cells of a layout know their numbers
* `Layout.frameOf_eq_some_iff`, `Layout.frameOf_isSome_iff` — the frame of a node
* `Layout.frameOfEnv_isSome_iff` — the frame of an environment
-/

namespace EnvDiagram

namespace Layout

variable {α : Type}

/-- Whether the frames, rows and cells of a layout carry the numbers of their places. -/
structure Numbered (l : Layout α) : Prop where
  frame : ∀ {f : Nat} {frame : Frame α}, l.frames[f]? = some frame → frame.id = f
  row : ∀ {f i : Nat} {frame : Frame α} {b : Binding α}, l.frames[f]? = some frame →
    frame.bindings[i]? = some b → b.frame = f ∧ b.index = i
  cell : ∀ {v i : Nat} {x : Value α} {cells : Array (Cell α)} {c : Cell α},
    l.values[v]? = some x → x.kind = .array cells → cells[i]? = some c → c.array = v ∧ c.index = i

variable [Scalar α] {config : Config α} {s : Snapshot} {node f : Nat}

theorem numbered_ofSnapshot (config : Config α) (s : Snapshot) :
    (ofSnapshot config s).Numbered where
  frame := (ofSnapshot_laid config s).built.frame_id
  row := (ofSnapshot_laid config s).built.row_label
  cell := fun hx => ((ofSnapshot_laid config s).built.labelled.value hx).cell

theorem id_of_frame {frame : Frame α} (h : (ofSnapshot config s).frames[f]? = some frame) :
    frame.id = f :=
  (ofSnapshot_laid config s).built.frame_id h

/-- The nodes of the frames are those of the tree. -/
theorem mem_node_frames :
    (∃ frame ∈ (ofSnapshot config s).frames, frame.node = node) ↔
      node < (ofSnapshot config s).tree.nodes.size := by
  have hnodes := (ofSnapshot_laid config s).nodes
  rw [tree_ofSnapshot] at hnodes ⊢
  rw [← EnvTree.mem_levels, ← hnodes, List.mem_map]
  simp only [Array.mem_toList_iff]

/-- No two frames are of the same node. -/
theorem nodup_node_frames : ((ofSnapshot config s).frames.toList.map Frame.node).Nodup := by
  rw [(ofSnapshot_laid config s).nodes, tree_ofSnapshot]
  exact EnvTree.nodup_levels _

theorem frameOf_eq_some_iff : (ofSnapshot config s).frameOf node = some f ↔
    ∃ frame, (ofSnapshot config s).frames[f]? = some frame ∧ frame.node = node := by
  rw [frameOf, Option.map_eq_some_iff]
  constructor
  · rintro ⟨frame, hfind, rfl⟩
    obtain ⟨i, hi⟩ := Array.getElem?_of_mem (Array.mem_of_find?_eq_some hfind)
    have hnode := Array.find?_some hfind
    rw [id_of_frame hi]
    exact ⟨frame, hi, by simpa using hnode⟩
  · rintro ⟨frame, hf, rfl⟩
    obtain ⟨other, hother⟩ : ∃ other, ((ofSnapshot config s).frames.find? fun g =>
        g.node = frame.node) = some other := by
      rw [← Option.isSome_iff_exists, Array.find?_isSome]
      exact ⟨frame, Array.mem_of_getElem? hf, by simp⟩
    refine ⟨other, hother, ?_⟩
    -- the frame that is found is this one, as no other is of the node
    obtain ⟨i, hi⟩ := Array.getElem?_of_mem (Array.mem_of_find?_eq_some hother)
    have hnode : other.node = frame.node := by simpa using Array.find?_some hother
    have hlt : i < (ofSnapshot config s).frames.size := (Array.getElem?_eq_some_iff.mp hi).1
    have hij : i = f := by
      refine (List.getElem?_inj (by simpa using hlt) nodup_node_frames).mp ?_
      simp [hi, hf, hnode]
    rw [id_of_frame hi, hij]

theorem frameOf_isSome_iff : ((ofSnapshot config s).frameOf node).isSome ↔
    node < (ofSnapshot config s).tree.nodes.size := by
  rw [← mem_node_frames, frameOf, Option.isSome_map, Array.find?_isSome]
  simp

/-- The environments that have a frame are those of the snapshot. -/
theorem frameOfEnv_isSome_iff (config : Config α) {env : EnvId} :
    ((ofSnapshot config s).frameOfEnv env).isSome ↔ ∃ e ∈ s.envs, e.id = env := by
  rw [← EnvTree.resolve_isSome_iff config.framePolicy, frameOfEnv, ← tree_ofSnapshot]
  constructor
  · intro h
    obtain ⟨f, hf⟩ := Option.isSome_iff_exists.mp h
    obtain ⟨node, hnode, -⟩ := Option.bind_eq_some_iff.mp hf
    rw [hnode]
    rfl
  · intro h
    obtain ⟨node, hnode⟩ := Option.isSome_iff_exists.mp h
    rw [hnode, Option.bind_some, frameOf_isSome_iff]
    rw [tree_ofSnapshot] at hnode ⊢
    exact EnvTree.resolve_lt hnode

end Layout

end EnvDiagram
