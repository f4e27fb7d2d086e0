import EnvDiagram.Proofs.Layout.Faithful
import EnvDiagram.Proofs.Layout.Levels

/-!
# Frames and nodes

The nodes of the tree are numbered breadth first, and the levels are laid out one after the other,
so the frames come in the order of the nodes: a frame has the number of its node, and a level holds
the frames of the nodes of its depth. Every node has a frame, therefore, also what a function
points to and what stands for an environment.

* `Layout.map_depth_levels` — the levels are numbered from the outermost
* `Layout.frameOf_eq_some_iff_eq` — the frame of a node has its number
* `Layout.MirrorsTree` — frames and nodes correspond to each other
* `Scene.mirrorsTree_load` — that is so whatever was shown before
-/

namespace EnvDiagram

variable {α : Type}

namespace Layout

/-- Whether the frames of a layout are those of the nodes of its tree, under the same numbers. -/
structure MirrorsTree (l : Layout α) (s : Snapshot) : Prop where
  size : l.frames.size = l.tree.nodes.size
  label : ∀ {f : Nat} {frame : Frame α}, l.frames[f]? = some frame → frame.id = f ∧ frame.node = f
  frameOf : ∀ node < l.tree.nodes.size, l.frameOf node = some node
  depth : ∀ {d : Nat} {level : Level α}, l.levels[d]? = some level → level.depth = d
  /-- The levels hold the frames by number. -/
  levels : l.levels.flatMap Level.frames = List.range l.frames.size
  /-- A level holds the frames of the nodes of its depth. -/
  mem_level : ∀ {d : Nat} {level : Level α}, l.levels[d]? = some level → ∀ f,
    f ∈ level.frames ↔ ∃ node : TreeNode, l.tree.nodes[f]? = some node ∧ node.level = d
  /-- There is one frame of the global environment, which is the first. -/
  global : ∀ f, (∃ frame, l.frames[f]? = some frame ∧ frame.isGlobal) ↔ f = 0
  /-- What encloses a function has a frame. -/
  enclosing : ∀ {v : Nat} {x : Value α} {g : FunctionGlyph α}, l.values[v]? = some x →
    x.kind = .function g → l.frameOf g.enclosing = some g.enclosing
  /-- The environments with a frame are those of the snapshot. -/
  frameOfEnv : ∀ env, (l.frameOfEnv env).isSome ↔ ∃ e ∈ s.envs, e.id = env

variable [Scalar α] {config : Config α} {s : Snapshot} {d f node : Nat} {level : Level α}
  {frame : Frame α}

-- nothing below depends on how the tree is built
attribute [local irreducible] EnvTree.build

/-! ## Levels -/

/-- Every level knows how many are above it. -/
theorem map_depth_levels (config : Config α) (s : Snapshot) :
    (ofSnapshot config s).levels.map Level.depth =
      List.range (ofSnapshot config s).levels.length := by
  let P : List (List Nat) → Stack α → Prop := fun _ stack =>
    stack.levels.map Level.depth = List.range stack.levels.length
  rw [levels_ofSnapshot]
  refine foldl_keeps (P := P) _ (fun done nodes stack _ hdone => ?_) rfl
  show List.map _ _ = List.range (List.length _)
  rw [addLevel_eq_add, Stack.add, List.map_append, List.length_append, List.length_singleton,
    List.range_succ, hdone, List.map_singleton]

theorem depth_of_level (h : (ofSnapshot config s).levels[d]? = some level) : level.depth = d :=
  eq_of_map_eq_range (map_depth_levels config s) h

/-! ## Frames -/

/-- The frame of a node has its number. -/
theorem frameOf_eq_some_iff_eq : (ofSnapshot config s).frameOf node = some f ↔
    f = node ∧ node < (ofSnapshot config s).tree.nodes.size := by
  rw [frameOf_eq_some_iff, ← size_frames]
  constructor
  · rintro ⟨frame, hframe, rfl⟩
    rw [node_of_frame hframe]
    exact ⟨rfl, (Array.getElem?_eq_some_iff.mp hframe).1⟩
  · rintro ⟨rfl, hlt⟩
    have hframe := Array.getElem?_eq_getElem hlt
    exact ⟨_, hframe, node_of_frame hframe⟩

/-- A frame is the global one if its node has nothing around it. -/
theorem isGlobal_iff (h : (ofSnapshot config s).frames[f]? = some frame) :
    frame.isGlobal ↔ f = 0 := by
  obtain ⟨node, p, hnode, hplace⟩ := exists_place_ofSnapshot h
  rw [node_of_frame h] at hnode
  rw [show frame.isGlobal = node.isRoot from congrArg Frame.isGlobal hplace, TreeNode.isRoot,
    Option.isNone_iff_eq_none, (EnvTree.eq_zero_iff_of_build hnode).1]

/-- There is a frame of the global environment. -/
theorem exists_first_frame (config : Config α) (s : Snapshot) :
    ∃ frame, (ofSnapshot config s).frames[0]? = some frame := by
  obtain ⟨root, hroot, -, -⟩ := EnvTree.exists_root_build s config.framePolicy
  exact exists_frame_of_node hroot

/-- Frames and nodes correspond to each other. -/
theorem mirrorsTree_ofSnapshot (config : Config α) (s : Snapshot) :
    (ofSnapshot config s).MirrorsTree s where
  size := size_frames config s
  label hframe := ⟨id_of_frame hframe, node_of_frame hframe⟩
  frameOf _ hlt := frameOf_eq_some_iff_eq.mpr ⟨rfl, hlt⟩
  depth := depth_of_level
  levels := (ofSnapshot_laid config s).ids
  mem_level := by
    intro d level hlevel f
    rw [frames_of_level hlevel, tree_ofSnapshot]
    exact EnvTree.mem_nodesAt
  global := by
    intro f
    constructor
    · rintro ⟨frame, hframe, hglobal⟩
      exact (isGlobal_iff hframe).mp hglobal
    · rintro rfl
      obtain ⟨frame, hframe⟩ := exists_first_frame config s
      exact ⟨frame, hframe, (isGlobal_iff hframe).mpr rfl⟩
  enclosing := by
    intro v x g hx hk
    obtain ⟨id, c, -, -, hresolve⟩ := closure_of_function hx hk
    refine frameOf_eq_some_iff_eq.mpr ⟨rfl, ?_⟩
    rw [tree_ofSnapshot] at hresolve ⊢
    exact EnvTree.resolve_lt hresolve
  frameOfEnv _ := frameOfEnv_isSome_iff config

end Layout

/-- Laying out a snapshot gives every node of its tree a frame of the same number, on the level of
the node, whatever was shown before. -/
theorem Scene.mirrorsTree_load [Scalar α] (sc : Scene α) (s : Snapshot) :
    (sc.load s).layout.MirrorsTree s :=
  Layout.mirrorsTree_ofSnapshot sc.config s

end EnvDiagram
