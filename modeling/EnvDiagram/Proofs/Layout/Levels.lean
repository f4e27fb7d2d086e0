import EnvDiagram.Proofs.EnvTree.Cousins
import EnvDiagram.Proofs.Layout.Frames
import EnvDiagram.Proofs.Layout.Rows
import EnvDiagram.Scalar.Exact
import EnvDiagram.Scene

/-!
# The frames of a level

The frames are numbered as the nodes of the tree, and a level of the layout holds the frames of a
level of the tree. So the frames of a level stand in the order of the frames around them, one level
above; frames with the same one around them stand in the order of the snapshot.

* `Layout.node_of_frame`, `Layout.map_frames_levels` — frames and levels are those of the tree
* `Layout.outerFrame?` — the frame around a frame
* `Scene.levels_load` — the order of the frames of a level
-/

namespace EnvDiagram

variable {α : Type}

namespace Layout

/-- The frame of what is around a frame in the tree. -/
def outerFrame? (l : Layout α) (f : Nat) : Option Nat :=
  ((l.frames[f]?).bind fun frame => l.tree.links.parent frame.node).bind l.frameOf

/-- The environment of a frame. -/
def envOfFrame? (l : Layout α) (f : Nat) : Option EnvId := (l.frames[f]?).bind Frame.env

variable [Scalar α] {config : Config α} {s : Snapshot} {f g k : Nat} {level above : Level α}

/-! ## Frames and levels are those of the tree -/

/-- In a list that is numbered from the start, everything has the number of its place. -/
theorem eq_of_map_eq_range {β : Type} {number : β → Nat} {l : List β} {n i : Nat} {b : β}
    (h : l.map number = List.range n) (hb : l[i]? = some b) : number b = i := by
  have hnumber : (l.map number)[i]? = some (number b) := by
    rw [List.getElem?_map, hb]
    rfl
  rw [h] at hnumber
  obtain ⟨_, hi⟩ := List.getElem?_eq_some_iff.mp hnumber
  rw [← hi, List.getElem_range]

theorem length_ids_addFrame {tree : EnvTree} {row : Row α} {nodeId : Nat}
    (h : nodeId < tree.nodes.size) (y : α) :
    (addFrame config s tree y row nodeId).ids.length = row.ids.length + 1 := by
  obtain ⟨-, -, hids, -⟩ := addFrame_eq config s row (Array.getElem?_eq_getElem h) y
  rw [hids, List.length_append, List.length_singleton]

/-- A level has as many frames as nodes. -/
theorem length_ids_addLevel {tree : EnvTree} {stack : Stack α} {nodes : List Nat}
    (h : ∀ n ∈ nodes, n < tree.nodes.size) :
    (addLevel config s tree stack nodes).levels.map (fun level => level.frames.length) =
      stack.levels.map (fun level => level.frames.length) ++ [nodes.length] := by
  let P : List Nat → Row α → Prop := fun done row => row.ids.length = done.length
  have hrow : P nodes (nodes.foldl (addFrame config s tree stack.y) (stack.openRow config)) := by
    refine foldl_keeps (P := P) nodes (fun done n row hinit hdone => ?_) rfl
    have hn : n < tree.nodes.size := h n (hinit.subset (by simp))
    show List.length _ = _
    rw [length_ids_addFrame hn, hdone, List.length_append, List.length_singleton]
  rw [addLevel_eq_add, Stack.add, List.map_append, List.map_singleton]
  exact congrArg (fun n => stack.levels.map _ ++ [n]) hrow

-- nothing below depends on how the tree is built
attribute [local irreducible] EnvTree.build

theorem length_frames_levels (config : Config α) (s : Snapshot) :
    (ofSnapshot config s).levels.map (fun level => level.frames.length) =
      (ofSnapshot config s).tree.levels.map List.length := by
  let P : List (List Nat) → Stack α → Prop := fun done stack =>
    stack.levels.map (fun level => level.frames.length) = done.map List.length
  rw [tree_ofSnapshot, levels_ofSnapshot]
  refine foldl_keeps (P := P) _ (fun done nodes stack hinit hdone => ?_) rfl
  have hnodes : ∀ n ∈ nodes, n < (EnvTree.build s config.framePolicy).1.nodes.size := by
    intro n hn
    refine EnvTree.mem_levels.mp (List.mem_flatten.mpr ⟨nodes, ?_, hn⟩)
    exact hinit.subset (by simp)
  show List.map _ _ = _
  rw [length_ids_addLevel hnodes, hdone, List.map_append, List.map_singleton]

/-- There are as many frames as nodes. -/
theorem size_frames (config : Config α) (s : Snapshot) :
    (ofSnapshot config s).frames.size = (ofSnapshot config s).tree.nodes.size := by
  have hnodes := congrArg List.length (ofSnapshot_laid config s).nodes
  rwa [tree_ofSnapshot, EnvTree.flatten_levels_build, List.length_map, List.length_range,
    Array.length_toList, ← tree_ofSnapshot] at hnodes

theorem map_node_frames (config : Config α) (s : Snapshot) :
    (ofSnapshot config s).frames.toList.map Frame.node =
      List.range (ofSnapshot config s).frames.size := by
  have hnodes := (ofSnapshot_laid config s).nodes
  rwa [tree_ofSnapshot, EnvTree.flatten_levels_build, ← tree_ofSnapshot, ← size_frames] at hnodes

/-- A frame has the number of its node. -/
theorem node_of_frame {frame : Frame α} (h : (ofSnapshot config s).frames[f]? = some frame) :
    frame.node = f :=
  eq_of_map_eq_range (map_node_frames config s) (by rwa [Array.getElem?_toList])

/-- The levels of a layout are those of its tree. -/
theorem map_frames_levels (config : Config α) (s : Snapshot) :
    (ofSnapshot config s).levels.map Level.frames = (ofSnapshot config s).tree.levels := by
  obtain ⟨-, hnodes, hids⟩ := ofSnapshot_laid config s
  refine List.eq_iff_flatten_eq.mpr ⟨?_, ?_⟩
  · rw [← List.flatMap_def, hids, ← map_node_frames, hnodes]
  · rw [List.map_map]
    exact length_frames_levels config s

/-- A level holds the frames of the nodes of its depth. -/
theorem frames_of_level (h : (ofSnapshot config s).levels[k]? = some level) :
    level.frames = (EnvTree.build s config.framePolicy).1.nodesAt k := by
  have hlevel : ((ofSnapshot config s).levels.map Level.frames)[k]? = some level.frames := by
    rw [List.getElem?_map, h]
    rfl
  rw [map_frames_levels, tree_ofSnapshot] at hlevel
  exact (EnvTree.getElem?_levels.mp hlevel).2.symm

/-- Every node has the frame of its number. -/
theorem exists_frame_of_node {node : TreeNode}
    (h : (EnvTree.build s config.framePolicy).1.nodes[f]? = some node) :
    ∃ frame, (ofSnapshot config s).frames[f]? = some frame := by
  have hlt : f < (ofSnapshot config s).tree.nodes.size := by
    rw [tree_ofSnapshot]
    exact (Array.getElem?_eq_some_iff.mp h).1
  obtain ⟨frame, hmem, hnode⟩ := mem_node_frames.mpr hlt
  obtain ⟨i, hi⟩ := Array.getElem?_of_mem hmem
  rw [← hnode, node_of_frame hi]
  exact ⟨frame, hi⟩

theorem envOfFrame?_eq {node : TreeNode}
    (h : (EnvTree.build s config.framePolicy).1.nodes[f]? = some node) :
    (ofSnapshot config s).envOfFrame? f = node.env := by
  obtain ⟨frame, hframe⟩ := exists_frame_of_node h
  obtain ⟨node', p, hnode, hplace⟩ := exists_place_ofSnapshot hframe
  rw [node_of_frame hframe, h, Option.some.injEq] at hnode
  rw [envOfFrame?, hframe, hnode]
  exact congrArg Frame.env hplace

/-- The frame around a frame is that of the parent of its node. -/
theorem outerFrame?_eq {node : TreeNode}
    (h : (EnvTree.build s config.framePolicy).1.nodes[f]? = some node) :
    (ofSnapshot config s).outerFrame? f = node.parent := by
  obtain ⟨frame, hframe⟩ := exists_frame_of_node h
  rw [outerFrame?, hframe, Option.bind_some, node_of_frame hframe, tree_ofSnapshot,
    EnvTree.parent_links, h, Option.bind_some]
  cases hp : node.parent with
  | none => rfl
  | some p =>
    have hf : f ≠ 0 := fun hzero => by
      rw [(EnvTree.eq_zero_iff_of_build h).1.mp hzero] at hp
      cases hp
    obtain ⟨p', -, around, hp', haround, -⟩ := EnvTree.parent_build hf h
    obtain rfl : p = p' := Option.some.inj (hp.symm.trans hp')
    obtain ⟨outer, houter⟩ := exists_frame_of_node haround
    exact frameOf_eq_some_iff.mpr ⟨outer, houter, node_of_frame houter⟩

/-! ## The order of the frames of a level -/

theorem pairwise_nodesAt (t : EnvTree) (level : Nat) : (t.nodesAt level).Pairwise (· < ·) :=
  List.pairwise_lt_range.filter _

/-- Two members of a rising list stand in their order in it. -/
theorem pair_sublist_of_pairwise {l : List Nat} (h : l.Pairwise (· < ·)) {p q : Nat} (hp : p ∈ l)
    (hq : q ∈ l) (hpq : p < q) : [p, q].Sublist l := by
  obtain ⟨before, after, rfl⟩ := List.append_of_mem hp
  have hmem : q ∈ after := by
    rcases List.mem_append.mp hq with hq | hq
    · -- what stands before `p` is smaller
      have hlt := (List.pairwise_append.mp h).2.2 q hq p List.mem_cons_self
      omega
    · exact (List.mem_cons.mp hq).resolve_left (Nat.ne_of_gt hpq)
  exact ((List.singleton_sublist.mpr hmem).cons_cons p).trans (List.sublist_append_right before _)

/-- The outermost level holds the root alone. -/
theorem nodesAt_zero (s : Snapshot) (policy : FramePolicy) :
    (EnvTree.build s policy).1.nodesAt 0 = [0] := by
  have hmem : ∀ k, k ∈ (EnvTree.build s policy).1.nodesAt 0 ↔ k ∈ [0] := by
    intro k
    rw [EnvTree.mem_nodesAt, List.mem_singleton]
    constructor
    · rintro ⟨node, hnode, hlevel⟩
      exact (EnvTree.eq_zero_iff_of_build hnode).2.mpr hlevel
    · rintro rfl
      obtain ⟨node, hnode, -, hlevel⟩ := EnvTree.exists_root_build s policy
      exact ⟨node, hnode, hlevel⟩
  have hperm := (List.perm_ext_iff_of_nodup (pairwise_nodesAt _ 0).nodup
    (List.nodup_singleton 0)).mpr hmem
  exact List.perm_singleton.mp hperm

/-- A frame of a further level has one around it, which is of the level above. -/
theorem exists_outer_of_mem (hf : f ∈ (EnvTree.build s config.framePolicy).1.nodesAt (k + 1)) :
    ∃ node p, (EnvTree.build s config.framePolicy).1.nodes[f]? = some node ∧
      node.parent = some p ∧ (ofSnapshot config s).outerFrame? f = some p ∧
      p ∈ (EnvTree.build s config.framePolicy).1.nodesAt k := by
  obtain ⟨node, hnode, hlevel⟩ := EnvTree.mem_nodesAt.mp hf
  have hne : f ≠ 0 := fun hzero => by
    rw [(EnvTree.eq_zero_iff_of_build hnode).2.mp hzero] at hlevel
    cases hlevel
  obtain ⟨p, -, around, hp, haround, hnext⟩ := EnvTree.parent_build hne hnode
  refine ⟨node, p, hnode, hp, (outerFrame?_eq hnode).trans hp, ?_⟩
  exact EnvTree.mem_nodesAt.mpr ⟨around, haround, by omega⟩

theorem pairwise_frames_of_level (habove : (ofSnapshot config s).levels[k]? = some above)
    (hlevel : (ofSnapshot config s).levels[k + 1]? = some level) :
    level.frames.Pairwise fun f g => ∃ p q,
      (ofSnapshot config s).outerFrame? f = some p ∧
      (ofSnapshot config s).outerFrame? g = some q ∧
      ([p, q].Sublist above.frames ∨ p = q ∧ ∃ d e,
        (ofSnapshot config s).envOfFrame? f = some d ∧
        (ofSnapshot config s).envOfFrame? g = some e ∧ s.ids.idxOf d < s.ids.idxOf e) := by
  rw [frames_of_level hlevel, frames_of_level habove]
  refine (pairwise_nodesAt _ (k + 1)).imp_of_mem fun {f g} hf hg hfg => ?_
  obtain ⟨x, p, hx, hxp, hp, hpk⟩ := exists_outer_of_mem hf
  obtain ⟨y, q, hy, hyq, hq, hqk⟩ := exists_outer_of_mem hg
  refine ⟨p, q, hp, hq, ?_⟩
  rcases EnvTree.parent_lt_or_of_lt hfg hx hy hxp hyq with hlt | ⟨hsame, d, e, hd, he, hde⟩
  · exact Or.inl (pair_sublist_of_pairwise (pairwise_nodesAt _ k) hpk hqk hlt)
  · exact Or.inr ⟨hsame, d, e, (envOfFrame?_eq hx).trans hd, (envOfFrame?_eq hy).trans he, hde⟩

end Layout

/-- The outermost level holds one frame. On every further level the frames stand in the order of
the frames around them, and those with the same frame around them in the order of the snapshot. -/
theorem Scene.levels_load [Scalar α] (sc : Scene α) (s : Snapshot) :
    let l := (sc.load s).layout
    (∀ level, l.levels[0]? = some level → ∃ f, level.frames = [f]) ∧
      ∀ depth above level, l.levels[depth]? = some above → l.levels[depth + 1]? = some level →
        level.frames.Pairwise fun f g => ∃ p q,
          l.outerFrame? f = some p ∧ l.outerFrame? g = some q ∧
          ([p, q].Sublist above.frames ∨ p = q ∧ ∃ d e,
            l.envOfFrame? f = some d ∧ l.envOfFrame? g = some e ∧
              s.ids.idxOf d < s.ids.idxOf e) := by
  intro l
  refine ⟨fun level hlevel => ⟨0, ?_⟩, fun depth above level habove hlevel => ?_⟩
  · rw [Layout.frames_of_level hlevel, Layout.nodesAt_zero]
  · exact Layout.pairwise_frames_of_level habove hlevel

/-! ## An example -/

/-- Inside `b`, which was created after `a`, `c` was created before `d` inside `a`. -/
def Snapshot.crossed : Snapshot :=
  ⟨0, [⟨⟨0⟩, "global", none, [⟨"x", some .null, false⟩]⟩,
    ⟨⟨1⟩, "a", some ⟨0⟩, [⟨"x", some .null, false⟩]⟩,
    ⟨⟨2⟩, "b", some ⟨0⟩, [⟨"x", some .null, false⟩]⟩,
    ⟨⟨3⟩, "c", some ⟨2⟩, [⟨"x", some .null, false⟩]⟩,
    ⟨⟨4⟩, "d", some ⟨1⟩, [⟨"x", some .null, false⟩]⟩], [], some ⟨0⟩⟩

theorem EnvTree.nodes_crossed :
    (build .crossed (Config.standard : Config Rat).framePolicy).1.nodes.toList.map
      (fun node => (node.env, node.parent)) =
        [(some ⟨0⟩, none), (some ⟨1⟩, some 0), (some ⟨2⟩, some 0), (some ⟨4⟩, some 1),
          (some ⟨3⟩, some 2)] := by
  cbv

theorem Layout.frames_levels_crossed :
    (ofSnapshot (Config.standard : Config Rat) .crossed).levels.map Level.frames =
      [[0], [1, 2], [3, 4]] := by
  rw [map_frames_levels, tree_ofSnapshot]
  cbv

theorem Layout.frame_crossed {f : Nat} {env : Option EnvId} {outer : Option Nat}
    (h : ((EnvTree.build .crossed (Config.standard : Config Rat).framePolicy).1.nodes.toList.map
      fun node => (node.env, node.parent))[f]? = some (env, outer)) :
    (ofSnapshot (Config.standard : Config Rat) .crossed).envOfFrame? f = env ∧
      (ofSnapshot (Config.standard : Config Rat) .crossed).outerFrame? f = outer := by
  rw [List.getElem?_map, Array.getElem?_toList, Option.map_eq_some_iff] at h
  obtain ⟨node, hnode, heq⟩ := h
  rw [envOfFrame?_eq hnode, outerFrame?_eq hnode]
  exact Prod.mk.injEq .. ▸ heq

/-- What `a` and `b` enclose stands as they do. -/
theorem Scene.levels_load_crossed :
    let l := ((Scene.ofConfig (Config.standard : Config Rat)).load .crossed).layout
    l.levels.map Level.frames = [[0], [1, 2], [3, 4]] ∧
      l.outerFrame? 3 = some 1 ∧ l.outerFrame? 4 = some 2 ∧ [1, 2].Sublist [1, 2] := by
  intro l
  have hframes : l.levels.map Level.frames = [[0], [1, 2], [3, 4]] := Layout.frames_levels_crossed
  have hrow : ∀ {k : Nat} {frames : List Nat}, [[0], [1, 2], [3, 4]][k]? = some frames →
      ∃ level : Level Rat, l.levels[k]? = some level ∧ level.frames = frames := by
    intro k frames h
    rwa [← hframes, List.getElem?_map, Option.map_eq_some_iff] at h
  obtain ⟨above, habove, hab⟩ := @hrow 1 _ rfl
  obtain ⟨level, hlevel, hcd⟩ := @hrow 2 _ rfl
  have hpair := (levels_load (.ofConfig Config.standard) .crossed).2 1 above level habove hlevel
  rw [hab, hcd, List.pairwise_pair] at hpair
  obtain ⟨p, q, hp, hq, hpq⟩ := hpair
  obtain ⟨-, hthree⟩ := Layout.frame_crossed (f := 3) (by rw [EnvTree.nodes_crossed]; rfl)
  obtain ⟨-, hfour⟩ := Layout.frame_crossed (f := 4) (by rw [EnvTree.nodes_crossed]; rfl)
  obtain rfl : p = 1 := Option.some.inj (hp.symm.trans hthree)
  obtain rfl : q = 2 := Option.some.inj (hq.symm.trans hfour)
  exact ⟨hframes, hthree, hfour, hpq.resolve_right fun h => absurd h.1 (by decide)⟩

/-- Frames with different ones around them need not stand in the order of the snapshot. -/
theorem Scene.levels_load_ne :
    let l := ((Scene.ofConfig (Config.standard : Config Rat)).load .crossed).layout
    ∃ level ∈ l.levels, ∃ f g d e, [f, g].Sublist level.frames ∧
      l.envOfFrame? f = some d ∧ l.envOfFrame? g = some e ∧
      Snapshot.crossed.ids.idxOf e < Snapshot.crossed.ids.idxOf d := by
  intro l
  have hmem : [3, 4] ∈ l.levels.map Level.frames := by
    rw [show l.levels.map Level.frames = _ from Layout.frames_levels_crossed]
    exact .tail _ (.tail _ (.head _))
  obtain ⟨level, hlevel, hcd⟩ := List.mem_map.mp hmem
  refine ⟨level, hlevel, 3, 4, ⟨4⟩, ⟨3⟩, hcd ▸ .refl _, ?_, ?_, by decide⟩
  · exact (Layout.frame_crossed (by rw [EnvTree.nodes_crossed]; rfl)).1
  · exact (Layout.frame_crossed (by rw [EnvTree.nodes_crossed]; rfl)).1

end EnvDiagram
