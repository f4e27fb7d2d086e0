import EnvDiagram.Proofs.EnvTree.Lexical

/-!
# The nodes are numbered breadth first

The places are numbered row by row, and the level of a node is the row of its place
(`row_of_node`). So the levels rise with the numbers, and what is around a node, one row further
out, has a smaller number. The children of a node are the nodes whose parent it is, in the order
of their positions, which is that of the snapshot (`idxOf_ids_lt`).

* `BreadthFirst` — what it means that a tree is numbered breadth first
* `breadthFirst_build` — so is the tree of a snapshot
-/

namespace EnvDiagram

variable {f : Folding} {policy : FramePolicy} {s : Snapshot} {t : EnvTree}
  {d e : EnvId} {i j k m q : Nat} {place : Option Nat} {node : TreeNode}

/-! ## Positions in the order of the snapshot -/

/-- The environments that are kept stay in the order in which their identities first occur. -/
theorem pairwise_withoutDuplicates (envs : List Environment) :
    ((withoutDuplicates envs).map Environment.id).Pairwise fun a b =>
      (envs.map Environment.id).idxOf a < (envs.map Environment.id).idxOf b := by
  induction envs using List.reverseRecOn with
  | nil => exact List.Pairwise.nil
  | append_singleton envs env ih =>
    have hold : ∀ {a}, a ∈ (withoutDuplicates envs).map Environment.id →
        ((envs ++ [env]).map Environment.id).idxOf a = (envs.map Environment.id).idxOf a := by
      intro a ha
      rw [List.map_append]
      exact List.idxOf_append_of_mem (mem_ids_withoutDuplicates.mp ha)
    have hkept : ((withoutDuplicates envs).map Environment.id).Pairwise fun a b =>
        ((envs ++ [env]).map Environment.id).idxOf a <
          ((envs ++ [env]).map Environment.id).idxOf b := by
      refine ih.imp_of_mem fun ha hb hab => ?_
      rwa [hold ha, hold hb]
    rw [withoutDuplicates_concat]
    split
    · exact hkept
    · rename_i hany
      rw [show (withoutDuplicates envs ++ [env]).map Environment.id =
        (withoutDuplicates envs).map Environment.id ++ [env.id] from List.map_append,
        List.pairwise_append]
      refine ⟨hkept, List.pairwise_singleton _ _, fun a ha b hb => ?_⟩
      obtain rfl : b = env.id := by simpa using hb
      -- the new identity has not occurred, so it comes after all that have
      have hnew : env.id ∉ envs.map Environment.id := by
        rw [← mem_ids_withoutDuplicates]
        intro hmem
        obtain ⟨other, hother, hid⟩ := List.mem_map.mp hmem
        exact hany (List.any_eq_true.mpr ⟨other, hother, by simpa using hid⟩)
      have hlast : ((envs ++ [env]).map Environment.id).idxOf env.id =
          (envs.map Environment.id).length := by
        rw [List.map_append, List.idxOf_append_of_notMem hnew]
        simp
      rw [hold ha, hlast]
      exact List.idxOf_lt_length_of_mem (mem_ids_withoutDuplicates.mp ha)

/-- Smaller positions are those of identities that occur earlier. -/
theorem Nesting.idxOf_ids_lt (hi : (ofSnapshot s).1.id? i = some d)
    (hj : (ofSnapshot s).1.id? j = some e) (hij : i < j) : s.ids.idxOf d < s.ids.idxOf e := by
  rw [id?_ofSnapshot] at hi hj
  obtain ⟨hi', rfl⟩ := List.getElem?_eq_some_iff.mp hi
  obtain ⟨hj', rfl⟩ := List.getElem?_eq_some_iff.mp hj
  exact List.pairwise_iff_getElem.mp (pairwise_withoutDuplicates s.envs) i j hi' hj' hij

namespace EnvTree

/-- The environment of a node. -/
def env? (t : EnvTree) (k : Nat) : Option EnvId := (t.nodes[k]?).bind TreeNode.env

/-- Whether a tree is rooted and its nodes are numbered breadth first, siblings in the order in
which their environments occur in a snapshot. -/
structure BreadthFirst (t : EnvTree) (s : Snapshot) : Prop where
  root : ∃ node, t.nodes[0]? = some node ∧ node.parent = none ∧ node.level = 0
  /-- Every other node has a parent, which comes before it and is one level further out. -/
  parent : ∀ {k : Nat} {node : TreeNode}, k ≠ 0 → t.nodes[k]? = some node →
    ∃ p < k, ∃ around : TreeNode, node.parent = some p ∧ t.nodes[p]? = some around ∧
      node.level = around.level + 1
  /-- The children of a node are the nodes with that parent, each once. -/
  children : ∀ {q : Nat} {node : TreeNode}, t.nodes[q]? = some node → ∀ k,
    node.children.count k = if t.links.parent k = some q then 1 else 0
  siblings : ∀ {q : Nat} {node : TreeNode}, t.nodes[q]? = some node →
    node.children.Pairwise fun a b => ∃ d e, t.env? a = some d ∧ t.env? b = some e ∧
      s.ids.idxOf d < s.ids.idxOf e
  level_le : ∀ {j k : Nat} {outer inner : TreeNode}, j ≤ k → t.nodes[j]? = some outer →
    t.nodes[k]? = some inner → outer.level ≤ inner.level
  /-- The rows hold the nodes of their levels, one after the other. -/
  levels : t.levels.flatten = List.range t.nodes.size
  mem_level : ∀ {level : Nat} {row : List Nat}, t.levels[level]? = some row → ∀ k,
    k ∈ row ↔ ∃ node : TreeNode, t.nodes[k]? = some node ∧ node.level = level
  level_ne_nil : ∀ row ∈ t.levels, row ≠ []

/-! ## The rows of nodes -/

/-- The numbers of the rows rise along the places. -/
theorem pairwise_levelled (rows : List (List (Option Nat))) :
    (levelled rows).Pairwise fun a b => a.1 ≤ b.1 := by
  rw [levelled, List.pairwise_flatten]
  constructor
  · intro row hrow
    obtain ⟨level, -, rfl⟩ := List.mem_mapIdx.mp hrow
    exact List.pairwise_map.mpr (List.pairwise_of_forall fun _ _ => le_refl level)
  · rw [List.pairwise_iff_getElem]
    intro i j hi hj hij a ha b hb
    rw [List.getElem_mapIdx] at ha hb
    obtain ⟨_, -, rfl⟩ := List.mem_map.mp ha
    obtain ⟨_, -, rfl⟩ := List.mem_map.mp hb
    exact hij.le

theorem mem_rowAt_of_levelled (h : (j, place) ∈ levelled (rowsOf f)) : place ∈ rowAt f j := by
  obtain ⟨row, hrow, hmem⟩ := List.mem_flatten.mp h
  obtain ⟨level, hlevel, rfl⟩ := List.mem_mapIdx.mp hrow
  obtain ⟨place', hplace, heq⟩ := List.mem_map.mp hmem
  cases heq
  rwa [← getElem?_rowsOf (List.getElem?_eq_getElem hlevel)]

/-- The level of a node is the row of its place. -/
theorem row_of_node (h : (ofFolding f).nodes[m]? = some node) :
    ∃ place, (order f)[m]? = some place ∧ place ∈ rowAt f node.level ∧
      node = nodeOf f f.nodeLinks (order f) node.level place := by
  rw [← Array.getElem?_toList, nodes_ofFolding, List.getElem?_map, Option.map_eq_some_iff] at h
  obtain ⟨⟨level, place⟩, hlp, rfl⟩ := h
  have hlevel : (nodeOf f f.nodeLinks (order f) level place).level = level := by
    cases place <;> rfl
  rw [hlevel]
  refine ⟨place, ?_, mem_rowAt_of_levelled (List.mem_of_getElem? hlp), rfl⟩
  rw [order, ← map_snd_levelled, List.getElem?_map, hlp]
  rfl

theorem level_le_ofFolding {outer inner : TreeNode} (hjk : j ≤ k)
    (hj : (ofFolding f).nodes[j]? = some outer) (hk : (ofFolding f).nodes[k]? = some inner) :
    outer.level ≤ inner.level := by
  have hlevels : ((ofFolding f).nodes.toList).Pairwise fun a b => a.level ≤ b.level := by
    rw [nodes_ofFolding, List.pairwise_map]
    refine (pairwise_levelled (rowsOf f)).imp fun {a b} hab => ?_
    cases ha : a.2 <;> cases hb : b.2 <;> exact hab
  rcases Nat.eq_or_lt_of_le hjk with rfl | hlt
  · rw [hj, Option.some.injEq] at hk
    rw [hk]
  · rw [← Array.getElem?_toList] at hj hk
    obtain ⟨hj', rfl⟩ := List.getElem?_eq_some_iff.mp hj
    obtain ⟨hk', rfl⟩ := List.getElem?_eq_some_iff.mp hk
    exact List.pairwise_iff_getElem.mp hlevels j k hj' hk' hlt

/-! ## Parents -/

theorem root_ofFolding (f : Folding) :
    ∃ node, (ofFolding f).nodes[0]? = some node ∧ node.parent = none ∧ node.level = 0 := by
  obtain ⟨level, hnode⟩ := nodes_idxOf (none_mem_order f)
  rw [idxOf_none] at hnode
  refine ⟨_, hnode, rfl, ?_⟩
  obtain ⟨place, hplace, hrow, -⟩ := row_of_node hnode
  rw [← idxOf_none f, order_idxOf (none_mem_order f), Option.some.injEq] at hplace
  subst hplace
  exact rowAt_inj hrow (mem_rowAt_zero.mpr rfl)

/-- What is around a node comes before it, one level further out. -/
theorem parent_ofFolding (hk : k ≠ 0) (h : (ofFolding f).nodes[k]? = some node) :
    ∃ p < k, ∃ around, node.parent = some p ∧ (ofFolding f).nodes[p]? = some around ∧
      node.level = around.level + 1 := by
  obtain ⟨place, hplace, hrow, hnode⟩ := row_of_node h
  cases place with
  | none => exact absurd ((idxOf_none f).symm.trans (idxOf_order hplace)).symm hk
  | some c =>
    have houter := parent_mem_order (List.mem_of_getElem? hplace)
    obtain ⟨level, haround⟩ := nodes_idxOf houter
    obtain ⟨place, hplace', hrow', -⟩ := row_of_node haround
    rw [order_idxOf houter, Option.some.injEq] at hplace'
    subst hplace'
    have hlevel : node.level =
        (nodeOf f f.nodeLinks (order f) level (f.nodeLinks.parent c)).level + 1 := by
      cases hj : node.level with
      | zero =>
        rw [hj, mem_rowAt_zero] at hrow
        cases hrow
      | succ j =>
        rw [hj] at hrow
        obtain ⟨-, -, hparent⟩ := some_mem_rowAt_succ.mp hrow
        rw [rowAt_inj hparent hrow']
    refine ⟨(order f).idxOf (f.nodeLinks.parent c), ?_, _, by rw [hnode]; rfl, haround, hlevel⟩
    -- the levels rise with the numbers
    by_contra hle
    have hrise := level_le_ofFolding (Nat.le_of_not_lt hle) h haround
    omega

/-! ## Children -/

theorem children_of_node (h : (ofFolding f).nodes[q]? = some node) :
    ∃ place, (order f)[q]? = some place ∧
      node.children = (childrenOf f f.nodeLinks place).map fun c => (order f).idxOf (some c) := by
  obtain ⟨level, place, hplace, rfl⟩ := place_of_node h
  exact ⟨place, hplace, by cases place <;> rfl⟩

/-- The nodes of the places around which a place is. -/
theorem parent_links_eq_some_iff (hplace : (order f)[q]? = some place) :
    (ofFolding f).links.parent k = some q ↔
      ∃ c, some c ∈ order f ∧ (order f).idxOf (some c) = k ∧ f.nodeLinks.parent c = place := by
  constructor
  · intro hp
    rw [parent_links, Option.bind_eq_some_iff] at hp
    obtain ⟨node, hnode, hparent⟩ := hp
    obtain ⟨level, inner, hinner, rfl⟩ := place_of_node hnode
    cases inner with
    | none => cases hparent
    | some c =>
      have hc := List.mem_of_getElem? hinner
      have hq : (order f).idxOf (f.nodeLinks.parent c) = q := Option.some.inj hparent
      refine ⟨c, hc, idxOf_order hinner, ?_⟩
      have hsame := order_idxOf (parent_mem_order hc)
      rw [hq, hplace, Option.some.injEq] at hsame
      exact hsame.symm
  · rintro ⟨c, hc, rfl, rfl⟩
    rw [parent_links_ofFolding hc, Option.map_some, idxOf_order hplace]

/-- The children of a place are in the order of their positions. -/
theorem pairwise_childrenOf (f : Folding) (links : Links) (place : Option Nat) :
    (childrenOf f links place).Pairwise (· < ·) :=
  (List.pairwise_lt_range.filter _).filter _

theorem some_mem_order_of_childrenOf (h : f.WellFormed) (hc : i ∈ childrenOf f f.nodeLinks place) :
    some i ∈ order f := by
  obtain ⟨hi, -, hnode⟩ := mem_childrenOf.mp hc
  exact mem_order_of_isNode h hnode hi

/-- A node is a child of its parent once, and of no other node. -/
theorem count_children (h : f.WellFormed) (hnode : (ofFolding f).nodes[q]? = some node) (k : Nat) :
    node.children.count k = if (ofFolding f).links.parent k = some q then 1 else 0 := by
  obtain ⟨place, hplace, hchildren⟩ := children_of_node hnode
  have hnd : node.children.Nodup := by
    rw [hchildren]
    refine List.Nodup.map_on (fun a ha b hb hab => ?_)
      ((pairwise_childrenOf _ _ place).imp fun hlt => hlt.ne)
    exact Option.some.inj ((List.idxOf_inj (some_mem_order_of_childrenOf h ha)).mp hab)
  rw [hnd.count]
  refine if_congr ?_ rfl rfl
  rw [hchildren, List.mem_map, parent_links_eq_some_iff hplace]
  constructor
  · rintro ⟨c, hc, rfl⟩
    exact ⟨c, some_mem_order_of_childrenOf h hc, rfl, (mem_childrenOf.mp hc).2.1⟩
  · rintro ⟨c, hc, rfl, hparent⟩
    obtain ⟨hnode, hlt⟩ := isNode_of_mem_order hc
    exact ⟨c, mem_childrenOf.mpr ⟨hlt, hparent, hnode⟩, rfl⟩

theorem env?_idxOf (h : some i ∈ order f) :
    (ofFolding f).env? ((order f).idxOf (some i)) = f.nesting.id? i := by
  obtain ⟨level, hnode⟩ := nodes_idxOf h
  rw [env?, hnode]
  rfl

/-- Siblings come in the order in which their environments occur. -/
theorem pairwise_children (hnode : (build s policy).1.nodes[q]? = some node) :
    node.children.Pairwise fun a b => ∃ d e, (build s policy).1.env? a = some d ∧
      (build s policy).1.env? b = some e ∧ s.ids.idxOf d < s.ids.idxOf e := by
  have hwf := s.wellFormed_folding policy
  rw [build_fst] at hnode ⊢
  obtain ⟨place, -, hchildren⟩ := children_of_node hnode
  rw [hchildren, List.pairwise_map]
  refine (pairwise_childrenOf _ _ place).imp_of_mem fun {a b} ha hb hab => ?_
  have ha := some_mem_order_of_childrenOf hwf ha
  have hb := some_mem_order_of_childrenOf hwf hb
  obtain ⟨d, hd⟩ := Nesting.exists_id? (isNode_of_mem_order ha).2
  obtain ⟨e, he⟩ := Nesting.exists_id? (isNode_of_mem_order hb).2
  exact ⟨d, e, (env?_idxOf ha).trans hd, (env?_idxOf hb).trans he, Nesting.idxOf_ids_lt hd he hab⟩

/-! ## Levels -/

theorem getElem?_levels {level : Nat} {row : List Nat} :
    t.levels[level]? = some row ↔ level < t.depth ∧ t.nodesAt level = row := by
  by_cases hlt : level < t.depth <;> simp [levels, hlt]

/-- If the levels rise with the numbers, the nodes level by level are the nodes by number. -/
theorem flatten_levels (hle : ∀ {j k : Nat} {outer inner : TreeNode}, j ≤ k →
    t.nodes[j]? = some outer → t.nodes[k]? = some inner → outer.level ≤ inner.level) :
    t.levels.flatten = List.range t.nodes.size := by
  have hperm : t.levels.flatten.Perm (List.range t.nodes.size) := by
    rw [List.perm_ext_iff_of_nodup (nodup_levels t) List.nodup_range]
    intro k
    rw [mem_levels, List.mem_range]
  have hrise : t.levels.flatten.Pairwise (· < ·) := by
    rw [List.pairwise_flatten]
    constructor
    · intro row hrow
      obtain ⟨level, -, rfl⟩ := List.mem_map.mp hrow
      exact List.pairwise_lt_range.filter _
    · rw [levels, List.pairwise_map]
      refine List.pairwise_lt_range.imp fun {a b} hab j hj k hk => ?_
      obtain ⟨outer, houter, rfl⟩ := mem_nodesAt.mp hj
      obtain ⟨inner, hinner, rfl⟩ := mem_nodesAt.mp hk
      by_contra hkj
      have hfall := hle (Nat.le_of_not_lt hkj) hinner houter
      omega
  exact hperm.eq_of_pairwise (fun a b _ _ hab hba => by omega) hrise List.pairwise_lt_range

theorem exists_level_of_lt_foldl_max {nodes : List TreeNode} {d level : Nat}
    (h : level < nodes.foldl (fun d node => max d (node.level + 1)) d) :
    level < d ∨ ∃ node ∈ nodes, level ≤ node.level := by
  induction nodes generalizing d with
  | nil => exact Or.inl h
  | cons node rest ih =>
    rcases ih h with hd | ⟨deep, hmem, hle⟩
    · rcases lt_max_iff.mp hd with hd | hd
      · exact Or.inl hd
      · exact Or.inr ⟨node, List.mem_cons_self, Nat.le_of_lt_succ hd⟩
    · exact Or.inr ⟨deep, List.mem_cons_of_mem _ hmem, hle⟩

/-- Outward from a node there is one on every level. -/
theorem exists_node_of_level_le {level : Nat} (h : (ofFolding f).nodes[k]? = some node)
    (hle : level ≤ node.level) :
    ∃ (k : Nat) (around : TreeNode),
      (ofFolding f).nodes[k]? = some around ∧ around.level = level := by
  induction k using Nat.strong_induction_on generalizing node with
  | _ k ih =>
    rcases Nat.eq_or_lt_of_le hle with rfl | hlt
    · exact ⟨k, node, h, rfl⟩
    · have hk : k ≠ 0 := by
        rintro rfl
        obtain ⟨root, hroot, -, hzero⟩ := root_ofFolding f
        rw [h, Option.some.injEq] at hroot
        rw [hroot, hzero] at hlt
        omega
      obtain ⟨p, hp, around, -, haround, hlevel⟩ := parent_ofFolding hk h
      exact ih p hp haround (by omega)

/-- No level is left out. -/
theorem level_ne_nil_ofFolding {row : List Nat} (h : row ∈ (ofFolding f).levels) : row ≠ [] := by
  obtain ⟨level, hlevel, rfl⟩ := List.mem_map.mp h
  rw [List.mem_range, depth, ← Array.foldl_toList] at hlevel
  rcases exists_level_of_lt_foldl_max hlevel with hzero | ⟨deep, hmem, hle⟩
  · omega
  · obtain ⟨k, hk⟩ := List.mem_iff_getElem?.mp hmem
    rw [Array.getElem?_toList] at hk
    obtain ⟨j, around, haround, rfl⟩ := exists_node_of_level_le hk hle
    exact List.ne_nil_of_mem (mem_nodesAt.mpr ⟨around, haround, rfl⟩)

/-! ## The tree of a snapshot -/

theorem exists_root_build (s : Snapshot) (policy : FramePolicy) :
    ∃ node, (build s policy).1.nodes[0]? = some node ∧ node.parent = none ∧ node.level = 0 :=
  root_ofFolding _

theorem parent_build (hk : k ≠ 0) (h : (build s policy).1.nodes[k]? = some node) :
    ∃ p < k, ∃ around, node.parent = some p ∧ (build s policy).1.nodes[p]? = some around ∧
      node.level = around.level + 1 :=
  parent_ofFolding hk h

/-- The root is the only node without a parent, and the only one of its level. -/
theorem eq_zero_iff_of_build (h : (build s policy).1.nodes[k]? = some node) :
    (k = 0 ↔ node.parent = none) ∧ (k = 0 ↔ node.level = 0) := by
  by_cases hk : k = 0
  · subst hk
    obtain ⟨root, hroot, hparent, hlevel⟩ := exists_root_build s policy
    rw [h, Option.some.injEq] at hroot
    rw [hroot]
    exact ⟨iff_of_true rfl hparent, iff_of_true rfl hlevel⟩
  · obtain ⟨p, -, around, hparent, -, hlevel⟩ := parent_build hk h
    exact ⟨iff_of_false hk (by simp [hparent]), iff_of_false hk (by omega)⟩

/-- The levels hold the nodes by number. -/
theorem flatten_levels_build (s : Snapshot) (policy : FramePolicy) :
    (build s policy).1.levels.flatten = List.range (build s policy).1.nodes.size :=
  flatten_levels level_le_ofFolding

/-- The tree of a snapshot is numbered breadth first. -/
theorem breadthFirst_build (s : Snapshot) (policy : FramePolicy) :
    (build s policy).1.BreadthFirst s where
  root := root_ofFolding _
  parent := parent_ofFolding
  children := count_children (s.wellFormed_folding policy)
  siblings := pairwise_children
  level_le := level_le_ofFolding
  levels := flatten_levels level_le_ofFolding
  mem_level := by
    intro level row hrow k
    obtain ⟨-, rfl⟩ := getElem?_levels.mp hrow
    exact mem_nodesAt
  level_ne_nil := fun _ => level_ne_nil_ofFolding

end EnvTree

end EnvDiagram
