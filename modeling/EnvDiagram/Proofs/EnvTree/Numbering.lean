import EnvDiagram.EnvTree.Build
import EnvDiagram.Proofs.EnvTree.Folding

/-!
# The rows of places and the numbers of nodes

The rows of a folding hold every position with a node (`mem_order_of_isNode`), and the last
of them is reached within the bound (`rowAt_eq_nil`). So every identity of a snapshot
resolves to a node of the tree (`resolve_lt`), and no other identity does
(`resolve_isSome_iff`).

The levels of a tree hold the number of every node once (`mem_levels`, `nodup_levels`).
-/

namespace EnvDiagram.EnvTree

variable {f : Folding} {policy : FramePolicy} {s : Snapshot} {t : EnvTree}
  {children : Option Nat → List Nat} {i j k m : Nat} {place : Option Nat}

/-! ## Rows -/

/-- The children of all places of a row. -/
def nextRow (children : Option Nat → List Nat) (row : List (Option Nat)) : List (Option Nat) :=
  row.flatMap fun place => (children place).map some

/-- The row so many rows after the given one, empty when the places have run out. -/
def nthRow (children : Option Nat → List Nat) : Nat → List (Option Nat) → List (Option Nat)
  | 0, row => row
  | j + 1, row => nthRow children j (nextRow children row)

theorem nthRow_nil (j : Nat) : nthRow children j [] = [] := by
  induction j with
  | zero => rfl
  | succ j ih => exact ih

theorem nthRow_succ (j : Nat) (row : List (Option Nat)) :
    nthRow children (j + 1) row = nextRow children (nthRow children j row) := by
  induction j generalizing row with
  | zero => rfl
  | succ j ih => exact ih (nextRow children row)

/-- The rows are those that are not empty, as many as the bound allows. -/
theorem rows_getElem? (m j : Nat) (row : List (Option Nat)) :
    (rows children m row)[j]? =
      if j < m ∧ nthRow children j row ≠ [] then some (nthRow children j row) else none := by
  induction m generalizing j row with
  | zero => simp [rows]
  | succ m ih =>
    rw [rows]
    cases row with
    | nil => simp [nthRow_nil]
    | cons place rest =>
      simp only [List.isEmpty_cons, Bool.false_eq_true, if_false]
      cases j with
      | zero => simp [nthRow]
      | succ j =>
        rw [List.getElem?_cons_succ]
        show (rows children m (nextRow children (place :: rest)))[j]? = _
        rw [ih, show nthRow children (j + 1) (place :: rest) =
          nthRow children j (nextRow children (place :: rest)) from rfl]
        simp

theorem mem_flatten_rows {m : Nat} {row : List (Option Nat)} :
    place ∈ (rows children m row).flatten ↔ ∃ j < m, place ∈ nthRow children j row := by
  rw [List.mem_flatten]
  constructor
  · rintro ⟨r, hr, hmem⟩
    obtain ⟨j, hj⟩ := List.mem_iff_getElem?.mp hr
    rw [rows_getElem?] at hj
    split at hj
    · rename_i hcond
      cases hj
      exact ⟨j, hcond.1, hmem⟩
    · simp at hj
  · rintro ⟨j, hj, hmem⟩
    refine ⟨nthRow children j row, List.mem_iff_getElem?.mpr ⟨j, ?_⟩, hmem⟩
    rw [rows_getElem?, if_pos ⟨hj, List.ne_nil_of_mem hmem⟩]

/-! ## The places of a folding -/

/-- The row so many steps inside the global place. -/
def rowAt (f : Folding) (j : Nat) : List (Option Nat) :=
  nthRow (childrenOf f f.nodeLinks) j [none]

theorem mem_childrenOf : k ∈ childrenOf f f.nodeLinks place ↔
    k < f.size ∧ f.nodeLinks.parent k = place ∧ f.isNode k = true := by
  rw [childrenOf, List.mem_filter, Links.mem_children, Folding.nodeLinks, Links.size_ofFn, and_assoc]

/-- A place of the next row is a position with a node, around which a place of this row is. -/
theorem mem_rowAt_succ : place ∈ rowAt f (j + 1) ↔
    ∃ k, place = some k ∧ k < f.size ∧ f.isNode k = true ∧ f.nodeLinks.parent k ∈ rowAt f j := by
  rw [rowAt, nthRow_succ, nextRow, List.mem_flatMap]
  constructor
  · rintro ⟨q, hq, hmem⟩
    obtain ⟨k, hk, rfl⟩ := List.mem_map.mp hmem
    obtain ⟨hlt, hpar, hnode⟩ := mem_childrenOf.mp hk
    exact ⟨k, rfl, hlt, hnode, hpar ▸ hq⟩
  · rintro ⟨k, rfl, hlt, hnode, hq⟩
    exact ⟨_, hq, List.mem_map_of_mem (mem_childrenOf.mpr ⟨hlt, rfl, hnode⟩)⟩

theorem some_mem_rowAt_succ : some k ∈ rowAt f (j + 1) ↔
    k < f.size ∧ f.isNode k = true ∧ f.nodeLinks.parent k ∈ rowAt f j := by
  simp [mem_rowAt_succ]

/-- A place so many steps inside is that far from the global one along the links. -/
theorem walk_of_mem_rowAt (hk : some k ∈ rowAt f (j + 1)) :
    ∀ m < j, f.nodeLinks.parent (f.nodeLinks.climb m k) ≠ none := by
  induction j generalizing k with
  | zero => intro m hm; omega
  | succ j ih =>
    obtain ⟨-, -, hpar⟩ := some_mem_rowAt_succ.mp hk
    obtain ⟨p, hp, -, -, -⟩ := mem_rowAt_succ.mp hpar
    rw [hp] at hpar
    intro m hm
    cases m with
    | zero =>
      show f.nodeLinks.parent k ≠ none
      rw [hp]
      simp
    | succ m =>
      rw [Links.climb_succ_of_some hp]
      exact ih hpar m (by omega)

theorem mem_rowAt_of_endsWithin (h : f.WellFormed) (hnode : f.isNode k = true) (hk : k < f.size)
    (hend : f.nodeLinks.EndsWithin m k) : ∃ j, j < m ∧ some k ∈ rowAt f (j + 1) := by
  induction m generalizing k with
  | zero => exact absurd hend (by simp [Links.EndsWithin])
  | succ m ih =>
    cases hp : f.nodeLinks.parent k with
    | none =>
      refine ⟨0, by omega, some_mem_rowAt_succ.mpr ⟨hk, hnode, ?_⟩⟩
      rw [hp]
      exact List.mem_singleton.mpr rfl
    | some p =>
      -- what is around the position is one row further out
      obtain ⟨j, hj, hmem⟩ := ih (Folding.isNode_of_nodeLinks h hnode hp)
        (Folding.lt_size_of_nodeLinks h hp) (hend p hp)
      refine ⟨j + 1, by omega, some_mem_rowAt_succ.mpr ⟨hk, hnode, ?_⟩⟩
      rw [hp]
      exact hmem

/-- The rows are empty after as many as there are environments, and one. -/
theorem rowAt_eq_nil (h : f.WellFormed) : rowAt f (f.size + 1) = [] := by
  apply List.eq_nil_iff_forall_not_mem.mpr
  intro place hmem
  obtain ⟨k, rfl, hlt, -, -⟩ := mem_rowAt_succ.mp hmem
  -- a place in that row would start a walk through more members than there are
  have hwalk := Links.lt_size_of_walk (Folding.nodeLinks_forest h)
    (Folding.nodeLinks_closed h) (i := k) (by rwa [Folding.size_nodeLinks])
    (walk_of_mem_rowAt hmem)
  rw [Folding.size_nodeLinks] at hwalk
  exact absurd hwalk (lt_irrefl _)

/-- The places in the order of their nodes. -/
def order (f : Folding) : List (Option Nat) := (rowsOf f).flatten

theorem mem_order : place ∈ order f ↔ ∃ j < f.size + 1, place ∈ rowAt f j := mem_flatten_rows

theorem none_mem_order (f : Folding) : none ∈ order f :=
  mem_order.mpr ⟨0, by omega, List.mem_singleton.mpr rfl⟩

/-- Every position with a node is in a row. -/
theorem mem_order_of_isNode (h : f.WellFormed) (hnode : f.isNode k = true) (hk : k < f.size) :
    some k ∈ order f := by
  obtain ⟨j, hj, hmem⟩ :=
    mem_rowAt_of_endsWithin h hnode hk (Folding.nodeLinks_endsWithin h hk)
  exact mem_order.mpr ⟨j + 1, by omega, hmem⟩

theorem place_mem_order (h : f.WellFormed) (hi : i < f.size) : f.place i ∈ order f := by
  cases hk : f.place i with
  | none => exact none_mem_order _
  | some k =>
    obtain ⟨hnode, hlt⟩ := Folding.isNode_of_place h hi hk
    exact mem_order_of_isNode h hnode hlt

/-! ## Nodes -/

/-- The places of rows with the numbers of their rows. -/
def levelled (rows : List (List (Option Nat))) : List (Nat × Option Nat) :=
  (rows.mapIdx fun level row => row.map (Prod.mk level)).flatten

theorem map_snd_levelled (rows : List (List (Option Nat))) :
    (levelled rows).map Prod.snd = rows.flatten := by
  rw [levelled, List.map_flatten]
  congr 1
  apply List.ext_getElem?
  intro j
  rw [List.getElem?_map, List.getElem?_mapIdx]
  cases rows[j]? <;> simp [Function.comp_def]

/-- The nodes of the tree of a folding are those of its places, in order. -/
theorem nodes_ofFolding (f : Folding) :
    (ofFolding f).nodes.toList =
      (levelled (rowsOf f)).map fun lp => nodeOf f f.nodeLinks (order f) lp.1 lp.2 := by
  rw [levelled, List.map_flatten]
  show ((rowsOf f).mapIdx _).flatten = _
  congr 1
  apply List.ext_getElem?
  intro j
  rw [List.getElem?_map, List.getElem?_mapIdx, List.getElem?_mapIdx]
  cases (rowsOf f)[j]? <;> simp [Function.comp_def, order]

theorem size_nodes_ofFolding (f : Folding) : (ofFolding f).nodes.size = (order f).length := by
  rw [← Array.length_toList, nodes_ofFolding, List.length_map, order, ← map_snd_levelled,
    List.length_map]

theorem build_fst (s : Snapshot) (policy : FramePolicy) :
    (build s policy).1 = ofFolding (s.folding policy) := rfl

/-! ## The node that stands for an environment -/

theorem lookup_isSome_iff {β : Type} {entries : List (EnvId × β)} {e : EnvId} :
    (entries.lookup e).isSome ↔ ∃ b, (e, b) ∈ entries := by
  induction entries with
  | nil => simp
  | cons entry rest ih =>
    obtain ⟨d, b⟩ := entry
    rw [List.lookup_cons]
    cases hd : e == d with
    | true =>
      have hed : e = d := by simpa using hd
      subst hed
      simp only [Option.isSome_some, true_iff]
      exact ⟨b, List.mem_cons_self⟩
    | false =>
      have hed : e ≠ d := by simpa using hd
      simp [ih, hed]

theorem mem_of_lookup {β : Type} {entries : List (EnvId × β)} {e : EnvId} {b : β}
    (h : entries.lookup e = some b) : (e, b) ∈ entries := by
  obtain ⟨l₁, l₂, rfl, -⟩ := List.lookup_eq_some_iff.mp h
  simp

theorem mem_homes {e : EnvId} : (e, m) ∈ (ofFolding f).homes ↔
    ∃ i < f.size, f.nesting.id? i = some e ∧ (order f).idxOf (f.place i) = m := by
  show (e, m) ∈ (List.range f.size).filterMap _ ↔ _
  simp only [List.mem_filterMap, List.mem_range, Option.map_eq_some_iff, Prod.mk.injEq]
  constructor
  · rintro ⟨i, hi, e', he', rfl, hm⟩
    exact ⟨i, hi, he', hm⟩
  · rintro ⟨i, hi, he, hm⟩
    exact ⟨i, hi, e, he, rfl, hm⟩

/-- The identities that resolve to a node are those of the snapshot. -/
theorem resolve_isSome_iff (policy : FramePolicy) {e : EnvId} :
    ((build s policy).1.resolve e).isSome ↔ ∃ env ∈ s.envs, env.id = e := by
  rw [← Nesting.exists_id?_iff, build_fst, resolve, lookup_isSome_iff]
  constructor
  · rintro ⟨m, hm⟩
    obtain ⟨i, hi, hid, -⟩ := mem_homes.mp hm
    exact ⟨i, hi, hid⟩
  · rintro ⟨i, hi, hid⟩
    exact ⟨_, mem_homes.mpr ⟨i, hi, hid, rfl⟩⟩

/-- An identity resolves to a node of the tree. -/
theorem resolve_lt {e : EnvId} (h : (build s policy).1.resolve e = some m) :
    m < (build s policy).1.nodes.size := by
  obtain ⟨i, hi, -, rfl⟩ := mem_homes.mp (mem_of_lookup h)
  rw [build_fst, size_nodes_ofFolding]
  exact List.idxOf_lt_length_of_mem (place_mem_order (s.wellFormed_folding policy) hi)

/-! ## Levels -/

theorem mem_nodesAt {level : Nat} :
    i ∈ t.nodesAt level ↔ ∃ node, t.nodes[i]? = some node ∧ node.level = level := by
  simp only [nodesAt, List.mem_filter, List.mem_range, Option.any_eq_true, decide_eq_true_eq]
  constructor
  · rintro ⟨-, node, hnode, hlevel⟩
    exact ⟨node, hnode, hlevel⟩
  · rintro ⟨node, hnode, hlevel⟩
    exact ⟨(Array.getElem?_eq_some_iff.mp hnode).1, node, hnode, hlevel⟩

theorem foldl_max_level (nodes : List TreeNode) (d : Nat) :
    d ≤ nodes.foldl (fun d node => max d (node.level + 1)) d ∧
      ∀ node ∈ nodes, node.level < nodes.foldl (fun d node => max d (node.level + 1)) d := by
  induction nodes generalizing d with
  | nil => simp
  | cons node rest ih =>
    obtain ⟨hle, hlt⟩ := ih (max d (node.level + 1))
    rw [List.foldl_cons]
    refine ⟨by omega, fun x hx => ?_⟩
    rcases List.mem_cons.mp hx with rfl | hx
    · omega
    · exact hlt x hx

theorem level_lt_depth {node : TreeNode} (h : t.nodes[i]? = some node) : node.level < t.depth := by
  rw [depth, ← Array.foldl_toList]
  exact (foldl_max_level t.nodes.toList 0).2 node (Array.mem_toList_iff.mpr (Array.mem_of_getElem? h))

/-- Every node is in a level. -/
theorem mem_levels : i ∈ t.levels.flatten ↔ i < t.nodes.size := by
  simp only [levels, List.mem_flatten, List.mem_map, List.mem_range]
  constructor
  · rintro ⟨row, ⟨level, -, rfl⟩, hi⟩
    obtain ⟨node, hnode, -⟩ := mem_nodesAt.mp hi
    exact (Array.getElem?_eq_some_iff.mp hnode).1
  · intro hi
    have hnode := Array.getElem?_eq_getElem hi
    exact ⟨_, ⟨_, level_lt_depth hnode, rfl⟩, mem_nodesAt.mpr ⟨_, hnode, rfl⟩⟩

/-- No node is in two levels. -/
theorem nodup_levels (t : EnvTree) : t.levels.flatten.Nodup := by
  rw [levels, ← List.flatMap_def, List.nodup_flatMap]
  refine ⟨fun level _ => List.Nodup.filter _ List.nodup_range, ?_⟩
  refine List.Pairwise.imp_of_mem ?_ List.nodup_range
  intro a b _ _ hab i ha hb
  obtain ⟨node, hnode, ha⟩ := mem_nodesAt.mp ha
  obtain ⟨node', hnode', hb⟩ := mem_nodesAt.mp hb
  rw [hnode, Option.some.injEq] at hnode'
  exact hab (by rw [← ha, ← hb, hnode'])

end EnvDiagram.EnvTree
