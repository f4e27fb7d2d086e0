import EnvDiagram.Proofs.EnvTree.Numbering
import EnvDiagram.Proofs.EnvTree.Repair

/-!
# Nodes and their places

A place lies in one row only, so the numbering of the places is one to one
(`nodup_order`). A node of the tree is that of the place with its number, and an identity
resolves to the number of the place of its position.

* `nodes_idxOf`, `place_of_node` — nodes by places, and places by nodes
* `resolve_of_id?` — the node that stands for an environment
-/

namespace EnvDiagram.EnvTree

variable {f : Folding} {policy : FramePolicy} {s : Snapshot} {e : EnvId}
  {i j k m : Nat} {place : Option Nat} {node : TreeNode}

/-! ## No place comes twice -/

theorem mem_rowAt_zero : place ∈ rowAt f 0 ↔ place = none := List.mem_singleton

/-- A place lies in one row only. -/
theorem rowAt_inj (hj : place ∈ rowAt f j) (hk : place ∈ rowAt f k) : j = k := by
  induction j generalizing k place with
  | zero =>
    rw [mem_rowAt_zero.mp hj] at hk
    cases k with
    | zero => rfl
    | succ k =>
      obtain ⟨c, hc, -⟩ := mem_rowAt_succ.mp hk
      simp at hc
  | succ j ih =>
    obtain ⟨c, rfl, -, -, hparent⟩ := mem_rowAt_succ.mp hj
    cases k with
    | zero => simp [mem_rowAt_zero] at hk
    | succ k =>
      -- what is around the place lies in the rows before
      obtain ⟨-, -, hparent'⟩ := some_mem_rowAt_succ.mp hk
      rw [ih hparent hparent']

theorem nodup_rowAt (f : Folding) (j : Nat) : (rowAt f j).Nodup := by
  induction j with
  | zero => exact List.nodup_singleton _
  | succ j ih =>
    rw [rowAt, nthRow_succ, nextRow, List.nodup_flatMap]
    constructor
    · intro place _
      refine List.Nodup.map (Option.some_injective _) ?_
      exact (List.nodup_range.filter _).filter _
    · refine ih.imp fun {p q} hpq c hp hq => ?_
      obtain ⟨c, hc, rfl⟩ := List.mem_map.mp hp
      obtain ⟨c', hc', heq⟩ := List.mem_map.mp hq
      cases heq
      rw [mem_childrenOf] at hc hc'
      exact hpq (hc.2.1.symm.trans hc'.2.1)

theorem getElem?_rowsOf {row : List (Option Nat)} (h : (rowsOf f)[j]? = some row) :
    row = rowAt f j := by
  rw [rowsOf, rows_getElem?] at h
  split at h
  · exact (Option.some.inj h).symm
  · simp at h

theorem nodup_order (f : Folding) : (order f).Nodup := by
  rw [order, List.nodup_flatten]
  constructor
  · intro row h
    obtain ⟨j, hj⟩ := List.mem_iff_getElem?.mp h
    rw [getElem?_rowsOf hj]
    exact nodup_rowAt f j
  · rw [List.pairwise_iff_getElem]
    intro i j hi hj hij place hplace hplace'
    rw [getElem?_rowsOf (List.getElem?_eq_getElem hi)] at hplace
    rw [getElem?_rowsOf (List.getElem?_eq_getElem hj)] at hplace'
    exact absurd (rowAt_inj hplace hplace') (by omega)

theorem order_idxOf (h : place ∈ order f) : (order f)[(order f).idxOf place]? = some place := by
  rw [List.getElem?_eq_getElem (List.idxOf_lt_length_of_mem h), List.getElem_idxOf]

theorem idxOf_order (h : (order f)[m]? = some place) : (order f).idxOf place = m := by
  have hlt := List.idxOf_lt_length_of_mem (List.mem_of_getElem? h)
  obtain ⟨hm, hplace⟩ := List.getElem?_eq_some_iff.mp h
  have hsame : (order f)[(order f).idxOf place] = (order f)[m] := by
    rw [List.getElem_idxOf, hplace]
  exact (nodup_order f).getElem_inj_iff.mp hsame

/-- The global place has the first number. -/
theorem idxOf_none (f : Folding) : (order f).idxOf none = 0 := by
  refine idxOf_order ?_
  rw [order, rowsOf, rows]
  rfl

/-! ## Nodes -/

theorem place_of_node (h : (ofFolding f).nodes[m]? = some node) :
    ∃ level place, (order f)[m]? = some place ∧
      node = nodeOf f f.nodeLinks (order f) level place := by
  rw [← Array.getElem?_toList, nodes_ofFolding, List.getElem?_map, Option.map_eq_some_iff] at h
  obtain ⟨⟨level, place⟩, hlp, rfl⟩ := h
  refine ⟨level, place, ?_, rfl⟩
  rw [order, ← map_snd_levelled, List.getElem?_map, hlp]
  rfl

theorem nodes_idxOf (h : place ∈ order f) : ∃ level,
    (ofFolding f).nodes[(order f).idxOf place]? =
      some (nodeOf f f.nodeLinks (order f) level place) := by
  have hlt : (order f).idxOf place < (ofFolding f).nodes.size := by
    rw [size_nodes_ofFolding]
    exact List.idxOf_lt_length_of_mem h
  obtain ⟨level, place', hplace, hnode⟩ := place_of_node (Array.getElem?_eq_getElem hlt)
  rw [order_idxOf h, Option.some.injEq] at hplace
  subst hplace
  exact ⟨level, by rw [Array.getElem?_eq_getElem hlt, hnode]⟩

/-- The places other than the global one are the positions with nodes. -/
theorem isNode_of_mem_order (h : some k ∈ order f) : f.isNode k = true ∧ k < f.size := by
  obtain ⟨j, -, hj⟩ := mem_order.mp h
  cases j with
  | zero => simp [mem_rowAt_zero] at hj
  | succ j =>
    obtain ⟨hlt, hnode, -⟩ := some_mem_rowAt_succ.mp hj
    exact ⟨hnode, hlt⟩

/-! ## The node that stands for an environment -/

theorem resolve_of_id? (policy : FramePolicy) (h : (Nesting.ofSnapshot s).1.id? i = some e) :
    (build s policy).1.resolve e =
      some ((order (s.folding policy)).idxOf ((s.folding policy).place i)) := by
  have hsome : ((build s policy).1.resolve e).isSome := by
    rw [resolve_isSome_iff, ← Snapshot.mem_ids]
    exact Nesting.mem_ids_of_id? h
  obtain ⟨m, hm⟩ := Option.isSome_iff_exists.mp hsome
  have hhome : (e, m) ∈ (build s policy).1.homes := mem_of_lookup hm
  rw [build_fst, mem_homes] at hhome
  obtain ⟨j, -, hj, rfl⟩ := hhome
  rw [hm, Nesting.id?_inj hj h]

end EnvDiagram.EnvTree
