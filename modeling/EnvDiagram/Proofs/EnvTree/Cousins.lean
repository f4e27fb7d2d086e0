import EnvDiagram.Proofs.EnvTree.BreadthFirst

/-!
# Nodes of different parents

The rows of places come one after the other, and in a row the children of one place come after
those of an earlier one. So two nodes are numbered as what is around them is; only where they have
the same parent does the snapshot decide.

* `pairwise_comesBefore` — the order of the places
* `parent_lt_or_of_lt` — the order of the nodes of a tree
-/

namespace EnvDiagram.EnvTree

variable {f : Folding} {policy : FramePolicy} {s : Snapshot} {i j k m p q : Nat}
  {place : Option Nat} {node : TreeNode} {row : List (Option Nat)}

/-- Whether what is around a place is numbered before what is around another one, or the same is
around both and the one has the smaller position. -/
def ComesBefore (f : Folding) (outer inner : Option Nat) : Prop :=
  ∀ i k, outer = some i → inner = some k →
    (order f).idxOf (f.nodeLinks.parent i) < (order f).idxOf (f.nodeLinks.parent k) ∨
      f.nodeLinks.parent i = f.nodeLinks.parent k ∧ i < k

theorem pairwise_idxOf (f : Folding) :
    (order f).Pairwise fun a b => (order f).idxOf a < (order f).idxOf b := by
  rw [List.pairwise_iff_getElem]
  intro i j hi hj hij
  rwa [idxOf_order (List.getElem?_eq_getElem hi), idxOf_order (List.getElem?_eq_getElem hj)]

/-- The row after one whose places are in order. -/
theorem pairwise_nextRow (h : row.Pairwise fun a b => (order f).idxOf a < (order f).idxOf b) :
    (nextRow (childrenOf f f.nodeLinks) row).Pairwise (ComesBefore f) := by
  rw [nextRow, List.pairwise_flatMap]
  constructor
  · intro place _
    rw [List.pairwise_map]
    refine (pairwise_childrenOf f f.nodeLinks place).imp_of_mem fun {a b} ha hb hab => ?_
    rintro i k ⟨⟩ ⟨⟩
    obtain ⟨-, hi, -⟩ := mem_childrenOf.mp ha
    obtain ⟨-, hk, -⟩ := mem_childrenOf.mp hb
    exact Or.inr ⟨hi.trans hk.symm, hab⟩
  · refine h.imp fun {a b} hab u hu w hw => ?_
    obtain ⟨c, hc, rfl⟩ := List.mem_map.mp hu
    obtain ⟨d, hd, rfl⟩ := List.mem_map.mp hw
    rintro i k ⟨⟩ ⟨⟩
    obtain ⟨-, hi, -⟩ := mem_childrenOf.mp hc
    obtain ⟨-, hk, -⟩ := mem_childrenOf.mp hd
    rw [hi, hk]
    exact Or.inl hab

theorem getElem_rowsOf (f : Folding) (h : j < (rowsOf f).length) : (rowsOf f)[j] = rowAt f j :=
  getElem?_rowsOf (List.getElem?_eq_getElem h)

/-- The places are numbered as what is around them, and by their positions where that is the
same. -/
theorem pairwise_comesBefore (f : Folding) : (order f).Pairwise (ComesBefore f) := by
  obtain ⟨hrow, hrows⟩ := List.pairwise_flatten.mp (pairwise_idxOf f)
  rw [List.pairwise_iff_getElem] at hrows
  rw [order, List.pairwise_flatten]
  constructor
  · intro row hmem
    obtain ⟨j, hj, rfl⟩ := List.mem_iff_getElem.mp hmem
    rw [getElem_rowsOf]
    cases j with
    | zero => exact List.pairwise_singleton ..
    | succ j =>
      rw [rowAt, nthRow_succ, ← rowAt, ← getElem_rowsOf f (Nat.lt_of_succ_lt hj)]
      exact pairwise_nextRow (hrow _ (List.getElem_mem _))
  · -- the rows further out come first
    rw [List.pairwise_iff_getElem]
    rintro i j hi hj hij _ hu _ hw a c rfl rfl
    rw [getElem_rowsOf] at hu hw
    cases i with
    | zero => cases mem_rowAt_zero.mp hu
    | succ i =>
      cases j with
      | zero => cases mem_rowAt_zero.mp hw
      | succ j =>
        obtain ⟨-, -, hu⟩ := some_mem_rowAt_succ.mp hu
        obtain ⟨-, -, hw⟩ := some_mem_rowAt_succ.mp hw
        rw [← getElem_rowsOf f (Nat.lt_of_succ_lt hi)] at hu
        rw [← getElem_rowsOf f (Nat.lt_of_succ_lt hj)] at hw
        exact Or.inl (hrows i j _ _ (Nat.lt_of_succ_lt_succ hij) _ hu _ hw)

/-! ## Nodes -/

/-- Of two nodes the one with the smaller number has the smaller parent, or they have the same
parent and its environment occurs earlier in the snapshot. -/
theorem parent_lt_or_of_lt {x y : TreeNode} (hjk : j < k)
    (hx : (build s policy).1.nodes[j]? = some x) (hy : (build s policy).1.nodes[k]? = some y)
    (hp : x.parent = some p) (hq : y.parent = some q) :
    p < q ∨ p = q ∧ ∃ d e, x.env = some d ∧ y.env = some e ∧
      s.ids.idxOf d < s.ids.idxOf e := by
  rw [build_fst] at hx hy
  obtain ⟨level, u, hu, rfl⟩ := place_of_node hx
  obtain ⟨level', w, hw, rfl⟩ := place_of_node hy
  cases u with
  | none => cases hp
  | some a =>
    cases w with
    | none => cases hq
    | some c =>
      obtain ⟨hj, hju⟩ := List.getElem?_eq_some_iff.mp hu
      obtain ⟨hk, hkw⟩ := List.getElem?_eq_some_iff.mp hw
      obtain rfl := Option.some.inj hp
      obtain rfl := Option.some.inj hq
      have hpair := List.pairwise_iff_getElem.mp (pairwise_comesBefore _) j k hj hk hjk
      rcases hpair a c hju hkw with hlt | ⟨hsame, hac⟩
      · exact Or.inl hlt
      · obtain ⟨d, hd⟩ := Nesting.exists_id? (isNode_of_mem_order (List.mem_of_getElem? hu)).2
        obtain ⟨e, he⟩ := Nesting.exists_id? (isNode_of_mem_order (List.mem_of_getElem? hw)).2
        exact Or.inr ⟨by rw [hsame], d, e, hd, he, Nesting.idxOf_ids_lt hd he hac⟩

end EnvDiagram.EnvTree
