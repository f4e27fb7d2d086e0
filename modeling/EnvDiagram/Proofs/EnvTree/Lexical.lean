import EnvDiagram.Proofs.EnvTree.Places

/-!
# The tree keeps the lexical nesting

A place encloses another if the walk outward from the second meets the first; the global place
encloses every other. One step outward in a nesting stays in a place or leads to one that
encloses it (`Folding.encloses_of_parent`), so what lies around an environment has a node
around its node, or the same. Between positions that have nodes nothing is gained
(`Folding.ancestor_nodeLinks_iff`): a node lies around another only if the environments do.

* `EnvTree.ancestor_links_iff` — the numbered nodes lie in one another as their places do
* `EnvTree.nests_build` — the tree of a snapshot keeps its nesting
-/

namespace EnvDiagram

variable {f : Folding} {policy : FramePolicy} {s : Snapshot} {e a b : EnvId} {i j k m p q : Nat}
  {place inner outer : Option Nat}

/-- Whether an environment lies around another: it is the global one, or met on the walk
outward along the repaired parents. -/
def Snapshot.Surrounds (s : Snapshot) (a b : EnvId) : Prop := s.globalEnv? = some a ∨ s.Ancestor a b

/-- The links from every node to its parent. -/
def EnvTree.links (t : EnvTree) : Links := ⟨t.nodes.map TreeNode.parent⟩

/-- A tree keeps the lexical nesting of a snapshot. -/
structure EnvTree.Nests (t : EnvTree) (s : Snapshot) : Prop where
  /-- What stands for an environment around another is its node or lies around it. -/
  preserves : ∀ a b, b ∈ s.ids → s.Surrounds a b →
    ∃ m k, t.resolve a = some m ∧ t.resolve b = some k ∧ (m = k ∨ t.links.Ancestor m k)
  /-- Nodes of different environments lie in one another only if the environments do. -/
  reflects : ∀ a b m k outer inner, t.nodes[m]? = some outer → t.nodes[k]? = some inner →
    outer.env = some a → inner.env = some b → a ≠ b →
    (t.links.Ancestor m k ↔ s.Surrounds a b)

/-! ## Positions with nodes -/

namespace Folding

/-- Whether a place lies around another. -/
def Encloses (f : Folding) (outer inner : Option Nat) : Prop :=
  ∃ k, inner = some k ∧ ∀ i, outer = some i → f.nodeLinks.Ancestor i k

theorem Encloses.trans (ho : f.Encloses outer place) (hi : f.Encloses place inner) :
    f.Encloses outer inner := by
  obtain ⟨j, rfl, ho⟩ := ho
  obtain ⟨k, rfl, hi⟩ := hi
  exact ⟨k, rfl, fun i hout => (ho i hout).trans (hi j rfl)⟩

/-- The global place lies around every other. -/
theorem encloses_none (f : Folding) (k : Nat) : f.Encloses none (some k) := ⟨k, rfl, by simp⟩

theorem encloses_some : f.Encloses (some i) (some k) ↔ f.nodeLinks.Ancestor i k := by
  simp [Encloses]

theorem not_encloses_none (f : Folding) (outer : Option Nat) : ¬ f.Encloses outer none := by
  simp [Encloses]

/-- A position that is not folded lies around the outermost of those folded into one, if it
lies around that one. -/
theorem ancestor_outermost (hend : f.outer.EndsWithin m k)
    (hi : f.folds.parent i = none) (h : f.outer.Ancestor i k) :
    f.outer.Ancestor i ((f.foldedInto m k).headD k) := by
  induction m generalizing k with
  | zero => exact absurd hend (by simp [Links.EndsWithin])
  | succ m ih =>
    rw [foldedInto]
    cases hp : f.outer.parent k with
    | none => exact h
    | some p =>
      simp only
      split
      · rename_i hfold
        rw [headD_concat]
        refine ih (hend p hp) (((Links.ancestor_iff_of_parent hp).mp h).resolve_left ?_)
        rintro rfl
        simp [hi] at hfold
      · exact h

theorem ancestor_nodeLinks_of_endsWithin (h : f.WellFormed) (hi : f.isNode i = true)
    (hk : f.isNode k = true) (hkn : k < f.size) (hend : f.nodeLinks.EndsWithin m k)
    (hanc : f.outer.Ancestor i k) : f.nodeLinks.Ancestor i k := by
  induction m generalizing k with
  | zero => exact absurd hend (by simp [Links.EndsWithin])
  | succ m ih =>
    obtain ⟨-, hfolds, -⟩ := isNode_iff.mp hi
    have hout := ancestor_outermost (outer_endsWithin h hkn) hfolds hanc
    have haround : f.nodeLinks.parent k = f.around k := Links.parent_ofFn _ hkn
    cases hp : f.around k with
    | none => exact absurd hout (Links.not_ancestor_of_none hp)
    | some p =>
      have hlink := haround.trans hp
      rcases (Links.ancestor_iff_of_parent hp).mp hout with rfl | hrest
      · exact .parent hlink
      · exact .outer hlink (ih (isNode_of_nodeLinks h hk hlink) (lt_size_of_nodeLinks h hlink)
          (hend p hlink) hrest)

/-- Among the positions with nodes the links between nodes change nothing. -/
theorem ancestor_nodeLinks_iff (h : f.WellFormed) (hi : f.isNode i = true) (hk : f.isNode k = true)
    (hkn : k < f.size) : f.nodeLinks.Ancestor i k ↔ f.outer.Ancestor i k := by
  constructor
  · intro hanc
    induction hanc with
    | parent hp =>
      obtain ⟨hlt, haround⟩ := Links.parent_ofFn_eq_some.mp hp
      exact ancestor_of_around h hlt haround
    | @outer k p hp _ ih =>
      obtain ⟨hlt, haround⟩ := Links.parent_ofFn_eq_some.mp hp
      exact (ih (isNode_of_nodeLinks h hk hp) (lt_size_of_nodeLinks h hp)).trans
        (ancestor_of_around h hlt haround)
  · exact ancestor_nodeLinks_of_endsWithin h hi hk hkn (nodeLinks_endsWithin h hkn)

/-! ## One step outward -/

/-- The place of what is around a position. -/
theorem place_of_parent (h : f.WellFormed) (hp : f.nesting.links.parent k = some p) :
    f.place p = (f.outer.parent k).map f.standIn := by
  have hout := outer_of_parent h hp
  by_cases hkept : f.isKept p = true
  · rw [if_pos hkept] at hout
    obtain ⟨-, hroot, -, -⟩ := outer_spec h hout
    rw [place_of_kept hkept, hout, hroot]
    rfl
  · rw [if_neg hkept] at hout
    rw [hout]
    cases hq : f.outer.parent p with
    | none => exact place_of_skipped (by simpa using hkept) hq
    | some q =>
      obtain ⟨-, hroot, -, -⟩ := outer_spec h hq
      rw [place, if_neg hkept, hq]
      simp [hroot]

/-- Foldings lead inward. -/
theorem outer_ancestor_of_folds (h : f.WellFormed) (hanc : f.folds.Ancestor k j) :
    f.outer.Ancestor j k := by
  induction hanc with
  | parent hc =>
    obtain ⟨-, -, -, -, hout, -⟩ := fold_spec h hc
    exact .parent hout
  | outer hc _ ih =>
    obtain ⟨-, -, -, -, hout, -⟩ := fold_spec h hc
    exact (Links.Ancestor.parent hout).trans ih

/-- Of two positions one step apart, the outer one is folded into the inner one or not at all. -/
theorem standIn_of_outer (h : f.WellFormed) (hkept : f.isKept k = true)
    (hroot : f.nesting.isRoot k = false) (hk : k < f.size) (hq : f.outer.parent k = some q) :
    f.standIn q = f.standIn k ∨ f.nodeLinks.Ancestor (f.standIn q) (f.standIn k) := by
  obtain ⟨hkq, hrq, hqn, -⟩ := outer_spec h hq
  obtain ⟨hnode, hlt⟩ := isNode_standIn h hk hkept hroot
  obtain ⟨-, hend, -⟩ := isNode_iff.mp hnode
  -- the position is its stand-in or folded into it
  have hstand := (standIn_eq_iff h hk hend).mp rfl
  cases hfold : f.folds.parent q with
  | some c =>
    left
    obtain ⟨-, -, -, -, -, honly⟩ := fold_spec h hfold
    rw [← honly k hkept hq] at hfold
    rw [standIn_eq_iff h hqn hend, Links.ancestor_iff_of_parent hfold]
    exact Or.inr (hstand.imp_left Eq.symm)
  | none =>
    right
    have hself : f.standIn q = q := Links.climb_of_none hfold _
    rw [hself, ancestor_nodeLinks_iff h (isNode_iff.mpr ⟨hkq, hfold, hrq⟩) hnode hlt]
    rcases hstand with heq | hanc
    · rw [← heq]
      exact .parent hq
    · exact (Links.Ancestor.parent hq).trans (outer_ancestor_of_folds h hanc)

/-- One step outward stays in a place, or leads to one around it. -/
theorem encloses_of_parent (h : f.WellFormed) (hp : f.nesting.links.parent k = some p) :
    f.place p = f.place k ∨ f.Encloses (f.place p) (f.place k) := by
  by_cases hkept : f.isKept k = true
  · have hroot : f.nesting.isRoot k = false := by
      cases hr : f.nesting.isRoot k with
      | false => rfl
      | true =>
        rw [h.nesting.root_parentless (by simpa [Nesting.isRoot] using hr)] at hp
        simp at hp
    have hk : k < f.size := size_links h ▸ Links.lt_size_of_parent hp
    rw [place_of_parent h hp, place_of_kept hkept, hroot]
    cases hq : f.outer.parent k with
    | none => exact Or.inr (encloses_none _ _)
    | some q =>
      refine (standIn_of_outer h hkept hroot hk hq).imp (fun heq => ?_) encloses_some.mpr
      rw [Option.map_some, heq]
      rfl
  · left
    rw [place_of_not_kept h (i := k) (by simpa using hkept), hp, Option.bind_some]

/-- What lies around a position has its place, or one around it. -/
theorem encloses_of_ancestor (h : f.WellFormed) (hanc : f.nesting.links.Ancestor i k) :
    f.place i = f.place k ∨ f.Encloses (f.place i) (f.place k) := by
  induction hanc with
  | parent hp => exact encloses_of_parent h hp
  | outer hp _ ih =>
    rcases encloses_of_parent h hp with heq | hstep
    · rwa [← heq]
    · rcases ih with heq | hrest
      · exact Or.inr (heq ▸ hstep)
      · exact Or.inr (hrest.trans hstep)

/-- The global position has the global place, which is around every other. -/
theorem encloses_of_root (h : f.WellFormed) (hr : f.nesting.root = some i) (k : Nat) :
    f.place i = f.place k ∨ f.Encloses (f.place i) (f.place k) := by
  have hi : f.place i = none := by
    rw [place_of_kept (h.isKept_root hr), Nesting.isRoot, hr]
    simp
  rw [hi]
  cases f.place k with
  | none => exact Or.inl rfl
  | some c => exact Or.inr (encloses_none _ c)

/-- Places of positions with nodes lie in one another as the positions do. -/
theorem encloses_iff (h : f.WellFormed) (hi : f.isNode i = true) (hk : f.isNode k = true)
    (hkn : k < f.size) :
    f.Encloses (some i) (some k) ↔ f.nesting.links.Ancestor i k := by
  obtain ⟨hkept, -, -⟩ := isNode_iff.mp hi
  rw [encloses_some, ancestor_nodeLinks_iff h hi hk hkn, h.outer]
  exact Links.ancestor_contract_iff h.nesting.forest h.nesting.closed hkept

end Folding

namespace EnvTree

/-! ## Nodes in one another -/

theorem parent_links {t : EnvTree} : t.links.parent m = (t.nodes[m]?).bind TreeNode.parent := by
  by_cases hm : m < t.nodes.size <;> simp [links, Links.parent, Array.getD, hm]

/-- The parent of a node is that of the place around. -/
theorem parent_links_ofFolding (h : place ∈ order f) :
    (ofFolding f).links.parent ((order f).idxOf place) =
      place.map fun k => (order f).idxOf (f.nodeLinks.parent k) := by
  obtain ⟨level, hnode⟩ := nodes_idxOf h
  rw [parent_links, hnode]
  cases place <;> rfl

/-- What is around a place in a row is in a row. -/
theorem parent_mem_order (h : some k ∈ order f) : f.nodeLinks.parent k ∈ order f := by
  obtain ⟨j, hj, hmem⟩ := mem_order.mp h
  cases j with
  | zero => simp [mem_rowAt_zero] at hmem
  | succ j =>
    obtain ⟨-, -, hparent⟩ := some_mem_rowAt_succ.mp hmem
    exact mem_order.mpr ⟨j, by omega, hparent⟩

/-- The node of the global place lies around every other. -/
theorem ancestor_links_root (h : some k ∈ order f) :
    (ofFolding f).links.Ancestor 0 ((order f).idxOf (some k)) := by
  obtain ⟨j, hj, hmem⟩ := mem_order.mp h
  induction j generalizing k with
  | zero => simp [mem_rowAt_zero] at hmem
  | succ j ih =>
    obtain ⟨-, -, hparent⟩ := some_mem_rowAt_succ.mp hmem
    have hlink := parent_links_ofFolding h
    rw [Option.map_some] at hlink
    cases hp : f.nodeLinks.parent k with
    | none =>
      rw [hp, idxOf_none] at hlink
      exact .parent hlink
    | some p =>
      rw [hp] at hlink hparent
      exact .outer hlink (ih (hp ▸ parent_mem_order h) (by omega) hparent)

/-- The numbered nodes lie in one another as their places do. -/
theorem ancestor_links_iff (ho : outer ∈ order f) (hi : inner ∈ order f) :
    (ofFolding f).links.Ancestor ((order f).idxOf outer) ((order f).idxOf inner) ↔
      f.Encloses outer inner := by
  constructor
  · intro h
    generalize hm : (order f).idxOf inner = m at h
    -- the induction is on the walk outward along the numbers of the nodes
    induction h generalizing inner with
    | parent hp =>
      rw [← hm, parent_links_ofFolding hi, Option.map_eq_some_iff] at hp
      obtain ⟨k, rfl, hp⟩ := hp
      rw [List.idxOf_inj (parent_mem_order hi)] at hp
      exact ⟨k, rfl, fun i hout => .parent (hp.trans hout)⟩
    | outer hp _ ih =>
      rw [← hm, parent_links_ofFolding hi, Option.map_eq_some_iff] at hp
      obtain ⟨k, rfl, hp⟩ := hp
      obtain ⟨j, hj, hanc⟩ := ih (parent_mem_order hi) hp
      exact ⟨k, rfl, fun i hout => .outer hj (hanc i hout)⟩
  · rintro ⟨k, rfl, h⟩
    cases outer with
    | none =>
      rw [idxOf_none]
      exact ancestor_links_root hi
    | some i =>
      have hanc := h i rfl
      clear h
      induction hanc with
      | @parent k hp =>
        refine .parent ?_
        rw [parent_links_ofFolding hi, Option.map_some, hp]
      | @outer k p hp _ ih =>
        refine .outer ?_ (ih (hp ▸ parent_mem_order hi))
        rw [parent_links_ofFolding hi, Option.map_some, hp]

/-! ## Environments in one another -/

theorem exists_id?_of_surrounds (h : s.Surrounds a b) :
    ∃ i, (Nesting.ofSnapshot s).1.id? i = some a := by
  rcases h with hroot | hanc
  · obtain ⟨i, -, hi⟩ := Option.bind_eq_some_iff.mp hroot
    exact ⟨i, hi⟩
  · refine Nesting.exists_id?_of_mem ?_
    induction hanc with
    | parent hp => exact (Snapshot.repairedParent_eq_some_iff.mp hp).2.1
    | outer _ _ ih => exact ih

/-- What stands for an environment around another is its node or lies around it. -/
theorem resolve_of_surrounds (policy : FramePolicy) (hb : b ∈ s.ids) (h : s.Surrounds a b) :
    ∃ m k, (build s policy).1.resolve a = some m ∧ (build s policy).1.resolve b = some k ∧
      (m = k ∨ (build s policy).1.links.Ancestor m k) := by
  have hwf := s.wellFormed_folding policy
  obtain ⟨i, hi⟩ := exists_id?_of_surrounds h
  obtain ⟨j, hj⟩ := Nesting.exists_id?_of_mem hb
  have hplaces : (s.folding policy).place i = (s.folding policy).place j ∨
      (s.folding policy).Encloses ((s.folding policy).place i) ((s.folding policy).place j) := by
    rcases h with hroot | hanc
    · exact Folding.encloses_of_root hwf ((Nesting.globalEnv?_iff hi).mp hroot) j
    · exact Folding.encloses_of_ancestor hwf ((Nesting.ancestor_iff hi hj).mp hanc)
  refine ⟨_, _, resolve_of_id? policy hi, resolve_of_id? policy hj, ?_⟩
  rw [build_fst, ancestor_links_iff (place_mem_order hwf (Nesting.lt_size_of_id? hi))
    (place_mem_order hwf (Nesting.lt_size_of_id? hj))]
  exact hplaces.imp_left fun heq => by rw [heq]

/-- The place of a node with an environment of its own. -/
theorem place_of_env {node : TreeNode} (hnode : (build s policy).1.nodes[m]? = some node)
    (ha : node.env = some a) : ∃ place i, (order (s.folding policy))[m]? = some place ∧
      (Nesting.ofSnapshot s).1.id? i = some a ∧
      (place = none ∧ (Nesting.ofSnapshot s).1.root = some i ∨ place = some i) := by
  rw [build_fst] at hnode
  obtain ⟨level, place, hplace, rfl⟩ := place_of_node hnode
  cases place with
  | none =>
    obtain ⟨i, hroot, hi⟩ := Option.bind_eq_some_iff.mp ha
    exact ⟨none, i, hplace, hi, Or.inl ⟨rfl, hroot⟩⟩
  | some i => exact ⟨some i, i, hplace, ha, Or.inr rfl⟩

/-- Nodes of different environments lie in one another only if the environments do. -/
theorem ancestor_links_iff_surrounds {outer inner : TreeNode}
    (houter : (build s policy).1.nodes[m]? = some outer)
    (hinner : (build s policy).1.nodes[k]? = some inner)
    (ha : outer.env = some a) (hb : inner.env = some b) (hab : a ≠ b) :
    (build s policy).1.links.Ancestor m k ↔ s.Surrounds a b := by
  have hwf := s.wellFormed_folding policy
  obtain ⟨p, i, hp, hi, hpi⟩ := place_of_env houter ha
  obtain ⟨q, j, hq, hj, hqj⟩ := place_of_env hinner hb
  have hpm := List.mem_of_getElem? hp
  have hqm := List.mem_of_getElem? hq
  have hij : i ≠ j := by
    rintro rfl
    exact hab (Option.some.inj (hi.symm.trans hj))
  rw [build_fst, ← idxOf_order hp, ← idxOf_order hq, ancestor_links_iff hpm hqm,
    Snapshot.Surrounds, Nesting.globalEnv?_iff hi, Nesting.ancestor_iff hi hj]
  rcases hpi with ⟨rfl, hroot⟩ | rfl
  · -- the outer one is global
    rcases hqj with ⟨rfl, hroot'⟩ | rfl
    · exact absurd (Option.some.inj (hroot.symm.trans hroot')) hij
    · exact iff_of_true (Folding.encloses_none _ j) (Or.inl hroot)
  · obtain ⟨hnode, -⟩ := isNode_of_mem_order hpm
    obtain ⟨-, -, hnr⟩ := Folding.isNode_iff.mp hnode
    have hroot : (Nesting.ofSnapshot s).1.root ≠ some i := of_decide_eq_false hnr
    rw [or_iff_right hroot]
    rcases hqj with ⟨rfl, hroot'⟩ | rfl
    · -- nothing is around the global one
      exact iff_of_false (Folding.not_encloses_none _ _)
        (Links.not_ancestor_of_none (hwf.nesting.root_parentless hroot'))
    · obtain ⟨hnode', hjn⟩ := isNode_of_mem_order hqm
      exact Folding.encloses_iff hwf hnode hnode' hjn

/-- The tree of a snapshot keeps its lexical nesting. -/
theorem nests_build (s : Snapshot) (policy : FramePolicy) : (build s policy).1.Nests s where
  preserves := fun _ _ => resolve_of_surrounds policy
  reflects := fun _ _ _ _ _ _ => ancestor_links_iff_surrounds

end EnvTree

end EnvDiagram
