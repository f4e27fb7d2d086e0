import EnvDiagram.Proofs.EnvTree.Accounting
import EnvDiagram.Proofs.EnvTree.BreadthFirst

/-!
# Chains of folded environments

A chain of folded environments has one kept environment in each, down to the one whose node stands
for them all. The node lists the chain outermost first. And folding leaves nothing to fold: a node
has as many children as its environment has kept ones, since for each of these one node stands,
which is that of the last environment of a chain (`perm_map_outermost`).

* `Snapshot.NearestKept`, `Snapshot.OnlyKeptChild` — what lies in an environment once others are
  skipped
* `Folding.isChain_merged`, `Folding.length_childrenOf` — the same by positions
* `EnvTree.FoldsChains` — what it means that chains are folded, and all of them
* `EnvTree.foldsChains_build` — so they are in the tree of a snapshot
-/

namespace EnvDiagram

variable {f : Folding} {policy : FramePolicy} {s : Snapshot} {a b e : EnvId} {c i j k m p q : Nat}
  {node : TreeNode}

/-! ## Kept environments -/

namespace Snapshot

/-- The nearest environment around one that is not skipped. An environment without any hangs off
the global one. -/
inductive NearestKept (s : Snapshot) (policy : FramePolicy) : Option EnvId → EnvId → Prop
  | global {b : EnvId} : s.repairedParent b = none → NearestKept s policy none b
  | kept {b p : EnvId} : s.repairedParent b = some p → s.skips policy p = false →
    NearestKept s policy (some p) b
  | skipped {a : Option EnvId} {b p : EnvId} : s.repairedParent b = some p →
    s.skips policy p = true → NearestKept s policy a p → NearestKept s policy a b

/-- Whether an environment is kept and lies right in another one once others are skipped. -/
def IsKeptChild (s : Snapshot) (policy : FramePolicy) (a b : EnvId) : Prop :=
  s.skips policy b = false ∧ s.NearestKept policy (some a) b

/-- Whether an environment has one kept child and no other. -/
def OnlyKeptChild (s : Snapshot) (policy : FramePolicy) (a b : EnvId) : Prop :=
  ∀ c, s.IsKeptChild policy a c ↔ c = b

/-- Whether an environment has names and none of them is assigned. -/
def onlyDeclares (s : Snapshot) (e : EnvId) : Bool := (s.env? e).any Environment.onlyDeclares

end Snapshot

/-- Whether the chains of environments of unassigned names, each with one kept child, are folded
into the nodes of a tree, if the policy says so. -/
structure EnvTree.FoldsChains (t : EnvTree) (s : Snapshot) (policy : FramePolicy) : Prop where
  /-- What is folded is not the global environment, and has unassigned names only. -/
  folded : ∀ {m : Nat} {node : TreeNode}, t.nodes[m]? = some node → ∀ e ∈ node.merged,
    s.globalEnv? ≠ some e ∧ s.onlyDeclares e = true
  /-- Outermost first, each environment has the next one as its only kept child; the last one has
  that of the node. -/
  chain : ∀ {m : Nat} {node : TreeNode} {c : EnvId}, t.nodes[m]? = some node →
    node.env = some c → (node.merged ++ [c]).IsChain (s.OnlyKeptChild policy)
  /-- No chain goes on. -/
  complete : policy.foldDeclared = true → ∀ {m : Nat} {node : TreeNode} {e : EnvId},
    t.nodes[m]? = some node → node.isRoot = false → node.env = some e →
    s.onlyDeclares e = true → node.children.length ≠ 1
  /-- Under a policy that does not fold there are no chains. -/
  unfolded : policy.foldDeclared = false → ∀ {m : Nat} {node : TreeNode},
    t.nodes[m]? = some node → node.merged = []

/-! ## Chains by positions -/

/-- What a chain of positions has between neighbours, their identities have. -/
theorem isChain_filterMap {α β : Type} {R : α → α → Prop} {S : β → β → Prop} {f : α → Option β}
    {xs : List α} (h : xs.IsChain R) (hsome : ∀ x ∈ xs, (f x).isSome)
    (hstep : ∀ {x y u v}, R x y → f x = some u → f y = some v → S u v) :
    (xs.filterMap f).IsChain S := by
  induction h with
  | nil => exact .nil
  | singleton x =>
    obtain ⟨u, hu⟩ := Option.isSome_iff_exists.mp (hsome x List.mem_cons_self)
    rw [List.filterMap_cons_some hu]
    exact .singleton u
  | @cons_cons x y rest hxy _ ih =>
    obtain ⟨u, hu⟩ := Option.isSome_iff_exists.mp (hsome x List.mem_cons_self)
    obtain ⟨v, hv⟩ := Option.isSome_iff_exists.mp
      (hsome y (List.mem_cons_of_mem x List.mem_cons_self))
    have hrest := ih fun z hz => hsome z (List.mem_cons_of_mem x hz)
    rw [List.filterMap_cons_some hv] at hrest
    rw [List.filterMap_cons_some hu, List.filterMap_cons_some hv]
    exact .cons_cons (hstep hxy hu hv) hrest

namespace Folding

/-- The positions folded into one are a chain of foldings that ends in it. -/
theorem isChain_foldedInto (f : Folding) (m k : Nat) :
    (f.foldedInto m k ++ [k]).IsChain fun i j => f.folds.parent i = some j := by
  induction m generalizing k with
  | zero => exact .singleton k
  | succ m ih =>
    rw [foldedInto]
    cases hp : f.outer.parent k with
    | none => exact .singleton k
    | some p =>
      simp only
      split
      · rename_i hfold
        refine (ih p).append (.singleton k) fun x hx y hy => ?_
        obtain rfl : p = x := by simpa using hx
        obtain rfl : k = y := by simpa using hy
        exact hfold
      · exact .singleton k

theorem isChain_merged (f : Folding) (k : Nat) :
    (f.merged k ++ [k]).IsChain fun i j => f.folds.parent i = some j :=
  isChain_foldedInto f f.size k

/-- The outermost position folded into one, or that one itself. -/
def outermost (f : Folding) (i : Nat) : Nat := (f.merged i).headD i

theorem outermost_eq_or_ancestor (h : f.WellFormed) (hk : k < f.size) :
    f.outermost k = k ∨ f.folds.Ancestor k (f.outermost k) := by
  rw [outermost]
  cases hmerged : f.merged k with
  | nil => exact Or.inl rfl
  | cons j rest =>
    refine Or.inr ((mem_merged h hk).mp ?_)
    rw [hmerged]
    exact List.mem_cons_self

/-- A node is the stand-in of the outermost position folded into it. -/
theorem standIn_outermost (h : f.WellFormed) (hk : f.isNode k = true) (hkn : k < f.size) :
    f.standIn (f.outermost k) = k := by
  obtain ⟨-, hfolds, -⟩ := isNode_iff.mp hk
  have hout := outermost_eq_or_ancestor h hkn
  refine (standIn_eq_iff h ?_ hfolds).mpr hout
  rcases hout with heq | hanc
  · rwa [heq]
  · exact (kept_of_folded h hanc).1

/-- If nothing is folded into a position, it is the outermost one of its chain. -/
theorem headD_foldedInto (h : f.WellFormed) (hend : f.outer.EndsWithin m c)
    (hout : f.outer.parent k = some i) (hi : f.folds.parent i = none)
    (hc : c = k ∨ f.folds.Ancestor c k) : (f.foldedInto m c).headD c = k := by
  induction m generalizing c with
  | zero => exact absurd hend (by simp [Links.EndsWithin])
  | succ m ih =>
    rw [foldedInto]
    rcases hc with rfl | hanc
    · rw [hout]
      simp only
      rw [if_neg (by simp [hi])]
      rfl
    · -- the chain comes to `c` from what is right around it
      obtain ⟨x, hx, hxk⟩ := hanc.exists_last
      obtain ⟨-, -, -, -, hxc, -⟩ := fold_spec h hx
      rw [hxc]
      simp only
      rw [if_pos hx, headD_concat]
      exact ih (hend x hxc) (hxk.imp_left id)

/-- For each of the kept positions in a node there is one node in it, and no other. -/
theorem perm_map_outermost (h : f.WellFormed) (hi : f.isNode i = true) :
    ((EnvTree.childrenOf f f.nodeLinks (some i)).map f.outermost).Perm
        ((f.outer.children (some i)).filter f.isKept) := by
  obtain ⟨-, hfolds, -⟩ := isNode_iff.mp hi
  have hchild : ∀ {c}, c ∈ EnvTree.childrenOf f f.nodeLinks (some i) →
      c < f.size ∧ f.around c = some i ∧ f.isNode c = true := by
    intro c hc
    obtain ⟨hlt, hparent, hnode⟩ := EnvTree.mem_childrenOf.mp hc
    exact ⟨hlt, (Links.parent_ofFn_eq_some.mp hparent).2, hnode⟩
  rw [List.perm_ext_iff_of_nodup]
  · intro k
    rw [List.mem_map, List.mem_filter, Links.mem_children]
    constructor
    · rintro ⟨c, hc, rfl⟩
      obtain ⟨hlt, haround, hnode⟩ := hchild hc
      have hend : f.outer.EndsWithin f.size c := outer_endsWithin h hlt
      obtain ⟨-, htop, -⟩ := outermost_spec _ hend fun hq => (fold_spec h hq).1
      exact ⟨⟨Links.lt_size_of_parent haround, haround⟩, htop (isNode_iff.mp hnode).1⟩
    · rintro ⟨⟨hk, hout⟩, hkept⟩
      rw [size_outer h] at hk
      obtain ⟨hnode, hlt⟩ := isNode_standIn h hk hkept (isRoot_of_outer h hout)
      have hstand := (standIn_eq_iff h hk (isNode_iff.mp hnode).2.1).mp rfl
      have htop : f.outermost (f.standIn k) = k :=
        headD_foldedInto h (outer_endsWithin h hlt) hout hfolds (hstand.imp_left Eq.symm)
      refine ⟨_, EnvTree.mem_childrenOf.mpr ⟨hlt, ?_, hnode⟩, htop⟩
      refine Links.parent_ofFn_eq_some.mpr ⟨hlt, ?_⟩
      show f.outer.parent (f.outermost _) = _
      rw [htop, hout]
  · refine List.Nodup.map_on (fun a ha b hb hab => ?_)
      ((EnvTree.pairwise_childrenOf _ _ _).imp fun hlt => hlt.ne)
    obtain ⟨ha, -, hna⟩ := hchild ha
    obtain ⟨hb, -, hnb⟩ := hchild hb
    rw [← standIn_outermost h hna ha, hab, standIn_outermost h hnb hb]
  · exact (List.nodup_range.filter _).filter _

/-- A node has as many children as its environment has kept ones. -/
theorem length_childrenOf (h : f.WellFormed) (hi : f.isNode i = true) :
    (EnvTree.childrenOf f f.nodeLinks (some i)).length =
      ((f.outer.children (some i)).filter f.isKept).length := by
  rw [← (perm_map_outermost h hi).length_eq, List.length_map]

/-- No position with a node is left that could be folded. -/
theorem length_childrenOf_ne_one (hfold : policy.foldDeclared = true)
    (hi : (s.folding policy).isNode i = true)
    (honly : (s.folding policy).nesting.onlyDeclares i = true) :
    (EnvTree.childrenOf (s.folding policy) (s.folding policy).nodeLinks (some i)).length ≠ 1 := by
  intro hone
  rw [length_childrenOf (s.wellFormed_folding policy) hi, List.length_eq_one_iff] at hone
  obtain ⟨k, hk⟩ := hone
  obtain ⟨hkept, hfolds, hroot⟩ := isNode_iff.mp hi
  have hfolded := folds_ofNesting_iff.mpr ⟨hfold, (⟨hkept, hroot, honly, hk⟩ : Foldable _ i k)⟩
  exact absurd hfolds (Option.ne_none_iff_exists'.mpr ⟨k, hfolded⟩)

end Folding

/-! ## Kept environments by positions -/

theorem Snapshot.NearestKept.mem_ids {around : Option EnvId} (h : s.NearestKept policy around b)
    (hsome : around ≠ none) : b ∈ s.ids := by
  have hparent : ∃ p, s.repairedParent b = some p := by
    cases h with
    | global => exact absurd rfl hsome
    | kept hp _ => exact ⟨_, hp⟩
    | skipped hp _ _ => exact ⟨_, hp⟩
  obtain ⟨p, hp⟩ := hparent
  exact mem_ids_of_parentOf (Snapshot.repairedParent_eq_some_iff.mp hp).1

namespace Folding

theorem nearestKept_of_outer (h : (Nesting.ofSnapshot s).1.links.EndsWithin m j)
    (ha : (Nesting.ofSnapshot s).1.id? i = some a) (hb : (Nesting.ofSnapshot s).1.id? j = some b)
    (hout : (s.folding policy).outer.parent j = some i) : s.NearestKept policy (some a) b := by
  have hn := Nesting.ofSnapshot_wellFormed s
  have hwf := s.wellFormed_folding policy
  induction m generalizing j b with
  | zero => exact absurd h (by simp [Links.EndsWithin])
  | succ m ih =>
    have hrepaired := Nesting.repairedParent_of_id? hb
    cases hp : (Nesting.ofSnapshot s).1.links.parent j with
    | none =>
      rw [outer_of_none hwf hp] at hout
      cases hout
    | some p =>
      obtain ⟨e, he⟩ := Nesting.exists_id? (hn.size_links ▸ hn.closed j p hp)
      have hskips := isKept_eq_not_skips policy he
      rw [hp, Option.bind_some, he] at hrepaired
      rw [outer_of_parent hwf hp] at hout
      by_cases hkept : (s.folding policy).isKept p = true
      · rw [if_pos hkept, Option.some.injEq] at hout
        subst hout
        rw [ha, Option.some.injEq] at he
        subst he
        exact .kept hrepaired (by simpa [hkept] using hskips.symm)
      · rw [if_neg hkept] at hout
        exact .skipped hrepaired (by simpa [hkept] using hskips.symm) (ih (h p hp) he hout)

/-- The nearest kept environment around one is at the nearest kept position around its own. -/
theorem outer_eq_some_iff (ha : (Nesting.ofSnapshot s).1.id? i = some a)
    (hb : (Nesting.ofSnapshot s).1.id? j = some b) :
    (s.folding policy).outer.parent j = some i ↔ s.NearestKept policy (some a) b := by
  have hn := Nesting.ofSnapshot_wellFormed s
  have hwf := s.wellFormed_folding policy
  constructor
  · refine nearestKept_of_outer (Links.endsWithin_size hn.forest hn.closed ?_) ha hb
    rw [hn.size_links]
    exact Nesting.lt_size_of_id? hb
  · intro hnear
    generalize haround : some a = around at hnear
    induction hnear generalizing j with
    | global => cases haround
    | @kept b p hp hskip =>
      cases haround
      rw [Nesting.repairedParent_of_id? hb, Option.bind_eq_some_iff] at hp
      obtain ⟨q, hq, hid⟩ := hp
      have hkept := isKept_eq_not_skips policy ha
      rw [hskip, Bool.not_false] at hkept
      rw [outer_of_parent hwf hq, Nesting.id?_inj hid ha, if_pos hkept]
    | @skipped _ b p hp hskip _ ih =>
      rw [Nesting.repairedParent_of_id? hb, Option.bind_eq_some_iff] at hp
      obtain ⟨q, hq, hid⟩ := hp
      have hkept := isKept_eq_not_skips policy hid
      rw [hskip, Bool.not_true] at hkept
      rw [outer_of_parent hwf hq, if_neg (by simp [hkept])]
      exact ih hid haround

/-- What is folded is so into its only kept child. -/
theorem onlyKeptChild_of_folds (ha : (Nesting.ofSnapshot s).1.id? i = some a)
    (hb : (Nesting.ofSnapshot s).1.id? c = some b)
    (h : (s.folding policy).folds.parent i = some c) : s.OnlyKeptChild policy a b := by
  obtain ⟨-, -, -, hkept, hout, honly⟩ := fold_spec (s.wellFormed_folding policy) h
  intro e
  constructor
  · rintro ⟨hskip, hnear⟩
    obtain ⟨k, hk⟩ := Nesting.exists_id?_of_mem (hnear.mem_ids (by simp))
    have hkk := isKept_eq_not_skips policy hk
    rw [hskip, Bool.not_false] at hkk
    rw [honly k hkk ((outer_eq_some_iff ha hk).mpr hnear), hb] at hk
    exact (Option.some.inj hk).symm
  · rintro rfl
    refine ⟨?_, (outer_eq_some_iff ha hb).mp hout⟩
    rw [isKept_eq_not_skips policy hb] at hkept
    simpa using hkept

end Folding

/-! ## What is folded into a node -/

namespace Folding

/-- Only environments of unassigned names are folded, and only if the policy says so. -/
theorem onlyDeclares_of_folded (h : (s.folding policy).folds.Ancestor k i) :
    policy.foldDeclared = true ∧ (Nesting.ofSnapshot s).1.onlyDeclares i = true := by
  cases h with
  | parent hc =>
    obtain ⟨hfold, hc⟩ := folds_ofNesting_iff.mp hc
    exact ⟨hfold, hc.onlyDeclares⟩
  | outer hc _ =>
    obtain ⟨hfold, hc⟩ := folds_ofNesting_iff.mp hc
    exact ⟨hfold, hc.onlyDeclares⟩

/-- An environment without names is kept only if the policy skips none. -/
theorem skipEmpty_of_isKept {env : Environment} (hkept : (s.folding policy).isKept i = true)
    (hroot : (Nesting.ofSnapshot s).1.isRoot i = false)
    (henv : (Nesting.ofSnapshot s).1.envs[i]? = some env) (hempty : env.vars = []) :
    policy.skipEmpty = false := by
  have hi : i < (Nesting.ofSnapshot s).1.size :=
    lt_size_of_isKept (s.wellFormed_folding policy).size_kept hkept
  rw [Snapshot.folding, isKept_ofNesting hi, keeps, hroot, henv] at hkept
  simpa [hempty] using hkept

end Folding

namespace EnvTree

/-- What a position says of its environment. -/
theorem onlyDeclares_of_id? (h : (Nesting.ofSnapshot s).1.id? i = some e) :
    (Nesting.ofSnapshot s).1.onlyDeclares i = (s.env? e).any Environment.onlyDeclares := by
  obtain ⟨env, henv, -, hfind⟩ := Nesting.envs_of_id? h
  rw [Nesting.onlyDeclares, Nesting.ofSnapshot_envs, List.getElem?_toArray, henv, hfind]

/-- A node is flagged by its own environment. -/
theorem onlyDeclares_of_node (h : (build s policy).1.nodes[m]? = some node) :
    node.onlyDeclares = (node.env.bind s.env?).any Environment.onlyDeclares := by
  rw [build_fst] at h
  obtain ⟨level, place, hplace, rfl⟩ := place_of_node h
  have hpos : ∀ {i}, i < (Nesting.ofSnapshot s).1.size → (Nesting.ofSnapshot s).1.onlyDeclares i =
      (((Nesting.ofSnapshot s).1.id? i).bind s.env?).any Environment.onlyDeclares := by
    intro i hi
    obtain ⟨e, he⟩ := Nesting.exists_id? hi
    rw [he, onlyDeclares_of_id? he]
    rfl
  cases place with
  | none =>
    show (Nesting.ofSnapshot s).1.root.any _ = (((Nesting.ofSnapshot s).1.root.bind _).bind _).any _
    cases hr : (Nesting.ofSnapshot s).1.root with
    | none => rfl
    | some r => exact hpos ((Nesting.ofSnapshot_wellFormed s).root_lt hr)
  | some k => exact hpos (isNode_of_mem_order (List.mem_of_getElem? hplace)).2

/-- What is folded into a node only declares. -/
theorem onlyDeclares_of_mem_merged (h : (build s policy).1.nodes[m]? = some node)
    (he : e ∈ node.merged) : ∃ env, s.env? e = some env ∧ env.onlyDeclares = true := by
  rw [build_fst] at h
  obtain ⟨level, place, hplace, rfl⟩ := place_of_node h
  cases place with
  | none => cases he
  | some k =>
    obtain ⟨j, hj, hje⟩ := List.mem_filterMap.mp he
    have hlt := (isNode_of_mem_order (List.mem_of_getElem? hplace)).2
    have hfolded := (Folding.mem_merged (s.wellFormed_folding policy) hlt).mp hj
    have honly := (Folding.onlyDeclares_of_folded hfolded).2
    rw [onlyDeclares_of_id? hje, Option.any_eq_true] at honly
    exact honly

/-- Something is folded into a node only under a policy that folds, and the environment of the
node has names if the policy also skips. -/
theorem of_merged_ne_nil (h : (build s policy).1.nodes[m]? = some node) (hne : node.merged ≠ []) :
    policy.foldDeclared = true ∧ ∃ env, node.env.bind s.env? = some env ∧
      (env.vars = [] → policy.skipEmpty = false) := by
  rw [build_fst] at h
  obtain ⟨level, place, hplace, rfl⟩ := place_of_node h
  cases place with
  | none => exact absurd rfl hne
  | some k =>
    obtain ⟨hnode, hlt⟩ := isNode_of_mem_order (List.mem_of_getElem? hplace)
    obtain ⟨hkept, -, hroot⟩ := Folding.isNode_iff.mp hnode
    obtain ⟨e, he⟩ := List.exists_mem_of_ne_nil _ hne
    obtain ⟨j, hj, -⟩ := List.mem_filterMap.mp he
    have hfolded := (Folding.mem_merged (s.wellFormed_folding policy) hlt).mp hj
    refine ⟨(Folding.onlyDeclares_of_folded hfolded).1, ?_⟩
    obtain ⟨own, hown⟩ : ∃ own, (Nesting.ofSnapshot s).1.id? k = some own := Nesting.exists_id? hlt
    obtain ⟨env, henv, -, hfind⟩ := Nesting.envs_of_id? hown
    refine ⟨env, ?_, Folding.skipEmpty_of_isKept hkept hroot ?_⟩
    · show ((Nesting.ofSnapshot s).1.id? k).bind s.env? = some env
      rw [hown, Option.bind_some, hfind]
    · rw [Nesting.ofSnapshot_envs, List.getElem?_toArray, henv]

end EnvTree

/-! ## The chains of a tree -/

namespace EnvTree

/-- A node has the chain of its environments, outermost first. -/
theorem isChain_of_node {e : EnvId} (h : (build s policy).1.nodes[m]? = some node)
    (he : node.env = some e) : (node.merged ++ [e]).IsChain (s.OnlyKeptChild policy) := by
  have hwf := s.wellFormed_folding policy
  rw [build_fst] at h
  obtain ⟨level, place, hplace, rfl⟩ := place_of_node h
  cases place with
  | none => exact .singleton e
  | some k =>
    have hk : (Nesting.ofSnapshot s).1.id? k = some e := he
    have hlt := (isNode_of_mem_order (List.mem_of_getElem? hplace)).2
    have hchain := isChain_filterMap (S := s.OnlyKeptChild policy)
      (Folding.isChain_merged (s.folding policy) k)
      (f := (Nesting.ofSnapshot s).1.id?) (fun j hj => ?_)
      fun hfold ha hb => Folding.onlyKeptChild_of_folds ha hb hfold
    · rw [List.filterMap_append, List.filterMap_cons_some hk] at hchain
      exact hchain
    · rw [List.mem_append, List.mem_singleton, Folding.mem_merged hwf hlt] at hj
      refine Option.isSome_iff_exists.mpr (Nesting.exists_id? ?_)
      rcases hj with hfolded | rfl
      · exact (Folding.kept_of_folded hwf hfolded).1
      · exact hlt

/-- What is folded is not global. -/
theorem ne_globalEnv?_of_mem_merged (h : (build s policy).1.nodes[m]? = some node)
    (he : e ∈ node.merged) : s.globalEnv? ≠ some e := by
  rw [build_fst] at h
  obtain ⟨level, place, hplace, rfl⟩ := place_of_node h
  cases place with
  | none => cases he
  | some k =>
    obtain ⟨j, hj, hje⟩ := List.mem_filterMap.mp he
    have hlt := (isNode_of_mem_order (List.mem_of_getElem? hplace)).2
    have hwf := s.wellFormed_folding policy
    obtain ⟨-, -, hroot⟩ := Folding.kept_of_folded hwf ((Folding.mem_merged hwf hlt).mp hj)
    intro hglobal
    rw [Nesting.globalEnv?_iff hje] at hglobal
    simp [Nesting.isRoot, hglobal] at hroot

/-- No node of an environment of unassigned names is left to be folded into its only child. -/
theorem length_children_ne_one (hfold : policy.foldDeclared = true)
    (h : (build s policy).1.nodes[m]? = some node) (hroot : node.isRoot = false)
    (he : node.env = some e) (honly : s.onlyDeclares e = true) : node.children.length ≠ 1 := by
  rw [build_fst] at h
  obtain ⟨level, place, hplace, rfl⟩ := place_of_node h
  cases place with
  | none => cases hroot
  | some k =>
    obtain ⟨hnode, -⟩ := isNode_of_mem_order (List.mem_of_getElem? hplace)
    rw [nodeOf, List.length_map]
    refine Folding.length_childrenOf_ne_one hfold hnode ?_
    rw [Snapshot.nesting_folding, onlyDeclares_of_id? (show _ = some e from he)]
    exact honly

/-- In the tree of a snapshot all chains are folded that the policy says, and nothing else is. -/
theorem foldsChains_build (s : Snapshot) (policy : FramePolicy) :
    (build s policy).1.FoldsChains s policy where
  folded := by
    intro m node h e he
    obtain ⟨env, henv, honly⟩ := onlyDeclares_of_mem_merged h he
    exact ⟨ne_globalEnv?_of_mem_merged h he, by rw [Snapshot.onlyDeclares, henv]; exact honly⟩
  chain := isChain_of_node
  complete := fun hfold => length_children_ne_one hfold
  unfolded := by
    intro hfold m node h
    by_contra hne
    rw [(of_merged_ne_nil h hne).1] at hfold
    cases hfold

end EnvTree

end EnvDiagram
