import EnvDiagram.Proofs.EnvTree.Places

/-!
# Every environment is accounted for

A node carries its own environment and those folded into it. The positions that a place
carries are the kept ones with that place (`mem_carriedAt`), so the nodes of a tree together
carry every environment once that is not skipped, and no other (`accounts_build`). The node
that carries an environment stands for it; a skipped environment has the node of its parent.
-/

namespace EnvDiagram

variable {f : Folding} {policy : FramePolicy} {s : Snapshot} {e : EnvId} {i j : Nat}
  {place : Option Nat}

/-- Whether a policy skips an environment: it is not the global one and has no names. -/
def Snapshot.skips (s : Snapshot) (policy : FramePolicy) (e : EnvId) : Bool :=
  policy.skipEmpty && s.globalEnv? ≠ some e && (s.env? e).any fun env => env.vars.isEmpty

/-- The environments of a node: its own and those folded into it. -/
def TreeNode.carried (node : TreeNode) : List EnvId := node.env.toList ++ node.merged

/-- A tree accounts for the environments of a snapshot under a policy. -/
structure EnvTree.Accounts (t : EnvTree) (s : Snapshot) (policy : FramePolicy) : Prop where
  /-- The first node is the global one. -/
  root : ∃ node, t.nodes[0]? = some node ∧ node.isRoot = true ∧ node.env = s.globalEnv?
  /-- What is not skipped is carried by one node, once; nothing else is carried. -/
  carried_once : ∀ e, (t.nodes.toList.flatMap TreeNode.carried).count e =
    if e ∈ s.ids ∧ s.skips policy e = false then 1 else 0
  /-- The environments of the snapshot have nodes that stand for them, and no others. -/
  known : ∀ e, (t.resolve e).isSome ↔ e ∈ s.ids
  /-- The node that carries an environment stands for it. -/
  carrier : ∀ m node e, t.nodes[m]? = some node → e ∈ node.carried → t.resolve e = some m
  /-- For a skipped environment the node of its parent stands, or the first one. -/
  skipped : ∀ e, s.skips policy e = true →
    t.resolve e = (s.repairedParent e).elim (some 0) t.resolve

theorem Snapshot.mem_ids_of_skips (h : s.skips policy e = true) : e ∈ s.ids := by
  simp only [skips, Bool.and_eq_true, Option.any_eq_true] at h
  obtain ⟨-, env, henv, -⟩ := h
  exact mem_ids_of_env? henv

/-- The positions that are not kept are those of the skipped environments. -/
theorem Folding.isKept_eq_not_skips (policy : FramePolicy)
    (h : (Nesting.ofSnapshot s).1.id? i = some e) :
    (s.folding policy).isKept i = !s.skips policy e := by
  obtain ⟨env, henv, -, hfind⟩ := Nesting.envs_of_id? h
  have hroot : (Nesting.ofSnapshot s).1.isRoot i = decide (s.globalEnv? = some e) := by
    rw [Nesting.isRoot, decide_eq_decide]
    exact (Nesting.globalEnv?_iff h).symm
  have henv' : (Nesting.ofSnapshot s).1.envs[i]? = some env := by
    rw [Nesting.ofSnapshot_envs, List.getElem?_toArray, henv]
  rw [Snapshot.folding, isKept_ofNesting (Nesting.lt_size_of_id? h), keeps, Snapshot.skips, hroot,
    hfind, henv']
  by_cases hg : s.globalEnv? = some e <;> simp [hg]

namespace EnvTree

/-! ## What a place carries -/

/-- The positions whose environments the node of a place carries. -/
def carriedAt (f : Folding) : Option Nat → List Nat
  | none => f.nesting.root.toList
  | some k => k :: f.merged k

/-- The node of a place carries the environments at the positions that the place carries. -/
theorem carried_nodeOf (f : Folding) (links : Links) (places : List (Option Nat)) (level : Nat)
    (place : Option Nat) :
    (nodeOf f links places level place).carried = (carriedAt f place).filterMap f.nesting.id? := by
  rw [List.filterMap_eq_flatMap_toList]
  cases place with
  | none => cases hr : f.nesting.root <;> simp [nodeOf, TreeNode.carried, carriedAt, hr]
  | some k =>
    rw [carriedAt, List.flatMap_cons, ← List.filterMap_eq_flatMap_toList, nodeOf, TreeNode.carried]

/-- All that the nodes carry, in the order of their places. -/
theorem flatMap_carried (f : Folding) : (ofFolding f).nodes.toList.flatMap TreeNode.carried =
    ((order f).flatMap (carriedAt f)).filterMap f.nesting.id? := by
  rw [nodes_ofFolding, List.flatMap_map, List.filterMap_flatMap]
  simp only [carried_nodeOf]
  rw [order, ← map_snd_levelled, List.flatMap_map]

/-- The positions that a place carries are the kept ones with that place. -/
theorem mem_carriedAt (h : f.WellFormed) (hplace : place ∈ order f) :
    j ∈ carriedAt f place ↔ j < f.size ∧ f.isKept j = true ∧ f.place j = place := by
  cases place with
  | none =>
    rw [carriedAt, Option.mem_toList]
    constructor
    · intro hr
      have hkept := h.isKept_root hr
      refine ⟨h.nesting.root_lt hr, hkept, ?_⟩
      rw [Folding.place_of_kept hkept, Nesting.isRoot, hr]
      simp
    · rintro ⟨-, hkept, hj⟩
      rw [Folding.place_of_kept hkept] at hj
      simpa [Nesting.isRoot] using hj
  | some k =>
    obtain ⟨hnode, hk⟩ := isNode_of_mem_order hplace
    obtain ⟨hkept, hfolds, hroot⟩ := Folding.isNode_iff.mp hnode
    rw [carriedAt, List.mem_cons, Folding.mem_merged h hk]
    constructor
    · intro hj
      have hspec : j < f.size ∧ f.isKept j = true ∧ f.nesting.isRoot j = false := by
        rcases hj with rfl | hfolded
        · exact ⟨hk, hkept, hroot⟩
        · exact Folding.kept_of_folded h hfolded
      obtain ⟨hlt, hkept, hroot⟩ := hspec
      refine ⟨hlt, hkept, ?_⟩
      rw [Folding.place_of_kept hkept, hroot,
        (Folding.standIn_eq_iff h hlt hfolds).mpr hj]
      rfl
    · rintro ⟨hlt, hkept, hj⟩
      rw [Folding.place_of_kept hkept] at hj
      refine (Folding.standIn_eq_iff h hlt hfolds).mp ?_
      split at hj
      · simp at hj
      · exact Option.some.inj hj

theorem nodup_carriedAt (h : f.WellFormed) (hplace : place ∈ order f) :
    (carriedAt f place).Nodup := by
  cases place with
  | none =>
    rw [carriedAt]
    cases f.nesting.root <;> simp
  | some k =>
    obtain ⟨-, hk⟩ := isNode_of_mem_order hplace
    refine List.nodup_cons.mpr ⟨fun hmem => ?_, Folding.nodup_merged h hk⟩
    exact (Folding.folds_forest h).not_ancestor_self k ((Folding.mem_merged h hk).mp hmem)

/-- The places carry the kept positions. -/
theorem mem_flatMap_carriedAt (h : f.WellFormed) :
    j ∈ (order f).flatMap (carriedAt f) ↔ j < f.size ∧ f.isKept j = true := by
  rw [List.mem_flatMap]
  constructor
  · rintro ⟨place, hplace, hj⟩
    obtain ⟨hlt, hkept, -⟩ := (mem_carriedAt h hplace).mp hj
    exact ⟨hlt, hkept⟩
  · rintro ⟨hlt, hkept⟩
    have hplace := place_mem_order h hlt
    exact ⟨_, hplace, (mem_carriedAt h hplace).mpr ⟨hlt, hkept, rfl⟩⟩

/-- No position is carried twice. -/
theorem nodup_flatMap_carriedAt (h : f.WellFormed) : ((order f).flatMap (carriedAt f)).Nodup := by
  rw [List.nodup_flatMap]
  refine ⟨fun place hplace => nodup_carriedAt h hplace, ?_⟩
  refine List.Pairwise.imp_of_mem ?_ (nodup_order f)
  intro p q hp hq hpq j hjp hjq
  obtain ⟨-, -, hjp⟩ := (mem_carriedAt h hp).mp hjp
  obtain ⟨-, -, hjq⟩ := (mem_carriedAt h hq).mp hjq
  exact hpq (hjp.symm.trans hjq)

/-! ## Accounting -/

/-- The nodes carry the environments that are not skipped. -/
theorem mem_flatMap_carried : e ∈ (build s policy).1.nodes.toList.flatMap TreeNode.carried ↔
    e ∈ s.ids ∧ s.skips policy e = false := by
  rw [build_fst, flatMap_carried, List.mem_filterMap]
  constructor
  · rintro ⟨j, hj, he⟩
    obtain ⟨-, hkept⟩ := (mem_flatMap_carriedAt (s.wellFormed_folding policy)).mp hj
    rw [Folding.isKept_eq_not_skips policy he] at hkept
    exact ⟨Nesting.mem_ids_of_id? he, by simpa using hkept⟩
  · rintro ⟨hmem, hskip⟩
    obtain ⟨j, hj⟩ := Nesting.exists_id?_of_mem hmem
    refine ⟨j, (mem_flatMap_carriedAt (s.wellFormed_folding policy)).mpr ?_, hj⟩
    exact ⟨Nesting.lt_size_of_id? hj, by rw [Folding.isKept_eq_not_skips policy hj, hskip]; rfl⟩

theorem nodup_flatMap_carried (s : Snapshot) (policy : FramePolicy) :
    ((build s policy).1.nodes.toList.flatMap TreeNode.carried).Nodup := by
  rw [build_fst, flatMap_carried]
  exact (nodup_flatMap_carriedAt (s.wellFormed_folding policy)).filterMap
    fun i j e hi hj => Nesting.id?_inj hi hj

/-- The node that carries an environment stands for it. -/
theorem resolve_of_mem_carried {m : Nat} {node : TreeNode}
    (hnode : (build s policy).1.nodes[m]? = some node) (he : e ∈ node.carried) :
    (build s policy).1.resolve e = some m := by
  rw [build_fst] at hnode
  obtain ⟨level, place, hplace, rfl⟩ := place_of_node hnode
  rw [carried_nodeOf, List.mem_filterMap] at he
  obtain ⟨j, hj, he⟩ := he
  obtain ⟨-, -, hj⟩ := (mem_carriedAt (s.wellFormed_folding policy)
    (List.mem_of_getElem? hplace)).mp hj
  rw [resolve_of_id? policy he, hj, idxOf_order hplace]

/-- For a skipped environment stands what stands for its parent. -/
theorem resolve_of_skips (hskip : s.skips policy e = true) :
    (build s policy).1.resolve e =
      (s.repairedParent e).elim (some 0) (build s policy).1.resolve := by
  have hwf := Nesting.ofSnapshot_wellFormed s
  obtain ⟨i, hi⟩ := Nesting.exists_id?_of_mem (Snapshot.mem_ids_of_skips hskip)
  have hkept := Folding.isKept_eq_not_skips policy hi
  rw [hskip, Bool.not_true] at hkept
  rw [resolve_of_id? policy hi, Folding.place_of_not_kept (s.wellFormed_folding policy) hkept,
    Nesting.repairedParent_of_id? hi, Snapshot.nesting_folding]
  cases hp : (Nesting.ofSnapshot s).1.links.parent i with
  | none => rw [Option.bind_none, Option.bind_none, idxOf_none]; rfl
  | some p =>
    obtain ⟨q, hq⟩ := Nesting.exists_id? (hwf.size_links ▸ hwf.closed i p hp)
    rw [Option.bind_some, Option.bind_some, hq, Option.elim_some, resolve_of_id? policy hq]

/-- The first node is that of the global environment. -/
theorem root_build (s : Snapshot) (policy : FramePolicy) :
    ∃ node, (build s policy).1.nodes[0]? = some node ∧ node.isRoot = true ∧
      node.env = s.globalEnv? := by
  obtain ⟨level, hnode⟩ := nodes_idxOf (none_mem_order (s.folding policy))
  rw [idxOf_none] at hnode
  exact ⟨_, hnode, rfl, rfl⟩

/-- Every environment of a snapshot is carried by one node, or skipped. -/
theorem accounts_build (s : Snapshot) (policy : FramePolicy) :
    (build s policy).1.Accounts s policy where
  root := root_build s policy
  carried_once := by
    intro e
    rw [List.Nodup.count (nodup_flatMap_carried s policy)]
    exact if_congr mem_flatMap_carried rfl rfl
  known := by
    intro e
    rw [resolve_isSome_iff, Snapshot.mem_ids]
  carrier := fun _ _ _ => resolve_of_mem_carried
  skipped := fun _ => resolve_of_skips

end EnvTree

end EnvDiagram
