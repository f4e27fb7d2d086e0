import EnvDiagram.Proofs.EnvTree.Numbering
import EnvDiagram.Proofs.Snapshot.Renaming

/-!
# The tree of a renamed snapshot

The tree is built from positions; identities are only compared to find them. So the nesting of
a renamed snapshot has the same links (`ofSnapshot_rename`), the same environments are skipped
and folded, and the tree is the same up to the identities in its nodes (`build_rename`).
-/

namespace EnvDiagram

/-! ## The nesting -/

attribute [ext] Nesting

def Nesting.rename (ρ : Renaming) (n : Nesting) : Nesting :=
  { n with envs := n.envs.map (Environment.rename ρ) }

variable (ρ : Renaming)

theorem withoutDuplicates_rename (envs : List Environment) :
    withoutDuplicates (envs.map (Environment.rename ρ)) =
      (withoutDuplicates envs).map (Environment.rename ρ) := by
  induction envs using List.reverseRecOn with
  | nil => rfl
  | append_singleton envs env ih =>
    have hany : (withoutDuplicates envs |>.map (Environment.rename ρ)).any
        (·.id = (env.rename ρ).id) = (withoutDuplicates envs).any (·.id = env.id) := by
      simp [Environment.rename, List.any_map, Function.comp_def]
    rw [List.map_append, List.map_singleton, withoutDuplicates_concat, withoutDuplicates_concat,
      ih, hany]
    split
    · rfl
    · rw [List.map_append, List.map_singleton]

theorem duplicates_rename (seen : List EnvId) (envs : List Environment) :
    duplicates (seen.map ρ.env) (envs.map (Environment.rename ρ)) =
      (duplicates seen envs).map ρ.env := by
  induction envs generalizing seen with
  | nil => rfl
  | cons env rest ih =>
    rw [List.map_cons, duplicates, duplicates]
    have hmem : (env.rename ρ).id ∈ seen.map ρ.env ↔ env.id ∈ seen :=
      List.mem_map_of_injective ρ.env.injective
    by_cases hseen : env.id ∈ seen
    · rw [if_pos hseen, if_pos (hmem.mpr hseen), ih, List.map_cons]
      rfl
    · rw [if_neg hseen, if_neg (mt hmem.mp hseen)]
      exact ih (env.id :: seen)

namespace Nesting

theorem position_rename (envs : List Environment) (id : EnvId) :
    position (envs.map (Environment.rename ρ)) (ρ.env id) = position envs id := by
  rw [position, List.findIdx?_map, position]
  congr 1
  funext env
  simp [Environment.rename]

theorem isParentless_rename (envs : List Environment) (i : Nat) :
    isParentless (envs.map (Environment.rename ρ)) i = isParentless envs i := by
  rw [isParentless, List.getElem?_map, Option.any_map, isParentless]
  simp [Environment.rename]

theorem chooseRoot_rename (envs : List Environment) (chain : List EnvId) :
    chooseRoot (envs.map (Environment.rename ρ)) (chain.map ρ.env) = chooseRoot envs chain := by
  have hfirst : ((envs.map (Environment.rename ρ)).findIdx? fun env => env.parent.isNone) =
      envs.findIdx? fun env => env.parent.isNone := by
    rw [List.findIdx?_map]
    simp [Environment.rename, Function.comp_def]
  have hlast : (chain.map ρ.env).getLast?.bind (position (envs.map (Environment.rename ρ))) =
      chain.getLast?.bind (position envs) := by
    rw [List.getLast?_map, Option.bind_map]
    congr 1
    funext id
    exact position_rename ρ envs id
  rw [chooseRoot, chooseRoot, hfirst, hlast, funext (isParentless_rename ρ envs)]

theorem link_rename (envs : List Environment) (root : Option Nat) (i : Nat) (env : Environment) :
    link (envs.map (Environment.rename ρ)) root i (env.rename ρ) =
      ((link envs root i env).1, (link envs root i env).2.map (Defect.rename ρ)) := by
  unfold link
  split
  · rfl
  · cases hp : env.parent with
    | none => simp [Environment.rename, hp, Defect.rename]
    | some parent =>
      have hp' : (env.rename ρ).parent = some (ρ.env parent) := by simp [Environment.rename, hp]
      rw [hp']
      simp only [position_rename]
      cases position envs parent <;> rfl

/-- The links between the environments, and the defects of those that cannot be followed. -/
theorem mapIdx_link_rename (envs : List Environment) (root : Option Nat) :
    (envs.map (Environment.rename ρ)).mapIdx (link (envs.map (Environment.rename ρ)) root) =
      (envs.mapIdx (link envs root)).map (Prod.map id (Option.map (Defect.rename ρ))) :=
  mapIdx_map_comm (link_rename ρ envs root) envs

theorem rawLinks_rename (envs : List Environment) (root : Option Nat) :
    rawLinks (envs.map (Environment.rename ρ)) root = rawLinks envs root := by
  rw [rawLinks, mapIdx_link_rename, List.map_map]
  rfl

theorem root_rename (s : Snapshot) : (ofSnapshot (s.rename ρ)).1.root = (ofSnapshot s).1.root := by
  show chooseRoot (withoutDuplicates (s.envs.map (Environment.rename ρ)))
    (s.rename ρ).scopeChain = _
  rw [withoutDuplicates_rename, Snapshot.scopeChain_rename, chooseRoot_rename]
  rfl

/-- The nesting is the same but for the identities in its environments. -/
theorem ofSnapshot_fst_rename (s : Snapshot) :
    (ofSnapshot (s.rename ρ)).1 = (ofSnapshot s).1.rename ρ := by
  have henvs : (ofSnapshot (s.rename ρ)).1.envs = ((ofSnapshot s).1.rename ρ).envs := by
    show (withoutDuplicates (s.envs.map (Environment.rename ρ))).toArray = _
    rw [withoutDuplicates_rename, ← List.map_toArray]
    rfl
  have hlinks : (ofSnapshot (s.rename ρ)).1.links = (ofSnapshot s).1.links := by
    rw [ofSnapshot_links, root_rename]
    show (rawLinks (withoutDuplicates (s.envs.map (Environment.rename ρ))) _).openCircles.1 = _
    rw [withoutDuplicates_rename, rawLinks_rename, ofSnapshot_links]
  exact Nesting.ext henvs (root_rename ρ s) hlinks

/-- The defects are the same but for the identities in them. -/
theorem ofSnapshot_snd_rename (s : Snapshot) :
    (ofSnapshot (s.rename ρ)).2 = (ofSnapshot s).2.map (Defect.rename ρ) := by
  have hrepeated : (duplicates [] (s.rename ρ).envs).map .duplicateEnv =
      ((duplicates [] s.envs).map .duplicateEnv).map (Defect.rename ρ) := by
    rw [List.map_map, show duplicates [] (s.rename ρ).envs = _ from duplicates_rename ρ [] s.envs,
      List.map_map]
    rfl
  have henvs : withoutDuplicates (s.rename ρ).envs =
      (withoutDuplicates s.envs).map (Environment.rename ρ) := withoutDuplicates_rename ρ s.envs
  rw [ofSnapshot_snd, ofSnapshot_snd, hrepeated, root_rename, henvs, mapIdx_link_rename,
    rawLinks_rename, List.map_append, List.map_append, List.map_append, List.filterMap_map,
    List.map_filterMap, List.map_filterMap]
  congr 2
  · congr 1
    split <;> rfl
  · funext i
    rw [List.getElem?_map, Option.map_map, Option.map_map]
    rfl

end Nesting

/-! ## The folding -/

namespace Folding

def rename (ρ : Renaming) (f : Folding) : Folding := { f with nesting := f.nesting.rename ρ }

theorem size_nesting_rename (n : Nesting) : (n.rename ρ).size = n.size := Array.size_map

theorem any_rename {test : Environment → Bool} (htest : ∀ env, test (env.rename ρ) = test env)
    (n : Nesting) (i : Nat) : ((n.rename ρ).envs[i]?).any test = (n.envs[i]?).any test := by
  rw [show (n.rename ρ).envs[i]? = _ from Array.getElem?_map, Option.any_map]
  congr 1
  funext env
  exact htest env

theorem keeps_rename (n : Nesting) (policy : FramePolicy) (i : Nat) :
    keeps (n.rename ρ) policy i = keeps n policy i := by
  rw [keeps, any_rename ρ fun env => ?_]
  · rfl
  · simp [Environment.rename]

theorem onlyDeclares_rename (n : Nesting) (i : Nat) :
    (n.rename ρ).onlyDeclares i = n.onlyDeclares i := by
  refine any_rename ρ (fun env => ?_) n i
  simp [Environment.onlyDeclares, Environment.rename, Function.comp_def, Variable.rename]

theorem ofNesting_rename (n : Nesting) (policy : FramePolicy) :
    ofNesting (n.rename ρ) policy = (ofNesting n policy).rename ρ := by
  have hkeeps : keeps (n.rename ρ) policy = keeps n policy := funext (keeps_rename ρ n policy)
  have hfold : ∀ kept outer, foldTarget (n.rename ρ) kept outer = foldTarget n kept outer := by
    intro kept outer
    funext i
    rw [foldTarget, onlyDeclares_rename]
    rfl
  unfold ofNesting
  simp only [hkeeps, hfold, size_nesting_rename]
  rfl

variable (f : Folding)

theorem size_rename : (f.rename ρ).size = f.size := size_nesting_rename ρ f.nesting

theorem foldedInto_rename (m i : Nat) : (f.rename ρ).foldedInto m i = f.foldedInto m i := by
  induction m generalizing i with
  | zero => rfl
  | succ m ih =>
    rw [foldedInto, foldedInto]
    simp only [ih]
    rfl

theorem merged_rename (i : Nat) : (f.rename ρ).merged i = f.merged i := by
  rw [merged, size_rename, foldedInto_rename, merged]

theorem nodeLinks_rename : (f.rename ρ).nodeLinks = f.nodeLinks := by
  rw [nodeLinks, size_rename, nodeLinks]
  congr 1
  funext i
  rw [around, merged_rename]
  rfl

theorem place_rename (i : Nat) : (f.rename ρ).place i = f.place i := by
  have hstand : ∀ j, (f.rename ρ).standIn j = f.standIn j := by
    intro j
    rw [standIn, size_rename]
    rfl
  unfold place
  simp only [hstand]
  rfl

theorem id?_rename (i : Nat) : (f.rename ρ).nesting.id? i = (f.nesting.id? i).map ρ.env := by
  rw [Nesting.id?, show (f.rename ρ).nesting.envs[i]? = _ from Array.getElem?_map, Option.map_map,
    Nesting.id?, Option.map_map]
  rfl

end Folding

/-! ## The tree -/

attribute [ext] TreeNode EnvTree

def TreeNode.rename (ρ : Renaming) (node : TreeNode) : TreeNode :=
  { node with env := node.env.map ρ.env, merged := node.merged.map ρ.env }

namespace EnvTree

def rename (ρ : Renaming) (t : EnvTree) : EnvTree where
  nodes := t.nodes.map (TreeNode.rename ρ)
  homes := t.homes.map (Prod.map ρ.env id)

theorem resolve_rename (t : EnvTree) (e : EnvId) : (t.rename ρ).resolve (ρ.env e) = t.resolve e :=
  (lookup_map_prod ρ.env.injective id t.homes e).trans Option.map_id_apply

theorem nodes_rename (t : EnvTree) (m : Nat) :
    (t.rename ρ).nodes[m]? = (t.nodes[m]?).map (TreeNode.rename ρ) := Array.getElem?_map

theorem levels_rename (t : EnvTree) : (t.rename ρ).levels = t.levels := by
  have hdepth : (t.rename ρ).depth = t.depth := by
    show (t.nodes.map (TreeNode.rename ρ)).foldl _ 0 = _
    rw [Array.foldl_map]
    rfl
  have hsize : (t.rename ρ).nodes.size = t.nodes.size := Array.size_map
  have hat : ∀ level, (t.rename ρ).nodesAt level = t.nodesAt level := by
    intro level
    rw [nodesAt, hsize]
    simp only [nodes_rename, Option.any_map]
    rfl
  rw [levels, hdepth, funext hat, levels]

theorem rowsOf_rename (f : Folding) : rowsOf (f.rename ρ) = rowsOf f := by
  rw [rowsOf, f.nodeLinks_rename, f.size_rename]
  rfl

theorem nodeOf_rename (f : Folding) (links : Links) (order : List (Option Nat)) (level : Nat)
    (place : Option Nat) : nodeOf (f.rename ρ) links order level place =
      (nodeOf f links order level place).rename ρ := by
  have hid := funext (f.id?_rename ρ)
  have hdeclares := funext (Folding.onlyDeclares_rename ρ f.nesting)
  cases place with
  | none =>
    refine TreeNode.ext ?_ rfl rfl rfl rfl (congrArg f.nesting.root.any hdeclares)
    show f.nesting.root.bind (f.rename ρ).nesting.id? =
      (f.nesting.root.bind f.nesting.id?).map ρ.env
    rw [hid, Option.map_bind]
    rfl
  | some i =>
    refine TreeNode.ext (f.id?_rename ρ i) rfl rfl rfl ?_ (congrFun hdeclares i)
    show ((f.rename ρ).merged i).filterMap _ = ((f.merged i).filterMap f.nesting.id?).map ρ.env
    rw [hid, f.merged_rename, List.map_filterMap]

theorem ofFolding_rename (f : Folding) : ofFolding (f.rename ρ) = (ofFolding f).rename ρ := by
  have horder : order (f.rename ρ) = order f := congrArg List.flatten (rowsOf_rename ρ f)
  have hnodes : (ofFolding (f.rename ρ)).nodes = ((ofFolding f).rename ρ).nodes := by
    rw [← Array.toList_inj, nodes_ofFolding, rowsOf_rename, f.nodeLinks_rename, horder]
    show _ = ((ofFolding f).nodes.map (TreeNode.rename ρ)).toList
    rw [Array.toList_map, nodes_ofFolding, List.map_map]
    congr 1
    funext lp
    exact nodeOf_rename ρ f _ _ _ _
  have hhomes : (ofFolding (f.rename ρ)).homes = ((ofFolding f).rename ρ).homes := by
    show (List.range (f.rename ρ).size).filterMap (fun i => ((f.rename ρ).nesting.id? i).map
      fun id => (id, (order (f.rename ρ)).idxOf ((f.rename ρ).place i))) =
        ((List.range f.size).filterMap _).map _
    rw [f.size_rename, horder, List.map_filterMap]
    congr 1
    funext i
    rw [f.id?_rename, f.place_rename, Option.map_map, Option.map_map]
    rfl
  exact EnvTree.ext hnodes hhomes

/-- The tree of a renamed snapshot, and the defects. -/
theorem build_rename (s : Snapshot) (policy : FramePolicy) : build (s.rename ρ) policy =
    ((build s policy).1.rename ρ, (build s policy).2.map (Defect.rename ρ)) := by
  refine Prod.ext ?_ (Nesting.ofSnapshot_snd_rename ρ s)
  show ofFolding (Folding.ofNesting (Nesting.ofSnapshot (s.rename ρ)).1 policy) = _
  rw [Nesting.ofSnapshot_fst_rename, Folding.ofNesting_rename, ofFolding_rename]
  rfl

end EnvTree

end EnvDiagram
