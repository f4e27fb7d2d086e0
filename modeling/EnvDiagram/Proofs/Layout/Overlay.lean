import EnvDiagram.Proofs.EnvTree.Chains
import EnvDiagram.Proofs.Layout.Frames
import EnvDiagram.Proofs.Layout.Rows
import EnvDiagram.Scene

/-!
# Frames unite environments

The rows of a frame are the names of its environments, outermost first, each in the row of its
first occurrence and with the value of its last one. One more variable leaves the rows in their
order and is what its name is looked up to (`find?_overlayOne`), so the rows can be read off the
variables in order (`find?_foldl_overlayOne`). The environment that a frame is named after is the
innermost one: it has the last word on its names.

* `lastNamed` — the last variable of a name
* `Frame.Unites` — a frame has the rows of some variables
* `Layout.Unites` — the frames of a layout have the rows of their environments
* `Scene.unites_load` — so it is in every layout
-/

namespace EnvDiagram

variable {α : Type}

/-- The last one of some variables that has a name. -/
def lastNamed (vars : List Variable) (name : String) : Option Variable :=
  vars.reverse.find? fun v => v.name = name

/-- The names of an environment. -/
def Environment.names (env : Environment) : List String := env.vars.map Variable.name

/-- Whether a frame has a row for the name of each variable, once, in the order in which the names
first occur, and in each row stands the last variable of its name. -/
structure Frame.Unites (f : Frame α) (vars : List Variable) : Prop where
  distinct : (f.bindings.toList.map Binding.name).Nodup
  mem_names : ∀ name, name ∈ f.bindings.toList.map Binding.name ↔ name ∈ vars.map Variable.name
  order : (f.bindings.toList.map Binding.name).Pairwise fun a b =>
    (vars.map Variable.name).idxOf a < (vars.map Variable.name).idxOf b
  index : ∀ {i : Nat} {b : Binding α}, f.bindings[i]? = some b → b.index = i
  last : ∀ b ∈ f.bindings, lastNamed vars b.name = some b.entry

/-- Whether the frames of a layout unite the environments of their nodes. -/
structure Layout.Unites (l : Layout α) (s : Snapshot) : Prop where
  /-- In a frame are the names of all environments of its node: first of those that are folded into
  it, outermost first, then of its own. -/
  rows : ∀ f ∈ l.frames, ∃ node, l.tree.nodes[f.node]? = some node ∧
    (envsOf s node).map Environment.id = node.merged ++ node.env.toList ∧
      f.Unites ((envsOf s node).flatMap Environment.vars)
  /-- A name of an environment that has a node of its own is found with what that environment binds
  to it last. -/
  own : ∀ (m : Nat) (node : TreeNode) (env : Environment), l.tree.nodes[m]? = some node →
    node.env = some env.id → s.env? env.id = some env → ∀ name ∈ env.names,
      (l.binding? env.id name).map Binding.entry = lastNamed env.vars name
  /-- A name of an environment that is folded into a node has a row above all names that neither
  this environment has nor those around it. It is unassigned if no environment further in has it. -/
  folded : ∀ f ∈ l.frames, ∀ (node : TreeNode) (outer inner : List Environment)
    (env : Environment), l.tree.nodes[f.node]? = some node → env.id ∈ node.merged →
      envsOf s node = outer ++ env :: inner → ∀ name ∈ env.names,
        ∃ b ∈ f.bindings, b.name = name ∧
          (∀ c ∈ f.bindings, (∀ e ∈ outer ++ [env], c.name ∉ e.names) → b.index < c.index) ∧
          ((∀ e ∈ inner, name ∉ e.names) → b.datum = none)

/-! ## The last variable of a name -/

variable {vars rows : List Variable} {v : Variable} {name : String}

theorem lastNamed_concat (vars : List Variable) (v : Variable) (name : String) :
    lastNamed (vars ++ [v]) name = if v.name = name then some v else lastNamed vars name := by
  rw [lastNamed, List.reverse_append, List.reverse_singleton, List.singleton_append,
    List.find?_cons]
  by_cases h : v.name = name <;> simp [h, lastNamed]

theorem lastNamed_append (vars vars' : List Variable) (name : String) :
    lastNamed (vars ++ vars') name = (lastNamed vars' name).or (lastNamed vars name) := by
  rw [lastNamed, List.reverse_append, List.find?_append]
  rfl

theorem lastNamed_isSome_iff :
    (lastNamed vars name).isSome ↔ name ∈ vars.map Variable.name := by
  simp [lastNamed, List.find?_isSome]

theorem lastNamed_eq_none (h : name ∉ vars.map Variable.name) : lastNamed vars name = none := by
  rwa [← lastNamed_isSome_iff, Option.not_isSome_iff_eq_none] at h

theorem mem_of_lastNamed (h : lastNamed vars name = some v) : v ∈ vars :=
  List.mem_reverse.mp (List.mem_of_find?_eq_some h)

/-! ## The rows of variables -/

theorem map_name_overlayOne (rows : List Variable) (v : Variable) :
    (overlayOne rows v).map Variable.name =
      if v.name ∈ rows.map Variable.name then rows.map Variable.name
      else rows.map Variable.name ++ [v.name] := by
  have hany : rows.any (fun row => row.name = v.name) = true ↔ v.name ∈ rows.map Variable.name := by
    simp
  unfold overlayOne
  by_cases h : v.name ∈ rows.map Variable.name
  · rw [if_pos (hany.mpr h), if_pos h, List.map_map]
    refine List.map_congr_left fun row _ => ?_
    rw [Function.comp_apply]
    split
    · rename_i hname
      exact hname.symm
    · rfl
  · rw [if_neg (mt hany.mp h), if_neg h, List.map_append, List.map_singleton]

/-- One more variable is what its name is looked up to, and no other name. -/
theorem find?_overlayOne (rows : List Variable) (v : Variable) (name : String) :
    (overlayOne rows v).find? (fun row => row.name = name) =
      if v.name = name then some v else rows.find? fun row => row.name = name := by
  unfold overlayOne
  by_cases hany : rows.any (fun row => row.name = v.name) = true
  · have hkeeps : (fun row : Variable => decide (row.name = name)) ∘
        (fun row => if row.name = v.name then v else row) = fun row => decide (row.name = name) := by
      funext row
      rw [Function.comp_apply]
      split
      · rename_i hname
        rw [hname]
      · rfl
    rw [if_pos hany, List.find?_map, hkeeps]
    cases hfind : rows.find? fun row => row.name = name with
    | none =>
      rw [Option.map_none]
      obtain ⟨row, hrow, hname⟩ := List.any_eq_true.mp hany
      refine (if_neg fun hv => ?_).symm
      simpa [hv, of_decide_eq_true hname] using List.find?_eq_none.mp hfind row hrow
    | some row =>
      have hrow : row.name = name := by simpa using List.find?_some hfind
      rw [Option.map_some, hrow]
      by_cases hv : v.name = name
      · rw [if_pos hv.symm, if_pos hv]
      · rw [if_neg (Ne.symm hv), if_neg hv]
  · rw [if_neg hany, List.find?_append]
    by_cases hv : v.name = name
    · have hnone : rows.find? (fun row => row.name = name) = none := by
        rw [List.find?_eq_none]
        intro row hrow hname
        exact hany (List.any_eq_true.mpr ⟨row, hrow, by simpa [hv] using hname⟩)
      rw [hnone, if_pos hv, Option.none_or, List.find?_singleton]
      simp [hv]
    · rw [if_neg hv, List.find?_singleton]
      simp [hv]

/-- A name is looked up in the rows to the last variable of that name. -/
theorem find?_foldl_overlayOne (vars : List Variable) (name : String) :
    (vars.foldl overlayOne []).find? (fun row => row.name = name) = lastNamed vars name := by
  induction vars using List.reverseRecOn with
  | nil => rfl
  | append_singleton vars v ih =>
    rw [List.foldl_concat, find?_overlayOne, lastNamed_concat, ih]

/-- The rows have the names of the variables, each once, in the order of first occurrence. -/
theorem names_foldl_overlayOne (vars : List Variable) :
    let names := (vars.foldl overlayOne []).map Variable.name
    names.Nodup ∧ (∀ name, name ∈ names ↔ name ∈ vars.map Variable.name) ∧
      names.Pairwise fun a b =>
        (vars.map Variable.name).idxOf a < (vars.map Variable.name).idxOf b := by
  induction vars using List.reverseRecOn with
  | nil => exact ⟨List.nodup_nil, fun _ => Iff.rfl, List.Pairwise.nil⟩
  | append_singleton vars v ih =>
    obtain ⟨hnodup, hmem, horder⟩ := ih
    have hold : ∀ name ∈ vars.map Variable.name,
        ((vars ++ [v]).map Variable.name).idxOf name = (vars.map Variable.name).idxOf name := by
      intro name hname
      rw [List.map_append, List.idxOf_append_of_mem hname]
    have horder' : ((vars.foldl overlayOne []).map Variable.name).Pairwise fun a b =>
        ((vars ++ [v]).map Variable.name).idxOf a < ((vars ++ [v]).map Variable.name).idxOf b := by
      refine horder.imp_of_mem fun {a b} ha hb hlt => ?_
      rwa [hold a ((hmem a).mp ha), hold b ((hmem b).mp hb)]
    rw [List.foldl_concat, map_name_overlayOne]
    by_cases hv : v.name ∈ (vars.foldl overlayOne []).map Variable.name
    · rw [if_pos hv]
      refine ⟨hnodup, fun name => ?_, horder'⟩
      rw [hmem, List.map_append, List.mem_append, List.map_singleton, List.mem_singleton]
      exact ⟨Or.inl, fun h => h.elim id fun heq => heq ▸ (hmem v.name).mp hv⟩
    · rw [if_neg hv]
      refine ⟨?_, fun name => ?_, ?_⟩
      · exact List.nodup_append_comm.mpr (List.nodup_cons.mpr ⟨hv, hnodup⟩)
      · rw [List.mem_append, hmem, List.map_append, List.mem_append, List.map_singleton]
      · refine List.pairwise_append.mpr ⟨horder', List.pairwise_singleton .., ?_⟩
        intro a ha b hb
        -- a name that is new comes after all others
        rw [hold a ((hmem a).mp ha), List.mem_singleton.mp hb, List.map_append,
          List.idxOf_append_of_notMem (mt (hmem v.name).mpr hv)]
        exact Nat.lt_of_lt_of_le (List.idxOf_lt_length_of_mem ((hmem a).mp ha))
          (Nat.le_add_right ..)

/-! ## Frames -/

namespace Frame

variable {f : Frame α} {b c : Binding α}

theorem map_name_bindings (f : Frame α) : f.bindings.toList.map Binding.name =
    (f.bindings.toList.map Binding.entry).map Variable.name := by
  rw [List.map_map]
  rfl

/-- A name is looked up in a frame to the row that has it. -/
theorem map_entry_binding? (f : Frame α) (name : String) : (f.binding? name).map Binding.entry =
    (f.bindings.toList.map Binding.entry).find? fun v => v.name = name := by
  rw [binding?, ← Array.find?_toList, List.find?_map]
  rfl

/-- Of two rows of united variables, the name of the upper one occurs first. -/
theorem Unites.lt_of_idxOf_lt (h : f.Unites vars) (hb : b ∈ f.bindings) (hc : c ∈ f.bindings)
    (hlt : (vars.map Variable.name).idxOf b.name < (vars.map Variable.name).idxOf c.name) :
    b.index < c.index := by
  obtain ⟨i, hi⟩ := Array.getElem?_of_mem hb
  obtain ⟨j, hj⟩ := Array.getElem?_of_mem hc
  rw [h.index hi, h.index hj]
  obtain ⟨hi', rfl⟩ := Array.getElem?_eq_some_iff.mp hi
  obtain ⟨hj', rfl⟩ := Array.getElem?_eq_some_iff.mp hj
  have horder := List.pairwise_iff_getElem.mp h.order
  simp only [List.length_map, Array.length_toList, List.getElem_map, Array.getElem_toList] at horder
  rcases Nat.lt_trichotomy i j with hij | rfl | hji
  · exact hij
  · exact absurd hlt (Nat.lt_irrefl _)
  · exact absurd hlt (Nat.not_lt_of_lt (horder j i hj' hi' hji))

variable [Scalar α] {config : Config α} {i n : Nat} {node : TreeNode} {envs : List Environment}
  {p : Point α}

theorem unites_of_place (h : f.unbound = place config i n node envs p) :
    f.Unites (envs.flatMap Environment.vars) := by
  have hentries : f.bindings.toList.map Binding.entry =
      (envs.flatMap Environment.vars).foldl overlayOne [] := Layout.entries_of_place h
  obtain ⟨hnodup, hmem, horder⟩ := names_foldl_overlayOne (envs.flatMap Environment.vars)
  rw [← hentries, ← map_name_bindings] at hnodup hmem horder
  refine ⟨hnodup, hmem, horder, fun hb => Layout.index_of_place h hb, fun b hb => ?_⟩
  rw [← find?_foldl_overlayOne, ← hentries]
  -- no other row has the name
  have hb' : b.entry ∈ f.bindings.toList.map Binding.entry :=
    List.mem_map_of_mem (Array.mem_toList_iff.mpr hb)
  obtain ⟨v, hv⟩ : ∃ v, (f.bindings.toList.map Binding.entry).find?
      (fun v => v.name = b.name) = some v := by
    rw [← Option.isSome_iff_exists, List.find?_isSome]
    exact ⟨b.entry, hb', decide_eq_true rfl⟩
  have hname : v.name = b.name := by simpa using List.find?_some hv
  rw [map_name_bindings] at hnodup
  rw [hv, List.inj_on_of_nodup_map hnodup (List.mem_of_find?_eq_some hv) hb' hname]

end Frame

/-! ## Layouts -/

namespace Layout

variable [Scalar α] {config : Config α} {s : Snapshot} {f : Frame α} {node : TreeNode}
  {env : Environment} {m : Nat}

/-- The rows of a frame are those of the environments of its node. -/
theorem exists_place_of_mem (hf : f ∈ (ofSnapshot config s).frames) :
    ∃ (i : Nat) (node : TreeNode) (p : Point α),
      (ofSnapshot config s).tree.nodes[f.node]? = some node ∧
        f.unbound = Frame.place config i f.node node (envsOf s node) p := by
  obtain ⟨i, hi⟩ := Array.getElem?_of_mem hf
  obtain ⟨node, p, hnode, hplace⟩ := exists_place_ofSnapshot hi
  rw [← tree_ofSnapshot] at hnode
  exact ⟨i, node, p, hnode, hplace⟩

/-- All environments of a node are in the snapshot. -/
theorem map_id_envsOf (hnode : (ofSnapshot config s).tree.nodes[m]? = some node) :
    (envsOf s node).map Environment.id = node.merged ++ node.env.toList := by
  have hknown : ∀ e ∈ node.merged ++ node.env.toList, ∃ env, s.env? e = some env := by
    intro e he
    rw [tree_ofSnapshot] at hnode
    have hcarried : e ∈ (EnvTree.build s config.framePolicy).1.nodes.toList.flatMap
        TreeNode.carried :=
      List.mem_flatMap.mpr ⟨node, Array.mem_toList_iff.mpr (Array.mem_of_getElem? hnode),
        List.mem_append.mpr (List.mem_append.mp he).symm⟩
    obtain ⟨hmem, -⟩ := EnvTree.mem_flatMap_carried.mp hcarried
    obtain ⟨env, henv, rfl⟩ := List.mem_map.mp hmem
    rw [← Option.isSome_iff_exists, Snapshot.env?, List.find?_isSome]
    exact ⟨env, henv, decide_eq_true rfl⟩
  rw [envsOf, List.map_filterMap]
  refine (List.filterMap_congr fun e he => ?_).trans List.filterMap_some
  obtain ⟨env, hfind⟩ := hknown e he
  rw [hfind, Option.map_some, Snapshot.id_of_env? hfind]

/-- What is folded into a node assigns nothing. -/
theorem value_of_merged (hnode : (ofSnapshot config s).tree.nodes[m]? = some node)
    (hmerged : env.id ∈ node.merged) (hmem : env ∈ envsOf s node) :
    ∀ v ∈ env.vars, v.value = none := by
  obtain ⟨e, -, hfind⟩ := List.mem_filterMap.mp hmem
  rw [tree_ofSnapshot] at hnode
  obtain ⟨env', hfind', honly⟩ := EnvTree.onlyDeclares_of_mem_merged hnode hmerged
  rw [Snapshot.id_of_env? hfind, hfind, Option.some.injEq] at hfind'
  subst hfind'
  simp only [Environment.onlyDeclares, Bool.and_eq_true, List.all_eq_true,
    Option.isNone_iff_eq_none] at honly
  exact honly.2

/-- In the frame of its own an environment has the last word on its names. -/
theorem binding?_of_env (hnode : (ofSnapshot config s).tree.nodes[m]? = some node)
    (henv : node.env = some env.id) (hfind : s.env? env.id = some env) {name : String}
    (hname : name ∈ env.names) :
    ((ofSnapshot config s).binding? env.id name).map Binding.entry = lastNamed env.vars name := by
  obtain ⟨i, hi⟩ : ∃ i, (ofSnapshot config s).frameOf m = some i := by
    rw [← Option.isSome_iff_exists, frameOf_isSome_iff]
    exact (Array.getElem?_eq_some_iff.mp hnode).1
  obtain ⟨f, hf, hfnode⟩ := frameOf_eq_some_iff.mp hi
  obtain ⟨j, node', p, hnode', hplace⟩ := exists_place_of_mem (Array.mem_of_getElem? hf)
  rw [hfnode, hnode, Option.some.injEq] at hnode'
  subst hnode'
  have hresolve : (ofSnapshot config s).tree.resolve env.id = some m := by
    rw [tree_ofSnapshot] at hnode ⊢
    exact EnvTree.resolve_of_mem_carried hnode (by simp [TreeNode.carried, henv])
  have hown : envsOf s node = node.merged.filterMap s.env? ++ [env] := by
    rw [envsOf, List.filterMap_append, henv, Option.toList_some,
      List.filterMap_cons_some hfind, List.filterMap_nil]
  rw [binding?, frameOfEnv, hresolve, Option.bind_some, hi, Option.bind_some, hf,
    Option.bind_some, Frame.map_entry_binding?, entries_of_place hplace, overlay,
    find?_foldl_overlayOne, hown, List.flatMap_append, List.flatMap_singleton, lastNamed_append]
  exact Option.or_of_isSome (lastNamed_isSome_iff.mpr hname)

theorem unites_ofSnapshot (config : Config α) (s : Snapshot) :
    (ofSnapshot config s).Unites s where
  rows := by
    intro f hf
    obtain ⟨i, node, p, hnode, hplace⟩ := exists_place_of_mem hf
    exact ⟨node, hnode, map_id_envsOf hnode, Frame.unites_of_place hplace⟩
  own := fun m node env hnode henv hfind name hname => binding?_of_env hnode henv hfind hname
  folded := by
    intro f hf node outer inner env hnode hmerged henvs name hname
    obtain ⟨i, node', p, hnode', hplace⟩ := exists_place_of_mem hf
    rw [hnode, Option.some.injEq] at hnode'
    subst hnode'
    have hunites := Frame.unites_of_place hplace
    set upper := (outer ++ [env]).flatMap Environment.vars with hupper
    have hvars : (envsOf s node).flatMap Environment.vars =
        upper ++ inner.flatMap Environment.vars := by
      rw [henvs, hupper, ← List.flatMap_append, List.append_assoc, List.singleton_append]
    rw [hvars] at hunites
    have hname' : name ∈ upper.map Variable.name := by
      rw [hupper, List.flatMap_append, List.map_append, List.mem_append]
      exact Or.inr (by simpa [Environment.names] using hname)
    obtain ⟨b, hb, rfl⟩ : ∃ b ∈ f.bindings, b.name = name := by
      have hrow := (hunites.mem_names name).mpr
        (by rw [List.map_append]; exact List.mem_append_left _ hname')
      simpa using hrow
    refine ⟨b, hb, rfl, fun c hc hnew => ?_, fun hinner => ?_⟩
    · have hc' : c.name ∉ upper.map Variable.name := by
        rw [hupper, List.map_flatMap, List.mem_flatMap]
        rintro ⟨e, he, hmem⟩
        exact hnew e he hmem
      refine hunites.lt_of_idxOf_lt hb hc ?_
      rw [List.map_append, List.idxOf_append_of_mem hname', List.idxOf_append_of_notMem hc']
      exact Nat.lt_of_lt_of_le (List.idxOf_lt_length_of_mem hname') (Nat.le_add_right ..)
    · have hlast := hunites.last b hb
      have hnone : lastNamed (inner.flatMap Environment.vars) b.name = none := by
        refine lastNamed_eq_none ?_
        rw [List.map_flatMap, List.mem_flatMap]
        rintro ⟨e, he, hmem⟩
        exact hinner e he hmem
      rw [lastNamed_append, hnone, Option.none_or, hupper, List.flatMap_append,
        List.flatMap_singleton, lastNamed_append,
        Option.or_of_isSome (lastNamed_isSome_iff.mpr hname)] at hlast
      have hmem : env ∈ envsOf s node := henvs ▸ List.mem_append_right _ List.mem_cons_self
      exact value_of_merged hnode hmerged hmem b.entry (mem_of_lastNamed hlast)

end Layout

/-- In the layout of a snapshot every frame unites the environments of its node. -/
theorem Scene.unites_load [Scalar α] (sc : Scene α) (s : Snapshot) :
    (sc.load s).layout.Unites s :=
  Layout.unites_ofSnapshot sc.config s

end EnvDiagram
