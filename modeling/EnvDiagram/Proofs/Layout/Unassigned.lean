import EnvDiagram.Proofs.EnvTree.Chains
import EnvDiagram.Proofs.Layout.Rows
import EnvDiagram.Scalar.Exact
import EnvDiagram.Scene

/-!
# Frames of unassigned names

A frame is flagged by its own environment alone: it is, if that has names and no assigned one.
What is folded into the environment only declares, so the flag mostly says of the rows what it
says of the environment. It misses two things: rows that are all owed to what is folded in, and a
row whose assigned name is declared once more.

* `Frame.IsUnassigned` — the frame has rows, none of them assigned
* `Frame.IsMisjudged` — where the flag does not say so
* `Scene.onlyDeclares_load` — the flag and the label of the frames of a snapshot
-/

namespace EnvDiagram

variable {α : Type}

/-- The environment that a frame is named after. -/
def Frame.env? (f : Frame α) (s : Snapshot) : Option Environment := f.env.bind s.env?

/-- Whether a frame has rows and none of them is assigned. -/
def Frame.IsUnassigned (f : Frame α) : Prop := f.bindings ≠ #[] ∧ ∀ b ∈ f.bindings, b.datum = none

/-- Whether an environment declares a name once more that it has assigned. -/
def Environment.Redeclares (env : Environment) : Prop :=
  ∃ v w, [v, w].Sublist env.vars ∧ v.name = w.name ∧ v.value.isSome ∧ w.value = none

/-- Whether the flag of a frame does not speak of its rows: the frame's own environment has no
names, and is drawn for those that are folded into it, or it declares an assigned name again. -/
def Frame.IsMisjudged (f : Frame α) (policy : FramePolicy) (s : Snapshot) : Prop :=
  ∃ env, f.env? s = some env ∧ (policy = ⟨false, true⟩ ∧ env.vars = [] ∨ env.Redeclares)

/-! ## What is in the rows -/

theorem Environment.onlyDeclares_iff {env : Environment} : env.onlyDeclares = true ↔
    env.vars ≠ [] ∧ ∀ v ∈ env.vars, v.value = none := by
  simp [onlyDeclares, List.all_eq_true]

theorem mem_overlay_of_last {outer : List Environment} {env : Environment} {v : Variable}
    (h : v ∈ env.vars.foldl overlayOne []) : v ∈ overlay (outer ++ [env]) := by
  obtain ⟨before, after, hvars, hlast⟩ := mem_foldl_overlayOne.mp h
  refine mem_overlay.mpr ⟨outer.flatMap Environment.vars ++ before, after, ?_, hlast⟩
  rw [List.flatMap_append, List.flatMap_singleton, hvars, List.append_assoc]

/-- If no row is assigned, an assigned name is declared again. -/
theorem redeclares_of_overlay {outer : List Environment} {env : Environment}
    (hrows : ∀ v ∈ overlay (outer ++ [env]), v.value = none) {v : Variable} (hv : v ∈ env.vars)
    (hassigned : v.value.isSome) : env.Redeclares := by
  obtain ⟨w, hw, hname⟩ := exists_mem_foldl_overlayOne hv
  have hnone : w.value = none := hrows w (mem_overlay_of_last hw)
  obtain ⟨before, after, hvars, hlast⟩ := mem_foldl_overlayOne.mp hw
  have hmem : v ∈ before := by
    rw [hvars, List.mem_append, List.mem_cons] at hv
    rcases hv with hv | rfl | hv
    · exact hv
    · rw [hnone] at hassigned
      cases hassigned
    · exact absurd hname.symm (hlast v hv)
  refine ⟨v, w, ?_, hname.symm, hassigned, hnone⟩
  rw [hvars]
  exact (List.singleton_sublist.mpr hmem).append (List.singleton_sublist.mpr List.mem_cons_self)

theorem unassigned_overlay {envs : List Environment} (hne : envs ≠ [])
    (h : ∀ env ∈ envs, env.onlyDeclares = true) :
    overlay envs ≠ [] ∧ ∀ v ∈ overlay envs, v.value = none := by
  constructor
  · obtain ⟨outer, env, rfl⟩ := (List.eq_nil_or_concat envs).resolve_left hne
    rw [List.concat_eq_append] at h ⊢
    have honly := Environment.onlyDeclares_iff.mp (h env (by simp))
    obtain ⟨v, hv⟩ := List.exists_mem_of_ne_nil _ honly.1
    obtain ⟨w, hw, -⟩ := exists_mem_foldl_overlayOne hv
    exact List.ne_nil_of_mem (mem_overlay_of_last hw)
  · intro v hv
    obtain ⟨before, after, hvars, -⟩ := mem_overlay.mp hv
    obtain ⟨env, henv, hmem⟩ : ∃ env ∈ envs, v ∈ env.vars := by
      rw [← List.mem_flatMap, hvars]
      simp
    exact (Environment.onlyDeclares_iff.mp (h env henv)).2 v hmem

/-- Inside environments that only declare, an environment does so too exactly if no row is
assigned, provided that it has names at all and declares no assigned one again. -/
theorem onlyDeclares_iff_overlay {outer : List Environment} {env : Environment}
    (houter : ∀ e ∈ outer, e.onlyDeclares = true) :
    env.onlyDeclares = true ↔
      (overlay (outer ++ [env]) ≠ [] ∧ ∀ v ∈ overlay (outer ++ [env]), v.value = none) ∧
        ¬ (env.vars = [] ∨ env.Redeclares) := by
  constructor
  · intro honly
    refine ⟨unassigned_overlay (by simp) fun e he => ?_, ?_⟩
    · rcases List.mem_append.mp he with he | he
      · exact houter e he
      · rwa [List.mem_singleton.mp he]
    · obtain ⟨hne, hnone⟩ := Environment.onlyDeclares_iff.mp honly
      rintro (hempty | ⟨v, w, hsub, -, hassigned, -⟩)
      · exact hne hempty
      · rw [hnone v (hsub.subset List.mem_cons_self)] at hassigned
        cases hassigned
  · rintro ⟨⟨-, hrows⟩, hgood⟩
    refine Environment.onlyDeclares_iff.mpr ⟨fun hempty => hgood (Or.inl hempty), fun v hv => ?_⟩
    by_contra hassigned
    refine hgood (Or.inr (redeclares_of_overlay hrows hv ?_))
    rwa [Option.isSome_iff_ne_none]

namespace Frame

variable {f : Frame α}

theorem isUnassigned_iff : f.IsUnassigned ↔
    f.bindings.map Binding.datum ≠ #[] ∧ ∀ d ∈ f.bindings.map Binding.datum, d = none := by
  simp [IsUnassigned]

variable [Scalar α] {config : Config α} {i n : Nat} {node : TreeNode} {envs : List Environment}
  {p : Point α}

theorem map_datum_of_place (h : f.unbound = place config i n node envs p) :
    f.bindings.map Binding.datum = ((overlay envs).map Variable.value).toArray := by
  rw [← Layout.entries_of_place h, List.map_map, ← Array.toList_map, Array.toArray_toList]
  rfl

theorem isUnassigned_iff_of_place (h : f.unbound = place config i n node envs p) :
    f.IsUnassigned ↔ overlay envs ≠ [] ∧ ∀ v ∈ overlay envs, v.value = none := by
  rw [isUnassigned_iff, map_datum_of_place h]
  simp

end Frame

/-! ## The flag of a frame -/

namespace Layout

variable [Scalar α] {config : Config α} {s : Snapshot} {f : Frame α}

/-- A frame is made of its own environment, if it has one, and of those around it that are folded
into it and only declare. -/
theorem exists_envs_ofSnapshot (hf : f ∈ (ofSnapshot config s).frames) :
    ∃ (i : Nat) (node : TreeNode) (p : Point α) (outer : List Environment),
      f.unbound = Frame.place config i f.node node (outer ++ (f.env? s).toList) p ∧
        f.onlyDeclares = (f.env? s).any Environment.onlyDeclares ∧
        (∀ env ∈ outer, env.onlyDeclares = true) ∧
        (outer = [] ∨ config.framePolicy.foldDeclared = true ∧ ∃ env, f.env? s = some env ∧
          (env.vars = [] → config.framePolicy.skipEmpty = false)) := by
  obtain ⟨i, hi⟩ := Array.getElem?_of_mem hf
  obtain ⟨node, p, hnode, hplace⟩ := exists_place_ofSnapshot hi
  have henv : f.env = node.env := congrArg Frame.env hplace
  have henvs : envsOf s node = node.merged.filterMap s.env? ++ (f.env? s).toList := by
    rw [envsOf, List.filterMap_append, Frame.env?, henv]
    cases node.env with
    | none => rfl
    | some e => cases s.env? e <;> rfl
  refine ⟨i, node, p, node.merged.filterMap s.env?, henvs ▸ hplace, ?_, ?_, ?_⟩
  · rw [Frame.env?, henv, ← EnvTree.onlyDeclares_of_node hnode]
    exact congrArg Frame.onlyDeclares hplace
  · intro env hmem
    obtain ⟨e, he, hfind⟩ := List.mem_filterMap.mp hmem
    obtain ⟨env', hfind', honly⟩ := EnvTree.onlyDeclares_of_mem_merged hnode he
    rw [hfind] at hfind'
    cases hfind'
    exact honly
  · rw [Frame.env?, henv]
    by_cases hmerged : node.merged = []
    · exact Or.inl (by rw [hmerged]; rfl)
    · exact Or.inr (EnvTree.of_merged_ne_nil hnode hmerged)

/-- The flag of a frame. -/
theorem onlyDeclares_ofSnapshot (hf : f ∈ (ofSnapshot config s).frames) :
    f.onlyDeclares = true ↔ f.IsUnassigned ∧ ¬ f.IsMisjudged config.framePolicy s := by
  obtain ⟨i, node, p, outer, hplace, hflag, houter, hfolded⟩ := exists_envs_ofSnapshot hf
  rw [hflag, Frame.isUnassigned_iff_of_place hplace]
  cases hown : f.env? s with
  | none =>
    -- nothing is folded where there is no environment
    obtain rfl | ⟨-, env, henv, -⟩ := hfolded
    · exact iff_of_false Bool.false_ne_true fun h => h.1.1 rfl
    · rw [hown] at henv
      cases henv
  | some env =>
    rw [Option.any_some, Option.toList_some, onlyDeclares_iff_overlay houter]
    refine and_congr_right fun ⟨hne, _⟩ => not_congr ?_
    rw [Frame.IsMisjudged, hown]
    constructor
    · intro h
      refine ⟨env, rfl, h.imp_left fun hvars => ⟨?_, hvars⟩⟩
      -- the rows come from what is folded into the environment
      obtain rfl | ⟨hfold, env', henv', hskip⟩ := hfolded
      · exact absurd (by simp [overlay, hvars]) hne
      · rw [hown] at henv'
        cases henv'
        rw [← hskip hvars, ← hfold]
    · rintro ⟨env', henv', h⟩
      cases henv'
      exact h.imp_left And.right

/-- The label of a frame. -/
theorem label_ofSnapshot (hf : f ∈ (ofSnapshot config s).frames) :
    f.label = if f.isGlobal then config.globalLabel
      else if f.onlyDeclares then config.predeclaredText
      else Text.fit config config.textMaxWidth (((f.env? s).map Environment.name).getD "") := by
  obtain ⟨i, node, p, outer, hplace, -, -, hfolded⟩ := exists_envs_ofSnapshot hf
  have hlast : (outer ++ (f.env? s).toList).getLast? = f.env? s := by
    cases hown : f.env? s with
    | some env => exact List.getLast?_concat
    | none =>
      obtain rfl | ⟨-, env, henv, -⟩ := hfolded
      · rfl
      · rw [hown] at henv
        cases henv
  have hlabel : f.label = Frame.labelText config f.isGlobal f.onlyDeclares
      (outer ++ (f.env? s).toList) := by
    rw [show f.isGlobal = node.isRoot from congrArg Frame.isGlobal hplace,
      show f.onlyDeclares = node.onlyDeclares from congrArg Frame.onlyDeclares hplace]
    exact congrArg Frame.label hplace
  rw [hlabel, Frame.labelText, hlast]

end Layout

/-- In the layout of a snapshot a frame is flagged exactly if it has rows and none of them is
assigned, folded environments included, unless it is misjudged. Flagged frames have a label of
their own, apart from the global one. -/
theorem Scene.onlyDeclares_load [Scalar α] (sc : Scene α) (s : Snapshot) (f : Frame α)
    (hf : f ∈ (sc.load s).layout.frames) :
    (f.onlyDeclares = true ↔ f.IsUnassigned ∧ ¬ f.IsMisjudged sc.config.framePolicy s) ∧
      f.label = if f.isGlobal then sc.config.globalLabel
        else if f.onlyDeclares then sc.config.predeclaredText
        else Text.fit sc.config sc.config.textMaxWidth
          (((f.env? s).map Environment.name).getD "") :=
  ⟨Layout.onlyDeclares_ofSnapshot hf, Layout.label_ofSnapshot hf⟩

/-- A hoisted name is folded into the function that declares another one: the frame of both is
flagged. -/
theorem Scene.onlyDeclares_load_folded :
    let s : Snapshot :=
      ⟨0, [⟨⟨0⟩, "global", none, [⟨"x", some .null, false⟩]⟩,
        ⟨⟨1⟩, "hoisted", some ⟨0⟩, [⟨"y", none, false⟩]⟩,
        ⟨⟨2⟩, "f", some ⟨1⟩, [⟨"n", none, false⟩]⟩], [], some ⟨2⟩⟩
    let sc : Scene Rat := .ofConfig { Config.standard with framePolicy := .pedagogical }
    ∃ f ∈ (sc.load s).layout.frames, f.bindings.toList.map Binding.name = ["y", "n"] ∧
      f.isGlobal = false ∧ f.IsUnassigned ∧ f.onlyDeclares = true ∧
      f.label = sc.config.predeclaredText := by
  intro s sc
  have hframe : ((sc.load s).layout.frames[1]?.map fun f =>
      (f.bindings.toList.map Binding.name, f.isGlobal, f.onlyDeclares)) =
        some (["y", "n"], false, true) := by cbv
  obtain ⟨f, hf, heq⟩ := Option.map_eq_some_iff.mp hframe
  simp only [Prod.mk.injEq] at heq
  obtain ⟨hnames, hglobal, hflag⟩ := heq
  have hmem : f ∈ (sc.load s).layout.frames := Array.mem_of_getElem? hf
  obtain ⟨hiff, hlabel⟩ := onlyDeclares_load sc s f hmem
  refine ⟨f, hmem, hnames, hglobal, (hiff.mp hflag).1, hflag, ?_⟩
  rw [hlabel, hglobal, hflag]
  rfl

/-- A block without names of its own is drawn for the hoisted name that is folded into it. Its
frame is not flagged and has the label of the block. -/
theorem Scene.onlyDeclares_load_ne :
    let s : Snapshot :=
      ⟨0, [⟨⟨0⟩, "global", none, [⟨"x", some .null, false⟩]⟩,
        ⟨⟨1⟩, "hoisted", some ⟨0⟩, [⟨"y", none, false⟩]⟩, ⟨⟨2⟩, "block", some ⟨1⟩, []⟩],
        [], some ⟨2⟩⟩
    let sc : Scene Rat := .ofConfig { Config.standard with framePolicy := ⟨false, true⟩ }
    ∃ f ∈ (sc.load s).layout.frames, f.IsUnassigned ∧ f.isGlobal = false ∧
      f.onlyDeclares = false ∧ f.label = "block" := by
  intro s sc
  have hframe : ((sc.load s).layout.frames[1]?.map fun f =>
      (f.bindings.map Binding.datum, f.isGlobal, f.onlyDeclares, f.label)) =
        some (#[none], false, false, "block") := by cbv
  obtain ⟨f, hf, heq⟩ := Option.map_eq_some_iff.mp hframe
  simp only [Prod.mk.injEq] at heq
  obtain ⟨hdata, hglobal, hflag, hlabel⟩ := heq
  refine ⟨f, Array.mem_of_getElem? hf, Frame.isUnassigned_iff.mpr ?_, hglobal, hflag, hlabel⟩
  rw [hdata]
  simp

end EnvDiagram
