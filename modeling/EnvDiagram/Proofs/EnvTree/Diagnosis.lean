import EnvDiagram.Proofs.EnvTree.Accounting
import EnvDiagram.Proofs.EnvTree.BreadthFirst
import EnvDiagram.Proofs.EnvTree.Openings

/-!
# What is wrong with the environments of a snapshot

The defects found while the environments are nested can be read off the snapshot: identities that
occur again, no environment without a parent or more than one, parents that are unknown, and
circles of parents. The last are the circles of the links between positions, since the links that
the nesting leaves out lead to the global environment, which is on no circle
(`Snapshot.CutsCircles`).

* `Snapshot.chosenGlobal?` — the global environment
* `Snapshot.parentDefect?`, `Snapshot.IsCircle` — what is wrong with parents
* `Snapshot.IsSound` — nothing is wrong
* `EnvTree.diagnoses_build` — so the defects of a snapshot are reported, under every policy
-/

namespace EnvDiagram

variable {s : Snapshot} {envs : List Environment} {env : Environment} {a b d e p : EnvId}
  {i j k : Nat}

namespace Snapshot

/-- The environments of which each is the first one of its identity. An identity names the first
one. -/
def firstEnvs (s : Snapshot) : List Environment :=
  (s.envs.zipIdx.filter fun x => x.1.id ∉ s.ids.take x.2).map Prod.fst

/-- The environments whose identity has occurred before. -/
def laterEnvs (s : Snapshot) : List Environment :=
  (s.envs.zipIdx.filter fun x => x.1.id ∈ s.ids.take x.2).map Prod.fst

/-- Whether an environment has no parent. -/
def isParentless (s : Snapshot) (e : EnvId) : Bool := (s.env? e).any fun env => env.parent.isNone

/-- The environment without a parent where the walk from the running code ends, and otherwise the
first environment without a parent. -/
def chosenGlobal? (s : Snapshot) : Option EnvId :=
  (s.scopeChain.getLast?.filter s.isParentless).or (s.ids.find? s.isParentless)

/-- What is wrong with the parent of an environment. -/
def parentDefect? (s : Snapshot) (env : Environment) : Option Defect :=
  match env.parent with
  | none => if s.chosenGlobal? = some env.id then none else some (.extraRoot env.id)
  | some p => if p ∈ s.ids then none else some (.danglingParent env.id p)

/-- Whether an environment has the given parent, known or not. -/
def HasParent (s : Snapshot) (e p : EnvId) : Prop := parentOf s.envs e = some p

/-- Whether environments are a circle: from each of them the parents lead to these and to no
others. -/
def IsCircle (s : Snapshot) (c : Finset EnvId) : Prop :=
  c.Nonempty ∧ ∀ e ∈ c, ∀ d, d ∈ c ↔ Relation.TransGen s.HasParent e d

/-- Whether one environment is given for each circle, the first one on it. -/
structure CutsCircles (s : Snapshot) (cut : List EnvId) : Prop where
  on_circle : ∀ e ∈ cut, ∃ c, s.IsCircle c ∧ e ∈ c
  once : ∀ c, s.IsCircle c → ∃ e, cut.filter (· ∈ c) = [e] ∧
    ∀ d ∈ c, s.ids.idxOf e ≤ s.ids.idxOf d

/-- Whether nothing is wrong with the environments: there is one without a parent, and from all
of them the parents lead to it. -/
structure IsSound (s : Snapshot) : Prop where
  distinct : s.ids.Nodup
  rooted : ∃ r, (∀ e, s.isParentless e = true ↔ e = r) ∧
    ∀ e ∈ s.ids, Relation.ReflTransGen s.HasParent e r

end Snapshot

/-! ## Environments of one identity -/

theorem filter_zipIdx_concat (q : EnvId → List EnvId → Bool) (envs : List Environment)
    (env : Environment) :
    ((envs ++ [env]).zipIdx.filter fun x =>
        q x.1.id (((envs ++ [env]).map Environment.id).take x.2)).map Prod.fst =
      (envs.zipIdx.filter fun x => q x.1.id ((envs.map Environment.id).take x.2)).map Prod.fst ++
        if q env.id (envs.map Environment.id) then [env] else [] := by
  have hbefore : ∀ x ∈ envs.zipIdx, ((envs ++ [env]).map Environment.id).take x.2 =
      (envs.map Environment.id).take x.2 := by
    intro x hx
    have hlt := List.snd_lt_of_mem_zipIdx hx
    rw [List.map_append, List.take_append_of_le_length (by simp; omega)]
  rw [List.zipIdx_append, List.filter_append, List.map_append,
    List.filter_congr fun x hx => by rw [hbefore x hx]]
  congr 1
  rw [List.zipIdx_singleton, Nat.zero_add, List.filter_singleton, List.map_append,
    List.take_left' (by simp)]
  cases q env.id (envs.map Environment.id) <;> rfl

theorem duplicates_concat (seen : List EnvId) (envs : List Environment) (env : Environment) :
    duplicates seen (envs ++ [env]) = duplicates seen envs ++
      if env.id ∈ seen ∨ env.id ∈ envs.map Environment.id then [env.id] else [] := by
  induction envs generalizing seen with
  | nil => simp [duplicates]
  | cons x rest ih =>
    rw [List.cons_append, duplicates, duplicates]
    by_cases hx : x.id ∈ seen
    · rw [if_pos hx, if_pos hx, ih, List.cons_append]
      have hiff : env.id ∈ seen ∨ env.id ∈ rest.map Environment.id ↔
          env.id ∈ seen ∨ env.id ∈ (x :: rest).map Environment.id := by
        rw [List.map_cons, List.mem_cons, or_left_comm, iff_or_self]
        rintro heq
        exact Or.inl (heq ▸ hx)
      simp only [hiff]
    · rw [if_neg hx, if_neg hx, ih]
      have hiff : env.id ∈ x.id :: seen ∨ env.id ∈ rest.map Environment.id ↔
          env.id ∈ seen ∨ env.id ∈ (x :: rest).map Environment.id := by
        rw [List.map_cons, List.mem_cons, List.mem_cons, or_assoc, or_left_comm]
      simp only [hiff]

namespace Snapshot

theorem withoutDuplicates_envs (s : Snapshot) : withoutDuplicates s.envs = s.firstEnvs := by
  rw [firstEnvs, ids]
  induction s.envs using List.reverseRecOn with
  | nil => rfl
  | append_singleton envs env ih =>
    have hany : (withoutDuplicates envs).any (fun kept => kept.id = env.id) = true ↔
        env.id ∈ envs.map Environment.id := by
      rw [← mem_ids_withoutDuplicates, List.mem_map]
      simp
    rw [withoutDuplicates_concat, filter_zipIdx_concat (fun e before => decide (e ∉ before)), ← ih]
    by_cases hmem : env.id ∈ envs.map Environment.id
    · rw [if_pos (hany.mpr hmem), if_neg (by simpa using hmem), List.append_nil]
    · rw [if_neg (mt hany.mp hmem), if_pos (by simpa using hmem)]

theorem duplicates_envs (s : Snapshot) :
    duplicates [] s.envs = s.laterEnvs.map Environment.id := by
  rw [laterEnvs, ids]
  induction s.envs using List.reverseRecOn with
  | nil => rfl
  | append_singleton envs env ih =>
    rw [duplicates_concat, filter_zipIdx_concat (fun e before => decide (e ∈ before)), ih,
      List.map_append]
    by_cases hmem : env.id ∈ envs.map Environment.id
    · rw [if_pos (Or.inr hmem), if_pos (by simpa using hmem), List.map_singleton]
    · rw [if_neg (by simpa using hmem), if_neg (by simpa using hmem), List.map_nil]

theorem laterEnvs_eq_nil_iff : s.laterEnvs = [] ↔ s.ids.Nodup := by
  rw [laterEnvs, ids]
  induction s.envs using List.reverseRecOn with
  | nil => simp
  | append_singleton envs env ih =>
    rw [filter_zipIdx_concat (fun e before => decide (e ∈ before)), List.append_eq_nil_iff, ih,
      List.map_append, List.map_singleton, List.nodup_append_comm, List.singleton_append,
      List.nodup_cons, and_comm]
    refine and_congr_left fun _ => ?_
    split <;> simp_all

/-- Of the identities in order, those that occur again are not needed to find one. -/
theorem find?_ids (q : EnvId → Bool) (s : Snapshot) :
    s.ids.find? q = ((withoutDuplicates s.envs).map Environment.id).find? q := by
  rw [ids]
  induction s.envs using List.reverseRecOn with
  | nil => rfl
  | append_singleton envs env ih =>
    rw [withoutDuplicates_concat, List.map_append, List.find?_append, ih]
    by_cases hany : (withoutDuplicates envs).any (fun kept => kept.id = env.id) = true
    · rw [if_pos hany]
      cases hq : q env.id with
      | false => simp [hq]
      | true =>
        have hsome : (((withoutDuplicates envs).map Environment.id).find? q).isSome := by
          obtain ⟨kept, hkept, hid⟩ := List.any_eq_true.mp hany
          rw [List.find?_isSome]
          exact ⟨env.id, List.mem_map.mpr ⟨kept, hkept, by simpa using hid⟩, hq⟩
        exact Option.or_of_isSome hsome
    · rw [if_neg hany, List.map_append, List.find?_append, List.map_singleton]

/-! ## The global environment -/

theorem isParentless_of_id? (h : (Nesting.ofSnapshot s).1.id? i = some e) :
    s.isParentless e = Nesting.isParentless (withoutDuplicates s.envs) i := by
  obtain ⟨env, henv, -, hfind⟩ := Nesting.envs_of_id? h
  rw [isParentless, Nesting.isParentless, henv, hfind]

theorem mem_ids_of_isParentless (h : s.isParentless e = true) : e ∈ s.ids := by
  obtain ⟨env, henv, -⟩ := (Option.any_eq_true _ _).mp h
  exact mem_ids_of_env? henv

theorem bind_filter_position (last : Option EnvId) :
    ((last.bind (Nesting.position (withoutDuplicates s.envs))).filter
      (Nesting.isParentless (withoutDuplicates s.envs))).bind (Nesting.ofSnapshot s).1.id? =
        last.filter s.isParentless := by
  cases last with
  | none => rfl
  | some e =>
    rw [Option.bind_some]
    cases hpos : Nesting.position (withoutDuplicates s.envs) e with
    | none =>
      have hless : s.isParentless e = false := by
        rw [Bool.eq_false_iff]
        intro h
        obtain ⟨i, hi⟩ := Nesting.exists_id?_of_mem (mem_ids_of_isParentless h)
        rw [Nesting.position_of_id? hi] at hpos
        cases hpos
      rw [Option.filter_none, Option.bind_none, Option.filter_some, if_neg (by simp [hless])]
    | some i =>
      have hi := Nesting.id?_of_position hpos
      rw [Option.filter_some, Option.filter_some, isParentless_of_id? hi]
      split
      · exact hi
      · rfl

theorem bind_findIdx?_parentless (s : Snapshot) :
    ((withoutDuplicates s.envs).findIdx? fun env => env.parent.isNone).bind
      (Nesting.ofSnapshot s).1.id? = s.ids.find? s.isParentless := by
  have hless : ∀ env ∈ withoutDuplicates s.envs,
      (s.isParentless ∘ Environment.id) env = env.parent.isNone := by
    intro env henv
    obtain ⟨i, hi⟩ := List.mem_iff_getElem?.mp henv
    have hid : (Nesting.ofSnapshot s).1.id? i = some env.id := by
      rw [Nesting.id?_ofSnapshot, List.getElem?_map, hi, Option.map_some]
    rw [Function.comp_apply, isParentless_of_id? hid, Nesting.isParentless, hi, Option.any_some]
  rw [find?_ids, List.find?_map, List.find?_congr hless, List.find?_eq_bind_findIdx?_getElem?,
    Option.map_bind]
  refine Option.bind_congr fun i _ => ?_
  rw [Nesting.id?_ofSnapshot, List.getElem?_map, Function.comp_apply]

/-- The global environment is the chosen one. -/
theorem globalEnv?_eq_chosenGlobal? (s : Snapshot) : s.globalEnv? = s.chosenGlobal? := by
  rw [chosenGlobal?, ← bind_findIdx?_parentless, ← bind_filter_position]
  show (Nesting.chooseRoot (withoutDuplicates s.envs) s.scopeChain).bind
    (Nesting.ofSnapshot s).1.id? = _
  rw [Nesting.chooseRoot]
  cases hlast : (s.scopeChain.getLast?.bind (Nesting.position (withoutDuplicates s.envs))).filter
      (Nesting.isParentless (withoutDuplicates s.envs)) with
  | none => rfl
  | some i =>
    obtain ⟨hpos, -⟩ := Option.filter_eq_some_iff.mp hlast
    obtain ⟨e, -, hpos⟩ := Option.bind_eq_some_iff.mp hpos
    rw [Option.some_or, Option.bind_some, Nesting.id?_of_position hpos, Option.some_or]

/-! ## Parents and links -/

/-- The links between positions before circles are opened. -/
def rawLinks (s : Snapshot) : Links :=
  Nesting.rawLinks (withoutDuplicates s.envs) (Nesting.ofSnapshot s).1.root

theorem HasParent.mem_ids (h : s.HasParent e p) : e ∈ s.ids := mem_ids_of_parentOf h

theorem hasParent_iff (h : (Nesting.ofSnapshot s).1.id? i = some e)
    (henv : (withoutDuplicates s.envs)[i]? = some env) : s.HasParent e p ↔ env.parent = some p := by
  obtain ⟨env', henv', -, hfind⟩ := Nesting.envs_of_id? h
  rw [henv, Option.some.injEq] at henv'
  rw [HasParent, parentOf, show s.envs.find? _ = some env' from hfind, Option.bind_some, henv']

/-- The global environment has no parent. -/
theorem HasParent.ne_globalEnv? (h : s.HasParent e p) : s.globalEnv? ≠ some e := by
  intro hglobal
  obtain ⟨i, hi⟩ := Nesting.exists_id?_of_mem h.mem_ids
  obtain ⟨env, henv, -⟩ := Nesting.envs_of_id? hi
  have hroot := (Nesting.globalEnv?_iff hi).mp hglobal
  rw [hasParent_iff hi henv, Nesting.parent_of_chooseRoot hroot henv] at h
  cases h

/-- Parents are where the links lead, other than the global environment. -/
theorem parent_rawLinks_iff (hi : (Nesting.ofSnapshot s).1.id? i = some e)
    (hj : (Nesting.ofSnapshot s).1.id? j = some p) :
    s.rawLinks.parent i = some j ↔ s.HasParent e p ∧ s.globalEnv? ≠ some p := by
  obtain ⟨env, henv, -⟩ := Nesting.envs_of_id? hi
  rw [rawLinks, Nesting.parent_rawLinks_of_env henv, hasParent_iff hi henv]
  constructor
  · intro hlink
    obtain ⟨-, hroot, id, hparent, hpos⟩ := Nesting.link_eq_some hlink
    have hid := Nesting.id?_of_position hpos
    rw [hj, Option.some.injEq] at hid
    exact ⟨hid ▸ hparent, fun hg => hroot ((Nesting.globalEnv?_iff hj).mp hg)⟩
  · rintro ⟨hparent, hglobal⟩
    refine Nesting.link_of_position (fun hroot => ?_)
      (fun hroot => hglobal ((Nesting.globalEnv?_iff hj).mpr hroot)) hparent
      (Nesting.position_of_id? hj)
    rw [Nesting.parent_of_chooseRoot hroot henv] at hparent
    cases hparent

theorem lt_size_of_rawLinks (h : s.rawLinks.parent i = some j) :
    j < (Nesting.ofSnapshot s).1.size := by
  rw [Nesting.size_ofSnapshot, ← Nesting.size_rawLinks _ (Nesting.ofSnapshot s).1.root]
  exact Nesting.closed_rawLinks _ _ i j h

theorem transGen_of_ancestor (hi : (Nesting.ofSnapshot s).1.id? i = some e)
    (hj : (Nesting.ofSnapshot s).1.id? j = some d) (h : s.rawLinks.Ancestor j i) :
    Relation.TransGen s.HasParent e d := by
  induction h generalizing e with
  | parent hp => exact .single ((parent_rawLinks_iff hi hj).mp hp).1
  | outer hp _ ih =>
    obtain ⟨p, hq⟩ := Nesting.exists_id? (lt_size_of_rawLinks hp)
    exact .head ((parent_rawLinks_iff hi hq).mp hp).1 (ih hq)

/-- No step to an environment other than the global one is missing from the links. -/
theorem ancestor_of_transGen (hi : (Nesting.ofSnapshot s).1.id? i = some e)
    (hj : (Nesting.ofSnapshot s).1.id? j = some d) (hd : s.globalEnv? ≠ some d)
    (h : Relation.TransGen s.HasParent e d) : s.rawLinks.Ancestor j i := by
  induction h using Relation.TransGen.head_induction_on generalizing i with
  | single hp => exact .parent ((parent_rawLinks_iff hi hj).mpr ⟨hp, hd⟩)
  | head hp hrest ih =>
    -- the walk goes on, so where it goes is not the global environment
    obtain ⟨q, hq, -⟩ := Relation.TransGen.head'_iff.mp hrest
    obtain ⟨k, hk⟩ := Nesting.exists_id?_of_mem hq.mem_ids
    exact .outer ((parent_rawLinks_iff hi hk).mpr ⟨hp, hq.ne_globalEnv?⟩) (ih hk)

/-! ## Circles -/

/-- On a circle of parents the way leads back. -/
theorem transGen_back (he : Relation.TransGen s.HasParent e e)
    (h : Relation.TransGen s.HasParent e d) : Relation.TransGen s.HasParent d e := by
  have hstep : ∀ {x y}, Relation.TransGen s.HasParent x e → s.HasParent x y →
      Relation.TransGen s.HasParent y e := by
    intro x y hx hxy
    obtain ⟨p, hp, hrest⟩ := Relation.TransGen.head'_iff.mp hx
    obtain rfl : p = y := Option.some.inj (hp.symm.trans hxy)
    rcases Relation.reflTransGen_iff_eq_or_transGen.mp hrest with rfl | hback
    · exact he
    · exact hback
  induction h with
  | single hp => exact hstep he hp
  | tail _ hp ih => exact hstep ih hp

theorem exists_isCircle (he : Relation.TransGen s.HasParent e e) : ∃ c, s.IsCircle c ∧ e ∈ c := by
  classical
  have hmem : ∀ d, d ∈ s.ids.toFinset.filter (Relation.TransGen s.HasParent e) ↔
      Relation.TransGen s.HasParent e d := by
    intro d
    rw [Finset.mem_filter, List.mem_toFinset, and_iff_right_iff_imp]
    intro hd
    obtain ⟨p, hp, -⟩ := Relation.TransGen.head'_iff.mp (transGen_back he hd)
    exact hp.mem_ids
  refine ⟨_, ⟨⟨e, (hmem e).mpr he⟩, fun x hx d => ?_⟩, (hmem e).mpr he⟩
  rw [hmem] at hx ⊢
  exact ⟨fun hd => (transGen_back he hx).trans hd, fun hd => hx.trans hd⟩

/-- The positions of some environments. -/
def positionsOf (s : Snapshot) (c : Finset EnvId) : Finset Nat :=
  (Finset.range (Nesting.ofSnapshot s).1.size).filter fun i =>
    ((Nesting.ofSnapshot s).1.id? i).any (· ∈ c)

theorem mem_positionsOf {c : Finset EnvId} :
    i ∈ s.positionsOf c ↔ ∃ e ∈ c, (Nesting.ofSnapshot s).1.id? i = some e := by
  rw [positionsOf, Finset.mem_filter, Finset.mem_range, Option.any_eq_true]
  constructor
  · rintro ⟨-, e, hi, he⟩
    exact ⟨e, by simpa using he, hi⟩
  · rintro ⟨e, he, hi⟩
    exact ⟨Nesting.lt_size_of_id? hi, e, hi, by simpa using he⟩

theorem IsCircle.exists_parent {c : Finset EnvId} (hc : s.IsCircle c) (he : e ∈ c) :
    ∃ p, s.HasParent e p := by
  obtain ⟨p, hp, -⟩ := Relation.TransGen.head'_iff.mp ((hc.2 e he e).mp he)
  exact ⟨p, hp⟩

/-- A circle of parents is one of links. -/
theorem IsCircle.positionsOf {c : Finset EnvId} (hc : s.IsCircle c) :
    s.rawLinks.IsCircle (s.positionsOf c) := by
  constructor
  · obtain ⟨e, he⟩ := hc.1
    obtain ⟨p, hp⟩ := hc.exists_parent he
    obtain ⟨i, hi⟩ := Nesting.exists_id?_of_mem hp.mem_ids
    exact ⟨i, mem_positionsOf.mpr ⟨e, he, hi⟩⟩
  · intro i hmem j
    obtain ⟨e, he, hi⟩ := mem_positionsOf.mp hmem
    constructor
    · intro hj
      obtain ⟨d, hd, hj⟩ := mem_positionsOf.mp hj
      obtain ⟨p, hp⟩ := hc.exists_parent hd
      exact ancestor_of_transGen hi hj hp.ne_globalEnv? ((hc.2 e he d).mp hd)
    · intro hanc
      obtain ⟨k, hk, -⟩ := hanc.exists_last
      obtain ⟨d, hj⟩ := Nesting.exists_id? (lt_size_of_rawLinks hk)
      exact mem_positionsOf.mpr ⟨d, (hc.2 e he d).mpr (transGen_of_ancestor hi hj hanc), hj⟩

/-- The environments that lose their parents when circles are opened. -/
def cutEnvs (s : Snapshot) : List EnvId :=
  s.rawLinks.openCircles.2.filterMap (Nesting.ofSnapshot s).1.id?

theorem cutsCircles_cutEnvs (s : Snapshot) : s.CutsCircles s.cutEnvs where
  on_circle := by
    intro e he
    obtain ⟨m, hm, hid⟩ := List.mem_filterMap.mp he
    exact exists_isCircle
      (transGen_of_ancestor hid hid ((Links.opening_openCircles s.rawLinks).least m hm).1)
  once := by
    intro c hc
    obtain ⟨m, hleast, hfilter⟩ := hc.positionsOf.filter_detached
    obtain ⟨e, he, hm⟩ := mem_positionsOf.mp hleast.1
    refine ⟨e, ?_, fun d hd => ?_⟩
    · have hkeep : ∀ i, ((Nesting.ofSnapshot s).1.id? i).filter (· ∈ c) =
          if i ∈ s.positionsOf c then (Nesting.ofSnapshot s).1.id? i else none := by
        intro i
        cases hi : (Nesting.ofSnapshot s).1.id? i with
        | none => rw [Option.filter_none, ite_self]
        | some d =>
          have hmem : i ∈ s.positionsOf c ↔ d ∈ c := by simp [mem_positionsOf, hi]
          simp only [hmem, Option.filter_some, decide_eq_true_eq]
      calc s.cutEnvs.filter (· ∈ c)
          = (s.rawLinks.openCircles.2.filter (· ∈ s.positionsOf c)).filterMap
              (Nesting.ofSnapshot s).1.id? := by
            rw [cutEnvs, List.filter_filterMap, List.filterMap_filter]
            simp only [hkeep, decide_eq_true_eq]
        _ = [e] := by rw [hfilter, List.filterMap_cons_some hm, List.filterMap_nil]
    · obtain ⟨p, hp⟩ := hc.exists_parent hd
      obtain ⟨j, hj⟩ := Nesting.exists_id?_of_mem hp.mem_ids
      rcases (hleast.2 (mem_positionsOf.mpr ⟨d, hd, hj⟩)).eq_or_lt with rfl | hlt
      · rw [hm, Option.some.injEq] at hj
        rw [hj]
      · exact (Nesting.idxOf_ids_lt hm hj hlt).le

/-! ## The defects -/

theorem link_snd (h : (withoutDuplicates s.envs)[i]? = some env) :
    (Nesting.link (withoutDuplicates s.envs) (Nesting.ofSnapshot s).1.root i env).2 =
      s.parentDefect? env := by
  have hi : (Nesting.ofSnapshot s).1.id? i = some env.id := by
    rw [Nesting.id?_ofSnapshot, List.getElem?_map, h, Option.map_some]
  have hglobal := Nesting.globalEnv?_iff hi
  rw [globalEnv?_eq_chosenGlobal?] at hglobal
  rw [Nesting.link, parentDefect?]
  cases hparent : env.parent with
  | none =>
    by_cases hroot : (Nesting.ofSnapshot s).1.root = some i
    · rw [if_pos hroot]
      exact (if_pos (hglobal.mpr hroot)).symm
    · rw [if_neg hroot]
      exact (if_neg (mt hglobal.mp hroot)).symm
  | some p =>
    have hroot : (Nesting.ofSnapshot s).1.root ≠ some i := fun hroot => by
      rw [Nesting.parent_of_chooseRoot hroot h] at hparent
      cases hparent
    rw [if_neg hroot]
    by_cases hp : p ∈ s.ids
    · obtain ⟨j, hj⟩ := Nesting.exists_id?_of_mem hp
      simp only [Nesting.position_of_id? hj, if_pos hp]
    · have hpos : Nesting.position (withoutDuplicates s.envs) p = none := by
        rw [Option.eq_none_iff_forall_ne_some]
        exact fun j hj => hp (Nesting.mem_ids_of_id? (Nesting.id?_of_position hj))
      simp only [hpos, if_neg hp]

theorem filterMap_link (s : Snapshot) :
    ((withoutDuplicates s.envs).mapIdx (Nesting.link (withoutDuplicates s.envs)
      (Nesting.ofSnapshot s).1.root)).filterMap Prod.snd = s.firstEnvs.filterMap s.parentDefect? := by
  have hmap : ((withoutDuplicates s.envs).mapIdx (Nesting.link (withoutDuplicates s.envs)
      (Nesting.ofSnapshot s).1.root)).map Prod.snd = s.firstEnvs.map s.parentDefect? := by
    rw [← withoutDuplicates_envs]
    refine List.ext_getElem? fun i => ?_
    rw [List.getElem?_map, List.getElem?_mapIdx, List.getElem?_map, Option.map_map]
    refine Option.map_congr fun env henv => ?_
    exact link_snd henv
  calc _ = (((withoutDuplicates s.envs).mapIdx (Nesting.link (withoutDuplicates s.envs)
            (Nesting.ofSnapshot s).1.root)).map Prod.snd).filterMap id := by
          rw [List.filterMap_map, Function.id_comp]
    _ = s.firstEnvs.filterMap s.parentDefect? := by
          rw [hmap, List.filterMap_map, Function.id_comp]

theorem isSome_chosenGlobal? (s : Snapshot) :
    s.chosenGlobal?.isSome = s.ids.any s.isParentless := by
  rw [Bool.eq_iff_iff, chosenGlobal?, Option.isSome_or, Bool.or_eq_true, List.find?_isSome,
    List.any_eq_true, or_iff_right_iff_imp, Option.isSome_iff_exists]
  rintro ⟨e, he⟩
  have hless := (Option.filter_eq_some_iff.mp he).2
  exact ⟨e, mem_ids_of_isParentless hless, hless⟩

theorem isNone_root (s : Snapshot) :
    (Nesting.ofSnapshot s).1.root.isNone = !s.ids.any s.isParentless := by
  rw [← isSome_chosenGlobal?, ← globalEnv?_eq_chosenGlobal?]
  show _ = !((Nesting.ofSnapshot s).1.root.bind (Nesting.ofSnapshot s).1.id?).isSome
  cases hr : (Nesting.ofSnapshot s).1.root with
  | none => rfl
  | some r =>
    obtain ⟨e, he⟩ := Nesting.exists_id? ((Nesting.ofSnapshot_wellFormed s).root_lt hr)
    rw [Option.bind_some, he]
    rfl

theorem circleDefects_detached (s : Snapshot) :
    Nesting.circleDefects (withoutDuplicates s.envs) s.rawLinks.openCircles.2 =
      s.cutEnvs.map .parentCycle := by
  rw [Nesting.circleDefects, cutEnvs, List.map_filterMap]
  congr 1
  funext i
  rw [Nesting.id?_ofSnapshot, List.getElem?_map, Option.map_map]
  rfl

/-- The defects found while the environments are nested. -/
theorem defects_ofSnapshot (s : Snapshot) : (Nesting.ofSnapshot s).2 =
    s.laterEnvs.map (fun env => .duplicateEnv env.id) ++
      (if s.ids.any s.isParentless then [] else [.missingGlobal]) ++
      s.firstEnvs.filterMap s.parentDefect? ++ s.cutEnvs.map .parentCycle := by
  have hmissing : (if (Nesting.ofSnapshot s).1.root.isNone then [Defect.missingGlobal] else []) =
      if s.ids.any s.isParentless then [] else [.missingGlobal] := by
    rw [isNone_root]
    cases s.ids.any s.isParentless <;> rfl
  rw [← filterMap_link, ← circleDefects_detached, ← hmissing, Nesting.ofSnapshot_snd,
    duplicates_envs, List.map_map]
  rfl

/-! ## Nothing is wrong -/

theorem isParentless_iff (h : (Nesting.ofSnapshot s).1.id? i = some e)
    (henv : (withoutDuplicates s.envs)[i]? = some env) :
    s.isParentless e = true ↔ env.parent = none := by
  rw [isParentless_of_id? h, Nesting.isParentless, henv]
  simp

/-- An environment has a parent or none. -/
theorem exists_parent_of_mem (h : e ∈ s.ids) (hless : s.isParentless e = false) :
    ∃ p, s.HasParent e p := by
  obtain ⟨i, hi⟩ := Nesting.exists_id?_of_mem h
  obtain ⟨env, henv, -⟩ := Nesting.envs_of_id? hi
  rw [← Bool.not_eq_true, isParentless_iff hi henv] at hless
  obtain ⟨p, hp⟩ := Option.ne_none_iff_exists'.mp hless
  exact ⟨p, (hasParent_iff hi henv).mpr hp⟩

theorem HasParent.isParentless_eq_false (h : s.HasParent e p) : s.isParentless e = false := by
  obtain ⟨i, hi⟩ := Nesting.exists_id?_of_mem h.mem_ids
  obtain ⟨env, henv, -⟩ := Nesting.envs_of_id? hi
  rw [← Bool.not_eq_true, isParentless_iff hi henv, (hasParent_iff hi henv).mp h]
  simp

theorem isParentless_of_chosenGlobal? (h : s.chosenGlobal? = some e) : s.isParentless e = true := by
  rcases Option.or_eq_some_iff.mp h with hlast | ⟨-, hfirst⟩
  · exact (Option.filter_eq_some_iff.mp hlast).2
  · exact List.find?_some hfirst

theorem filterMap_parentDefect?_eq_nil_iff : s.firstEnvs.filterMap s.parentDefect? = [] ↔
    (∀ e, s.isParentless e = true → s.chosenGlobal? = some e) ∧
      ∀ e p, s.HasParent e p → p ∈ s.ids := by
  have hdefect : ∀ env, s.parentDefect? env = none ↔
      (env.parent = none → s.chosenGlobal? = some env.id) ∧
        ∀ p, env.parent = some p → p ∈ s.ids := by
    intro env
    rw [parentDefect?]
    cases env.parent <;> simp
  rw [List.filterMap_eq_nil_iff, ← withoutDuplicates_envs]
  simp only [hdefect]
  constructor
  · intro hall
    refine ⟨fun e hless => ?_, fun e p hp => ?_⟩
    · obtain ⟨i, hi⟩ := Nesting.exists_id?_of_mem (mem_ids_of_isParentless hless)
      obtain ⟨env, henv, rfl, -⟩ := Nesting.envs_of_id? hi
      exact (hall env (List.mem_of_getElem? henv)).1 ((isParentless_iff hi henv).mp hless)
    · obtain ⟨i, hi⟩ := Nesting.exists_id?_of_mem hp.mem_ids
      obtain ⟨env, henv, rfl, -⟩ := Nesting.envs_of_id? hi
      exact (hall env (List.mem_of_getElem? henv)).2 p ((hasParent_iff hi henv).mp hp)
  · rintro ⟨hone, hknown⟩ env hmem
    obtain ⟨i, henv⟩ := List.mem_iff_getElem?.mp hmem
    have hi : (Nesting.ofSnapshot s).1.id? i = some env.id := by
      rw [Nesting.id?_ofSnapshot, List.getElem?_map, henv, Option.map_some]
    exact ⟨fun hless => hone _ ((isParentless_iff hi henv).mpr hless),
      fun p hp => hknown _ p ((hasParent_iff hi henv).mpr hp)⟩

theorem cutEnvs_eq_nil_iff : s.cutEnvs = [] ↔ ∀ e, ¬ Relation.TransGen s.HasParent e e := by
  constructor
  · intro hnil e he
    obtain ⟨c, hc, -⟩ := exists_isCircle he
    obtain ⟨x, hx, -⟩ := (cutsCircles_cutEnvs s).once c hc
    rw [hnil] at hx
    cases hx
  · intro hnone
    rw [List.eq_nil_iff_forall_not_mem]
    intro e he
    obtain ⟨c, hc, hmem⟩ := (cutsCircles_cutEnvs s).on_circle e he
    exact hnone e ((hc.2 e hmem e).mp hmem)

/-- Without circles the links between positions are those of a forest. -/
theorem rawLinks_forest (h : ∀ e, ¬ Relation.TransGen s.HasParent e e) : s.rawLinks.Forest := by
  obtain ⟨rank, hrank⟩ := Links.openCircles_forest s.rawLinks
  refine ⟨rank, fun i p hp => hrank i p ?_⟩
  rw [Links.parent_openCircles, if_neg, hp]
  intro hdetached
  have hcircle := ((Links.opening_openCircles s.rawLinks).least i hdetached).1
  obtain ⟨k, hk, -⟩ := hcircle.exists_last
  obtain ⟨e, he⟩ := Nesting.exists_id? (lt_size_of_rawLinks hk)
  exact h e (transGen_of_ancestor he he hcircle)

/-- Without circles and unknown parents all walks lead to the global environment, if it is the
only one without a parent. -/
theorem reflTransGen_global (hcircle : ∀ e, ¬ Relation.TransGen s.HasParent e e)
    (hone : ∀ e, s.isParentless e = true → s.chosenGlobal? = some e)
    (hknown : ∀ e p, s.HasParent e p → p ∈ s.ids) {r : EnvId} (hr : s.chosenGlobal? = some r)
    (he : e ∈ s.ids) : Relation.ReflTransGen s.HasParent e r := by
  obtain ⟨rank, hrank⟩ := rawLinks_forest hcircle
  obtain ⟨i, hi⟩ := Nesting.exists_id?_of_mem he
  induction hn : rank i using Nat.strong_induction_on generalizing i e with
  | h n ih =>
    cases hless : s.isParentless e with
    | true =>
      obtain rfl : r = e := Option.some.inj (hr.symm.trans (hone e hless))
      exact .refl
    | false =>
      obtain ⟨p, hp⟩ := exists_parent_of_mem he hless
      obtain ⟨j, hj⟩ := Nesting.exists_id?_of_mem (hknown e p hp)
      by_cases hglobal : s.globalEnv? = some p
      · rw [globalEnv?_eq_chosenGlobal?, hr, Option.some.injEq] at hglobal
        exact .single (hglobal ▸ hp)
      · have hlink := (parent_rawLinks_iff hi hj).mpr ⟨hp, hglobal⟩
        exact .head hp (ih _ (hn ▸ hrank i j hlink) (hknown e p hp) j hj rfl)

theorem IsSound.of_defects (h : (Nesting.ofSnapshot s).2 = []) : s.IsSound := by
  rw [defects_ofSnapshot] at h
  simp only [List.append_eq_nil_iff, List.map_eq_nil_iff, laterEnvs_eq_nil_iff,
    filterMap_parentDefect?_eq_nil_iff, cutEnvs_eq_nil_iff, ← isSome_chosenGlobal?] at h
  obtain ⟨⟨⟨hdistinct, hglobal⟩, hone, hknown⟩, hcircle⟩ := h
  refine ⟨hdistinct, ?_⟩
  obtain ⟨r, hr⟩ : ∃ r, s.chosenGlobal? = some r := by
    rw [← Option.isSome_iff_exists]
    by_contra hnone
    rw [if_neg hnone] at hglobal
    cases hglobal
  refine ⟨r, fun e => ⟨fun hless => ?_, ?_⟩, fun e he => ?_⟩
  · exact (Option.some.inj (hr.symm.trans (hone e hless))).symm
  · rintro rfl
    exact isParentless_of_chosenGlobal? hr
  · exact reflTransGen_global hcircle hone hknown hr he

/-- What has a parent is on no circle if the walk from it ends. -/
theorem IsSound.defects_eq_nil (h : s.IsSound) : (Nesting.ofSnapshot s).2 = [] := by
  obtain ⟨r, hless, hreach⟩ := h.rooted
  have hr : s.isParentless r = true := (hless r).mpr rfl
  have hroot : ∀ p, ¬ s.HasParent r p := fun p hp => by
    rw [hp.isParentless_eq_false] at hr
    cases hr
  rw [defects_ofSnapshot]
  simp only [List.append_eq_nil_iff, List.map_eq_nil_iff, laterEnvs_eq_nil_iff,
    filterMap_parentDefect?_eq_nil_iff, cutEnvs_eq_nil_iff]
  have hany : s.ids.any s.isParentless = true :=
    List.any_eq_true.mpr ⟨r, mem_ids_of_isParentless hr, hr⟩
  obtain ⟨g, hg⟩ := Option.isSome_iff_exists.mp ((isSome_chosenGlobal? s).trans hany)
  obtain rfl : g = r := (hless g).mp (isParentless_of_chosenGlobal? hg)
  refine ⟨⟨⟨h.distinct, if_pos hany⟩, fun e he => ?_, fun e p hp => ?_⟩, fun e he => ?_⟩
  · rw [(hless e).mp he, hg]
  · -- the walk goes on over the parent, which is known as the end of the walk or has one itself
    rcases Relation.ReflTransGen.cases_head (hreach e hp.mem_ids) with rfl | ⟨q, hq, hrest⟩
    · exact absurd hp (hroot p)
    · obtain rfl : q = p := Option.some.inj (hq.symm.trans hp)
      rcases Relation.ReflTransGen.cases_head hrest with rfl | ⟨x, hx, -⟩
      · exact mem_ids_of_isParentless hr
      · exact hx.mem_ids
  · obtain ⟨p, hp, -⟩ := Relation.TransGen.head'_iff.mp he
    rcases Relation.reflTransGen_iff_eq_or_transGen.mp (hreach e hp.mem_ids) with rfl | hend
    · exact hroot p hp
    · obtain ⟨q, hq, -⟩ := Relation.TransGen.head'_iff.mp (transGen_back he hend)
      exact hroot q hq

end Snapshot

/-- The first node of a tree has the global environment, if there is one. The defects are those of
the snapshot, one of each kind after the other, whatever the policy; there are none exactly if
nothing is wrong. -/
theorem EnvTree.diagnoses_build (s : Snapshot) :
    (∀ policy, ∃ node, (build s policy).1.nodes[0]? = some node ∧ node.isRoot = true ∧
      node.env = s.chosenGlobal?) ∧
    (∃ cut, s.CutsCircles cut ∧ ∀ policy, (build s policy).2 =
      s.laterEnvs.map (fun env => .duplicateEnv env.id) ++
        (if s.ids.any s.isParentless then [] else [.missingGlobal]) ++
        s.firstEnvs.filterMap s.parentDefect? ++ cut.map .parentCycle) ∧
    ∀ policy, (build s policy).2 = [] ↔ s.IsSound := by
  refine ⟨fun policy => ?_, ⟨s.cutEnvs, s.cutsCircles_cutEnvs, fun policy => ?_⟩, fun policy => ?_⟩
  · rw [← Snapshot.globalEnv?_eq_chosenGlobal?]
    exact root_build s policy
  · exact s.defects_ofSnapshot
  · exact ⟨Snapshot.IsSound.of_defects, Snapshot.IsSound.defects_eq_nil⟩

/-- An environment that repeats an identity is not looked at, not even as the global one. -/
example : (EnvTree.build ⟨0, [⟨⟨1⟩, "a", some ⟨1⟩, []⟩, ⟨⟨1⟩, "b", none, []⟩,
    ⟨⟨2⟩, "c", some ⟨9⟩, []⟩], [], none⟩ .pedagogical).2 =
      [.duplicateEnv ⟨1⟩, .missingGlobal, .danglingParent ⟨2⟩ ⟨9⟩, .parentCycle ⟨1⟩] := by
  decide

end EnvDiagram
