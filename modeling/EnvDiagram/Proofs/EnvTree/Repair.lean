import EnvDiagram.Proofs.EnvTree.Nesting

/-!
# Repaired parents

A nesting knows the environments of a snapshot by their positions. Seen by identities, the
repaired parent of an environment is the one that it names, unless that cannot be followed: it
is missing or unknown, or the link was cut to open a circle, which is reported. An environment
whose parent is not followed, or is the global one, hangs off the global environment.

* `Snapshot.globalEnv?`, `Snapshot.repairedParent`, `Snapshot.Ancestor` — how the environments
  lie in one another after the repairs
* `Nesting.repairedParent_of_id?`, `Nesting.ancestor_iff` — that is what the links of the
  nesting say
-/

namespace EnvDiagram

variable {envs : List Environment} {env : Environment} {s : Snapshot} {e a b : EnvId} {i j p : Nat}

namespace Snapshot

/-- The identities of the environments. -/
def ids (s : Snapshot) : List EnvId := s.envs.map Environment.id

/-- The global environment, if the snapshot has one. -/
def globalEnv? (s : Snapshot) : Option EnvId :=
  let (nesting, _) := Nesting.ofSnapshot s
  nesting.root.bind nesting.id?

/-- Whether the link of an environment to its parent was cut, which is reported. -/
def cuts (s : Snapshot) (e : EnvId) : Bool := .parentCycle e ∈ (Nesting.ofSnapshot s).2

/-- The parent of an environment after the repairs: the one that it names, unless there is
none, or it is unknown or global, or the link to it was cut. An environment without a
repaired parent hangs off the global one. -/
def repairedParent (s : Snapshot) (e : EnvId) : Option EnvId :=
  (parentOf s.envs e).filter fun p => p ∈ s.ids && s.globalEnv? ≠ some p && !s.cuts e

/-- The environments that lie around one, from repaired parent to repaired parent. -/
inductive Ancestor (s : Snapshot) (a : EnvId) : EnvId → Prop
  | parent {b : EnvId} : s.repairedParent b = some a → Ancestor s a b
  | outer {b p : EnvId} : s.repairedParent b = some p → Ancestor s a p → Ancestor s a b

theorem mem_ids : e ∈ s.ids ↔ ∃ env ∈ s.envs, env.id = e := List.mem_map

theorem id_of_env? {env : Environment} (h : s.env? e = some env) : env.id = e := by
  simpa using List.find?_some h

theorem mem_ids_of_env? {env : Environment} (h : s.env? e = some env) : e ∈ s.ids :=
  mem_ids.mpr ⟨env, List.mem_of_find?_eq_some h, id_of_env? h⟩

theorem mem_ids_of_parentOf {p : EnvId} (h : parentOf s.envs e = some p) : e ∈ s.ids := by
  obtain ⟨env, henv, -⟩ := Option.bind_eq_some_iff.mp h
  exact mem_ids_of_env? henv

theorem repairedParent_eq_some_iff : s.repairedParent e = some a ↔
    parentOf s.envs e = some a ∧ a ∈ s.ids ∧ s.globalEnv? ≠ some a ∧ s.cuts e = false := by
  simp [repairedParent, Option.filter_eq_some_iff, and_assoc]

end Snapshot

/-! ## Positions and identities -/

/-- Leaving out duplicates does not change which environment an identity names. -/
theorem find?_withoutDuplicates (envs : List Environment) (e : EnvId) :
    ((withoutDuplicates envs).find? fun env => env.id = e) = envs.find? fun env => env.id = e := by
  let P : List Environment → List Environment → Prop := fun done kept =>
    (kept.find? fun env => env.id = e) = done.find? fun env => env.id = e
  refine foldl_keeps (P := P) envs ?_ rfl
  intro done env kept _ hkept
  show (List.find? _ (if kept.any (·.id = env.id) then kept else kept ++ [env])) = _
  rw [List.find?_append, ← show _ = done.find? _ from hkept]
  by_cases hany : kept.any (·.id = env.id) = true
  · rw [if_pos hany]
    by_cases he : env.id = e
    · -- a later environment of the identity is not the one that is found
      have hsome : (kept.find? fun env => env.id = e).isSome := by
        rw [List.find?_isSome]
        obtain ⟨k, hk, hid⟩ := List.any_eq_true.mp hany
        exact ⟨k, hk, by simpa [he] using hid⟩
      rw [Option.or_of_isSome hsome]
    · simp [he]
  · rw [if_neg hany, List.find?_append]

namespace Nesting

theorem lt_size_of_id? {n : Nesting} (h : n.id? i = some e) : i < n.size := by
  obtain ⟨env, henv, -⟩ := Option.map_eq_some_iff.mp h
  exact (Array.getElem?_eq_some_iff.mp henv).1

theorem exists_id? {n : Nesting} (h : i < n.size) : ∃ e, n.id? i = some e :=
  ⟨n.envs[i].id, by rw [id?, Array.getElem?_eq_getElem h, Option.map_some]⟩

theorem id?_ofSnapshot (s : Snapshot) (i : Nat) : (ofSnapshot s).1.id? i =
    ((withoutDuplicates s.envs).map Environment.id)[i]? := by
  rw [id?, ofSnapshot_envs, List.getElem?_toArray, List.getElem?_map]

/-- No two positions have the same identity. -/
theorem id?_inj (hi : (ofSnapshot s).1.id? i = some e) (hj : (ofSnapshot s).1.id? j = some e) :
    i = j := by
  rw [id?_ofSnapshot] at hi hj
  exact (List.getElem?_inj (List.getElem?_eq_some_iff.mp hi).1
    (nodup_ids_withoutDuplicates s.envs)).mp (hi.trans hj.symm)

/-- Every identity of the snapshot has a position. -/
theorem exists_id?_of_mem (h : e ∈ s.ids) : ∃ i, (ofSnapshot s).1.id? i = some e := by
  obtain ⟨i, -, hi⟩ := (exists_id?_iff s e).mpr (Snapshot.mem_ids.mp h)
  exact ⟨i, hi⟩

theorem mem_ids_of_id? (h : (ofSnapshot s).1.id? i = some e) : e ∈ s.ids :=
  Snapshot.mem_ids.mpr ((exists_id?_iff s e).mp ⟨i, lt_size_of_id? h, h⟩)

/-- The environment at the position of an identity is the one that the identity names. -/
theorem envs_of_id? (h : (ofSnapshot s).1.id? i = some e) :
    ∃ env, (withoutDuplicates s.envs)[i]? = some env ∧ env.id = e ∧ s.env? e = some env := by
  have hmap := h
  rw [id?_ofSnapshot, List.getElem?_map, Option.map_eq_some_iff] at hmap
  obtain ⟨env, henv, hid⟩ := hmap
  refine ⟨env, henv, hid, ?_⟩
  rw [Snapshot.env?, ← find?_withoutDuplicates]
  obtain ⟨other, hother⟩ : ∃ other, ((withoutDuplicates s.envs).find? fun env => env.id = e) =
      some other := by
    rw [← Option.isSome_iff_exists, List.find?_isSome]
    exact ⟨env, List.mem_of_getElem? henv, by simpa using hid⟩
  -- the one that is found has the same identity, so it is the same
  have hsame : other.id = env.id := by
    rw [hid]
    simpa using List.find?_some hother
  rw [hother, List.inj_on_of_nodup_map (nodup_ids_withoutDuplicates s.envs)
    (List.mem_of_find?_eq_some hother) (List.mem_of_getElem? henv) hsame]

theorem id?_of_position (h : position (withoutDuplicates s.envs) e = some i) :
    (ofSnapshot s).1.id? i = some e := by
  obtain ⟨hlt, hid, -⟩ := List.findIdx?_eq_some_iff_getElem.mp h
  rw [id?_ofSnapshot, List.getElem?_map, List.getElem?_eq_getElem hlt, Option.map_some]
  simpa using hid

theorem position_of_id? (h : (ofSnapshot s).1.id? i = some e) :
    position (withoutDuplicates s.envs) e = some i := by
  obtain ⟨env, henv, hid, -⟩ := envs_of_id? h
  obtain ⟨j, hj⟩ : ∃ j, position (withoutDuplicates s.envs) e = some j := by
    rw [← Option.isSome_iff_exists, position, List.findIdx?_isSome, List.any_eq_true]
    exact ⟨env, List.mem_of_getElem? henv, by simpa using hid⟩
  rw [hj, id?_inj (id?_of_position hj) h]

theorem globalEnv?_iff (h : (ofSnapshot s).1.id? i = some e) :
    s.globalEnv? = some e ↔ (ofSnapshot s).1.root = some i := by
  show (ofSnapshot s).1.root.bind (ofSnapshot s).1.id? = some e ↔ _
  rw [Option.bind_eq_some_iff]
  constructor
  · rintro ⟨r, hr, hid⟩
    rw [hr, id?_inj hid h]
  · intro hr
    exact ⟨i, hr, h⟩

/-! ## Links -/

/-- The global environment names no parent. -/
theorem parent_of_chooseRoot {chain : List EnvId} (h : chooseRoot envs chain = some i)
    (henv : envs[i]? = some env) : env.parent = none := by
  unfold chooseRoot at h
  rcases Option.or_eq_some_iff.mp h with h | ⟨-, h⟩
  · obtain ⟨-, hless⟩ := Option.filter_eq_some_iff.mp h
    simpa [isParentless, henv] using hless
  · obtain ⟨hlt, hless, -⟩ := List.findIdx?_eq_some_iff_getElem.mp h
    rw [List.getElem?_eq_getElem hlt, Option.some.injEq] at henv
    subst henv
    simpa using hless

theorem parent_rawLinks_of_env {root : Option Nat} (h : envs[i]? = some env) :
    (rawLinks envs root).parent i = (link envs root i env).1 := by
  obtain ⟨hi, rfl⟩ := List.getElem?_eq_some_iff.mp h
  simp [rawLinks, Links.parent, Array.getD, hi]

theorem link_of_position {root : Option Nat} (hi : root ≠ some i) (hp : root ≠ some p)
    (hparent : env.parent = some e) (hpos : position envs e = some p) :
    (link envs root i env).1 = some p := by
  simp [link, hi, hparent, hpos, hp]

theorem link_ne_parentCycle (envs : List Environment) (root : Option Nat) (i : Nat)
    (env : Environment) (e : EnvId) : (link envs root i env).2 ≠ some (.parentCycle e) := by
  unfold link
  repeat' split
  all_goals simp

/-- The links that are reported as cut are those of the positions detached. -/
theorem cuts_iff (h : (ofSnapshot s).1.id? i = some e) : s.cuts e = true ↔
    i ∈ (rawLinks (withoutDuplicates s.envs) (ofSnapshot s).1.root).openCircles.2 := by
  have hdefects := ofSnapshot_snd s
  set envs := withoutDuplicates s.envs with henvs
  set root := (ofSnapshot s).1.root with hroot
  -- no other repair is reported in this way
  have hother : Defect.parentCycle e ∉ (duplicates [] s.envs).map .duplicateEnv ++
      (if root.isNone then [.missingGlobal] else []) ++
      (envs.mapIdx (link envs root)).filterMap Prod.snd := by
    simp only [List.mem_append, not_or]
    refine ⟨⟨by simp, by split <;> simp⟩, ?_⟩
    intro hmem
    obtain ⟨linked, hlinked, hdefect⟩ := List.mem_filterMap.mp hmem
    obtain ⟨j, env, -, rfl⟩ := List.mem_mapIdx.mp hlinked
    exact link_ne_parentCycle envs root _ _ e hdefect
  rw [Snapshot.cuts, decide_eq_true_eq, hdefects, List.mem_append, or_iff_right hother,
    List.mem_filterMap]
  constructor
  · rintro ⟨j, hj, hid⟩
    have hje : (ofSnapshot s).1.id? j = some e := by
      rw [id?_ofSnapshot, List.getElem?_map]
      simpa [Option.map_eq_some_iff] using hid
    rwa [id?_inj h hje]
  · intro hi
    obtain ⟨env, henv, hid, -⟩ := envs_of_id? h
    exact ⟨i, hi, by rw [henvs, henv, Option.map_some, hid]⟩

/-- The repaired parent of an environment is the one that the link of its position leads to. -/
theorem repairedParent_of_id? (h : (ofSnapshot s).1.id? i = some e) :
    s.repairedParent e = ((ofSnapshot s).1.links.parent i).bind (ofSnapshot s).1.id? := by
  obtain ⟨env, henv, -, hfind⟩ := envs_of_id? h
  have hnamed : parentOf s.envs e = env.parent := by
    rw [parentOf, show s.envs.find? _ = some env from hfind, Option.bind_some]
  have hlinks : (ofSnapshot s).1.links.parent i = if s.cuts e = true then none
      else (link (withoutDuplicates s.envs) (ofSnapshot s).1.root i env).1 := by
    rw [ofSnapshot_links, Links.parent_openCircles, parent_rawLinks_of_env henv]
    exact if_congr (cuts_iff h).symm rfl rfl
  apply Option.ext
  intro q
  rw [Snapshot.repairedParent_eq_some_iff, Option.bind_eq_some_iff, hlinks, hnamed]
  cases s.cuts e with
  | true => simp
  | false =>
    simp only [Bool.false_eq_true, if_false, and_true]
    constructor
    · rintro ⟨hparent, hmem, hglobal⟩
      obtain ⟨p, hp⟩ := exists_id?_of_mem hmem
      have hi : (ofSnapshot s).1.root ≠ some i := by
        intro hi
        rw [parent_of_chooseRoot hi henv] at hparent
        simp at hparent
      exact ⟨p, link_of_position hi (fun hr => hglobal ((globalEnv?_iff hp).mpr hr)) hparent
        (position_of_id? hp), hp⟩
    · rintro ⟨p, hlink, hp⟩
      obtain ⟨-, hroot, id, hparent, hpos⟩ := link_eq_some hlink
      have hid : id = q := by simpa [id?_of_position hpos] using hp
      subst hid
      exact ⟨hparent, mem_ids_of_id? hp, fun hg => hroot ((globalEnv?_iff hp).mp hg)⟩

/-- The environments around one are those at the positions around its own. -/
theorem ancestor_iff (ha : (ofSnapshot s).1.id? i = some a) (hb : (ofSnapshot s).1.id? j = some b) :
    s.Ancestor a b ↔ (ofSnapshot s).1.links.Ancestor i j := by
  have hwf := ofSnapshot_wellFormed s
  constructor
  · intro h
    induction h generalizing j with
    | parent hp =>
      rw [repairedParent_of_id? hb, Option.bind_eq_some_iff] at hp
      obtain ⟨p, hp, hid⟩ := hp
      rw [id?_inj ha hid]
      exact .parent hp
    | outer hp _ ih =>
      rw [repairedParent_of_id? hb, Option.bind_eq_some_iff] at hp
      obtain ⟨p, hp, hid⟩ := hp
      exact .outer hp (ih hid)
  · intro h
    induction h generalizing b with
    | parent hp =>
      refine .parent ?_
      rw [repairedParent_of_id? hb, hp, Option.bind_some, ha]
    | @outer j p hp _ ih =>
      obtain ⟨q, hq⟩ := exists_id? (hwf.size_links ▸ hwf.closed j p hp)
      refine .outer ?_ (ih hq)
      rw [repairedParent_of_id? hb, hp, Option.bind_some, hq]

end Nesting

end EnvDiagram
