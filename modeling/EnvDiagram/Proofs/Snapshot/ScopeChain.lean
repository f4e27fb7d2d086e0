import Mathlib.Data.List.Dedup
import Mathlib.Data.Finset.Card
import EnvDiagram.Proofs.EnvTree.Repair

/-!
# The chain of environments around the running code

The walk outward looks every environment up in the whole snapshot. Striking off what it has met
makes no difference, since nothing is looked up twice (`outward_step`), so the chain is what comes
of plain rounds: as long as there is a next environment that is not in the chain, it joins it
(`Snapshot.walkWithin`). All environments of the chain but the last are known and distinct, which
bounds the rounds.

* `Snapshot.WalksOutward` — what it means that a list leads outward from the current environment
* `Snapshot.Outbound` — the chain so far and what comes next
* `Snapshot.walksOutward_scopeChain` — the scope chain is the one list that leads outward
-/

namespace EnvDiagram

variable {envs envs' : List Environment} {seen chain chain' : List EnvId} {e id : EnvId}
  {next : Option EnvId} {s : Snapshot} {n : Nat}

/-! ## Striking off makes no difference -/

theorem parentOf_others (h : e ≠ id) : parentOf (others envs id) e = parentOf envs e := by
  rw [parentOf, others, List.find?_filter, parentOf]
  congr 1
  refine List.find?_congr fun env _ => ?_
  by_cases he : env.id = e <;> simp [he, h]

/-- Only environments that have not been met are looked up. -/
theorem outward_congr (h : ∀ e, e ∉ seen → parentOf envs e = parentOf envs' e) (id : EnvId) :
    outward envs seen id = outward envs' seen id := by
  induction envs, seen, id using outward.induct generalizing envs' with
  | case1 envs seen id hmem => rw [outward_eq, outward_eq envs', if_pos hmem, if_pos hmem]
  | case2 envs seen id hmem hp =>
    rw [outward_eq, outward_eq envs', if_neg hmem, if_neg hmem, ← h id hmem, hp]
  | case3 envs seen id hmem parent hp ih =>
    have hothers : ∀ e, e ∉ id :: seen →
        parentOf (others envs id) e = parentOf (others envs' id) e := by
      intro e he
      obtain ⟨hne, hseen⟩ := not_or.mp (mt List.mem_cons.mpr he)
      rw [parentOf_others hne, parentOf_others hne, h e hseen]
    rw [outward_eq, outward_eq envs', if_neg hmem, if_neg hmem, ← h id hmem, hp]
    exact congrArg (id :: ·) (ih hothers)

/-- One step of the walk, on the environments as they are. -/
theorem outward_step (envs : List Environment) (seen : List EnvId) (id : EnvId) :
    outward envs seen id =
      if id ∈ seen then []
      else id :: match parentOf envs id with
        | none => []
        | some parent => outward envs (id :: seen) parent := by
  rw [outward_eq]
  split
  · rfl
  · cases hp : parentOf envs id with
    | none => rfl
    | some parent =>
      refine congrArg (id :: ·) (outward_congr (fun e he => parentOf_others ?_) parent)
      exact fun heq => he (heq ▸ List.mem_cons_self)

namespace Snapshot

/-! ## What the chain is -/

/-- Whether a list leads outward from the current environment: it begins there, each next
environment is the parent that the one before names, none occurs twice, and the last one is
unknown, has no parent, or has one that is in the list. -/
structure WalksOutward (s : Snapshot) (chain : List EnvId) : Prop where
  head : chain.head? = s.current
  parent : chain.IsChain fun e p => ∃ env, s.env? e = some env ∧ env.parent = some p
  nodup : chain.Nodup
  last : ∀ e, chain.getLast? = some e →
    e ∉ s.ids ∨ ∃ env, s.env? e = some env ∧ ∀ p, env.parent = some p → p ∈ chain

/-- The walk in rounds: the next environment joins the chain unless it is in there already. There
is no answer if the walk is not over after the given number of rounds. -/
def walkWithin (s : Snapshot) : Nat → List EnvId → Option EnvId → Option (List EnvId)
  | _, chain, none => some chain
  | 0, _, some _ => none
  | n + 1, chain, some e =>
    if e ∈ chain then some chain else s.walkWithin n (chain ++ [e]) (parentOf s.envs e)

theorem parentOf_eq_some_iff {p : EnvId} : parentOf s.envs e = some p ↔
    ∃ env, s.env? e = some env ∧ env.parent = some p := Option.bind_eq_some_iff

theorem exists_env?_of_mem (h : e ∈ s.ids) : ∃ env, s.env? e = some env := by
  obtain ⟨env, henv, hid⟩ := mem_ids.mp h
  rw [← Option.isSome_iff_exists, env?, List.find?_isSome]
  exact ⟨env, henv, by simpa using hid⟩

/-! ## The chain so far -/

/-- A chain that leads outward so far, and what comes next. -/
structure Outbound (s : Snapshot) (chain : List EnvId) (next : Option EnvId) : Prop where
  head : chain.head?.or next = s.current
  parent : chain.IsChain fun e p => parentOf s.envs e = some p
  nodup : chain.Nodup
  next : ∀ e, chain.getLast? = some e → parentOf s.envs e = next

theorem outbound_nil (s : Snapshot) : s.Outbound [] s.current :=
  ⟨rfl, .nil, .nil, fun _ h => by cases h⟩

/-- A new environment joins the chain. -/
theorem Outbound.concat (h : s.Outbound chain (some e)) (hnew : e ∉ chain) :
    s.Outbound (chain ++ [e]) (parentOf s.envs e) where
  head := by
    rw [← h.head]
    cases chain <;> rfl
  parent := List.isChain_append.mpr ⟨h.parent, .singleton e, fun last hlast first hfirst => by
    obtain rfl : e = first := Option.some.inj hfirst
    exact h.next last hlast⟩
  nodup := List.nodup_append.mpr ⟨h.nodup, List.nodup_singleton e, fun a ha b hb => by
    rintro rfl
    exact hnew (List.mem_singleton.mp hb ▸ ha)⟩
  next := fun last hlast => by
    rw [List.getLast?_concat, Option.some.injEq] at hlast
    rw [hlast]

/-- Environments that are followed by others are known. -/
theorem mem_ids_of_mem_dropLast (h : chain.IsChain fun e p => parentOf s.envs e = some p)
    (he : e ∈ chain.dropLast) : e ∈ s.ids := by
  obtain ⟨i, hi⟩ := List.getElem?_of_mem he
  obtain ⟨hlt, heq⟩ := List.getElem?_eq_some_iff.mp hi
  rw [List.getElem_dropLast] at heq
  rw [List.length_dropLast] at hlt
  have hparent := List.isChain_iff_getElem.mp h i (by omega)
  rw [heq] at hparent
  exact mem_ids_of_parentOf hparent

/-- Distinct environments that are known are at most as many as there are. -/
theorem length_le_of_subset_ids (hnodup : chain.Nodup) (h : ∀ e ∈ chain, e ∈ s.ids) :
    chain.length ≤ s.ids.dedup.length :=
  (List.subperm_of_subset hnodup fun e he => List.mem_dedup.mpr (h e he)).length_le

/-- As long as there is a next environment, all of the chain are known. -/
theorem Outbound.length_le (h : s.Outbound chain (some e)) : chain.length ≤ s.ids.dedup.length := by
  refine length_le_of_subset_ids h.nodup fun a ha => ?_
  rcases List.eq_nil_or_concat' chain with rfl | ⟨before, last, rfl⟩
  · cases ha
  · rcases List.mem_append.mp ha with ha | ha
    · exact mem_ids_of_mem_dropLast h.parent (by rwa [List.dropLast_concat])
    · obtain rfl := List.mem_singleton.mp ha
      exact mem_ids_of_parentOf (h.next a List.getLast?_concat)

/-- A chain is complete when nothing comes next, or only what is in it already. -/
theorem Outbound.walksOutward (h : s.Outbound chain next) (hend : ∀ p, next = some p → p ∈ chain) :
    s.WalksOutward chain where
  head := by
    rw [← h.head]
    cases chain with
    | cons first rest => rfl
    | nil =>
      cases next with
      | none => rfl
      | some p => cases hend p rfl
  parent := h.parent.imp fun _ _ => parentOf_eq_some_iff.mp
  nodup := h.nodup
  last := fun e he => by
    by_cases hmem : e ∈ s.ids
    · obtain ⟨env, henv⟩ := exists_env?_of_mem hmem
      refine Or.inr ⟨env, henv, fun p hp => hend p ?_⟩
      rw [← h.next e he]
      exact parentOf_eq_some_iff.mpr ⟨env, henv, hp⟩
    · exact Or.inl hmem

/-! ## The walk comes to an end -/

/-- There is an answer after as many rounds as there are environments that can still join, and one
more. -/
theorem Outbound.exists_walk (h : s.Outbound chain next)
    (hn : s.ids.dedup.length < n + chain.length) :
    ∃ chain', s.walkWithin n chain next = some chain' ∧ s.WalksOutward chain' := by
  fun_induction walkWithin s n chain next with
  | case1 n chain => exact ⟨chain, rfl, h.walksOutward fun p hp => by cases hp⟩
  | case2 chain e => exact absurd h.length_le (by omega)
  | case3 n chain e hmem =>
    refine ⟨chain, rfl, h.walksOutward fun p hp => ?_⟩
    rwa [← Option.some.inj hp]
  | case4 n chain e hmem ih =>
    refine ih (h.concat hmem) ?_
    rw [List.length_append, List.length_singleton]
    omega

/-- What the rounds add to a chain is what lies outward of it. -/
theorem walkWithin_eq_some (h : s.walkWithin n chain next = some chain') :
    chain' = chain ++ (next.map (outward s.envs chain.reverse)).getD [] := by
  fun_induction walkWithin s n chain next with
  | case1 n chain => rw [← Option.some.inj h, Option.map_none, Option.getD_none, List.append_nil]
  | case2 chain e => cases h
  | case3 n chain e hmem =>
    rw [← Option.some.inj h, Option.map_some, Option.getD_some, outward_step,
      if_pos (List.mem_reverse.mpr hmem), List.append_nil]
  | case4 n chain e hmem ih =>
    rw [ih h, Option.map_some, Option.getD_some, outward_step s.envs chain.reverse,
      if_neg (mt List.mem_reverse.mp hmem), List.append_assoc, List.reverse_concat]
    cases parentOf s.envs e <;> rfl

theorem scopeChain_eq (s : Snapshot) :
    s.scopeChain = (s.current.map (outward s.envs [])).getD [] := by
  rw [scopeChain]
  cases s.current <;> rfl

/-! ## Only one list leads outward -/

/-- Where one list that leads outward goes on, so does another one that agrees so far. -/
theorem WalksOutward.getElem?_succ (h : s.WalksOutward chain) (h' : s.WalksOutward chain') {i : Nat}
    (hsame : ∀ j ≤ i, chain[j]? = chain'[j]?) (hnext : chain'[i + 1]? = some e) :
    chain[i + 1]? = some e := by
  obtain ⟨hlt, heq⟩ := List.getElem?_eq_some_iff.mp hnext
  obtain ⟨env, henv, hparent⟩ := List.isChain_iff_getElem.mp h'.parent i hlt
  rw [heq] at hparent
  obtain ⟨hi, ha⟩ := List.getElem?_eq_some_iff.mp
    ((hsame i (le_refl i)).trans (List.getElem?_eq_getElem (by omega)))
  rw [← ha] at henv
  by_cases hlong : i + 1 < chain.length
  · obtain ⟨env', henv', hparent'⟩ := List.isChain_iff_getElem.mp h.parent i hlong
    obtain rfl : env = env' := Option.some.inj (henv.symm.trans henv')
    rw [List.getElem?_eq_getElem hlong, ← Option.some.inj (hparent.symm.trans hparent')]
  · -- the last one has a parent, so that is in the list already, and then in the other one too
    have hlast : chain.getLast? = some chain[i] := by
      rw [List.getLast?_eq_getElem?, show chain.length - 1 = i by omega,
        List.getElem?_eq_getElem hi]
    rcases h.last _ hlast with hunknown | ⟨env', henv', hmem⟩
    · exact absurd (mem_ids_of_env? henv) hunknown
    · obtain rfl : env = env' := Option.some.inj (henv.symm.trans henv')
      obtain ⟨j, hj⟩ := List.getElem?_of_mem (hmem e hparent)
      obtain ⟨hjlt, -⟩ := List.getElem?_eq_some_iff.mp hj
      rw [hsame j (by omega)] at hj
      have hij := (List.getElem?_inj hlt h'.nodup).mp (hnext.trans hj.symm)
      omega

theorem WalksOutward.unique (h : s.WalksOutward chain) (h' : s.WalksOutward chain') :
    chain = chain' := by
  refine List.ext_getElem? fun i => ?_
  induction i using Nat.strong_induction_on with
  | _ i ih =>
    cases i with
    | zero => rw [← List.head?_eq_getElem?, ← List.head?_eq_getElem?, h.head, h'.head]
    | succ i =>
      have hsame : ∀ j ≤ i, chain[j]? = chain'[j]? := fun j hj => ih j (by omega)
      refine Option.ext fun e => ⟨fun hnext => ?_, fun hnext => ?_⟩
      · exact h'.getElem?_succ h (fun j hj => (hsame j hj).symm) hnext
      · exact h.getElem?_succ h' hsame hnext

/-- All environments of a list that leads outward are known, but possibly the last one. -/
theorem WalksOutward.length_le (h : s.WalksOutward chain) :
    chain.length ≤ s.ids.dedup.length + 1 := by
  have hknown : ∀ e ∈ chain.dropLast, e ∈ s.ids := fun e he =>
    mem_ids_of_mem_dropLast (h.parent.imp fun _ _ => parentOf_eq_some_iff.mpr) he
  have hdrop := length_le_of_subset_ids (h.nodup.sublist (List.dropLast_sublist chain)) hknown
  rw [List.length_dropLast] at hdrop
  omega

/-- The scope chain is the one list that leads outward from the current environment. It is found in
at most one round more than there are environments, and is no longer than that. -/
theorem walksOutward_scopeChain (s : Snapshot) :
    (∀ chain, s.WalksOutward chain ↔ chain = s.scopeChain) ∧
      (∀ n, s.ids.dedup.length < n → s.walkWithin n [] s.current = some s.scopeChain) ∧
      (s.scopeChain = [] ↔ s.current = none) ∧
      s.scopeChain.length ≤ s.ids.dedup.length + 1 := by
  have hwalk : ∀ n, s.ids.dedup.length < n →
      s.walkWithin n [] s.current = some s.scopeChain ∧ s.WalksOutward s.scopeChain := by
    intro n hn
    obtain ⟨chain, hsome, houtward⟩ := s.outbound_nil.exists_walk (n := n) (by simpa using hn)
    have hchain : chain = s.scopeChain := by
      rw [walkWithin_eq_some hsome, scopeChain_eq]
      rfl
    exact ⟨hchain ▸ hsome, hchain ▸ houtward⟩
  obtain ⟨-, houtward⟩ := hwalk _ (Nat.lt_succ_self _)
  refine ⟨fun chain => ⟨fun h => h.unique houtward, fun h => h ▸ houtward⟩,
    fun n hn => (hwalk n hn).1, ?_, houtward.length_le⟩
  rw [← houtward.head, List.head?_eq_none_iff]

/-- A walk round a circle ends before it meets the first environment again. -/
example : scopeChain ⟨0, [⟨⟨1⟩, "a", some ⟨2⟩, []⟩, ⟨⟨2⟩, "b", some ⟨1⟩, []⟩], [], some ⟨2⟩⟩ =
    [⟨2⟩, ⟨1⟩] := by
  cbv

end Snapshot

end EnvDiagram
