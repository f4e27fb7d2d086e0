import EnvDiagram.EnvTree.Folding
import EnvDiagram.Proofs.EnvTree.Nesting

/-!
# Skipped and folded environments

Every environment has a place: the global one, or a position with a node of its own
(`isNode_of_place`). And what lies around such a position is again the global environment or
a position with a node of its own (`isNode_of_around`), so no node is lost when the
environment around it is skipped or folded.

* `Folding.WellFormed` — what a policy makes of a nesting, whatever is folded
* `Folding.outer_spec`, `Folding.fold_spec` — where the two kinds of links lead
* `Folding.outermost_spec` — the outermost of the environments folded into one
* `Folding.nodeLinks_forest` — the links between nodes form a forest
* `Folding.mem_merged` — the environments folded into one, by the links of the foldings
* `Folding.place_of_not_kept` — a skipped environment has the place of its parent
-/

namespace EnvDiagram

variable {f : Folding} {i j k p c : Nat}

namespace Folding

theorem isKept_ofNesting {n : Nesting} {policy : FramePolicy} (hi : i < n.size) :
    (ofNesting n policy).isKept i = keeps n policy i := by
  simp [isKept, ofNesting, Array.getD, hi]

theorem size_kept_ofNesting (n : Nesting) (policy : FramePolicy) :
    (ofNesting n policy).kept.size = n.size := by
  simp [ofNesting]

theorem lt_size_of_isKept (hsize : f.kept.size = f.size) (h : f.isKept i = true) : i < f.size := by
  by_contra hi
  rw [← hsize] at hi
  simp [isKept, Array.getD, hi] at h

/-- Whether a position can be folded into another: it is kept, not global, has unassigned names
only, and the other is the only kept one in it. -/
structure Foldable (f : Folding) (i c : Nat) : Prop where
  kept : f.isKept i = true
  inner : f.nesting.isRoot i = false
  onlyDeclares : f.nesting.onlyDeclares i = true
  only : (f.outer.children (some i)).filter f.isKept = [c]

/-- What a policy makes of a nesting, whatever is folded. -/
structure WellFormed (f : Folding) : Prop where
  nesting : f.nesting.WellFormed
  size_kept : f.kept.size = f.size
  /-- The global environment is never skipped. -/
  isKept_root : ∀ {r : Nat}, f.nesting.root = some r → f.isKept r = true
  outer : f.outer = f.nesting.links.contract f.isKept
  size_folds : f.folds.size = f.size
  folds : ∀ {i c : Nat}, f.folds.parent i = some c → f.Foldable i c

theorem foldTarget_eq_some_iff {n : Nesting} {kept : Nat → Bool} {outer : Links} :
    foldTarget n kept outer i = some c ↔ kept i = true ∧ n.isRoot i = false ∧
      n.onlyDeclares i = true ∧ (outer.children (some i)).filter kept = [c] := by
  rw [foldTarget]
  constructor
  · intro h
    split at h
    · rename_i hcond
      simp only [Bool.and_eq_true, Bool.not_eq_true'] at hcond
      obtain ⟨⟨hkept, hroot⟩, honly⟩ := hcond
      split at h
      · rename_i child hchild
        cases h
        exact ⟨hkept, hroot, honly, hchild⟩
      · cases h
    · cases h
  · rintro ⟨hkept, hroot, honly, hchild⟩
    rw [hkept, hroot, honly, hchild]
    rfl

/-- A policy that folds folds whatever can be folded, and no other policy folds anything. -/
theorem folds_ofNesting_iff {n : Nesting} {policy : FramePolicy} :
    (ofNesting n policy).folds.parent i = some c ↔
      policy.foldDeclared = true ∧ (ofNesting n policy).Foldable i c := by
  refine Links.parent_ofFn_eq_some.trans ?_
  rw [Option.ite_none_right_eq_some, foldTarget_eq_some_iff]
  constructor
  · rintro ⟨-, hpolicy, hkept, hroot, honly, hchild⟩
    exact ⟨hpolicy, hkept, hroot, honly, hchild⟩
  · rintro ⟨hpolicy, hkept, hroot, honly, hchild⟩
    have hi := lt_size_of_isKept (size_kept_ofNesting n policy) hkept
    exact ⟨hi, hpolicy, hkept, hroot, honly, hchild⟩

theorem wellFormed_ofNesting {n : Nesting} (h : n.WellFormed) (policy : FramePolicy) :
    (ofNesting n policy).WellFormed where
  nesting := h
  size_kept := size_kept_ofNesting n policy
  isKept_root := by
    intro r hr
    rw [isKept_ofNesting (h.root_lt hr)]
    simp [keeps, Nesting.isRoot, show n.root = some r from hr]
  outer := rfl
  size_folds := Links.size_ofFn _ _
  folds := fun hc => (folds_ofNesting_iff.mp hc).2

end Folding

/-- The environments of a snapshot under a policy. -/
def Snapshot.folding (s : Snapshot) (policy : FramePolicy) : Folding :=
  .ofNesting (Nesting.ofSnapshot s).1 policy

@[simp]
theorem Snapshot.nesting_folding (s : Snapshot) (policy : FramePolicy) :
    (s.folding policy).nesting = (Nesting.ofSnapshot s).1 := rfl

theorem Snapshot.wellFormed_folding (s : Snapshot) (policy : FramePolicy) :
    (s.folding policy).WellFormed :=
  Folding.wellFormed_ofNesting (Nesting.ofSnapshot_wellFormed s) policy

namespace Folding

theorem size_links (h : f.WellFormed) : f.nesting.links.size = f.size := h.nesting.size_links

theorem size_outer (h : f.WellFormed) : f.outer.size = f.size := by
  rw [h.outer, Links.size_contract, size_links h]

theorem size_nodeLinks (f : Folding) : f.nodeLinks.size = f.size := Links.size_ofFn _ _

/-! ## The two kinds of links -/

/-- What is around a position is kept, not global, and met on the walk outward. -/
theorem outer_spec (h : f.WellFormed) (hp : f.outer.parent i = some p) :
    f.isKept p = true ∧ f.nesting.isRoot p = false ∧ p < f.size ∧ f.nesting.links.Ancestor p i := by
  rw [h.outer] at hp
  obtain ⟨hkept, hanc⟩ := Links.parent_contract hp
  have hroot : f.nesting.root ≠ some p := by
    clear hkept hp
    induction hanc with
    | parent hlink => exact h.nesting.root_ne hlink
    | outer _ _ ih => exact ih
  refine ⟨hkept, by simpa [Nesting.isRoot] using hroot, ?_, hanc⟩
  rw [← size_links h]
  exact hanc.lt_size h.nesting.closed

/-- The global environment has nothing around it. -/
theorem isRoot_of_outer (h : f.WellFormed) (hp : f.outer.parent i = some p) :
    f.nesting.isRoot i = false := by
  obtain ⟨-, -, -, hanc⟩ := outer_spec h hp
  cases hr : f.nesting.isRoot i with
  | false => rfl
  | true =>
    have hnone := h.nesting.root_parentless (by simpa [Nesting.isRoot] using hr)
    exact absurd hanc (Links.not_ancestor_of_none hnone)

theorem outer_forest (h : f.WellFormed) : f.outer.Forest := by
  rw [h.outer]
  exact Links.contract_forest h.nesting.forest _

theorem outer_closed (h : f.WellFormed) : f.outer.Closed := by
  rw [h.outer]
  exact Links.contract_closed h.nesting.closed _

/-- A folded position is kept and not global; it is folded into the only kept one in it. -/
theorem fold_spec (h : f.WellFormed) (hc : f.folds.parent i = some c) :
    f.isKept i = true ∧ f.nesting.isRoot i = false ∧ i < f.size ∧
      f.isKept c = true ∧ f.outer.parent c = some i ∧
      ∀ k, f.isKept k = true → f.outer.parent k = some i → k = c := by
  obtain ⟨hkept, hroot, -, honly⟩ := h.folds hc
  -- of the kept positions, only `c` has `i` right around it
  have hmem : ∀ k, k = c ↔ f.outer.parent k = some i ∧ f.isKept k = true := by
    intro k
    rw [← List.mem_singleton, ← honly, List.mem_filter, Links.mem_children]
    exact and_congr_left' ⟨fun h => h.2, fun h => ⟨Links.lt_size_of_parent h, h⟩⟩
  obtain ⟨hparent, hkc⟩ := (hmem c).mp rfl
  exact ⟨hkept, hroot, h.size_folds ▸ Links.lt_size_of_parent hc, hkc, hparent,
    fun k hk hpk => (hmem k).mpr ⟨hpk, hk⟩⟩

/-- Foldings lead inward, so they run in no circle either. -/
theorem folds_forest (h : f.WellFormed) : f.folds.Forest := by
  obtain ⟨rank, hrank⟩ := outer_forest h
  refine ⟨fun i => (Finset.range f.size).sup rank - rank i, fun i c hc => ?_⟩
  obtain ⟨-, -, -, -, hout, -⟩ := fold_spec h hc
  have hlt := hrank c i hout
  have hcn : c < f.size := by
    rw [← size_outer h]
    exact Links.lt_size_of_parent hout
  have hle : rank c ≤ (Finset.range f.size).sup rank :=
    Finset.le_sup (f := rank) (Finset.mem_range.mpr hcn)
  simp only
  omega

theorem folds_closed (h : f.WellFormed) : f.folds.Closed := by
  intro i c hc
  obtain ⟨-, -, -, -, hout, -⟩ := fold_spec h hc
  rw [h.size_folds, ← size_outer h]
  exact Links.lt_size_of_parent hout

theorem folds_endsWithin (h : f.WellFormed) (hi : i < f.size) : f.folds.EndsWithin f.size i := by
  have hend := Links.endsWithin_size (folds_forest h) (folds_closed h)
    (i := i) (by rwa [h.size_folds])
  rwa [h.size_folds] at hend

theorem isNode_iff : f.isNode i = true ↔
    f.isKept i = true ∧ f.folds.parent i = none ∧ f.nesting.isRoot i = false := by
  simp [isNode, and_assoc]

/-! ## The place of an environment -/

/-- What a chain of foldings leads to is kept and not global, if its start is. -/
theorem climb_folds_kept (h : f.WellFormed) (hi : i < f.size)
    (hkept : f.isKept i = true) (hroot : f.nesting.isRoot i = false) (m : Nat) :
    f.folds.climb m i < f.size ∧ f.isKept (f.folds.climb m i) = true ∧
      f.nesting.isRoot (f.folds.climb m i) = false := by
  induction m generalizing i with
  | zero => exact ⟨hi, hkept, hroot⟩
  | succ m ih =>
    cases hc : f.folds.parent i with
    | none =>
      rw [Links.climb_of_none hc]
      exact ⟨hi, hkept, hroot⟩
    | some c =>
      rw [Links.climb_succ_of_some hc]
      obtain ⟨-, -, -, hkc, hout, -⟩ := fold_spec h hc
      have hcn : c < f.size := by
        rw [← size_outer h]
        exact Links.lt_size_of_parent hout
      exact ih hcn hkc (isRoot_of_outer h hout)

/-- The stand-in of a kept position has a node. -/
theorem isNode_standIn (h : f.WellFormed) (hi : i < f.size)
    (hkept : f.isKept i = true) (hroot : f.nesting.isRoot i = false) :
    f.isNode (f.standIn i) = true ∧ f.standIn i < f.size := by
  obtain ⟨hlt, hk, hr⟩ := climb_folds_kept h hi hkept hroot f.size
  refine ⟨isNode_iff.mpr ⟨hk, ?_, hr⟩, hlt⟩
  exact Links.parent_climb_of_endsWithin (folds_endsWithin h hi)

/-- The place of an environment is the global one, or a position with a node. -/
theorem isNode_of_place (h : f.WellFormed) (hi : i < f.size) (hk : f.place i = some k) :
    f.isNode k = true ∧ k < f.size := by
  unfold place at hk
  split at hk
  · simp at hk
  · rename_i j hj
    split at hk
    · simp at hk
    · rename_i hroot
      have hjk : f.standIn j = k := by simpa using hk
      subst hjk
      have hroot' : f.nesting.isRoot j = false := by simpa using hroot
      split at hj
      · rename_i hkept
        cases hj
        exact isNode_standIn h hi hkept hroot'
      · obtain ⟨hkept, -, hlt, -⟩ := outer_spec h hj
        exact isNode_standIn h hlt hkept hroot'

/-! ## What is around a node -/

theorem headD_concat (front : List Nat) (p i : Nat) : (front ++ [p]).headD i = front.headD p := by
  cases front <;> rfl

/-- The outermost position folded into one, or that one itself, is met on the walk outward;
it is kept if the one is, and what is around it is not folded into it. -/
theorem outermost_spec (f : Folding) {m : Nat} (hend : f.outer.EndsWithin m i)
    (hkeep : ∀ {j q : Nat}, f.folds.parent j = some q → f.isKept j = true) :
    ((f.foldedInto m i).headD i = i ∨ f.outer.Ancestor ((f.foldedInto m i).headD i) i) ∧
      (f.isKept i = true → f.isKept ((f.foldedInto m i).headD i) = true) ∧
      ∀ p, f.outer.parent ((f.foldedInto m i).headD i) = some p →
        f.folds.parent p ≠ some ((f.foldedInto m i).headD i) := by
  induction m generalizing i with
  | zero => exact absurd hend (by simp [Links.EndsWithin])
  | succ m ih =>
    rw [foldedInto]
    cases hp : f.outer.parent i with
    | none => exact ⟨Or.inl rfl, id, fun p hp' => by simp [hp] at hp'⟩
    | some p =>
      simp only
      split
      · rename_i hfold
        obtain ⟨hanc, hk, hout⟩ := ih (hend p hp)
        rw [headD_concat]
        refine ⟨Or.inr ?_, fun _ => hk (hkeep hfold), hout⟩
        rcases hanc with heq | hanc
        · rw [heq]
          exact .parent hp
        · exact .outer hp hanc
      · rename_i hfold
        refine ⟨Or.inl rfl, id, fun q hq => ?_⟩
        have hqp : p = q := by simpa [hp] using hq
        rw [← hqp]
        exact hfold

theorem outer_endsWithin (h : f.WellFormed) (hi : i < f.size) : f.outer.EndsWithin f.size i := by
  have hend := Links.endsWithin_size (outer_forest h) (outer_closed h)
    (i := i) (by rwa [size_outer h])
  rwa [size_outer h] at hend

theorem ancestor_of_around (h : f.WellFormed) (hi : i < f.size)
    (hp : f.around i = some p) : f.outer.Ancestor p i := by
  obtain ⟨hanc, -, -⟩ := outermost_spec _ (outer_endsWithin h hi) (fun hq => (fold_spec h hq).1)
  rcases hanc with heq | hanc
  · refine .parent ?_
    rw [← heq]
    exact hp
  · exact (Links.Ancestor.parent hp).trans hanc

/-- What is around a position with a node is a position with a node, or nothing. -/
theorem isNode_of_around (h : f.WellFormed) (hi : i < f.size) (hkept : f.isKept i = true)
    (hp : f.around i = some p) : f.isNode p = true := by
  obtain ⟨-, htop, hout⟩ := outermost_spec _ (outer_endsWithin h hi) (fun hq => (fold_spec h hq).1)
  obtain ⟨hkp, hroot, -, -⟩ := outer_spec h hp
  refine isNode_iff.mpr ⟨hkp, ?_, hroot⟩
  cases hq : f.folds.parent p with
  | none => rfl
  | some c =>
    obtain ⟨-, -, -, -, -, honly⟩ := fold_spec h hq
    have hc := honly _ (htop hkept) hp
    exact absurd (hc ▸ hq) (hout p hp)

/-! ## The links between nodes -/

theorem nodeLinks_forest (h : f.WellFormed) : f.nodeLinks.Forest := by
  obtain ⟨rank, hrank⟩ := outer_forest h
  refine ⟨rank, fun i p hp => ?_⟩
  obtain ⟨hi, haround⟩ := Links.parent_ofFn_eq_some.mp hp
  exact (ancestor_of_around h hi haround).rank_lt hrank

theorem nodeLinks_closed (h : f.WellFormed) : f.nodeLinks.Closed := by
  intro i p hp
  obtain ⟨hi, haround⟩ := Links.parent_ofFn_eq_some.mp hp
  rw [size_nodeLinks, ← size_outer h]
  exact (ancestor_of_around h hi haround).lt_size (outer_closed h)

theorem nodeLinks_endsWithin (h : f.WellFormed) (hi : i < f.size) :
    f.nodeLinks.EndsWithin f.size i := by
  have hend := Links.endsWithin_size (nodeLinks_forest h) (nodeLinks_closed h)
    (i := i) (by rwa [size_nodeLinks])
  rwa [size_nodeLinks] at hend

theorem lt_size_of_nodeLinks (h : f.WellFormed)
    (hp : f.nodeLinks.parent i = some p) : p < f.size := by
  have hlt := nodeLinks_closed h i p hp
  rwa [size_nodeLinks] at hlt

theorem isNode_of_nodeLinks (h : f.WellFormed) (hi : f.isNode i = true)
    (hp : f.nodeLinks.parent i = some p) : f.isNode p = true := by
  obtain ⟨hlt, haround⟩ := Links.parent_ofFn_eq_some.mp hp
  exact isNode_of_around h hlt (isNode_iff.mp hi).1 haround

/-! ## The environments folded into one -/

/-- The positions folded into one are those whose chain of foldings meets it. -/
theorem mem_foldedInto (h : f.WellFormed) {m : Nat} (hend : f.outer.EndsWithin m k) :
    j ∈ f.foldedInto m k ↔ f.folds.Ancestor k j := by
  induction m generalizing k with
  | zero => exact absurd hend (by simp [Links.EndsWithin])
  | succ m ih =>
    -- the last folding of such a chain is that of what is around the position
    have hlast : f.folds.Ancestor k j → ∃ p, f.outer.parent k = some p ∧
        f.folds.parent p = some k ∧ (p = j ∨ f.folds.Ancestor p j) := by
      intro hanc
      obtain ⟨p, hp, hpj⟩ := hanc.exists_last
      obtain ⟨-, -, -, -, hout, -⟩ := fold_spec h hp
      exact ⟨p, hout, hp, hpj⟩
    rw [foldedInto]
    cases hk : f.outer.parent k with
    | none =>
      simp only [List.not_mem_nil, false_iff]
      intro h
      obtain ⟨p, hp, -⟩ := hlast h
      simp [hk] at hp
    | some p =>
      simp only
      split
      · rename_i hfold
        rw [List.mem_append, List.mem_singleton, ih (hend p hk)]
        constructor
        · rintro (h | rfl)
          · exact (Links.Ancestor.parent hfold).trans h
          · exact .parent hfold
        · intro h
          obtain ⟨q, hq, -, hqj⟩ := hlast h
          rw [hk] at hq
          cases hq
          exact hqj.symm.imp_right Eq.symm
      · rename_i hfold
        simp only [List.not_mem_nil, false_iff]
        intro h
        obtain ⟨q, hq, hqk, -⟩ := hlast h
        rw [hk] at hq
        cases hq
        exact hfold hqk

theorem mem_merged (h : f.WellFormed) (hk : k < f.size) : j ∈ f.merged k ↔ f.folds.Ancestor k j :=
  mem_foldedInto h (outer_endsWithin h hk)

theorem nodup_foldedInto (h : f.WellFormed) {m : Nat} (hend : f.outer.EndsWithin m k) :
    (f.foldedInto m k).Nodup := by
  induction m generalizing k with
  | zero => exact List.nodup_nil
  | succ m ih =>
    rw [foldedInto]
    cases hk : f.outer.parent k with
    | none => exact List.nodup_nil
    | some p =>
      simp only
      split
      · rw [List.nodup_append]
        refine ⟨ih (hend p hk), List.nodup_singleton p, ?_⟩
        rintro a ha b hb rfl
        rw [List.mem_singleton] at hb
        subst hb
        exact (folds_forest h).not_ancestor_self a ((mem_foldedInto h (hend a hk)).mp ha)
      · exact List.nodup_nil

theorem nodup_merged (h : f.WellFormed) (hk : k < f.size) : (f.merged k).Nodup :=
  nodup_foldedInto h (outer_endsWithin h hk)

/-- What is folded is kept and not global. -/
theorem kept_of_folded (h : f.WellFormed) (hanc : f.folds.Ancestor k j) :
    j < f.size ∧ f.isKept j = true ∧ f.nesting.isRoot j = false := by
  cases hanc with
  | parent hc =>
    obtain ⟨hkept, hroot, hlt, -⟩ := fold_spec h hc
    exact ⟨hlt, hkept, hroot⟩
  | outer hc _ =>
    obtain ⟨hkept, hroot, hlt, -⟩ := fold_spec h hc
    exact ⟨hlt, hkept, hroot⟩

theorem lt_size_of_mem_merged (h : f.WellFormed) (hk : k < f.size) (hj : j ∈ f.merged k) :
    j < f.size := (kept_of_folded h ((mem_merged h hk).mp hj)).1

/-- A position stands for those whose chain of foldings ends in it. -/
theorem standIn_eq_iff (h : f.WellFormed) (hi : i < f.size) (hk : f.folds.parent k = none) :
    f.standIn i = k ↔ i = k ∨ f.folds.Ancestor k i :=
  Links.climb_eq_iff (folds_endsWithin h hi) hk

/-! ## Skipped positions have the place of what is around them -/

theorem place_of_kept (hkept : f.isKept i = true) :
    f.place i = if f.nesting.isRoot i then none else some (f.standIn i) := by
  rw [place, if_pos hkept]

theorem place_of_skipped (hskip : f.isKept i = false) (hp : f.outer.parent i = none) :
    f.place i = none := by
  rw [place, if_neg (by simp [hskip]), hp]

theorem outer_of_parent (h : f.WellFormed) (hp : f.nesting.links.parent i = some p) :
    f.outer.parent i = if f.isKept p then some p else f.outer.parent p := by
  rw [h.outer]
  exact Links.parent_contract_of_parent h.nesting.forest h.nesting.closed hp

theorem outer_of_none (h : f.WellFormed) (hp : f.nesting.links.parent i = none) :
    f.outer.parent i = none := by
  rw [h.outer]
  exact Links.parent_contract_of_none hp

/-- A skipped position has the place of its parent, or the global one. -/
theorem place_of_not_kept (h : f.WellFormed) (hskip : f.isKept i = false) :
    f.place i = (f.nesting.links.parent i).bind f.place := by
  cases hp : f.nesting.links.parent i with
  | none => exact place_of_skipped hskip (outer_of_none h hp)
  | some p =>
    rw [Option.bind_some, place, place, if_neg (by simp [hskip]), outer_of_parent h hp]

end Folding

end EnvDiagram
