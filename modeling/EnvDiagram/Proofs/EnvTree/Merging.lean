import EnvDiagram.Proofs.EnvTree.Folding
import EnvDiagram.Proofs.Steps

/-!
# Folding one environment after the other

Environments can be folded one after the other, outermost first, in tables that change on the way:
what is folded hands on what is around it, and what was folded into it before. A candidate is
folded if one environment that is kept and not folded is right in it. What is right in it lies
further in than all that was folded before, so the tables still say of it what they said at the
start: folding never meets a moving target. In the end the tables hold what the links of a folding
say at once.

* `Merging`, `Merging.run` — the tables, and all the candidates one after the other
* `Folding.upTo` — a folding of which only some positions are folded yet
* `Merging.step_upTo` — folding one more candidate
* `Snapshot.merging_eq` — what the tables hold in the end
-/

namespace EnvDiagram

/-! ## The tables -/

/-- The number of steps from a member outward, at most the given number. -/
def Links.depth (l : Links) : Nat → Nat → Nat
  | 0, _ => 0
  | n + 1, i =>
    match l.parent i with
    | none => 0
    | some p => l.depth n p + 1

/-- What is known while environments are folded one after the other. -/
@[ext]
structure Merging where
  /-- From a folded position to the one it is folded into. -/
  into : Nat → Option Nat
  /-- What is around a position by now. -/
  outer : Nat → Option Nat
  /-- What is folded into a position by now, outermost first. -/
  merged : Nat → List Nat

namespace Merging

/-- Nothing is folded. -/
def start (f : Folding) : Merging := ⟨fun _ => none, f.outer.parent, fun _ => []⟩

/-- The positions right in one that are kept and not folded. -/
def children (f : Folding) (t : Merging) (i : Nat) : List Nat :=
  (List.range f.size).filter fun c => f.isKept c && (t.into c).isNone && t.outer c = some i

/-- Folds a position into another one, which gets what was folded into it and, behind that, the
position itself, and takes over what is around it. -/
def fold (t : Merging) (i c : Nat) : Merging :=
  let taken := Function.update t.merged i []
  { into := Function.update t.into i (some c)
    outer := Function.update t.outer c (t.outer i)
    merged := Function.update taken c (t.merged i ++ i :: taken c) }

/-- Folds a position into its only child, if it has one. -/
def step (f : Folding) (t : Merging) (i : Nat) : Merging :=
  match children f t i with
  | [c] => t.fold i c
  | _ => t

/-- The positions that may be folded, outermost first. -/
def candidates (f : Folding) : List Nat :=
  ((List.range f.size).filter fun i =>
    f.isKept i && !f.nesting.isRoot i && f.nesting.onlyDeclares i).mergeSort
      fun i j => f.outer.depth f.size i ≤ f.outer.depth f.size j

/-- Folds all candidates. -/
def run (f : Folding) : Merging := (candidates f).foldl (step f) (start f)

/-- What the links of a folding say: nothing is left with a position that is folded itself. -/
def ofFolding (f : Folding) : Merging where
  into := f.folds.parent
  outer := f.around
  merged i := if (f.folds.parent i).isSome then [] else f.merged i

end Merging

/-! ## Depths -/

namespace Links

variable {l : Links} {i p n : Nat}

theorem depth_succ (h : l.EndsWithin n i) : l.depth (n + 1) i = l.depth n i := by
  induction n generalizing i with
  | zero => exact absurd h (by simp [EndsWithin])
  | succ n ih =>
    rw [depth, depth]
    cases hp : l.parent i with
    | none => rfl
    | some p => simp only [ih (h p hp)]

theorem depth_of_parent (hf : l.Forest) (hc : l.Closed) (hp : l.parent i = some p) :
    l.depth l.size i = l.depth l.size p + 1 := by
  have hend := endsWithin_size hf hc (lt_size_of_parent hp)
  obtain ⟨n, hn⟩ := Nat.exists_eq_succ_of_ne_zero (Nat.ne_zero_of_lt (lt_size_of_parent hp))
  rw [hn] at hend ⊢
  rw [depth_succ (hend p hp), depth, hp]

theorem parent_of_not_lt (hi : ¬ i < l.size) : l.parent i = none := by
  by_contra hne
  obtain ⟨p, hp⟩ := Option.ne_none_iff_exists'.mp hne
  exact hi (lt_size_of_parent hp)

theorem ofFn_eq {g : Nat → Option Nat} (hn : n = l.size) (hg : ∀ i < n, g i = l.parent i) :
    ofFn n g = l := by
  subst hn
  obtain ⟨parents⟩ := l
  refine congrArg Links.mk (Array.ext (by simp [size]) fun i hi hi' => ?_)
  have hgi := hg i hi'
  simpa [parent, Array.getD, hi'] using hgi

end Links

/-! ## What is folded into a position -/

namespace Folding

variable {f : Folding} {i c k p : Nat} {done : List Nat}

theorem foldedInto_of_none (hp : f.outer.parent k = none) (m : Nat) : f.foldedInto m k = [] := by
  cases m with
  | zero => rfl
  | succ m => rw [foldedInto, hp]

theorem foldedInto_of_some (hp : f.outer.parent k = some p) (m : Nat) : f.foldedInto (m + 1) k =
    if f.folds.parent p = some k then f.foldedInto m p ++ [p] else [] := by
  rw [foldedInto, hp]

theorem foldedInto_succ {m : Nat} (hend : f.outer.EndsWithin m k) :
    f.foldedInto (m + 1) k = f.foldedInto m k := by
  induction m generalizing k with
  | zero => exact absurd hend (by simp [Links.EndsWithin])
  | succ m ih =>
    cases hp : f.outer.parent k with
    | none => rw [foldedInto_of_none hp, foldedInto_of_none hp]
    | some p => rw [foldedInto_of_some hp, foldedInto_of_some hp, ih (hend p hp)]

/-- What is folded into the position that another is folded into. -/
theorem merged_of_folds (h : f.WellFormed) (hc : f.folds.parent i = some c) :
    f.merged c = f.merged i ++ [i] := by
  obtain ⟨-, -, -, -, hout, -⟩ := fold_spec h hc
  have hlt : c < f.size := size_outer h ▸ Links.lt_size_of_parent hout
  obtain ⟨m, hm⟩ := Nat.exists_eq_succ_of_ne_zero (Nat.ne_zero_of_lt hlt)
  have hend := outer_endsWithin h hlt
  rw [hm] at hend
  rw [merged, merged, hm, foldedInto_succ (hend i hout), foldedInto_of_some hout, if_pos hc]

/-- Nothing is folded into a position that is not what the one around it is folded into. -/
theorem merged_eq_nil (hp : ∀ p, f.outer.parent k = some p → f.folds.parent p ≠ some k) :
    f.merged k = [] := by
  rw [merged]
  cases hk : f.outer.parent k with
  | none => exact foldedInto_of_none hk _
  | some p =>
    cases f.size with
    | zero => rfl
    | succ m => rw [foldedInto_of_some hk, if_neg (hp p hk)]

/-! ## Some positions folded -/

/-- The folding with only the given positions folded. -/
def upTo (f : Folding) (done : List Nat) : Folding :=
  { f with folds := Links.ofFn f.size fun i => if i ∈ done then f.folds.parent i else none }

theorem parent_folds_upTo (h : f.WellFormed) (done : List Nat) (i : Nat) :
    (f.upTo done).folds.parent i = if i ∈ done then f.folds.parent i else none := by
  by_cases hi : i < f.size
  · exact Links.parent_ofFn _ hi
  · have hsize : (f.upTo done).folds.size = f.size := Links.size_ofFn _ _
    rw [Links.parent_of_not_lt (by rwa [hsize]), Links.parent_of_not_lt (by rwa [h.size_folds]),
      ite_self]

theorem mem_of_folded_upTo (h : f.WellFormed) (hanc : (f.upTo done).folds.Ancestor k i) :
    i ∈ done := by
  cases hanc with
  | parent hc =>
    rw [parent_folds_upTo h, Option.ite_none_right_eq_some] at hc
    exact hc.1
  | outer hc _ =>
    rw [parent_folds_upTo h, Option.ite_none_right_eq_some] at hc
    exact hc.1

theorem WellFormed.upTo (h : f.WellFormed) (done : List Nat) : (f.upTo done).WellFormed where
  nesting := h.nesting
  size_kept := h.size_kept
  isKept_root := h.isKept_root
  outer := h.outer
  size_folds := Links.size_ofFn _ _
  folds := by
    intro i c hc
    rw [parent_folds_upTo h, Option.ite_none_right_eq_some] at hc
    obtain ⟨hkept, hroot, honly, hchild⟩ := h.folds hc.2
    exact ⟨hkept, hroot, honly, hchild⟩

theorem upTo_of_complete (h : f.WellFormed)
    (hall : ∀ i c, f.folds.parent i = some c → i ∈ done) : f.upTo done = f := by
  have hfolds : (f.upTo done).folds = f.folds := by
    refine Links.ofFn_eq h.size_folds.symm fun i _ => ?_
    split
    · rfl
    · rename_i hi
      exact (Option.eq_none_iff_forall_ne_some.mpr fun c hc => hi (hall i c hc)).symm
  obtain ⟨nesting, kept, outer, folds⟩ := f
  exact congrArg (Folding.mk nesting kept outer) hfolds

/-- A position that cannot be folded changes nothing. -/
theorem upTo_concat_of_none (hi : f.folds.parent i = none) :
    f.upTo (done ++ [i]) = f.upTo done := by
  have hparent (j : Nat) : (if j ∈ done ++ [i] then f.folds.parent j else none) =
      if j ∈ done then f.folds.parent j else none := by
    by_cases hj : j = i
    · rw [hj, hi, ite_self, ite_self]
    · simp only [List.mem_append, List.mem_singleton, hj, or_false]
  rw [upTo, upTo, funext hparent]

theorem parent_folds_concat (h : f.WellFormed) (j : Nat) :
    (f.upTo (done ++ [i])).folds.parent j =
      Function.update (f.upTo done).folds.parent i (f.folds.parent i) j := by
  rw [parent_folds_upTo h]
  by_cases hj : j = i
  · rw [hj, Function.update_self, if_pos (by simp)]
  · rw [Function.update_of_ne hj, parent_folds_upTo h]
    simp only [List.mem_append, List.mem_singleton, hj, or_false]

/-- Nothing is folded into what is right in a position that is not folded yet. -/
theorem merged_upTo_eq_nil (h : f.WellFormed) (hi : i ∉ done) (hk : f.outer.parent k = some i) :
    (f.upTo done).merged k = [] := by
  refine merged_eq_nil fun p hp => ?_
  obtain rfl : i = p := Option.some.inj (hk.symm.trans hp)
  rw [parent_folds_upTo h, if_neg hi]
  exact nofun

/-- One more folding adds only to what it leads to. -/
theorem merged_concat (h : f.WellFormed) (hi : i ∉ done) (hc : f.folds.parent i = some c)
    (hcd : c ∉ done) (hk : k ≠ c) :
    (f.upTo (done ++ [i])).merged k = (f.upTo done).merged k := by
  have hfolded (m : Nat) :
      (f.upTo (done ++ [i])).foldedInto m k = (f.upTo done).foldedInto m k := by
    induction m generalizing k with
    | zero => rfl
    | succ m ih =>
      cases hp : f.outer.parent k with
      | none => rw [foldedInto_of_none (f := f.upTo _) hp, foldedInto_of_none (f := f.upTo _) hp]
      | some p =>
        rw [foldedInto_of_some (f := f.upTo _) hp, foldedInto_of_some (f := f.upTo _) hp,
          parent_folds_concat h, hc]
        by_cases hpi : p = i
        · subst hpi
          rw [Function.update_self, if_neg (by simpa using hk.symm), parent_folds_upTo h, if_neg hi,
            if_neg nofun]
        · rw [Function.update_of_ne hpi]
          split
          · rename_i hfold
            -- what the new folding leads to is not folded itself
            rw [parent_folds_upTo h, Option.ite_none_right_eq_some] at hfold
            rw [ih fun hpc => hcd (hpc ▸ hfold.1)]
          · rfl
  exact hfolded f.size

theorem merged_concat_self (h : f.WellFormed) (hi : i ∉ done) (hc : f.folds.parent i = some c)
    (hcd : c ∉ done) (hic : i ≠ c) :
    (f.upTo (done ++ [i])).merged c = (f.upTo done).merged i ++ [i] := by
  have hfold : (f.upTo (done ++ [i])).folds.parent i = some c := by
    rw [parent_folds_concat h, Function.update_self, hc]
  rw [merged_of_folds (h.upTo _) hfold, merged_concat h hi hc hcd hic]

/-- What a position is folded into takes over what is around it. -/
theorem around_concat (h : f.WellFormed) (hi : i ∉ done) (hc : f.folds.parent i = some c)
    (hcd : c ∉ done) (hic : i ≠ c) (k : Nat) :
    (f.upTo (done ++ [i])).around k =
      Function.update (f.upTo done).around c ((f.upTo done).around i) k := by
  by_cases hk : k = c
  · rw [hk, Function.update_self, around, around, merged_concat_self h hi hc hcd hic, headD_concat]
    rfl
  · rw [Function.update_of_ne hk, around, around, merged_concat h hi hc hcd hk]
    rfl

end Folding

/-! ## One candidate after the other -/

namespace Merging

variable {f : Folding} {i c : Nat} {done : List Nat}

theorem ofFolding_merged (f : Folding) (k : Nat) : (ofFolding f).merged k =
    if (f.folds.parent k).isSome then [] else f.merged k := rfl

theorem ofFolding_merged_of_none {k : Nat} (hk : f.folds.parent k = none) :
    (ofFolding f).merged k = f.merged k := by
  rw [ofFolding_merged, hk]
  rfl

/-- Whatever is right in a candidate lies further in than what has been folded. -/
theorem not_mem_of_outer (h : f.WellFormed)
    (hdepth : ∀ a ∈ done, f.outer.depth f.size a ≤ f.outer.depth f.size i)
    (hc : f.outer.parent c = some i) : c ∉ done := by
  intro hmem
  have hdeeper := Links.depth_of_parent (Folding.outer_forest h) (Folding.outer_closed h) hc
  rw [Folding.size_outer h] at hdeeper
  have hle := hdepth c hmem
  omega

/-- What is right in a candidate, once only positions no further in are folded, was so before. -/
theorem children_upTo (h : f.WellFormed) (hi : i ∉ done)
    (hdepth : ∀ a ∈ done, f.outer.depth f.size a ≤ f.outer.depth f.size i) :
    children f (ofFolding (f.upTo done)) i = (f.outer.children (some i)).filter f.isKept := by
  rw [children, Links.children, List.filter_filter, Folding.size_outer h]
  refine List.filter_congr fun k hk => ?_
  show (f.isKept k && ((f.upTo done).folds.parent k).isNone &&
    decide ((f.upTo done).around k = some i)) = _
  rw [Bool.eq_iff_iff]
  simp only [Bool.and_eq_true, Option.isNone_iff_eq_none, decide_eq_true_eq]
  constructor
  · rintro ⟨⟨hkept, -⟩, haround⟩
    refine ⟨hkept, ?_⟩
    cases hmerged : (f.upTo done).merged k with
    | nil => rwa [Folding.around, hmerged] at haround
    | cons a rest =>
      rw [Folding.around, hmerged] at haround
      have hfolded := (Folding.mem_merged (h.upTo done) (List.mem_range.mp hk)).mp
        (hmerged ▸ List.mem_cons_self)
      exact absurd (Folding.mem_of_folded_upTo h hfolded) (not_mem_of_outer h hdepth haround)
  · rintro ⟨hkept, hout⟩
    refine ⟨⟨hkept, ?_⟩, ?_⟩
    · rw [Folding.parent_folds_upTo h, if_neg (not_mem_of_outer h hdepth hout)]
    · rw [Folding.around, Folding.merged_upTo_eq_nil h hi hout]
      exact hout

theorem merged_fold (t : Merging) (hic : i ≠ c) : (t.fold i c).merged =
    Function.update (Function.update t.merged i []) c (t.merged i ++ i :: t.merged c) := by
  rw [fold, Function.update_of_ne hic.symm]

/-- What was folded into a position moves on with it. -/
theorem merged_fold_upTo (h : f.WellFormed) (hi : i ∉ done) (hc : f.folds.parent i = some c)
    (hcd : c ∉ done) (hic : i ≠ c) :
    ((ofFolding (f.upTo done)).fold i c).merged = (ofFolding (f.upTo (done ++ [i]))).merged := by
  have hi' : (f.upTo done).folds.parent i = none := by rw [Folding.parent_folds_upTo h, if_neg hi]
  have hc' : (f.upTo done).folds.parent c = none := by rw [Folding.parent_folds_upTo h, if_neg hcd]
  obtain ⟨-, -, -, -, hout, -⟩ := Folding.fold_spec h hc
  rw [merged_fold _ hic, ofFolding_merged_of_none hi', ofFolding_merged_of_none hc',
    Folding.merged_upTo_eq_nil h hi hout]
  funext k
  rw [ofFolding_merged, Folding.parent_folds_concat h]
  by_cases hkc : k = c
  · rw [hkc, Function.update_self, Function.update_of_ne hic.symm, hc',
      Folding.merged_concat_self h hi hc hcd hic]
    rfl
  · rw [Function.update_of_ne hkc]
    by_cases hki : k = i
    · rw [hki, Function.update_self, Function.update_self, hc]
      rfl
    · rw [Function.update_of_ne hki, Function.update_of_ne hki,
        Folding.merged_concat h hi hc hcd hkc]
      rfl

/-- One more position is folded. -/
theorem fold_upTo (h : f.WellFormed) (hi : i ∉ done) (hc : f.folds.parent i = some c)
    (hcd : c ∉ done) : (ofFolding (f.upTo done)).fold i c = ofFolding (f.upTo (done ++ [i])) := by
  obtain ⟨-, -, -, -, hout, -⟩ := Folding.fold_spec h hc
  have hic : i ≠ c := by
    rintro rfl
    exact (Folding.outer_forest h).not_ancestor_self i (.parent hout)
  refine Merging.ext (funext fun k => ?_) (funext fun k => ?_) (merged_fold_upTo h hi hc hcd hic)
  · exact (hc ▸ Folding.parent_folds_concat h k).symm
  · exact (Folding.around_concat h hi hc hcd hic k).symm

/-- A candidate is folded into its only child, or stays. -/
theorem step_upTo (h : f.WellFormed) (hi : i ∉ done)
    (hdepth : ∀ a ∈ done, f.outer.depth f.size a ≤ f.outer.depth f.size i)
    (hfolds : ∀ c, f.folds.parent i = some c ↔
      (f.outer.children (some i)).filter f.isKept = [c]) :
    step f (ofFolding (f.upTo done)) i = ofFolding (f.upTo (done ++ [i])) := by
  rw [step, children_upTo h hi hdepth]
  cases hc : f.folds.parent i with
  | none =>
    rw [Folding.upTo_concat_of_none hc]
    split
    · rename_i c hchild
      rw [(hfolds c).mpr hchild] at hc
      cases hc
    · rfl
  | some c =>
    rw [(hfolds c).mp hc]
    obtain ⟨-, -, -, -, hout, -⟩ := Folding.fold_spec h hc
    exact fold_upTo h hi hc (not_mem_of_outer h hdepth hout)

/-! ## All candidates -/

theorem mem_candidates : i ∈ candidates f ↔ i < f.size ∧ f.isKept i = true ∧
    f.nesting.isRoot i = false ∧ f.nesting.onlyDeclares i = true := by
  rw [candidates, (List.mergeSort_perm _ _).mem_iff]
  simp [and_assoc]

theorem nodup_candidates (f : Folding) : (candidates f).Nodup := by
  rw [candidates, (List.mergeSort_perm _ _).nodup_iff]
  exact List.nodup_range.filter _

/-- The candidates come outermost first. -/
theorem pairwise_candidates (f : Folding) : (candidates f).Pairwise fun i j =>
    f.outer.depth f.size i ≤ f.outer.depth f.size j := by
  refine (List.pairwise_mergeSort ?_ ?_ _).imp fun hle => of_decide_eq_true hle
  · intro a b c hab hbc
    simp only [decide_eq_true_eq] at hab hbc ⊢
    exact hab.trans hbc
  · intro a b
    simpa using Nat.le_total _ _

/-- Before anything is folded, everything is where it is. -/
theorem start_eq (h : f.WellFormed) : start f = ofFolding (f.upTo []) := by
  have hnone (k : Nat) : (f.upTo []).folds.parent k = none := by
    rw [Folding.parent_folds_upTo h, if_neg List.not_mem_nil]
  have hmerged (k : Nat) : (f.upTo []).merged k = [] :=
    Folding.merged_eq_nil fun p _ => by
      rw [hnone]
      exact nofun
  refine Merging.ext ?_ ?_ ?_ <;> funext k
  · exact (hnone k).symm
  · show f.outer.parent k = (f.upTo []).around k
    rw [Folding.around, hmerged]
    rfl
  · rw [ofFolding_merged_of_none (hnone k), hmerged]
    rfl

/-- Candidates folded one after the other end up where the links of the folding lead. -/
theorem run_eq (h : f.WellFormed)
    (hfolds : ∀ i c, f.folds.parent i = some c ↔ f.Foldable i c) : run f = ofFolding f := by
  have hrun : run f = ofFolding (f.upTo (candidates f)) := by
    refine foldl_keeps (P := fun done t => t = ofFolding (f.upTo done)) _ ?_ (start_eq h)
    rintro done i t hinit rfl
    have hnodup := (nodup_candidates f).sublist hinit.sublist
    have hsorted := (pairwise_candidates f).sublist hinit.sublist
    have hi : i ∈ candidates f := hinit.subset List.mem_concat_self
    obtain ⟨-, hkept, hroot, honly⟩ := mem_candidates.mp hi
    refine step_upTo h ?_ ?_ fun c => ?_
    · exact fun hmem => (List.nodup_append.mp hnodup).2.2 i hmem i (List.mem_singleton_self i) rfl
    · exact fun a ha => (List.pairwise_append.mp hsorted).2.2 a ha i (List.mem_singleton_self i)
    · rw [hfolds]
      exact ⟨fun hc => hc.only, fun hchild => ⟨hkept, hroot, honly, hchild⟩⟩
  rw [hrun, Folding.upTo_of_complete h]
  intro i c hc
  obtain ⟨hkept, hroot, honly, -⟩ := h.folds hc
  exact mem_candidates.mpr ⟨Folding.lt_size_of_isKept h.size_kept hkept, hkept, hroot, honly⟩

end Merging

/-- The environments of a snapshot, those folded one after the other that a policy folds. -/
def Snapshot.merging (s : Snapshot) (policy : FramePolicy) : Merging :=
  if policy.foldDeclared then .run (s.folding policy) else .start (s.folding policy)

/-- Whatever a policy folds, folding one environment after the other ends in the tables that the
links of the folding say at once. -/
theorem Snapshot.merging_eq (s : Snapshot) (policy : FramePolicy) :
    s.merging policy = .ofFolding (s.folding policy) := by
  have h := s.wellFormed_folding policy
  rw [merging]
  split
  · rename_i hpolicy
    exact Merging.run_eq h fun i c => Folding.folds_ofNesting_iff.trans (and_iff_right hpolicy)
  · rename_i hpolicy
    rw [Merging.start_eq h, Folding.upTo_of_complete h]
    intro i c hc
    exact absurd (Folding.folds_ofNesting_iff.mp hc).1 hpolicy

end EnvDiagram
