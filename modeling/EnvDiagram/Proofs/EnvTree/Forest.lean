import Mathlib
import EnvDiagram.EnvTree.Links

/-!
# Links that form a forest

A walk outward ends when no link leads back to where it came from. That is said by a rank
that every link lowers (`Forest`). In a forest of `n` members every walk meets at most `n`
of them (`endsWithin_size`), so the bounds of the walks in `Links` cut nothing off.

* `Ancestor` — the members that a walk outward meets
* `EndsWithin` — a walk meets at most so many members
* `nearest_eq_some` — what the bounded search for an ancestor finds
* `contract_forest` — links to the nearest ancestors of some kind form a forest again
* `ancestor_contract_iff` — and among the members of that kind no ancestor is lost or gained
-/

namespace EnvDiagram.Links

variable {l : Links} {i p n a k : Nat} {keep : Nat → Bool}

/-- Every link leads to a member of lower rank. -/
def Forest (l : Links) : Prop :=
  ∃ rank : Nat → Nat, ∀ i p, l.parent i = some p → rank p < rank i

/-- Every link leads to a member. -/
def Closed (l : Links) : Prop := ∀ i p, l.parent i = some p → p < l.size

/-- The members that the walk outward from a member meets. -/
inductive Ancestor (l : Links) (a : Nat) : Nat → Prop
  | parent {i : Nat} : l.parent i = some a → Ancestor l a i
  | outer {i p : Nat} : l.parent i = some p → Ancestor l a p → Ancestor l a i

/-! ## Links -/

/-- Only members have links. -/
theorem lt_size_of_parent (h : l.parent i = some p) : i < l.size := by
  by_contra hi
  have hnone : l.parent i = none := by
    unfold parent Array.getD
    exact dif_neg (by simpa [size] using hi)
  simp [hnone] at h

theorem parent_ofFn_eq_some {f : Nat → Option Nat} :
    (ofFn n f).parent i = some p ↔ i < n ∧ f i = some p := by
  constructor
  · intro h
    have hi : i < n := by simpa using lt_size_of_parent h
    exact ⟨hi, by rwa [parent_ofFn f hi] at h⟩
  · rintro ⟨hi, h⟩
    rwa [parent_ofFn f hi]

theorem parent_detach (l : Links) (i j : Nat) :
    (l.detach i).parent j = if j = i then none else l.parent j := by
  by_cases hj : j < l.parents.size
  · by_cases hij : j = i
    · subst hij
      simp [detach, parent, Array.getD, hj]
    · simp [detach, parent, Array.getD, hj, hij, Ne.symm hij]
  · simp [detach, parent, Array.getD, hj]

/-! ## Walks -/

theorem climb_of_none (h : l.parent i = none) (n : Nat) : l.climb n i = i := by
  cases n with
  | zero => rfl
  | succ n => rw [climb, h]

theorem climb_succ_of_some (h : l.parent i = some p) (n : Nat) :
    l.climb (n + 1) i = l.climb n p := by
  rw [climb, h]

/-- The last step of a walk. -/
theorem climb_succ_of_parent (h : l.parent (l.climb n i) = some p) : l.climb (n + 1) i = p := by
  induction n generalizing i with
  | zero =>
    have hi : l.parent i = some p := h
    rw [climb_succ_of_some hi]
    rfl
  | succ n ih =>
    cases hi : l.parent i with
    | none =>
      rw [climb_of_none hi, hi] at h
      simp at h
    | some q =>
      rw [climb_succ_of_some hi] at h ⊢
      exact ih h

/-- Along a walk that has not ended the rank falls with every step. -/
theorem rank_climb_lt {rank : Nat → Nat} (hrank : ∀ i p, l.parent i = some p → rank p < rank i)
    {j : Nat} (hj : j < n) (h : ∀ k < n, l.parent (l.climb k i) ≠ none) :
    rank (l.climb n i) < rank (l.climb j i) := by
  induction n with
  | zero => omega
  | succ n ih =>
    obtain ⟨p, hp⟩ := Option.ne_none_iff_exists'.mp (h n (by omega))
    have hlast : rank (l.climb (n + 1) i) < rank (l.climb n i) := by
      rw [climb_succ_of_parent hp]
      exact hrank _ _ hp
    by_cases hjn : j = n
    · rw [hjn]
      exact hlast
    · exact hlast.trans (ih (by omega) fun k hk => h k (by omega))

/-- A walk in a forest meets no member twice, so it is shorter than the number of members. -/
theorem lt_size_of_walk (hf : l.Forest) (hc : l.Closed) (hi : i < l.size)
    (h : ∀ k < n, l.parent (l.climb k i) ≠ none) : n < l.size := by
  obtain ⟨rank, hrank⟩ := hf
  -- the members met on the walk, one for every step
  have hmaps : Set.MapsTo (fun k => l.climb k i) (Finset.range (n + 1)) (Finset.range l.size) := by
    intro k hk
    simp only [Finset.coe_range, Set.mem_Iio] at hk ⊢
    cases k with
    | zero => exact hi
    | succ k =>
      obtain ⟨p, hp⟩ := Option.ne_none_iff_exists'.mp (h k (by omega))
      show l.climb (k + 1) i < l.size
      rw [climb_succ_of_parent hp]
      exact hc _ _ hp
  -- if a member came again, its rank would be smaller than itself
  have hinj : Set.InjOn (fun k => l.climb k i) (Finset.range (n + 1)) := by
    intro a ha b hb hab
    simp only [Finset.coe_range, Set.mem_Iio] at ha hb hab
    rcases Nat.lt_trichotomy a b with hlt | heq | hlt
    · have := rank_climb_lt hrank hlt fun k hk => h k (by omega)
      rw [hab] at this
      omega
    · exact heq
    · have := rank_climb_lt hrank hlt fun k hk => h k (by omega)
      rw [hab] at this
      omega
  have hcard := Finset.card_le_card_of_injOn _ hmaps hinj
  simpa using hcard

/-- Whether the walk outward meets at most so many members, the first one included. -/
def EndsWithin (l : Links) : Nat → Nat → Prop
  | 0, _ => False
  | n + 1, i => ∀ p, l.parent i = some p → l.EndsWithin n p

theorem endsWithin_succ_of_parent_climb (h : l.parent (l.climb n i) = none) :
    l.EndsWithin (n + 1) i := by
  induction n generalizing i with
  | zero =>
    intro p hp
    rw [show l.climb 0 i = i from rfl, hp] at h
    simp at h
  | succ n ih =>
    intro p hp
    rw [climb_succ_of_some hp] at h
    exact ih h

theorem endsWithin_add (h : l.EndsWithin n i) (m : Nat) : l.EndsWithin (n + m) i := by
  induction n generalizing i with
  | zero => exact absurd h (by simp [EndsWithin])
  | succ n ih =>
    rw [Nat.succ_add]
    exact fun p hp => ih (h p hp)

theorem parent_climb_of_endsWithin (h : l.EndsWithin n i) : l.parent (l.climb n i) = none := by
  induction n generalizing i with
  | zero => exact absurd h (by simp [EndsWithin])
  | succ n ih =>
    cases hi : l.parent i with
    | none => rw [climb_of_none hi, hi]
    | some p =>
      rw [climb_succ_of_some hi]
      exact ih (h p hi)

/-- In a forest no walk meets more members than there are. -/
theorem endsWithin_size (hf : l.Forest) (hc : l.Closed) (hi : i < l.size) :
    l.EndsWithin l.size i := by
  have hex : ∃ n, l.parent (l.climb n i) = none := by
    by_contra hne
    exact absurd (lt_size_of_walk hf hc hi (n := l.size) fun k _ hk => hne ⟨k, hk⟩) (lt_irrefl _)
  -- the first step after which the walk has ended
  have hend := endsWithin_succ_of_parent_climb (Nat.find_spec hex)
  have hlt : Nat.find hex < l.size :=
    lt_size_of_walk hf hc hi fun k hk => Nat.find_min hex hk
  have hsum := endsWithin_add hend (l.size - (Nat.find hex + 1))
  rwa [show Nat.find hex + 1 + (l.size - (Nat.find hex + 1)) = l.size by omega] at hsum

/-! ## Ancestors -/

theorem Ancestor.rank_lt {rank : Nat → Nat} (hrank : ∀ i p, l.parent i = some p → rank p < rank i)
    {a i : Nat} (h : l.Ancestor a i) : rank a < rank i := by
  induction h with
  | parent hp => exact hrank _ _ hp
  | outer hp _ ih => exact ih.trans (hrank _ _ hp)

theorem Ancestor.trans {a b i : Nat} (hab : l.Ancestor a b) (hbi : l.Ancestor b i) :
    l.Ancestor a i := by
  induction hbi with
  | parent hp => exact .outer hp hab
  | outer hp _ ih => exact .outer hp ih

/-- The last step of a walk that meets a member. -/
theorem Ancestor.exists_last (h : l.Ancestor a i) :
    ∃ x, l.parent x = some a ∧ (x = i ∨ l.Ancestor x i) := by
  induction h with
  | @parent i hp => exact ⟨i, hp, Or.inl rfl⟩
  | outer hp _ ih =>
    obtain ⟨x, hx, rfl | hanc⟩ := ih
    · exact ⟨x, hx, Or.inr (.parent hp)⟩
    · exact ⟨x, hx, Or.inr (.outer hp hanc)⟩

theorem Ancestor.exists_climb (h : l.Ancestor a i) : ∃ n, l.climb n i = a := by
  induction h with
  | parent hp => exact ⟨1, climb_succ_of_some hp 0⟩
  | outer hp _ ih =>
    obtain ⟨n, hn⟩ := ih
    exact ⟨n + 1, (climb_succ_of_some hp n).trans hn⟩

/-- In a forest no walk comes back. -/
theorem Forest.not_ancestor_self (hf : l.Forest) (i : Nat) : ¬ l.Ancestor i i := by
  obtain ⟨rank, hrank⟩ := hf
  exact fun h => absurd (h.rank_lt hrank) (lt_irrefl _)

theorem Ancestor.lt_size (hc : l.Closed) {a i : Nat} (h : l.Ancestor a i) : a < l.size := by
  induction h with
  | parent hp => exact hc _ _ hp
  | outer _ _ ih => exact ih

/-- What the walk outward meets after its first step. -/
theorem ancestor_iff_of_parent (h : l.parent i = some p) :
    l.Ancestor a i ↔ a = p ∨ l.Ancestor a p := by
  constructor
  · intro ha
    cases ha with
    | parent hp =>
      rw [h] at hp
      cases hp
      exact Or.inl rfl
    | outer hp hrest =>
      rw [h] at hp
      cases hp
      exact Or.inr hrest
  · rintro (rfl | ha)
    · exact .parent h
    · exact .outer h ha

theorem not_ancestor_of_none (h : l.parent i = none) : ¬ l.Ancestor a i := by
  intro ha
  cases ha with
  | parent hp => simp [h] at hp
  | outer hp _ => simp [h] at hp

/-- A walk that ends ends at a member without a link that it has met. -/
theorem climb_eq_iff (hend : l.EndsWithin n i) (hk : l.parent k = none) :
    l.climb n i = k ↔ i = k ∨ l.Ancestor k i := by
  induction n generalizing i with
  | zero => exact absurd hend (by simp [EndsWithin])
  | succ n ih =>
    cases hi : l.parent i with
    | none =>
      rw [climb_of_none hi]
      exact (or_iff_left (not_ancestor_of_none hi)).symm
    | some p =>
      have hik : i ≠ k := by
        rintro rfl
        simp [hi] at hk
      rw [climb_succ_of_some hi, ih (hend p hi), ancestor_iff_of_parent hi, or_iff_right hik,
        eq_comm]

/-- What the bounded search finds is an ancestor that passes the test. -/
theorem nearest_eq_some {keep : Nat → Bool} (h : l.nearest keep n i = some p) :
    keep p = true ∧ l.Ancestor p i := by
  induction n generalizing i with
  | zero => simp [nearest] at h
  | succ n ih =>
    rw [nearest] at h
    cases hi : l.parent i with
    | none => simp [hi] at h
    | some q =>
      simp only [hi] at h
      split at h
      · rename_i hq
        cases h
        exact ⟨hq, .parent hi⟩
      · exact ⟨(ih h).1, .outer hi (ih h).2⟩

theorem parent_contract {keep : Nat → Bool} (h : (l.contract keep).parent i = some p) :
    keep p = true ∧ l.Ancestor p i :=
  nearest_eq_some (parent_ofFn_eq_some.mp h).2

theorem contract_forest (hf : l.Forest) (keep : Nat → Bool) : (l.contract keep).Forest := by
  obtain ⟨rank, hrank⟩ := hf
  exact ⟨rank, fun i p h => (parent_contract h).2.rank_lt hrank⟩

theorem contract_closed (hc : l.Closed) (keep : Nat → Bool) : (l.contract keep).Closed := by
  intro i p h
  rw [size_contract]
  exact (parent_contract h).2.lt_size hc

/-- A search that reaches the end of the walk finds nothing else when it may go on. -/
theorem nearest_add (h : l.EndsWithin n i) (m : Nat) :
    l.nearest keep (n + m) i = l.nearest keep n i := by
  induction n generalizing i with
  | zero => exact absurd h (by simp [EndsWithin])
  | succ n ih =>
    rw [Nat.succ_add, nearest, nearest]
    cases hi : l.parent i with
    | none => rfl
    | some p =>
      simp only
      rw [ih (h p hi)]

theorem parent_contract_of_none (h : l.parent i = none) : (l.contract keep).parent i = none := by
  cases hp : (l.contract keep).parent i with
  | none => rfl
  | some p => exact absurd (parent_contract hp).2 (not_ancestor_of_none h)

/-- The nearest ancestor that passes a test is the parent or that of the parent. -/
theorem parent_contract_of_parent (hf : l.Forest) (hc : l.Closed) (h : l.parent i = some p) :
    (l.contract keep).parent i = if keep p then some p else (l.contract keep).parent p := by
  have hi : i < l.size := lt_size_of_parent h
  rw [contract, parent_ofFn _ hi, parent_ofFn _ (hc i p h),
    ← nearest_add (endsWithin_size hf hc hi) 1, nearest, h]

/-- Among the ancestors that pass a test nothing changes. -/
theorem ancestor_contract_iff (hf : l.Forest) (hc : l.Closed) (ha : keep a = true) :
    (l.contract keep).Ancestor a i ↔ l.Ancestor a i := by
  constructor
  · intro h
    induction h with
    | parent hp => exact (parent_contract hp).2
    | outer hp _ ih => exact ih.trans (parent_contract hp).2
  · intro h
    induction h with
    | parent hp =>
      refine .parent ?_
      rw [parent_contract_of_parent hf hc hp, if_pos ha]
    | @outer i p hp _ ih =>
      have hstep : (l.contract keep).parent i =
          if keep p then some p else (l.contract keep).parent p :=
        parent_contract_of_parent hf hc hp
      by_cases hk : keep p = true
      · rw [if_pos hk] at hstep
        exact .outer hstep ih
      · rw [if_neg hk] at hstep
        -- the parent is left out, so what is around it is around the member too
        cases ih with
        | parent hq => exact .parent (hstep.trans hq)
        | outer hq hrest => exact .outer (hstep.trans hq) hrest

end EnvDiagram.Links
