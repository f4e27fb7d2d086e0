import EnvDiagram.Proofs.EnvTree.Forest
import EnvDiagram.Proofs.Steps

/-!
# Opened circles

`openCircles` starts a walk at every member in turn. The member that it detaches lies on
that walk, so afterwards the walk ends; and a walk that has ended once ends also when
further links are removed. Hence the opened links form a forest (`openCircles_forest`).

* `Sub` — some links of others
* `parent_openCircles` — the members that are detached lose their links, the others keep them
* `exists_return` — a walk that is caught comes back to where it is within as many steps as
  there are members
-/

namespace EnvDiagram.Links

variable {l l' : Links} {i m n p start : Nat}

/-- The links are among those of `l`. -/
structure Sub (l' l : Links) : Prop where
  size : l'.size = l.size
  parent : ∀ {i p : Nat}, l'.parent i = some p → l.parent i = some p

theorem Sub.refl (l : Links) : l.Sub l := ⟨rfl, id⟩

theorem Sub.trans {l₁ l₂ l₃ : Links} (h : l₁.Sub l₂) (h' : l₂.Sub l₃) : l₁.Sub l₃ :=
  ⟨h.size.trans h'.size, fun hp => h'.parent (h.parent hp)⟩

theorem detach_sub (l : Links) (i : Nat) : (l.detach i).Sub l := by
  refine ⟨size_detach l i, fun {j p} h => ?_⟩
  rw [parent_detach] at h
  split at h
  · simp at h
  · exact h

theorem Sub.closed (h : l'.Sub l) (hc : l.Closed) : l'.Closed := by
  intro i p hp
  rw [h.size]
  exact hc i p (h.parent hp)

/-- A walk that ends does so also when links are removed. -/
theorem Sub.endsWithin (h : l'.Sub l) (hend : l.EndsWithin n i) : l'.EndsWithin n i := by
  induction n generalizing i with
  | zero => exact absurd hend (by simp [EndsWithin])
  | succ n ih => exact fun p hp => ih (hend p (h.parent hp))

/-! ## The member that is detached -/

theorem climb_add (l : Links) (m n i : Nat) : l.climb (m + n) i = l.climb n (l.climb m i) := by
  induction m generalizing i with
  | zero => rw [Nat.zero_add, climb]
  | succ m ih =>
    cases hi : l.parent i with
    | none => rw [climb_of_none hi, climb_of_none hi, climb_of_none hi]
    | some p => rw [Nat.succ_add, climb_succ_of_some hi, climb_succ_of_some hi, ih]

theorem climb_lt_size (hc : l.Closed) (hi : i < l.size) (n : Nat) : l.climb n i < l.size := by
  induction n generalizing i with
  | zero => exact hi
  | succ n ih =>
    cases hp : l.parent i with
    | none =>
      rw [climb_of_none hp]
      exact hi
    | some p =>
      rw [climb_succ_of_some hp]
      exact ih (hc i p hp)

theorem ancestor_of_mem_circleAfter (h : m ∈ l.circleAfter start n i) : l.Ancestor m i := by
  induction n generalizing i with
  | zero => cases h
  | succ n ih =>
    rw [circleAfter] at h
    cases hi : l.parent i with
    | none => simp [hi] at h
    | some p =>
      simp only [hi] at h
      split at h
      · cases h
      · rcases List.mem_cons.mp h with rfl | hrest
        · exact .parent hi
        · exact .outer hi (ih hrest)

theorem foldl_min_mem (xs : List Nat) (x : Nat) : xs.foldl min x ∈ x :: xs := by
  induction xs generalizing x with
  | nil => simp
  | cons y ys ih =>
    rw [List.foldl_cons]
    rcases List.mem_cons.mp (ih (min x y)) with h | h
    · rw [h]
      rcases min_choice x y with hx | hy
      · rw [hx]; simp
      · rw [hy]; simp
    · exact List.mem_cons_of_mem _ (List.mem_cons_of_mem _ h)

theorem foldl_min_le {xs : List Nat} {x y : Nat} (h : y ∈ x :: xs) : xs.foldl min x ≤ y := by
  induction xs generalizing x y with
  | nil => exact (List.mem_singleton.mp h).ge
  | cons z zs ih =>
    rw [List.foldl_cons]
    rcases List.mem_cons.mp h with rfl | hrest
    · exact (ih List.mem_cons_self).trans (min_le_left ..)
    · rcases List.mem_cons.mp hrest with rfl | hzs
      · exact (ih List.mem_cons_self).trans (min_le_right ..)
      · exact ih (List.mem_cons_of_mem _ hzs)

/-- The smallest member of a circle is met on the walk around it. -/
theorem exists_climb_circleLeast (l : Links) (i : Nat) : ∃ k, l.climb k i = l.circleLeast i := by
  rcases List.mem_cons.mp (foldl_min_mem (l.circleAfter i l.size i) i) with h | h
  · exact ⟨0, h.symm⟩
  · exact (ancestor_of_mem_circleAfter h).exists_climb

/-- A walk through a member that is detached ends there, if not before. -/
theorem endsWithin_detach (h : l.climb n i = m) : (l.detach m).EndsWithin (n + 1) i := by
  induction n generalizing i with
  | zero =>
    intro p hp
    have him : i = m := h
    rw [parent_detach, if_pos him] at hp
    simp at hp
  | succ n ih =>
    intro p hp
    rw [climb_succ_of_some ((detach_sub l m).parent hp)] at h
    exact ih h

/-! ## Opening all circles -/

/-- A step leaves everything as it is, or detaches a member and notes it. -/
theorem openFrom_cases (cut : Links × List Nat) (start : Nat) :
    openFrom cut start = cut ∨ ∃ m, openFrom cut start = (cut.1.detach m, cut.2 ++ [m]) := by
  unfold openFrom
  simp only
  split
  · exact Or.inl rfl
  · exact Or.inr ⟨_, rfl⟩

theorem openFrom_sub (cut : Links × List Nat) (start : Nat) : (openFrom cut start).1.Sub cut.1 := by
  rcases openFrom_cases cut start with heq | ⟨m, heq⟩
  · rw [heq]
    exact Sub.refl _
  · rw [heq]
    exact detach_sub _ _

theorem endsWithin_openFrom (cut : Links × List Nat) (start : Nat) :
    ∃ n, (openFrom cut start).1.EndsWithin n start := by
  obtain ⟨l, detached⟩ := cut
  unfold openFrom
  simp only
  split
  · rename_i h
    exact ⟨_, endsWithin_succ_of_parent_climb h⟩
  · obtain ⟨k, hk⟩ := exists_climb_circleLeast l (l.climb l.size start)
    rw [← climb_add] at hk
    exact ⟨_, endsWithin_detach hk⟩

theorem foldl_openFrom (starts : List Nat) (cut : Links × List Nat) :
    (starts.foldl openFrom cut).1.Sub cut.1 ∧
      ∀ i ∈ starts, ∃ n, (starts.foldl openFrom cut).1.EndsWithin n i := by
  induction starts generalizing cut with
  | nil => exact ⟨Sub.refl _, by simp⟩
  | cons s rest ih =>
    obtain ⟨hsub, hends⟩ := ih (openFrom cut s)
    refine ⟨hsub.trans (openFrom_sub cut s), ?_⟩
    intro i hi
    rcases List.mem_cons.mp hi with rfl | hrest
    · obtain ⟨n, hn⟩ := endsWithin_openFrom cut i
      exact ⟨n, hsub.endsWithin hn⟩
    · exact hends i hrest

theorem openCircles_sub (l : Links) : (openCircles l).1.Sub l :=
  (foldl_openFrom (List.range l.size) (l, [])).1

/-- Opening circles takes the links of the members detached and leaves all others. -/
theorem parent_openCircles (l : Links) (i : Nat) :
    l.openCircles.1.parent i = if i ∈ l.openCircles.2 then none else l.parent i := by
  let P : List Nat → Links × List Nat → Prop := fun _ cut =>
    ∀ i, cut.1.parent i = if i ∈ cut.2 then none else l.parent i
  refine foldl_keeps (P := P) (List.range l.size) ?_ (fun i => by simp) i
  rintro done start ⟨l', detached⟩ - h i
  have hi : l'.parent i = if i ∈ detached then none else l.parent i := h i
  rcases openFrom_cases (l', detached) start with heq | ⟨m, heq⟩
  · rw [heq]
    exact hi
  · rw [heq, parent_detach, hi]
    by_cases him : i = m <;> simp [him]

/-- Links along which all walks end form a forest; the rank is the length of the walk. -/
theorem forest_of_endsWithin (h : ∀ i, ∃ n, l.EndsWithin n i) : l.Forest := by
  classical
  refine ⟨fun i => Nat.find (h i), ?_⟩
  intro i p hp
  have hi := Nat.find_spec (h i)
  cases hn : Nat.find (h i) with
  | zero =>
    rw [hn] at hi
    exact absurd hi (by simp [EndsWithin])
  | succ n =>
    rw [hn] at hi
    have hle : Nat.find (h p) ≤ n := Nat.find_min' (h p) (hi p hp)
    simp only [hn]
    omega

/-- Opening the circles of any links leaves a forest. -/
theorem openCircles_forest (l : Links) : (openCircles l).1.Forest := by
  apply forest_of_endsWithin
  intro i
  by_cases hi : i < l.size
  · exact (foldl_openFrom (List.range l.size) (l, [])).2 i (List.mem_range.mpr hi)
  · refine ⟨1, fun p hp => ?_⟩
    have := lt_size_of_parent hp
    rw [(openCircles_sub l).size] at this
    exact absurd this hi

/-! ## Walking around a circle -/

/-- A walk that has not ended after as many steps as there are members is on a circle, and
comes back within as many steps. -/
theorem exists_return (h : l.parent (l.climb l.size start) ≠ none) :
    ∃ k, 0 < k ∧ k ≤ l.size ∧ l.climb k (l.climb l.size start) = l.climb l.size start := by
  have hstep : ∀ k ≤ l.size, l.parent (l.climb k start) ≠ none := by
    intro k hk hend
    have hstay := climb_of_none hend (l.size - k)
    rw [← climb_add, show k + (l.size - k) = l.size by omega] at hstay
    rw [hstay] at h
    exact h hend
  have hmaps : Set.MapsTo (fun k => l.climb k start) (Finset.range (l.size + 1))
      (Finset.range l.size) := by
    intro k hk
    simp only [Finset.coe_range, Set.mem_Iio] at hk ⊢
    obtain ⟨p, hp⟩ := Option.ne_none_iff_exists'.mp (hstep k (by omega))
    exact lt_size_of_parent hp
  obtain ⟨a, ha, b, hb, hne, hab⟩ :=
    Finset.exists_ne_map_eq_of_card_lt_of_maps_to (by simp) hmaps
  simp only [Finset.mem_range] at ha hb
  -- two steps of the walk that lead to the same member
  wlog hlt : a < b generalizing a b
  · exact this b a (Ne.symm hne) hab.symm hb ha (by omega)
  refine ⟨b - a, by omega, by omega, ?_⟩
  have hsplit : l.climb l.size start = l.climb (l.size - a) (l.climb a start) := by
    rw [← climb_add, show a + (l.size - a) = l.size by omega]
  have hback : l.climb (b - a) (l.climb a start) = l.climb a start := by
    rw [← climb_add, show a + (b - a) = b by omega]
    exact hab.symm
  calc l.climb (b - a) (l.climb l.size start)
      = l.climb (b - a) (l.climb (l.size - a) (l.climb a start)) := by rw [hsplit]
    _ = l.climb (l.size - a) (l.climb (b - a) (l.climb a start)) := by
      rw [← climb_add l (l.size - a), Nat.add_comm, climb_add]
    _ = l.climb l.size start := by rw [hback, hsplit]

end EnvDiagram.Links
