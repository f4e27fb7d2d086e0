import EnvDiagram.Proofs.EnvTree.Nesting

/-!
# Where circles are opened

A circle is a set of members each of which meets exactly that set on its walk outward. A member
that is met by its own walk lies on a circle, and what it meets is the whole of it. Links that are
removed open a circle or leave it as it was (`Sub.ancestor_iff`), so the smallest member met on
the way around a circle that is left is the smallest of one that has been there from the start.

* `IsCircle` — the circles of links
* `circleLeast_spec` — a walk that is caught finds the smallest member of a circle
* `Opened` — every circle is opened once, at its smallest member, and nothing else is changed
* `Nesting.opens_circles` — so it is done, and the defects name the members detached
-/

namespace EnvDiagram

namespace Links

variable {l l' : Links} {c : Finset Nat} {a i j k m n p start : Nat}

/-- Whether a set of members is a circle: each of them meets these members on its walk outward,
and no others. -/
def IsCircle (l : Links) (c : Finset Nat) : Prop :=
  c.Nonempty ∧ ∀ i ∈ c, ∀ j, j ∈ c ↔ l.Ancestor j i

/-- What becomes of links whose circles are opened by detaching some members. -/
structure Opened (l opened : Links) (detached : List Nat) : Prop where
  size : opened.size = l.size
  /-- Every walk ends within as many steps as there are members. -/
  ends : ∀ i < l.size, opened.EndsWithin l.size i
  /-- The members that are detached lose their links, the others keep them. -/
  parent : ∀ i, opened.parent i = if i ∈ detached then none else l.parent i
  /-- Of a circle the smallest member is detached, once, and no other. -/
  circle : ∀ c, l.IsCircle c → ∃ m, IsLeast (c : Set Nat) m ∧ detached.filter (· ∈ c) = [m]
  /-- Only members of circles are detached. -/
  on_circle : ∀ m ∈ detached, ∃ c, l.IsCircle c ∧ m ∈ c

/-! ## Members on circles -/

theorem Ancestor.exists_parent (h : l.Ancestor a i) : ∃ p, l.parent i = some p := by
  cases h with
  | parent hp => exact ⟨_, hp⟩
  | outer hp _ => exact ⟨_, hp⟩

/-- On a circle what is met leads back. -/
theorem Ancestor.back (hi : l.Ancestor i i) (h : l.Ancestor a i) : l.Ancestor i a := by
  induction h with
  | @parent i hp =>
    rcases (ancestor_iff_of_parent hp).mp hi with rfl | hback
    · exact hi
    · exact hback
  | @outer i p hp _ ih =>
    have hback : l.Ancestor i p := by
      rcases (ancestor_iff_of_parent hp).mp hi with rfl | hback
      · exact hi
      · exact hback
    exact hback.trans (ih ((Ancestor.parent hp).trans hback))

/-- A member that its own walk meets lies on a circle. -/
theorem exists_isCircle (hi : l.Ancestor i i) : ∃ c, l.IsCircle c ∧ i ∈ c := by
  classical
  have hmem : ∀ j, j ∈ (Finset.range l.size).filter (l.Ancestor · i) ↔ l.Ancestor j i := by
    intro j
    rw [Finset.mem_filter, Finset.mem_range, and_iff_right_iff_imp]
    intro hj
    obtain ⟨p, hp⟩ := (hi.back hj).exists_parent
    exact lt_size_of_parent hp
  refine ⟨_, ⟨⟨i, (hmem i).mpr hi⟩, fun x hx j => ?_⟩, (hmem i).mpr hi⟩
  rw [hmem] at hx ⊢
  exact ⟨fun hj => hj.trans (hi.back hx), fun hj => hj.trans hx⟩

/-- The links of a circle are there as long as its members lead back. -/
theorem Sub.ancestor_iff (h : l'.Sub l) (hi : l'.Ancestor i i) :
    l'.Ancestor j i ↔ l.Ancestor j i := by
  constructor
  · intro hj
    clear hi
    induction hj with
    | parent hp => exact .parent (h.parent hp)
    | outer hp _ ih => exact .outer (h.parent hp) ih
  · intro hj
    induction hj with
    | @parent i hp =>
      obtain ⟨q, hq⟩ := hi.exists_parent
      rw [h.parent hq] at hp
      exact .parent (hq.trans hp)
    | @outer i p hp _ ih =>
      obtain ⟨q, hq⟩ := hi.exists_parent
      obtain rfl : q = p := Option.some.inj ((h.parent hq).symm.trans hp)
      exact .outer hq (ih ((Ancestor.parent hq).trans (hi.back (.parent hq))))

/-! ## The way around -/

/-- If the way comes back, every member on it is followed by one on it or by the start. -/
theorem parent_mem_circleAfter (hret : l.climb k i = start) (hk : 0 < k) (hkn : k ≤ n)
    (hm : m = i ∨ m ∈ l.circleAfter start n i) (hp : l.parent m = some p) :
    p = start ∨ p ∈ l.circleAfter start n i := by
  induction n generalizing i k with
  | zero => omega
  | succ n ih =>
    rw [circleAfter] at hm ⊢
    cases hi : l.parent i with
    | none =>
      rcases hm with rfl | hm
      · simp [hi] at hp
      · simp [hi] at hm
    | some q =>
      simp only [hi] at hm ⊢
      by_cases hq : q = start
      · rw [if_pos hq] at hm ⊢
        obtain rfl : m = i := by simpa using hm
        rw [hi, Option.some.injEq] at hp
        exact Or.inl (hp ▸ hq)
      · rw [if_neg hq] at hm ⊢
        obtain ⟨k, rfl⟩ : ∃ k', k = k' + 1 := ⟨k - 1, by omega⟩
        rw [climb_succ_of_some hi] at hret
        have hpos : 0 < k := by
          rcases Nat.eq_zero_or_pos k with rfl | hpos
          · exact absurd hret hq
          · exact hpos
        rcases hm with rfl | hm
        · rw [hi, Option.some.injEq] at hp
          exact Or.inr (hp ▸ List.mem_cons_self)
        · exact (ih hret hpos (by omega) (List.mem_cons.mp hm)).imp_right
            (List.mem_cons_of_mem q)

/-- The way around a circle meets all of it. -/
theorem mem_circleAfter (hret : l.climb k start = start) (hk : 0 < k) (hkn : k ≤ n)
    (h : l.Ancestor m start) : m ∈ start :: l.circleAfter start n start := by
  have hnext : ∀ {x p}, x ∈ start :: l.circleAfter start n start → l.parent x = some p →
      p ∈ start :: l.circleAfter start n start := fun hx hp =>
    List.mem_cons.mpr (parent_mem_circleAfter hret hk hkn (List.mem_cons.mp hx) hp)
  have hall : ∀ {x}, l.Ancestor m x → x ∈ start :: l.circleAfter start n start →
      m ∈ start :: l.circleAfter start n start := by
    intro x hmx
    induction hmx with
    | parent hp => exact fun hx => hnext hx hp
    | outer hp _ ih => exact fun hx => ih (hnext hx hp)
  exact hall h List.mem_cons_self

/-- What a walk comes to is where it started or met on the way. -/
theorem ancestor_climb (l : Links) (n i : Nat) : l.climb n i = i ∨ l.Ancestor (l.climb n i) i := by
  induction n generalizing i with
  | zero => exact Or.inl rfl
  | succ n ih =>
    cases hi : l.parent i with
    | none => exact Or.inl (climb_of_none hi _)
    | some p =>
      rw [climb_succ_of_some hi, ancestor_iff_of_parent hi]
      exact Or.inr (ih p)

/-- A walk that is caught is on a circle, whose smallest member is found on the way around. -/
theorem circleLeast_spec (h : l.parent (l.climb l.size start) ≠ none) :
    let i := l.climb l.size start
    l.Ancestor i i ∧ l.Ancestor (l.circleLeast i) i ∧
      ∀ j, l.Ancestor j i → l.circleLeast i ≤ j := by
  intro i
  obtain ⟨k, hk, hks, hret⟩ := exists_return h
  have hi : l.Ancestor i i := by
    obtain ⟨p, hp⟩ := Option.ne_none_iff_exists'.mp h
    obtain ⟨k, rfl⟩ : ∃ k', k = k' + 1 := ⟨k - 1, by omega⟩
    have hback := ancestor_climb l k p
    rw [← climb_succ_of_some hp, hret] at hback
    exact (ancestor_iff_of_parent hp).mpr hback
  refine ⟨hi, ?_, fun j hj => foldl_min_le (mem_circleAfter hret hk hks hj)⟩
  rcases List.mem_cons.mp (foldl_min_mem (l.circleAfter i l.size i) i) with heq | hmem
  · rw [circleLeast, heq]
    exact hi
  · exact ancestor_of_mem_circleAfter hmem

/-! ## Every circle once -/

/-- So far only smallest members of circles have been detached, and none twice. -/
structure Opening (l : Links) (cut : Links × List Nat) : Prop where
  sub : cut.1.Sub l
  least : ∀ m ∈ cut.2, l.Ancestor m m ∧ ∀ j, l.Ancestor j m → m ≤ j
  nodup : cut.2.Nodup
  gone : ∀ m ∈ cut.2, cut.1.parent m = none

theorem Opening.openFrom {cut : Links × List Nat} (h : l.Opening cut) (start : Nat) :
    l.Opening (openFrom cut start) := by
  obtain ⟨l', detached⟩ := cut
  unfold Links.openFrom
  simp only
  split
  · exact h
  · rename_i p hp
    set i := l'.climb l'.size start with hi
    obtain ⟨hcircle, hm, hle⟩ := circleLeast_spec (hi ▸ hp ▸ Option.some_ne_none p)
    set m := l'.circleLeast i
    -- the member found still has its link, so it has not been detached before
    have hmm : l'.Ancestor m m := hm.trans (hcircle.back hm)
    obtain ⟨q, hq⟩ := hmm.exists_parent
    have hnew : m ∉ detached := fun hmem => by simp [h.gone m hmem] at hq
    refine ⟨(detach_sub l' m).trans h.sub, ?_, ?_, ?_⟩
    · intro x hx
      rcases List.mem_append.mp hx with hx | hx
      · exact h.least x hx
      · obtain rfl := List.mem_singleton.mp hx
        refine ⟨(h.sub.ancestor_iff hmm).mp hmm, fun j hj => hle j ?_⟩
        exact ((h.sub.ancestor_iff hmm).mpr hj).trans hm
    · exact List.nodup_append.mpr ⟨h.nodup, List.nodup_singleton m, fun a ha b hb hab =>
        hnew (List.mem_singleton.mp hb ▸ hab ▸ ha)⟩
    · intro x hx
      rw [parent_detach]
      rcases List.mem_append.mp hx with hx | hx
      · rw [h.gone x hx, ite_self]
      · rw [if_pos (List.mem_singleton.mp hx)]

theorem opening_openCircles (l : Links) : l.Opening l.openCircles :=
  foldl_keeps (P := fun _ cut => l.Opening cut) (List.range l.size)
    (fun _ start _ _ h => h.openFrom start)
    ⟨Sub.refl l, by simp, List.nodup_nil, by simp⟩

/-- Every circle loses a link. -/
theorem IsCircle.exists_detached (hc : l.IsCircle c) : ∃ m ∈ l.openCircles.2, m ∈ c := by
  by_contra hnone
  obtain ⟨i, hi⟩ := hc.1
  -- otherwise the walk around it would still come back
  have hkeep : ∀ {x y}, l.Ancestor y x → x ∈ c → l.openCircles.1.Ancestor y x := by
    intro x y h
    induction h with
    | @parent x hp =>
      intro hx
      refine .parent ?_
      rw [parent_openCircles, if_neg fun hmem => hnone ⟨x, hmem, hx⟩, hp]
    | @outer x p hp _ ih =>
      intro hx
      have hlink : l.openCircles.1.parent x = some p := by
        rw [parent_openCircles, if_neg fun hmem => hnone ⟨x, hmem, hx⟩, hp]
      exact .outer hlink (ih ((hc.2 x hx p).mpr (.parent hp)))
  exact (openCircles_forest l).not_ancestor_self i (hkeep ((hc.2 i hi i).mp hi) hi)

/-- Of every circle the smallest member is detached and no other. -/
theorem IsCircle.filter_detached (hc : l.IsCircle c) :
    ∃ m, IsLeast (c : Set Nat) m ∧ l.openCircles.2.filter (· ∈ c) = [m] := by
  have hopen := opening_openCircles l
  obtain ⟨m, hm, hmc⟩ := hc.exists_detached
  have hleast : IsLeast (c : Set Nat) m :=
    ⟨hmc, fun j hj => (hopen.least m hm).2 j ((hc.2 m hmc j).mp hj)⟩
  refine ⟨m, hleast, ?_⟩
  have hmem : ∀ x, x ∈ l.openCircles.2.filter (· ∈ c) ↔ x ∈ [m] := by
    intro x
    rw [List.mem_filter, List.mem_singleton, decide_eq_true_eq]
    constructor
    · rintro ⟨hx, hxc⟩
      refine le_antisymm ?_ (hleast.2 hxc)
      exact (hopen.least x hx).2 m ((hc.2 x hxc m).mp hmc)
    · rintro rfl
      exact ⟨hm, hmc⟩
  exact List.perm_singleton.mp
    ((List.perm_ext_iff_of_nodup (hopen.nodup.filter _) (List.nodup_singleton m)).mpr hmem)

theorem opened_openCircles (hc : l.Closed) : l.Opened l.openCircles.1 l.openCircles.2 where
  size := (openCircles_sub l).size
  ends := by
    intro i hi
    have hsub := openCircles_sub l
    have hend := endsWithin_size (openCircles_forest l) (hsub.closed hc) (i := i)
      (hsub.size.symm ▸ hi)
    rwa [hsub.size] at hend
  parent := parent_openCircles l
  circle := fun _ hc => hc.filter_detached
  on_circle := fun m hm => exists_isCircle ((opening_openCircles l).least m hm).1

/-- A circle of two is opened at the smaller one; a member that leads into it keeps its link. -/
example : openCircles ⟨#[some 1, some 2, some 1]⟩ = (⟨#[some 1, none, some 1]⟩, [1]) := by decide

end Links

namespace Nesting

/-- There is one defect for each member detached, which names it. -/
theorem forall₂_circleDefects {envs : List Environment} {detached : List Nat}
    (h : ∀ m ∈ detached, m < envs.length) :
    List.Forall₂ (fun m defect => ∃ env, envs[m]? = some env ∧ defect = .parentCycle env.id)
      detached (circleDefects envs detached) := by
  induction detached with
  | nil => exact .nil
  | cons m rest ih =>
    have hm : m < envs.length := h m List.mem_cons_self
    have henv : envs[m]? = some envs[m] := List.getElem?_eq_getElem hm
    rw [circleDefects, List.filterMap_cons_some (by rw [henv]; rfl)]
    exact .cons ⟨_, henv, rfl⟩ (ih fun x hx => h x (List.mem_cons_of_mem m hx))

/-- When the circles of the links between some environments are opened, no walk is left without
an end, and of every circle the smallest member loses its link, and no other member at all. There
is one defect for each circle, which names that member. -/
theorem opens_circles {l : Links} {envs : List Environment} (hc : l.Closed)
    (hsize : envs.length = l.size) :
    l.Opened l.openCircles.1 l.openCircles.2 ∧
      List.Forall₂ (fun m defect => ∃ env, envs[m]? = some env ∧ defect = .parentCycle env.id)
        l.openCircles.2 (circleDefects envs l.openCircles.2) := by
  refine ⟨Links.opened_openCircles hc, forall₂_circleDefects fun m hm => ?_⟩
  obtain ⟨p, hp⟩ := ((Links.opening_openCircles l).least m hm).1.exists_parent
  exact hsize ▸ Links.lt_size_of_parent hp

/-- Two circles, one of them a member that is its own parent; the first member leads into the
other one and keeps its link. -/
theorem opens_circles_two :
    let l : Links := ⟨#[some 2, some 1, some 3, some 2]⟩
    let envs : List Environment := [⟨⟨4⟩, "a", some ⟨6⟩, []⟩, ⟨⟨5⟩, "b", some ⟨5⟩, []⟩,
      ⟨⟨6⟩, "c", some ⟨7⟩, []⟩, ⟨⟨7⟩, "d", some ⟨6⟩, []⟩]
    l.Closed ∧ envs.length = l.size ∧
      l.openCircles = (⟨#[some 2, none, none, some 2]⟩, [2, 1]) ∧
      circleDefects envs l.openCircles.2 = [.parentCycle ⟨6⟩, .parentCycle ⟨5⟩] ∧
      l.Opened l.openCircles.1 l.openCircles.2 := by
  intro l envs
  have hc : l.Closed := by
    intro i p hp
    have hi : i < 4 := Links.lt_size_of_parent hp
    have hall : ∀ i < 4, ∀ q ∈ l.parent i, q < 4 := by decide
    exact hall i hi p hp
  exact ⟨hc, rfl, by decide, by decide, (@opens_circles l envs hc rfl).1⟩

end Nesting

end EnvDiagram
